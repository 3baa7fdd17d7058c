import IocpChatServer.ServerCore.Lock

namespace IocpChatServer.ServerCore.Lock
open Foundations TransitionSystem
variable {Thread : Type _} [DecidableEq Thread]

-- What the two shared words owe to one thread: open writes and open reads as they are
-- counted there, and whether the owner field is its own while no write is counted.
structure Holding where
  writes : Nat
  reads : Nat
  transit : Bool
  deriving DecidableEq, Repr

def Holding.Owns (h : Holding) : Prop := 0 < h.writes ∨ h.transit = true

-- An unlock that has begun still counts until its own update.
def holding (position : Position) (held : List Mode) : Holding where
  writes := held.count .write + match position with
    | .writeUnlockLoad | .writeUnlockCount => 1
    | _ => 0
  reads := held.count .read + match position with
    | .readUnlock => 1
    | _ => 0
  transit := match position with
    | .writeAcquired | .writeUnlockStore => true
    | _ => false

def State.holdings (s : State Thread) (t : Thread) : Holding := holding (s.position t) (s.held t)

structure Shared [Fintype Thread] (ids : Ids Thread) (flag : UInt32) (count : UInt16)
    (h : Thread → Holding) : Prop where
  owner : ∀ t, (h t).Owns ↔ lockThreadId flag = ids.id t
  counted : ∀ t, (h t).Owns → count.toNat = (h t).writes % 2^16
  free : (∀ t, ¬ (h t).Owns) → count = 0
  readers : (readCount flag).toNat = ∑ t, (h t).reads
  alone : ∀ t u, u ≠ t → (h t).Owns → (h u).reads = 0

-- What a position remembers of the test that led to it.
def Recalls (position : Position) (held : List Mode) : Prop :=
  match position with
  | .writeReenter | .readReenter => 0 < held.count .write
  | .writeAcquired => held.count .write = 0
  | .writeUnlockCount => held.count .read = 0
  | .writeUnlockStore => held.count .write = 0 ∧ held.count .read = 0
  | .readSpinSwap _ expected => expected.toNat < 2^16
  | _ => True

structure Inv [Fintype Thread] (ids : Ids Thread) (s : State Thread) : Prop where
  shared : Shared ids s.lockFlag s.writeCount s.holdings
  recalls : ∀ t, Recalls (s.position t) (s.held t)
  bounded : ∀ t, (s.holdings t).writes ≤ 2^16

section Updates
variable {h : Thread → Holding} {t : Thread} {x : Holding}

theorem update_owns (same : x.Owns ↔ (h t).Owns) (u : Thread) :
    (Function.update h t x u).Owns ↔ (h u).Owns := by
  by_cases own : u = t
  · subst own
    simpa using same
  · simp [own]

theorem sum_update [Fintype Thread] :
    (∑ u, (Function.update h t x u).reads) + (h t).reads = (∑ u, (h u).reads) + x.reads := by
  have after := Finset.add_sum_erase Finset.univ (fun u => (Function.update h t x u).reads) (Finset.mem_univ t)
  have before := Finset.add_sum_erase Finset.univ (fun u => (h u).reads) (Finset.mem_univ t)
  have rest : ∑ u ∈ Finset.univ.erase t, (Function.update h t x u).reads =
      ∑ u ∈ Finset.univ.erase t, (h u).reads :=
    Finset.sum_congr rfl fun u member => by simp [Finset.ne_of_mem_erase member]
  simp only [Function.update_self] at after
  omega

variable [Fintype Thread] {ids : Ids Thread} {flag : UInt32} {count next : UInt16}

omit [DecidableEq Thread] in
theorem Shared.unique (valid : Shared ids flag count h) (own : (h t).Owns) (other : (h u).Owns) : u = t :=
  ids.distinct (((valid.owner u).mp other).symm.trans ((valid.owner t).mp own))

omit [DecidableEq Thread] in
-- Who passes the test at the head of either lock has a WriteLock, unless between its exchange and its count.
theorem Shared.wrote (valid : Shared ids flag count h) (mine : ids.id t = lockThreadId flag) (counted : (h t).transit = false) :
    0 < (h t).writes := by
  have own := (valid.owner t).mpr mine.symm
  simpa [Holding.Owns,counted] using own

theorem Shared.same (valid : Shared ids flag count h) (unchanged : x = h t) :
    Shared ids flag count (Function.update h t x) := by
  rw [unchanged,Function.update_eq_self]
  exact valid

theorem Shared.recount (valid : Shared ids flag count h) (own : (h t).Owns) (still : x.Owns)
    (reads : x.reads = (h t).reads) (value : next.toNat = x.writes % 2^16) :
    Shared ids flag next (Function.update h t x) := by
  have owns := update_owns (iff_of_true still own)
  refine ⟨fun u => (owns u).trans (valid.owner u),?_,?_,?_,?_⟩
  · intro u owned
    have me := valid.unique own ((owns u).mp owned)
    subst me
    simpa using value
  · intro nobody
    exact absurd ((owns t).mpr own) (nobody t)
  · have sum := @sum_update _ _ h t x _
    have readers := valid.readers
    omega
  · intro u v apart owned
    have me := valid.unique own ((owns u).mp owned)
    subst me
    simpa [apart] using valid.alone u v apart own

omit [DecidableEq Thread] [Fintype Thread] in
theorem lockThreadId_empty (t : Thread) : lockThreadId emptyFlag ≠ ids.id t := by
  intro same
  have positive := ids.positive t
  rw [← same] at positive
  exact absurd positive (by decide)

omit [DecidableEq Thread] in
theorem Shared.nobody (valid : Shared ids flag count h) (low : flag.toNat < 2^16) (u : Thread) : ¬ (h u).Owns := by
  intro own
  have id := congrArg UInt32.toNat ((valid.owner u).mp own)
  rw [lockThreadId_toNat,Nat.div_eq_of_lt low] at id
  exact absurd (ids.positive u) (by omega)

theorem Shared.take (valid : Shared ids emptyFlag count h) (owner : x.Owns) (none : x.writes = 0)
    (reads : x.reads = (h t).reads) : Shared ids (desired (ids.id t)) count (Function.update h t x) := by
  have nobody := valid.nobody (by decide)
  have zero : ∑ u, (h u).reads = 0 := by
    rw [← valid.readers]
    rfl
  have unread : ∀ u, (h u).reads = 0 := fun u => Finset.sum_eq_zero_iff.mp zero u (Finset.mem_univ u)
  have mine : lockThreadId (desired (ids.id t)) = ids.id t := by
    apply UInt32.toNat_inj.mp
    rw [lockThreadId_toNat,desired_toNat _ (ids.small t),Nat.mul_div_cancel _ (by decide)]
  refine ⟨?_,?_,?_,?_,?_⟩
  · intro u
    rw [mine]
    by_cases own : u = t
    · subst own
      simpa using owner
    · simpa [own,nobody u] using fun same => own (ids.distinct same).symm
  · intro u owned
    by_cases own : u = t
    · subst own
      simp [none,valid.free nobody]
    · simp [own,nobody u] at owned
  · intro nobodyNow
    exact absurd (by simpa using owner) (nobodyNow t)
  · have sum := @sum_update _ _ h t x _
    rw [readCount_toNat,desired_toNat _ (ids.small t),Nat.mul_mod_left]
    omega
  · intro u v apart owned
    by_cases own : v = t
    · subst own
      simpa [unread] using reads
    · simp [own,unread]

theorem Shared.drop (valid : Shared ids flag count h) (own : (h t).Owns) (none : (h t).writes = 0)
    (unread : (h t).reads = 0) (left : ¬ x.Owns) (reads : x.reads = 0) :
    Shared ids emptyFlag count (Function.update h t x) := by
  have others : ∀ u, (Function.update h t x u).reads = 0 := by
    intro u
    by_cases me : u = t
    · subst me
      simpa using reads
    · simpa [me] using valid.alone t u me own
  have nobody : ∀ u, ¬ (Function.update h t x u).Owns := by
    intro u
    by_cases me : u = t
    · subst me
      simpa using left
    · simpa [me] using fun owned => me (valid.unique own owned)
  have zero : count = 0 := UInt16.toNat_inj.mp (by simpa [none] using valid.counted t own)
  refine ⟨fun u => iff_of_false (nobody u) (lockThreadId_empty u),fun u owned => absurd owned (nobody u),
    fun _ => zero,?_,fun u v _ _ => others v⟩
  rw [Finset.sum_eq_zero fun u _ => others u]
  rfl

theorem succ_fields (flag : UInt32) (room : readCount flag ≠ readCountMask) :
    lockThreadId (flag + 1) = lockThreadId flag ∧ (readCount (flag + 1)).toNat = (readCount flag).toNat + 1 := by
  have bound := flag.toNat_lt
  have below : flag.toNat % 2^16 ≠ 2^16 - 1 := by
    rw [← readCount_toNat]
    exact fun full => room (UInt32.toNat_inj.mp full)
  have value : (flag + 1).toNat = flag.toNat + 1 := by
    rw [UInt32.toNat_add]
    exact Nat.mod_eq_of_lt (by change flag.toNat + 1 < _; omega)
  refine ⟨UInt32.toNat_inj.mp ?_,?_⟩
  · rw [lockThreadId_toNat,lockThreadId_toNat,value]
    omega
  · rw [readCount_toNat,readCount_toNat,value]
    omega

theorem pred_fields (flag : UInt32) (some_ : readCount flag ≠ 0) :
    lockThreadId (flag - 1) = lockThreadId flag ∧ (readCount (flag - 1)).toNat + 1 = (readCount flag).toNat := by
  have bound := flag.toNat_lt
  have above : flag.toNat % 2^16 ≠ 0 := by
    rw [← readCount_toNat]
    exact fun none => some_ (UInt32.toNat_inj.mp none)
  have value : (flag - 1).toNat = flag.toNat - 1 := by
    rw [UInt32.toNat_sub_of_le]
    · rfl
    · exact UInt32.le_iff_toNat_le.mpr (by change 1 ≤ flag.toNat; omega)
  refine ⟨UInt32.toNat_inj.mp ?_,?_⟩
  · rw [lockThreadId_toNat,lockThreadId_toNat,value]
    omega
  · rw [readCount_toNat,readCount_toNat,value]
    omega

theorem Shared.reread {after : UInt32} (valid : Shared ids flag count h) (alone : ∀ u, u ≠ t → ¬ (h u).Owns)
    (id : lockThreadId after = lockThreadId flag) (writes : x.writes = (h t).writes)
    (transit : x.transit = (h t).transit)
    (readers : (readCount after).toNat + (h t).reads = (readCount flag).toNat + x.reads) :
    Shared ids after count (Function.update h t x) := by
  have same : x.Owns ↔ (h t).Owns := by simp [Holding.Owns,writes,transit]
  have owns := update_owns same
  refine ⟨fun u => (owns u).trans (id ▸ valid.owner u),?_,?_,?_,?_⟩
  · intro u owned
    have counted := valid.counted u ((owns u).mp owned)
    by_cases me : u = t
    · subst me
      simpa [writes] using counted
    · simpa [me] using counted
  · intro nobody
    exact valid.free fun u owned => nobody u ((owns u).mpr owned)
  · have sum := @sum_update _ _ h t x _
    have before := valid.readers
    omega
  · intro u v apart owned
    have before := (owns u).mp owned
    by_cases me : u = t
    · subst me
      simpa [apart] using valid.alone u v apart before
    · exact absurd before (alone u me)

end Updates

variable [Fintype Thread] {ids : Ids Thread} {s next : State Thread} {t : Thread} {event : Thread × Choice}

theorem Inv.moved (valid : Inv ids s) {position : Position} {held : List Mode} {flag : UInt32} {count : UInt16}
    (shared : Shared ids flag count (Function.update s.holdings t (holding position held)))
    (recalls : Recalls position held) (bounded : (holding position held).writes ≤ 2^16) (crashed : Bool) :
    Inv ids ⟨flag,count,Function.update s.position t position,Function.update s.held t held,crashed⟩ := by
  have holdings : State.holdings ⟨flag,count,Function.update s.position t position,
      Function.update s.held t held,crashed⟩ = Function.update s.holdings t (holding position held) := by
    funext u
    by_cases me : u = t
    · subst me
      simp [State.holdings]
    · simp [State.holdings,me]
  refine ⟨by rw [holdings]; exact shared,?_,?_⟩
  · intro u
    by_cases me : u = t
    · subst me
      simpa using recalls
    · simpa [me] using valid.recalls u
  · intro u
    rw [holdings]
    by_cases me : u = t
    · subst me
      simpa using bounded
    · simpa [me] using valid.bounded u

theorem Inv.went (valid : Inv ids s) {position : Position} {flag : UInt32} {count : UInt16}
    (shared : Shared ids flag count (Function.update s.holdings t (holding position (s.held t))))
    (recalls : Recalls position (s.held t)) (bounded : (holding position (s.held t)).writes ≤ 2^16) :
    Inv ids {s with lockFlag := flag,writeCount := count,position := Function.update s.position t position} := by
  have moved := valid.moved shared recalls bounded s.crashed
  rwa [Function.update_eq_self] at moved

theorem Inv.walked (valid : Inv ids s) {position : Position}
    (same : holding position (s.held t) = s.holdings t) (recalls : Recalls position (s.held t)) :
    Inv ids (s.goto t position) :=
  valid.went (valid.shared.same same) recalls (same ▸ valid.bounded t)

theorem enter_inv (valid : Inv ids s) (outside : s.position t = .outside) {call : Call}
    (taken : enter s t call = some next) : Inv ids next := by
  cases call with
  | writeLock =>
    simp only [enter] at taken
    split at taken
    · cases taken
    · cases taken
      exact valid.walked (by simp [State.holdings,outside,holding]) trivial
  | readLock =>
    cases taken
    exact valid.walked (by simp [State.holdings,outside,holding]) trivial
  | writeUnlock =>
    simp only [enter] at taken
    split at taken
    · rename_i rest held
      cases taken
      have same : holding .writeUnlockLoad rest = s.holdings t := by
        simp [State.holdings,outside,held,holding]
      exact valid.moved (valid.shared.same same) trivial (same ▸ valid.bounded t) s.crashed
    · cases taken
  | readUnlock =>
    simp only [enter] at taken
    split at taken
    · rename_i rest held
      cases taken
      have same : holding .readUnlock rest = s.holdings t := by
        simp [State.holdings,outside,held,holding]
      exact valid.moved (valid.shared.same same) trivial (same ▸ valid.bounded t) s.crashed
    · cases taken

-- The steps after which the two words still tell the truth. A WriteLock does not come back
-- from its last failed attempt with the time not yet up; the 16 bits that count open writes
-- and the 16 bits that count open reads do not overflow.
def Admitted (s : State Thread) (event : Thread × Choice) : Prop :=
  match s.position event.1 with
  | .writeSpin spinCount => spinCount < maxSpinCount ∨ event.2 = .go false
  | .writeReenter => (s.held event.1).count .write < 2^16
  | .readReenter => readCount s.lockFlag ≠ readCountMask
  | .readSpinSwap _ expected => s.lockFlag = expected → readCount s.lockFlag ≠ readCountMask
  | _ => True

instance (s : State Thread) (event : Thread × Choice) : Decidable (Admitted s event) := by
  unfold Admitted
  split <;> infer_instance

def Crashed (s next : State Thread) : Prop := next.crashed = true ∧ next.held = s.held

theorem write_counted (transit : Bool) (valid : Inv ids s) (own : (s.holdings t).Owns)
    (place : s.holdings t = ⟨(s.held t).count .write,(s.held t).count .read,transit⟩)
    (room : (s.held t).count .write < 2^16) :
    Inv ids ({s with writeCount := s.writeCount + 1}.returned t .write) := by
  have counted : s.writeCount.toNat = (s.held t).count .write % 2^16 := by
    rw [valid.shared.counted t own,place]
  have after : holding .outside (.write :: s.held t) = ⟨(s.held t).count .write + 1,(s.held t).count .read,false⟩ := by
    simp [holding]
  have value : (s.writeCount + 1).toNat = ((s.held t).count .write + 1) % 2^16 := by
    rw [UInt16.toNat_add,counted]
    change (_ % 2^16 + 1) % 2^16 = _
    omega
  refine @Inv.moved _ _ _ ids s t valid .outside (.write :: s.held t) s.lockFlag (s.writeCount + 1) ?_ trivial ?_ s.crashed
  · rw [after]
    exact valid.shared.recount own (Or.inl (Nat.succ_pos _)) (by rw [place]) value
  · rw [after]
    exact room

theorem write_taken (valid : Inv ids s) (place : s.position t = .writeSpin spinCount)
    (empty : s.lockFlag = emptyFlag) :
    Inv ids ({s with lockFlag := desired (ids.id t)}.goto t .writeAcquired) := by
  have shared := valid.shared
  rw [empty] at shared
  have unowned := shared.nobody (by decide) t
  have none : (s.held t).count .write = 0 := by
    apply Nat.eq_zero_of_not_pos
    simpa [Holding.Owns,State.holdings,place,holding] using unowned
  exact valid.went (shared.take (Or.inr rfl) (by simpa [holding] using none)
    (by simp [State.holdings,place,holding])) none (by simp [holding,none])

theorem write_uncounted (valid : Inv ids s) (place : s.position t = .writeUnlockCount)
    (unread : (s.held t).count .read = 0) {position : Position}
    (left : if s.writeCount - 1 = 0 then position = .writeUnlockStore else position = .outside) :
    Inv ids ({s with writeCount := s.writeCount - 1}.goto t position) := by
  have own : (s.holdings t).Owns := Or.inl (by simp [State.holdings,place,holding])
  have counted := valid.shared.counted t own
  have bounded := valid.bounded t
  have open_ : (s.holdings t).writes = (s.held t).count .write + 1 := by simp [State.holdings,place,holding]
  rw [open_] at counted bounded
  have after : (s.writeCount - 1).toNat = (s.held t).count .write % 2^16 := by
    rw [UInt16.toNat_sub,counted]
    change (2^16 - 1 + _) % 2^16 = _
    omega
  have zero : s.writeCount - 1 = 0 ↔ (s.held t).count .write = 0 := by
    rw [← UInt16.toNat_inj,after]
    change _ % 2^16 = 0 ↔ _
    omega
  split at left
  · rename_i last
    subst left
    have none := zero.mp last
    exact valid.went (valid.shared.recount own (Or.inr rfl) (by simp [State.holdings,place,holding])
      (by simpa [holding] using after)) ⟨none,unread⟩ (by simp [holding,none])
  · rename_i more
    subst left
    have some_ : 0 < (s.held t).count .write := Nat.pos_of_ne_zero fun none => more (zero.mpr none)
    exact valid.went (valid.shared.recount own (Or.inl (by simpa [holding] using some_))
      (by simp [State.holdings,place,holding]) (by simpa [holding] using after)) trivial
      (by simp only [holding]; omega)

theorem write_dropped (valid : Inv ids s) (place : s.position t = .writeUnlockStore)
    (none : (s.held t).count .write = 0) (unread : (s.held t).count .read = 0) :
    Inv ids ({s with lockFlag := emptyFlag}.goto t .outside) :=
  valid.went (valid.shared.drop (Or.inr (by simp [State.holdings,place,holding]))
    (by simpa [State.holdings,place,holding] using none) (by simpa [State.holdings,place,holding] using unread)
    (by simp [Holding.Owns,holding,none]) (by simpa [holding] using unread)) trivial (by simp [holding,none])

theorem read_counted (valid : Inv ids s)
    (place : s.holdings t = ⟨(s.held t).count .write,(s.held t).count .read,false⟩)
    (alone : ∀ u, u ≠ t → ¬ (s.holdings u).Owns) (room : readCount s.lockFlag ≠ readCountMask) :
    Inv ids ({s with lockFlag := s.lockFlag + 1}.returned t .read) := by
  obtain ⟨id,readers⟩ := succ_fields s.lockFlag room
  have bounded := valid.bounded t
  have after : holding .outside (.read :: s.held t) = ⟨(s.held t).count .write,(s.held t).count .read + 1,false⟩ := by
    simp [holding]
  refine @Inv.moved _ _ _ ids s t valid .outside (.read :: s.held t) (s.lockFlag + 1) s.writeCount ?_ trivial ?_ s.crashed
  · rw [after]
    exact valid.shared.reread alone id (by rw [place]) (by rw [place]) (by rw [place]; dsimp only; omega)
  · rw [place] at bounded
    rw [after]
    exact bounded

theorem read_uncounted (valid : Inv ids s) (place : s.position t = .readUnlock)
    (counted : readCount s.lockFlag ≠ 0) : Inv ids ({s with lockFlag := s.lockFlag - 1}.goto t .outside) := by
  obtain ⟨id,readers⟩ := pred_fields s.lockFlag counted
  have bounded := valid.bounded t
  have alone : ∀ u, u ≠ t → ¬ (s.holdings u).Owns := by
    intro u apart own
    have none := valid.shared.alone u t (Ne.symm apart) own
    simp [State.holdings,place,holding] at none
  exact valid.went (valid.shared.reread alone id (by simp [State.holdings,place,holding])
    (by simp [State.holdings,place,holding]) (by simp [State.holdings,place,holding]; omega)) trivial
    (by simpa [State.holdings,place,holding] using bounded)

omit [DecidableEq Thread] in
theorem Inv.relocks (valid : Inv ids s) (mine : ids.id t = lockThreadId s.lockFlag)
    (still : s.holdings t = ⟨(s.held t).count .write,(s.held t).count .read,false⟩) : 0 < (s.held t).count .write := by
  have wrote := valid.shared.wrote mine (by rw [still])
  rwa [still] at wrote

theorem proceed_inv (valid : Inv ids s) {favourable : Bool} (admitted : Admitted s (t,.go favourable))
    (taken : proceed ids s t favourable = some next) : Inv ids next ∨ Crashed s next := by
  have recalls := valid.recalls t
  have bounded := valid.bounded t
  have shared := valid.shared
  simp only [Admitted] at admitted
  unfold proceed proceedAs at taken
  cases place : s.position t with
  | outside =>
    simp [place] at taken
  | writeLoad =>
    simp only [place] at taken
    split at taken
    · rename_i mine
      cases taken
      have counted := valid.relocks mine (by simp [State.holdings,place,holding])
      exact .inl (valid.walked (by simp [State.holdings,place,holding]) counted)
    · cases taken
      exact .inl (valid.walked (by simp [State.holdings,place,holding]) trivial)
  | writeReenter =>
    simp only [place,Recalls] at taken recalls admitted
    cases taken
    exact .inl (write_counted false valid (Or.inl (by simpa [State.holdings,place,holding] using recalls))
      (by simp [State.holdings,place,holding]) admitted)
  | writeSpin spinCount =>
    simp only [place] at taken admitted
    split at taken
    · split at taken
      · rename_i empty
        cases taken
        exact .inl (write_taken valid place empty.1)
      · cases taken
        exact .inl (valid.walked (by simp [State.holdings,place,holding]) trivial)
    · rename_i exhausted
      have unfavourable : favourable = false := by simpa [exhausted] using admitted
      subst unfavourable
      cases taken
      exact .inr ⟨rfl,rfl⟩
  | writeAcquired =>
    simp only [place,Recalls] at taken recalls
    cases taken
    exact .inl (write_counted true valid (Or.inr (by simp [State.holdings,place,holding]))
      (by simp [State.holdings,place,holding]) (by simp [recalls]))
  | writeUnlockLoad =>
    simp only [place] at taken
    split at taken
    · cases taken
      exact .inr ⟨rfl,rfl⟩
    · rename_i unread
      cases taken
      have none : ∑ u, (s.holdings u).reads = 0 := by
        rw [← shared.readers,Decidable.not_not.mp unread]
        rfl
      have mine := Finset.sum_eq_zero_iff.mp none t (Finset.mem_univ t)
      have unread : (s.held t).count .read = 0 := by
        apply Nat.eq_zero_of_le_zero
        rw [← mine]
        exact Nat.le_add_right _ _
      exact .inl (valid.walked (by simp [State.holdings,place,holding]) unread)
  | writeUnlockCount =>
    simp only [place,Recalls] at taken recalls
    split at taken
    · rename_i last
      cases taken
      exact .inl (write_uncounted valid place recalls (by simp [last]))
    · rename_i more
      cases taken
      exact .inl (write_uncounted valid place recalls (by simp [more]))
  | writeUnlockStore =>
    simp only [place,Recalls] at taken recalls
    cases taken
    exact .inl (write_dropped valid place recalls.1 recalls.2)
  | readLoad =>
    simp only [place] at taken
    split at taken
    · rename_i mine
      cases taken
      have counted := valid.relocks mine (by simp [State.holdings,place,holding])
      exact .inl (valid.walked (by simp [State.holdings,place,holding]) counted)
    · cases taken
      exact .inl (valid.walked (by simp [State.holdings,place,holding]) trivial)
  | readReenter =>
    simp only [place,Recalls] at taken recalls admitted
    cases taken
    have own : (s.holdings t).Owns := Or.inl (by simpa [State.holdings,place,holding] using recalls)
    exact .inl (read_counted valid (by simp [State.holdings,place,holding])
      (fun u apart other => apart (shared.unique own other)) admitted)
  | readSpinLoad spinCount =>
    simp only [place] at taken
    split at taken
    · cases taken
      have low : (readCount s.lockFlag).toNat < 2^16 := by
        rw [readCount_toNat]
        exact Nat.mod_lt _ (by decide)
      exact .inl (valid.walked (by simp [State.holdings,place,holding]) low)
    · split at taken
      · cases taken
        exact .inl (valid.walked (by simp [State.holdings,place,holding]) trivial)
      · cases taken
        exact .inr ⟨rfl,rfl⟩
  | readSpinSwap spinCount expected =>
    simp only [place,Recalls] at taken recalls admitted
    split at taken
    · rename_i same
      cases taken
      have low : s.lockFlag.toNat < 2^16 := by rw [same]; exact recalls
      rw [← same]
      exact .inl (read_counted valid (by simp [State.holdings,place,holding])
        (fun u _ => shared.nobody low u) (admitted same))
    · cases taken
      exact .inl (valid.walked (by simp [State.holdings,place,holding]) trivial)
  | readUnlock =>
    simp only [place] at taken
    split at taken
    · cases taken
      exact .inr ⟨rfl,rfl⟩
    · rename_i counted
      cases taken
      exact .inl (read_uncounted valid place counted)

theorem step_inv (valid : Inv ids s) (admitted : Admitted s event) (taken : step ids s event = some next) :
    Inv ids next ∨ Crashed s next := by
  obtain ⟨t,choice⟩ := event
  unfold step stepAs at taken
  split at taken
  · cases taken
  · cases choice with
    | call call =>
      simp only at taken
      split at taken
      · rename_i outside
        exact .inl (enter_inv valid outside taken)
      · cases taken
    | go favourable => exact proceed_inv valid admitted taken

omit [DecidableEq Thread] in
theorem start_inv : Inv ids (State.start : State Thread) where
  shared := {
    owner := fun t => iff_of_false (by simp [State.holdings,State.start,holding,Holding.Owns]) (lockThreadId_empty t)
    counted := fun t own => absurd own (by simp [State.holdings,State.start,holding,Holding.Owns])
    free := fun _ => rfl
    readers := by simp [State.holdings,State.start,holding,readCount,emptyFlag]
    alone := fun _ _ _ _ => by simp [State.holdings,State.start,holding] }
  recalls := fun _ => trivial
  bounded := fun _ => by simp [State.holdings,State.start,holding]

omit [DecidableEq Thread] in
theorem Inv.exclusive (valid : Inv ids s) : Exclusive s := by
  intro t u apart writing
  have owns : ∀ v, .write ∈ s.held v → (s.holdings v).Owns := by
    intro v member
    have open_ := List.count_pos_iff.mpr member
    exact Or.inl (by simp only [State.holdings,holding]; omega)
  refine List.eq_nil_iff_forall_not_mem.mpr fun mode member => ?_
  cases mode with
  | write => exact apart (valid.shared.unique (owns t writing) (owns u member))
  | read =>
    have open_ := List.count_pos_iff.mpr member
    have unread := valid.shared.alone t u apart (owns t writing)
    simp only [State.holdings,holding] at unread
    omega

-- The invariant goes with the process; what the threads held when it ended stays.
def Sound (ids : Ids Thread) (s : State Thread) : Prop := Exclusive s ∧ (s.crashed = false → Inv ids s)

theorem step_sound (s : State Thread) (event : Thread × Choice) (next : State Thread) (sound : Sound ids s)
    (taken : Guarded (Enabled (step ids)) Admitted s event next) : Sound ids next := by
  have alive : s.crashed = false := by
    have enabled := taken.1
    unfold Enabled step stepAs at enabled
    split at enabled
    · cases enabled
    · rename_i running
      simpa using running
  rcases step_inv (sound.2 alive) taken.2 taken.1 with valid | ⟨crashed,held⟩
  · exact ⟨valid.exclusive,fun _ => valid⟩
  · refine ⟨?_,fun running => absurd crashed (by simp [running])⟩
    unfold Exclusive
    rw [held]
    exact sound.1

theorem writer_exclusion (path : Runs (Guarded (Enabled (step ids)) Admitted) State.start events s) :
    Exclusive s := by
  have start : Inv ids (State.start : State Thread) := start_inv
  exact (path.invariant step_sound ⟨start.exclusive,fun _ => start⟩).1

def pair : Ids Bool where
  id t := if t then 2 else 1
  positive := by decide
  small := by decide
  distinct := by decide

-- One thread takes the write lock, the other keeps failing to read.
theorem writer_exclusion_pair : ∃ events s,
    Runs (Guarded (Enabled (step pair)) Admitted) State.start events s ∧
    s.held false = [.write] ∧ s.position true = .readSpinLoad 1 ∧ Exclusive s := by
  have path : Runs (Guarded (Enabled (step pair)) Admitted) State.start _ _ :=
    @guard_runs _ _ _ [(false,.call .writeLock),(false,.go true),(false,.go true),(false,.go true),
      (true,.call .readLock),(true,.go true),(true,.go true),(true,.go true)] _ _ _ _ rfl
  exact ⟨_,_,path,rfl,rfl,writer_exclusion path⟩

omit [Fintype Thread] in
theorem spin_runs (blocked : s.lockFlag ≠ emptyFlag) (alive : s.crashed = false) {spinCount : Nat}
    (room : spinCount ≤ maxSpinCount) :
    Runs (Enabled (step ids)) (s.goto t (.writeSpin 0)) (List.replicate spinCount (t,.go true))
      (s.goto t (.writeSpin spinCount)) := by
  induction spinCount with
  | zero => exact .nil
  | succ spinCount ih =>
    rw [List.replicate_succ']
    refine .step (ih (by omega)) ?_
    simp [Enabled,step,stepAs,proceedAs,State.goto,alive,blocked,Nat.lt_of_succ_le room]

theorem writer_exclusion_spun_out : ¬ ∀ events s, Runs (Enabled (step pair)) State.start events s → Exclusive s := by
  intro always
  have taken : Runs (Enabled (step pair)) State.start _ _ := @execute_runs _ _ _ [(false,.call .writeLock),
    (false,.go true),(false,.go true),(false,.go true),(true,.call .writeLock),(true,.go true)] _ _ rfl
  have spun := taken.append (spin_runs (by decide) rfl (Nat.le_refl maxSpinCount))
  have exclusive := always _ _ (spun.append (.single (show Enabled (step pair) _ (true,.go true) _ from rfl)))
  exact absurd (exclusive false true (by decide) (by decide)) (by decide)

end IocpChatServer.ServerCore.Lock
