import IocpChatServer.ServerCore.LockExclusion

namespace IocpChatServer.ServerCore.Lock
open Foundations TransitionSystem
variable {Thread : Type _} [DecidableEq Thread]

instance (h : Holding) : Decidable h.Owns := inferInstanceAs (Decidable (_ ∨ _))

structure Words (id flag : UInt32) (count : UInt16) (h : Holding) : Prop where
  owner : lockThreadId flag = if h.Owns then id else 0
  reads : (readCount flag).toNat = h.reads
  writes : count.toNat = h.writes

def Stands (position : Position) (held : List Mode) (flag : UInt32) : Prop :=
  match position with
  | .writeLoad | .writeUnlockLoad | .writeUnlockCount => .read ∉ held
  | .writeReenter => .write ∈ held ∧ .read ∉ held
  | .writeSpin spinCount => held = [] ∧ spinCount < maxSpinCount
  | .writeAcquired | .writeUnlockStore => held = []
  | .readReenter => .write ∈ held
  | .readSpinLoad spinCount => spinCount = 0 ∧ .write ∉ held
  | .readSpinSwap spinCount expected => spinCount = 0 ∧ .write ∉ held ∧ expected = flag
  | .outside | .readLoad | .readUnlock => True

-- A call counts for the depth from its first step on, an unlock to its last.
def depth (position : Position) (held : List Mode) : Nat := held.length + if position = .outside then 0 else 1

structure Balanced (ids : Ids Thread) (t : Thread) (s : State Thread) : Prop where
  words : Words (ids.id t) s.lockFlag s.writeCount (s.holdings t)
  stands : Stands (s.position t) (s.held t) s.lockFlag
  nested : (s.held t).Pairwise fun above below => above = .write → below ≠ .read
  deep : depth (s.position t) (s.held t) < 2^16
  alive : s.crashed = false

-- Only `t` calls, to a depth below 2^16, and not all the spins of a WriteLock fail.
def Alone (t : Thread) (s : State Thread) (event : Thread × Choice) : Prop :=
  event.1 = t ∧ match event.2,s.position t with
  | .call .writeLock,_ | .call .readLock,_ => (s.held t).length + 1 < 2^16
  | .go favourable,.writeSpin spinCount => spinCount + 1 < maxSpinCount ∨ favourable = true
  | _,_ => True

instance (t : Thread) (s : State Thread) (event : Thread × Choice) : Decidable (Alone t s event) := by
  unfold Alone
  split <;> infer_instance

def rest : Position → Nat
  | .outside => 0
  | .writeLoad => maxSpinCount + 2
  | .writeSpin spinCount => maxSpinCount - spinCount + 1
  | .readLoad => 3
  | .writeUnlockLoad => 3
  | .writeUnlockCount | .readSpinLoad _ => 2
  | .writeReenter | .writeAcquired | .writeUnlockStore | .readReenter | .readSpinSwap _ _ | .readUnlock => 1

variable {ids : Ids Thread} {s next : State Thread} {t : Thread} {held : List Mode} {id flag : UInt32} {count : UInt16} {h : Holding}

theorem fields (flag : UInt32) : flag.toNat = (lockThreadId flag).toNat * 2^16 + (readCount flag).toNat := by
  rw [lockThreadId_toNat,readCount_toNat]
  omega

theorem Words.free (words : Words id flag count h) (left : ¬ h.Owns) : flag.toNat = h.reads := by
  have owner := words.owner
  rw [if_neg left] at owner
  have zero : (0 : UInt32).toNat = 0 := rfl
  rw [fields,owner,words.reads,zero]
  omega

theorem Words.reader (words : Words id flag count h) (low : h.reads + 1 < 2^16) :
    Words id (flag + 1) count {h with reads := h.reads + 1} := by
  have room : readCount flag ≠ readCountMask := by
    intro full
    have reads := words.reads
    have top : readCountMask.toNat = 2^16 - 1 := by decide
    rw [full,top] at reads
    omega
  obtain ⟨owner,reads⟩ := succ_fields flag room
  exact ⟨owner.trans words.owner,reads.trans (congrArg (· + 1) words.reads),words.writes⟩

theorem Words.unread (words : Words id flag count h) (some_ : 0 < h.reads) :
    readCount flag ≠ 0 ∧ Words id (flag - 1) count {h with reads := h.reads - 1} := by
  have counted : readCount flag ≠ 0 := by
    intro none
    have reads := words.reads
    have zero : (0 : UInt32).toNat = 0 := rfl
    rw [none,zero] at reads
    omega
  obtain ⟨owner,reads⟩ := pred_fields flag counted
  refine ⟨counted,owner.trans words.owner,?_,words.writes⟩
  have before := words.reads
  dsimp only
  omega

theorem Words.wrote (words : Words id flag count h) (own : h.Owns) (low : h.writes + 1 < 2^16) {transit : Bool} :
    Words id flag (count + 1) ⟨h.writes + 1,h.reads,transit⟩ := by
  have still : (⟨h.writes + 1,h.reads,transit⟩ : Holding).Owns := Or.inl (Nat.succ_pos _)
  refine ⟨?_,words.reads,?_⟩
  · rw [words.owner,if_pos own,if_pos still]
  · have one : (1 : UInt16).toNat = 1 := rfl
    rw [UInt16.toNat_add,words.writes,one]
    exact Nat.mod_eq_of_lt low

theorem Words.unwritten (words : Words id flag count h) (some_ : 0 < h.writes) {transit : Bool} (still : (⟨h.writes - 1,h.reads,transit⟩ : Holding).Owns) :
    Words id flag (count - 1) ⟨h.writes - 1,h.reads,transit⟩ := by
  have own : h.Owns := Or.inl some_
  have bound := count.toNat_lt
  refine ⟨?_,words.reads,?_⟩
  · rw [words.owner,if_pos own,if_pos still]
  · have before := words.writes
    have one : (1 : UInt16).toNat = 1 := rfl
    rw [UInt16.toNat_sub,words.writes,one]
    dsimp only
    omega

theorem Words.taken (words : Words id flag count h) (small : id.toNat < 2^16) (none : h.writes = 0) :
    Words id (desired id) count ⟨0,0,true⟩ := by
  refine ⟨?_,?_,words.writes.trans none⟩
  · apply UInt32.toNat_inj.mp
    rw [lockThreadId_toNat,desired_toNat id small,Nat.mul_div_cancel _ (by decide)]
    rfl
  · rw [readCount_toNat,desired_toNat id small,Nat.mul_mod_left]

theorem Words.left (words : Words id flag count h) (none : h.writes = 0) : Words id emptyFlag count ⟨0,0,false⟩ :=
  ⟨rfl,rfl,words.writes.trans none⟩

omit [DecidableEq Thread] in
theorem Words.mine (words : Words (ids.id t) flag count h) : ids.id t = lockThreadId flag ↔ h.Owns := by
  have positive := ids.positive t
  rw [words.owner]
  by_cases own : h.Owns
  · simp [own]
  · rw [if_neg own]
    refine iff_of_false (fun same => ?_) own
    rw [same] at positive
    exact absurd positive (by decide)

theorem Balanced.moved (balanced : Balanced ids t s) (position : Position) (words : Words (ids.id t) flag count (holding position held))
    (stands : Stands position held flag) (nested : held.Pairwise fun above below => above = .write → below ≠ .read)
    (deep : depth position held < 2^16) :
    Balanced ids t ⟨flag,count,Function.update s.position t position,Function.update s.held t held,s.crashed⟩ := by
  refine ⟨?_,?_,?_,?_,balanced.alive⟩
  · simpa [State.holdings] using words
  · simpa using stands
  · simpa using nested
  · simpa using deep

theorem Balanced.went (balanced : Balanced ids t s) (position : Position) (words : Words (ids.id t) flag count (holding position (s.held t)))
    (stands : Stands position (s.held t) flag) (deep : depth position (s.held t) ≤ depth (s.position t) (s.held t)) :
    Balanced ids t {s with lockFlag := flag,writeCount := count,position := Function.update s.position t position} := by
  have moved := balanced.moved position words stands balanced.nested (Nat.lt_of_le_of_lt deep balanced.deep)
  rwa [Function.update_eq_self] at moved

theorem Balanced.walked (balanced : Balanced ids t s) (position : Position) (same : holding position (s.held t) = s.holdings t)
    (stands : Stands position (s.held t) s.lockFlag) (deep : depth position (s.held t) ≤ depth (s.position t) (s.held t)) :
    Balanced ids t (s.goto t position) :=
  balanced.went position (same ▸ balanced.words) stands deep

theorem unlock_nested {mode : Mode} {rest : List Mode} (nested : (mode :: rest).Pairwise fun above below => above = .write → below ≠ .read)
    (writes : mode = .write) : .read ∉ rest := by
  intro member
  exact (List.pairwise_cons.mp nested).1 .read member writes rfl

theorem enter_balanced (balanced : Balanced ids t s) (outside : s.position t = .outside) {call : Call} (alone : Alone t s (t,.call call))
    (taken : enter s t call = some next) : Balanced ids t next := by
  have words := balanced.words
  have same : s.holdings t = holding .outside (s.held t) := by rw [State.holdings,outside]
  rw [same] at words
  cases call with
  | writeLock =>
    have room : (s.held t).length + 1 < 2^16 := alone.2
    simp only [enter] at taken
    split at taken
    · cases taken
    · rename_i unread
      cases taken
      have moved := balanced.moved .writeLoad words unread balanced.nested (by simpa [depth] using room)
      rwa [Function.update_eq_self] at moved
  | readLock =>
    have room : (s.held t).length + 1 < 2^16 := alone.2
    cases taken
    have moved := balanced.moved .readLoad words trivial balanced.nested (by simpa [depth] using room)
    rwa [Function.update_eq_self] at moved
  | writeUnlock =>
    simp only [enter] at taken
    split at taken
    · rename_i rest held
      cases taken
      have nested := balanced.nested
      have deep := balanced.deep
      rw [held] at words nested
      rw [held,outside] at deep
      refine balanced.moved .writeUnlockLoad ?_ (unlock_nested nested rfl) nested.of_cons (by simpa [depth] using deep)
      simpa [holding] using words
    · cases taken
  | readUnlock =>
    simp only [enter] at taken
    split at taken
    · rename_i rest held
      cases taken
      have nested := balanced.nested
      have deep := balanced.deep
      rw [held] at words nested
      rw [held,outside] at deep
      refine balanced.moved .readUnlock ?_ trivial nested.of_cons (by simpa [depth] using deep)
      simpa [holding] using words
    · cases taken

theorem proceed_balanced (balanced : Balanced ids t s) (inside : s.position t ≠ .outside) {favourable : Bool}
    (alone : Alone t s (t,.go favourable)) :
    ∃ next, proceed ids s t favourable = some next ∧ Balanced ids t next ∧ rest (next.position t) < rest (s.position t) := by
  have words := balanced.words
  have stands := balanced.stands
  have deep := balanced.deep
  have admitted := alone.2
  simp only [State.holdings] at words
  unfold proceed proceedAs
  cases place : s.position t with
  | outside => exact absurd place inside
  | writeLoad =>
    simp only [place,Stands,holding] at words stands ⊢
    by_cases own : ids.id t = lockThreadId s.lockFlag
    · have counted : .write ∈ s.held t := by simpa [Holding.Owns,holding] using words.mine.mp own
      refine ⟨_,if_pos own,balanced.walked .writeReenter ?_ ⟨counted,stands⟩ ?_,?_⟩
      · simp [State.holdings,place,holding]
      · simp [place,depth]
      · simp [State.goto,rest,maxSpinCount]
    · have unwritten : .write ∉ s.held t := by simpa [Holding.Owns,holding] using mt words.mine.mpr own
      have none : s.held t = [] := List.eq_nil_iff_forall_not_mem.mpr fun mode member => by
        cases mode with
        | write => exact unwritten member
        | read => exact stands member
      refine ⟨_,if_neg own,balanced.walked (.writeSpin 0) ?_ ⟨none,by decide⟩ ?_,?_⟩
      · simp [State.holdings,place,holding]
      · simp [place,depth]
      · simp [State.goto,rest,maxSpinCount]
  | writeReenter =>
    simp only [place,Stands,holding,depth] at words stands deep ⊢
    have own : Holding.Owns ⟨(s.held t).count .write,(s.held t).count .read,false⟩ := Or.inl (List.count_pos_iff.mpr stands.1)
    have most := List.count_le_length (a := Mode.write) (l := s.held t)
    have low : (s.held t).count .write + 1 < 2^16 := by
      simp only [reduceCtorEq,if_false] at deep
      omega
    refine ⟨_,rfl,balanced.moved .outside ?_ trivial (List.pairwise_cons.mpr ⟨?_,balanced.nested⟩) ?_,?_⟩
    · simpa [holding] using words.wrote own low
    · intro mode member _ read
      exact stands.2 (read ▸ member)
    · simpa [depth] using deep
    · simp [State.returned,rest]
  | writeSpin spinCount =>
    simp only [place,Stands,holding] at words stands admitted ⊢
    obtain ⟨none,more⟩ := stands
    have empty : s.lockFlag = emptyFlag := by
      have free := words.free (by simp [Holding.Owns,none])
      simp only [none,List.count_nil] at free
      exact UInt32.toNat_inj.mp free
    rw [if_pos more]
    by_cases success : favourable = true
    · refine ⟨_,if_pos ⟨empty,success⟩,balanced.went .writeAcquired ?_ none ?_,?_⟩
      · simpa [holding,none] using words.taken (ids.small t) (by simp [none])
      · simp [place,depth]
      · simp [State.goto,rest]
        omega
    · refine ⟨_,if_neg fun both => success both.2,balanced.walked (.writeSpin (spinCount + 1)) ?_ ⟨none,?_⟩ ?_,?_⟩
      · simp [State.holdings,place,holding]
      · exact admitted.resolve_right success
      · simp [place,depth]
      · simp [State.goto,rest]
        omega
  | writeAcquired =>
    simp only [place,Stands,holding,depth] at words stands deep ⊢
    refine ⟨_,rfl,balanced.moved .outside ?_ trivial (List.pairwise_cons.mpr ⟨?_,balanced.nested⟩) ?_,?_⟩
    · simpa [holding,stands] using words.wrote (Or.inr rfl) (by simp [stands])
    · simp [stands]
    · simpa [depth] using deep
    · simp [State.returned,rest]
  | writeUnlockLoad =>
    simp only [place,Stands,holding] at words stands ⊢
    have unread : readCount s.lockFlag = 0 := by
      apply UInt32.toNat_inj.mp
      rw [words.reads,List.count_eq_zero.mpr stands]
      rfl
    refine ⟨_,if_neg (not_not_intro unread),balanced.walked .writeUnlockCount ?_ stands ?_,?_⟩
    · simp [State.holdings,place,holding]
    · simp [place,depth]
    · simp [State.goto,rest]
  | writeUnlockCount =>
    simp only [place,Stands,holding] at words stands ⊢
    have zero : s.writeCount - 1 = 0 ↔ (s.held t).count .write = 0 := by
      have one : (1 : UInt16).toNat = 1 := rfl
      have none : (0 : UInt16).toNat = 0 := rfl
      have value := words.writes
      have bound := s.writeCount.toNat_lt
      dsimp only at value
      rw [← UInt16.toNat_inj,UInt16.toNat_sub,one,none]
      omega
    by_cases last : s.writeCount - 1 = 0
    · have unwritten := List.count_eq_zero.mp (zero.mp last)
      have empty : s.held t = [] := List.eq_nil_iff_forall_not_mem.mpr fun mode member => by
        cases mode with
        | write => exact unwritten member
        | read => exact stands member
      refine ⟨_,if_pos last,balanced.went .writeUnlockStore ?_ empty ?_,?_⟩
      · simpa [holding] using @Words.unwritten _ _ _ _ words (Nat.succ_pos _) true (Or.inr rfl)
      · simp [place,depth]
      · simp [State.goto,rest]
    · have some_ : 0 < (s.held t).count .write := Nat.pos_of_ne_zero fun none => last (zero.mpr none)
      refine ⟨_,if_neg last,balanced.went .outside ?_ trivial ?_,?_⟩
      · simpa [holding] using @Words.unwritten _ _ _ _ words (Nat.succ_pos _) false (Or.inl some_)
      · simp [place,depth]
      · simp [State.goto,rest]
  | writeUnlockStore =>
    simp only [place,Stands,holding] at words stands ⊢
    refine ⟨_,rfl,balanced.went .outside ?_ trivial ?_,?_⟩
    · simpa [holding,stands] using words.left (by simp [stands])
    · simp [place,depth]
    · simp [State.goto,rest]
  | readLoad =>
    simp only [place,holding] at words ⊢
    by_cases own : ids.id t = lockThreadId s.lockFlag
    · have counted : .write ∈ s.held t := by simpa [Holding.Owns,holding] using words.mine.mp own
      refine ⟨_,if_pos own,balanced.walked .readReenter ?_ counted ?_,?_⟩
      · simp [State.holdings,place,holding]
      · simp [place,depth]
      · simp [State.goto,rest]
    · have unwritten : .write ∉ s.held t := by simpa [Holding.Owns,holding] using mt words.mine.mpr own
      refine ⟨_,if_neg own,balanced.walked (.readSpinLoad 0) ?_ ⟨rfl,unwritten⟩ ?_,?_⟩
      · simp [State.holdings,place,holding]
      · simp [place,depth]
      · simp [State.goto,rest]
  | readReenter =>
    simp only [place,holding,depth] at words deep ⊢
    have most := List.count_le_length (a := Mode.read) (l := s.held t)
    have low : (s.held t).count .read + 1 < 2^16 := by
      simp only [reduceCtorEq,if_false] at deep
      omega
    refine ⟨_,rfl,balanced.moved .outside ?_ trivial (List.pairwise_cons.mpr ⟨?_,balanced.nested⟩) ?_,?_⟩
    · simpa [holding] using words.reader low
    · intro mode _ write
      cases write
    · simpa [depth] using deep
    · simp [State.returned,rest]
  | readSpinLoad spinCount =>
    simp only [place,Stands,holding] at words stands ⊢
    obtain ⟨rfl,unwritten⟩ := stands
    have same : readCount s.lockFlag = s.lockFlag := by
      apply UInt32.toNat_inj.mp
      rw [words.reads,words.free (by simpa [Holding.Owns] using unwritten)]
    refine ⟨_,if_pos (by decide),balanced.walked (.readSpinSwap 0 (readCount s.lockFlag)) ?_ ⟨rfl,unwritten,same⟩ ?_,?_⟩
    · simp [State.holdings,place,holding]
    · simp [place,depth]
    · simp [State.goto,rest]
  | readSpinSwap spinCount expected =>
    simp only [place,Stands,holding,depth] at words stands deep ⊢
    obtain ⟨rfl,unwritten,rfl⟩ := stands
    have most := List.count_le_length (a := Mode.read) (l := s.held t)
    have low : (s.held t).count .read + 1 < 2^16 := by
      simp only [reduceCtorEq,if_false] at deep
      omega
    refine ⟨_,if_pos rfl,balanced.moved .outside ?_ trivial (List.pairwise_cons.mpr ⟨?_,balanced.nested⟩) ?_,?_⟩
    · simpa [holding] using words.reader low
    · intro mode _ write
      cases write
    · simpa [depth] using deep
    · simp [State.returned,rest]
  | readUnlock =>
    simp only [place,holding] at words ⊢
    obtain ⟨counted,unread⟩ := words.unread (Nat.succ_pos _)
    refine ⟨_,if_neg counted,balanced.went .outside ?_ trivial ?_,?_⟩
    · simpa [holding] using unread
    · simp [place,depth]
    · simp [State.goto,rest]

theorem step_balanced (s : State Thread) (event : Thread × Choice) (next : State Thread) (balanced : Balanced ids t s)
    (taken : Guarded (Enabled (step ids)) (Alone t) s event next) : Balanced ids t next := by
  obtain ⟨taken,alone⟩ := taken
  obtain ⟨u,choice⟩ := event
  cases alone.1
  simp only [Enabled,step,stepAs,balanced.alive,Bool.false_eq_true,if_false] at taken
  cases choice with
  | call call =>
    simp only at taken
    split at taken
    · rename_i outside
      exact enter_balanced balanced outside alone taken
    · cases taken
  | go favourable =>
    have inside : s.position u ≠ .outside := by
      intro outside
      simp [proceedAs,outside] at taken
    obtain ⟨other,proceeds,valid,_⟩ := proceed_balanced balanced inside alone
    cases taken.symm.trans proceeds
    exact valid

omit [DecidableEq Thread] in
theorem start_balanced : Balanced ids t State.start where
  words := by
    have left : ¬ ((State.start : State Thread).holdings t).Owns := by simp [State.start,State.holdings,holding,Holding.Owns]
    have empty : lockThreadId emptyFlag = 0 := by decide
    refine ⟨?_,by simp [State.start,State.holdings,holding,readCount,emptyFlag],rfl⟩
    rw [if_neg left]
    exact empty
  stands := trivial
  nested := .nil
  deep := Nat.succ_pos _
  alive := rfl

omit [DecidableEq Thread] in
theorem alone_success (t : Thread) (s : State Thread) : Alone t s (t,.go true) := by
  refine ⟨rfl,?_⟩
  cases place : s.position t with
  | writeSpin spinCount => exact .inr rfl
  | _ => trivial

def Returns (ids : Ids Thread) (t : Thread) : Nat → State Thread → Prop
  | 0,s => s.position t = .outside
  | n + 1,s => s.position t = .outside ∨ ∀ favourable, Alone t s (t,.go favourable) →
      ∃ next, step ids s (t,.go favourable) = some next ∧ Returns ids t n next

theorem returns (balanced : Balanced ids t s) {n : Nat} (bound : rest (s.position t) ≤ n) : Returns ids t n s := by
  induction n generalizing s with
  | zero =>
    by_contra inside
    obtain ⟨next,_,_,less⟩ := proceed_balanced balanced inside (alone_success t s)
    omega
  | succ n ih =>
    by_cases outside : s.position t = .outside
    · exact .inl outside
    · refine .inr fun favourable alone => ?_
      obtain ⟨next,proceeds,valid,less⟩ := proceed_balanced balanced outside alone
      refine ⟨next,?_,ih valid (by omega)⟩
      simp only [step,stepAs,balanced.alive,Bool.false_eq_true,if_false]
      exact proceeds

structure Exact (id : UInt32) (held : List Mode) (s : State Thread) : Prop where
  owner : lockThreadId s.lockFlag = id ↔ .write ∈ held
  reads : (readCount s.lockFlag).toNat = held.count .read
  writes : s.writeCount.toNat = held.count .write
  free : held = [] → s.lockFlag = emptyFlag

omit [DecidableEq Thread] in
theorem Balanced.exact (balanced : Balanced ids t s) (outside : s.position t = .outside) : Exact (ids.id t) (s.held t) s := by
  have words := balanced.words
  simp only [State.holdings,outside,holding,Nat.add_zero] at words
  refine ⟨?_,words.reads,words.writes,fun none => ?_⟩
  · rw [eq_comm,words.mine]
    simp [Holding.Owns]
  · have free := words.free (by simp [Holding.Owns,none])
    simp only [none,List.count_nil] at free
    exact UInt32.toNat_inj.mp free

theorem reentrant_balanced (path : Runs (Guarded (Enabled (step ids)) (Alone t)) State.start events s) :
    s.crashed = false ∧ Returns ids t (maxSpinCount + 2) s ∧ (s.position t = .outside → Exact (ids.id t) (s.held t) s) := by
  have balanced : Balanced ids t s := path.invariant step_balanced start_balanced
  have bound : rest (s.position t) ≤ maxSpinCount + 2 := by
    cases s.position t <;> simp only [rest,maxSpinCount] <;> omega
  exact ⟨balanced.alive,returns balanced bound,balanced.exact⟩

-- A write lock twice, with a read lock inside, and back.
theorem reentrant_balanced_nested : ∃ events s, Runs (Guarded (Enabled (step pair)) (Alone false)) State.start events s ∧
    s.held false = [.read,.write,.write] ∧ s.lockFlag = 0x00010001 ∧ s.crashed = false ∧ Returns pair false (maxSpinCount + 2) s ∧
    (s.position false = .outside → Exact (pair.id false) (s.held false) s) := by
  have path : Runs (Guarded (Enabled (step pair)) (Alone false)) State.start _ _ :=
    @guard_runs _ _ _ [(false,.call .writeLock),(false,.go true),(false,.go false),(false,.go true),(false,.go true),
      (false,.call .writeLock),(false,.go true),(false,.go true),(false,.call .readLock),(false,.go true),(false,.go true)] _ _ _ _ rfl
  exact ⟨_,_,path,rfl,rfl,reentrant_balanced path⟩

end IocpChatServer.ServerCore.Lock
