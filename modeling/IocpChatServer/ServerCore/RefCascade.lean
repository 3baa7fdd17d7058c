import IocpChatServer.ServerCore.RefCounting

namespace IocpChatServer.ServerCore.RefCounting
variable {s t : Heap} {v w : SharedPtr} {o y : Nat} {without : List SharedPtr} {pending target : Option Nat}

theorem ok_bind {α β : Type} (a : α) (f : α → Result β) : (Except.ok a : Result α) >>= f = f a := rfl

theorem bind_inv {α β : Type} {result : Result α} {f : α → Result β} {b : β} (done : (result >>= f) = .ok b) :
    ∃ a, result = .ok a ∧ f a = .ok b := by
  cases result with
  | error fault => cases done
  | ok a => exact ⟨a,rfl,done⟩

theorem int32_small {value : Int} (low : -2 ^ 31 ≤ value) (high : value < 2 ^ 31) : int32 value = value :=
  Int.bmod_eq_of_le (by omega) (by omega)

@[simp] theorem Heap.change_object (s : Heap) (o : Nat) (f : RefCountable → RefCountable) : (s.change o f).object o = f (s.object o) :=
  Function.update_self ..

theorem Heap.change_other (f : RefCountable → RefCountable) (other : y ≠ o) : (s.change o f).object y = s.object y :=
  Function.update_of_ne other ..

theorem Heap.change_field {α : Type} (field : RefCountable → α) {f : RefCountable → RefCountable}
    (keeps : field (f (s.object y)) = field (s.object y)) : field ((s.change y f).object o) = field (s.object o) := by
  by_cases same : o = y
  · rw [same,Heap.change_object,keeps]
  · rw [Heap.change_other f same]

theorem Heap.change_change (f g : RefCountable → RefCountable) : (s.change o f).change o g = s.change o (g ∘ f) := by
  simp only [Heap.change,Function.update_self,Function.update_idem,Function.comp]

theorem Heap.count_alive (change : Int) (alive : s.Alive o) (low : -2 ^ 31 ≤ (s.object o).refCount + change)
    (high : (s.object o).refCount + change < 2 ^ 31) :
    s.count o change = .ok (s.change o fun object => { object with refCount := (s.object o).refCount + change }) := by
  have unfreed : (s.object o).fate ≠ .freed := by simp [alive.2]
  simp only [Heap.count,unfreed,if_false,Heap.change,int32_small low high]

@[simp] theorem Heap.change_made (f : RefCountable → RefCountable) : (s.change o f).made = s.made := rfl
@[simp] theorem Heap.change_live (f : RefCountable → RefCountable) : (s.change o f).live = s.live := rfl
@[simp] theorem Heap.change_ptr (f : RefCountable → RefCountable) : (s.change o f).ptr = s.ptr := rfl
@[simp] theorem Heap.change_holders (f : RefCountable → RefCountable) : (s.change y f).holders without o = s.holders without o := rfl

theorem Heap.read_live (mem : v ∈ s.live) : s.read v = .ok (s.ptr v) := if_pos mem

theorem Heap.write_live (mem : v ∈ s.live) : s.write v target = .ok (s.point v target) := if_pos mem

theorem Heap.point_null (null : s.ptr v = none) : s.point v none = s := by
  simp only [Heap.point,← null,Function.update_eq_self]

@[simp] theorem Heap.mem_holders : w ∈ s.holders without o ↔ w ∈ s.live ∧ w ∉ without ∧ s.ptr w = some o := by
  simp [Heap.holders]

theorem Heap.holders_cons : s.holders (v :: without) o = (s.holders without o).erase v := by
  ext w
  simp only [Heap.mem_holders,List.mem_cons,not_or,Finset.mem_erase]
  tauto

-- Sound but for the TSharedPtr of which Release has given up the reference and not yet the pointer, and for a reference
-- that is counted and held by nothing.
structure Sound (without : List SharedPtr) (pending : Option Nat) (s : Heap) : Prop where
  counted : ∀ o, s.Alive o →
    (s.object o).refCount = (s.object o).own + (s.holders without o).card + (if pending = some o then 1 else 0)
  kept : ∀ o, s.Alive o → 0 < (s.object o).refCount ∧ (s.object o).refCount < 2 ^ 31
  pointing : ∀ w ∈ s.live, w ∉ without → ∀ o, s.ptr w = some o → s.Alive o
  given : ∀ o < s.made, ¬s.Alive o → (s.object o).given = true
  members : ∀ o, s.Alive o → ∀ index < (s.object o).members, .member o index ∈ s.live
  owner : ∀ o index, .member o index ∈ s.live → index < (s.object o).members ∧ o < s.made ∧ (s.object o).fate ≠ .freed

theorem Sound.letGo (sound : Sound without none s) (mem : v ∈ s.live) (fresh : v ∉ without) (points : s.ptr v = some o) :
    Sound (v :: without) (some o) s := by
  refine { sound with counted := fun other alive => ?_,pointing := fun w live apart => ?_ }
  · have before := sound.counted other alive
    rw [Heap.holders_cons]
    by_cases same : o = other
    · subst same
      have held : v ∈ s.holders without o := Heap.mem_holders.2 ⟨mem,fresh,points⟩
      have one := Finset.card_erase_add_one held
      simp only [reduceCtorEq,if_false,if_true] at before ⊢
      omega
    · have unheld : v ∉ s.holders without other := fun held => same (Option.some.inj (points.symm.trans (Heap.mem_holders.1 held).2.2))
      simpa [Finset.erase_eq_of_notMem unheld,same] using before
  · exact sound.pointing w live fun within => apart (List.mem_cons_of_mem _ within)

theorem Sound.letGoNull (sound : Sound without none s) (null : s.ptr v = none) : Sound (v :: without) none s := by
  refine { sound with counted := fun other alive => ?_,pointing := fun w live apart => ?_ }
  · have unheld : v ∉ s.holders without other := fun held => by simp [null] at held
    rw [Heap.holders_cons,Finset.erase_eq_of_notMem unheld]
    exact sound.counted other alive
  · exact sound.pointing w live fun within => apart (List.mem_cons_of_mem _ within)

theorem Heap.holders_null : (s.point v none).holders without o = s.holders (v :: without) o := by
  ext w
  simp only [Heap.mem_holders,Heap.point,List.mem_cons,not_or]
  by_cases same : w = v
  · simp [same]
  · simp [same]

theorem Sound.null (sound : Sound (v :: without) none s) : Sound without none (s.point v none) := by
  refine { sound with counted := fun o alive => ?_,pointing := fun w live apart o points => ?_ }
  · rw [Heap.holders_null]
    exact sound.counted o alive
  · by_cases same : w = v
    · simp [Heap.point,same] at points
    · have before : s.ptr w = some o := by simpa [Heap.point,same] using points
      exact sound.pointing w live (by simp [same,apart]) o before

theorem Sound.take (sound : Sound without (some o) s) (alive : s.Alive o) (mem : v ∈ s.live) (fresh : v ∉ without) (null : s.ptr v = none) :
    Sound without none (s.point v (some o)) := by
  refine { sound with counted := fun other alive => ?_,pointing := fun w live apart target points => ?_ }
  · have before := sound.counted other alive
    by_cases same : o = other
    · subst same
      have unheld : v ∉ s.holders without o := fun held => by simp [null] at held
      have after : (s.point v (some o)).holders without o = insert v (s.holders without o) := by
        ext w
        by_cases this : w = v
        · simp [Heap.point,this,mem,fresh]
        · simp [Heap.point,this]
      rw [after,Finset.card_insert_of_notMem unheld]
      simp only [Heap.point,reduceCtorEq,if_false,if_true] at before ⊢
      omega
    · have after : (s.point v (some o)).holders without other = s.holders without other := by
        ext w
        by_cases this : w = v
        · simp [Heap.point,this,null,same]
        · simp [Heap.point,this]
      rw [after]
      simpa [Heap.point,same] using before
  · by_cases same : w = v
    · have target_ : o = target := by simpa [Heap.point,same] using points
      exact target_ ▸ alive
    · exact sound.pointing w live apart target (by simpa [Heap.point,same] using points)

theorem Sound.drop (sound : Sound without none s) (null : s.ptr v = none) (outlived : ∀ holder, v.owner = some holder → ¬s.Alive holder) :
    Sound without none (s.drop v) := by
  have same : ∀ o, (s.drop v).holders without o = s.holders without o := by
    intro o
    ext w
    simp only [Heap.mem_holders,Heap.drop,Finset.mem_erase]
    by_cases this : w = v
    · simp [this,null]
    · simp [this]
  refine { sound with counted := fun o alive => ?_,pointing := fun w live => ?_,members := fun o alive index less => ?_,owner := fun o index live => ?_ }
  · rw [same]
    exact sound.counted o alive
  · exact sound.pointing w (Finset.mem_of_mem_erase live)
  · refine Finset.mem_erase.2 ⟨?_,sound.members o alive index less⟩
    rintro rfl
    exact outlived o rfl alive
  · exact sound.owner o index (Finset.mem_of_mem_erase live)

theorem Heap.alive_change {f : RefCountable → RefCountable} (keeps : (f (s.object y)).fate = (s.object y).fate) :
    (s.change y f).Alive o ↔ s.Alive o := by
  simp only [Heap.Alive,Heap.change_made,Heap.change_field RefCountable.fate keeps]

theorem Sound.change {other : Option Nat} {f : RefCountable → RefCountable} (sound : Sound without pending s)
    (fate : (f (s.object y)).fate = (s.object y).fate) (members : (f (s.object y)).members = (s.object y).members)
    (given : (s.object y).given = true → (f (s.object y)).given = true)
    (counted : (f (s.object y)).refCount = (f (s.object y)).own + (s.holders without y).card + (if other = some y then 1 else 0))
    (kept : 0 < (f (s.object y)).refCount ∧ (f (s.object y)).refCount < 2 ^ 31) (apart : ∀ o, o ≠ y → (other = some o ↔ pending = some o)) :
    Sound without other (s.change y f) := by
  have alive : ∀ o, (s.change y f).Alive o ↔ s.Alive o := fun o => Heap.alive_change fate
  refine ⟨fun o after => ?_,fun o after => ?_,fun w live fresh o points => (alive o).2 (sound.pointing w live fresh o points),
    fun o less dead => ?_,fun o after index less => ?_,fun o index live => ?_⟩
  · rw [Heap.change_holders]
    by_cases same : o = y
    · subst same
      rw [Heap.change_object]
      exact counted
    · rw [Heap.change_other f same]
      simp only [apart o same]
      exact sound.counted o ((alive o).1 after)
  · by_cases same : o = y
    · subst same
      rw [Heap.change_object]
      exact kept
    · rw [Heap.change_other f same]
      exact sound.kept o ((alive o).1 after)
  · have before := sound.given o less fun before => dead ((alive o).2 before)
    by_cases same : o = y
    · subst same
      rw [Heap.change_object]
      exact given before
    · rw [Heap.change_other f same]
      exact before
  · rw [Heap.change_field RefCountable.members members] at less
    exact sound.members o ((alive o).1 after) index less
  · rw [Heap.change_field RefCountable.members members,Heap.change_field RefCountable.fate fate]
    exact sound.owner o index live

theorem Sound.recount {other : Option Nat} {value : Int} (sound : Sound without pending s)
    (exact_ : value = (s.object y).own + (s.holders without y).card + (if other = some y then 1 else 0))
    (positive : 0 < value) (small : value < 2 ^ 31) (apart : ∀ o, o ≠ y → (other = some o ↔ pending = some o)) :
    Sound without other (s.change y fun object => { object with refCount := value }) :=
  sound.change rfl rfl (fun given => given) exact_ ⟨positive,small⟩ apart

theorem Sound.last (sound : Sound without (some y) s) (alive : s.Alive y) (one : (s.object y).refCount = 1) :
    (s.object y).given = true ∧ s.holders without y = ∅ := by
  have counted := sound.counted y alive
  simp only [if_true] at counted
  constructor
  · by_contra kept
    simp only [RefCountable.own,kept] at counted
    simp at counted
    omega
  · rw [← Finset.card_eq_zero]
    omega

theorem Heap.alive_dead {f : RefCountable → RefCountable} (dead : (f (s.object y)).fate ≠ .alive) :
    (s.change y f).Alive o ↔ s.Alive o ∧ o ≠ y := by
  by_cases same : o = y
  · subst same
    simp [Heap.Alive,dead]
  · simp only [Heap.Alive,Heap.change_other f same]
    simp [same,Heap.change]

theorem Sound.die {f : RefCountable → RefCountable} (sound : Sound without pending s) (made : y < s.made) (given : (s.object y).given = true)
    (unheld : s.holders without y = ∅) (other : pending = none ∨ pending = some y) (dead : (f (s.object y)).fate ≠ .alive)
    (members : (f (s.object y)).members = (s.object y).members) (kept : (f (s.object y)).given = (s.object y).given)
    (empty : (f (s.object y)).fate = .freed → ∀ index, .member y index ∉ s.live) : Sound without none (s.change y f) := by
  have alive : ∀ o, (s.change y f).Alive o ↔ s.Alive o ∧ o ≠ y := fun o => Heap.alive_dead dead
  refine ⟨fun o after => ?_,fun o after => ?_,fun w live fresh o points => (alive o).2 ⟨sound.pointing w live fresh o points,?_⟩,
    fun o less gone => ?_,fun o after index less => ?_,fun o index live => ?_⟩
  · obtain ⟨before,apart⟩ := (alive o).1 after
    have counted := sound.counted o before
    have notPending : pending ≠ some o := by
      rintro rfl
      rcases other with this | this
      · cases this
      · exact apart (Option.some.inj this)
    simpa only [Heap.change_other f apart,Heap.change_holders,notPending,reduceCtorEq,if_false] using counted
  · obtain ⟨before,apart⟩ := (alive o).1 after
    simpa only [Heap.change_other f apart] using sound.kept o before
  · rintro rfl
    have held : w ∈ s.holders without o := Heap.mem_holders.2 ⟨live,fresh,points⟩
    simp [unheld] at held
  · rw [Heap.change_field RefCountable.given kept]
    by_cases same : o = y
    · exact same ▸ given
    · exact sound.given o less fun before => gone ((alive o).2 ⟨before,same⟩)
  · obtain ⟨before,apart⟩ := (alive o).1 after
    exact sound.members o before index (by simpa only [Heap.change_other f apart] using less)
  · have owner := sound.owner o index live
    rw [Heap.change_field RefCountable.members members]
    refine ⟨owner.1,owner.2.1,?_⟩
    by_cases same : o = y
    · subst same
      rw [Heap.change_object]
      exact fun freed => empty freed index live
    · rw [Heap.change_other f same]
      exact owner.2.2

-- What a release may change: objects with P come to their end, their members with them, and all else stays.
structure Frame (P : Nat → Prop) (s t : Heap) : Prop where
  made : t.made = s.made
  members : ∀ o, (t.object o).members = (s.object o).members
  given : ∀ o, (t.object o).given = (s.object o).given
  ended : ∀ o, ¬s.Alive o → ¬t.Alive o
  falls : ∀ o, s.Alive o → ¬t.Alive o → P o
  live : t.live ⊆ s.live
  gone : ∀ w ∈ s.live, w ∉ t.live → ∃ holder, w.owner = some holder ∧ s.Alive holder ∧ ¬t.Alive holder
  ptr : ∀ w ∈ t.live, t.ptr w = s.ptr w

variable {P : Nat → Prop} {before : Heap}

theorem Frame.refl : Frame P s s :=
  ⟨rfl,fun _ => rfl,fun _ => rfl,fun _ dead => dead,fun _ alive dead => absurd alive dead,subset_rfl,fun _ live gone => absurd live gone,
    fun _ _ => rfl⟩

theorem Frame.trans (one : Frame P before s) (two : Frame P s t) : Frame P before t where
  made := two.made.trans one.made
  members o := (two.members o).trans (one.members o)
  given o := (two.given o).trans (one.given o)
  ended o dead := two.ended o (one.ended o dead)
  falls o alive dead := by
    by_cases middle : s.Alive o
    · exact two.falls o middle dead
    · exact one.falls o alive middle
  live := two.live.trans one.live
  gone w live gone := by
    by_cases middle : w ∈ s.live
    · obtain ⟨holder,owner,alive,dead⟩ := two.gone w middle gone
      exact ⟨holder,owner,by_contra fun earlier => one.ended holder earlier alive,dead⟩
    · obtain ⟨holder,owner,alive,dead⟩ := one.gone w live middle
      exact ⟨holder,owner,alive,two.ended holder dead⟩
  ptr w live := (two.ptr w live).trans (one.ptr w (two.live live))

theorem Frame.change {f : RefCountable → RefCountable} (members : (f (s.object y)).members = (s.object y).members)
    (given : (f (s.object y)).given = (s.object y).given) (ended : ∀ o, ¬s.Alive o → ¬(s.change y f).Alive o)
    (falls : ∀ o, s.Alive o → ¬(s.change y f).Alive o → P o) : Frame P s (s.change y f) where
  made := rfl
  members _ := Heap.change_field RefCountable.members members
  given _ := Heap.change_field RefCountable.given given
  ended := ended
  falls := falls
  live := subset_rfl
  gone _ live gone := absurd live gone
  ptr _ _ := rfl

theorem Frame.keeps {f : RefCountable → RefCountable} (members : (f (s.object y)).members = (s.object y).members)
    (given : (f (s.object y)).given = (s.object y).given) (fate : (f (s.object y)).fate = (s.object y).fate) : Frame P s (s.change y f) :=
  .change members given (fun _ dead alive => dead ((Heap.alive_change fate).1 alive))
    (fun _ alive dead => absurd ((Heap.alive_change fate).2 alive) dead)

theorem Frame.ends {f : RefCountable → RefCountable} (members : (f (s.object y)).members = (s.object y).members)
    (given : (f (s.object y)).given = (s.object y).given) (dead : (f (s.object y)).fate ≠ .alive) (falls : P y) : Frame P s (s.change y f) := by
  refine .change members given (fun o gone alive => gone ((Heap.alive_dead dead).1 alive).1) fun o alive gone => ?_
  by_cases same : o = y
  · exact same ▸ falls
  · exact absurd ((Heap.alive_dead dead).2 ⟨alive,same⟩) gone

theorem Frame.drop (frame : Frame P before s) (owner : v.owner = some y) (was : before.Alive y) (dead : ¬s.Alive y) :
    Frame P before ((s.point v none).drop v) where
  made := frame.made
  members := frame.members
  given := frame.given
  ended := frame.ended
  falls := frame.falls
  live := (Finset.erase_subset _ _).trans frame.live
  gone w live gone := by
    by_cases same : w = v
    · exact ⟨y,same ▸ owner,was,dead⟩
    · exact frame.gone w live fun still => gone (Finset.mem_erase.2 ⟨same,still⟩)
  ptr w live := by
    have other : w ≠ v := Finset.ne_of_mem_erase live
    rw [← frame.ptr w (Finset.mem_of_mem_erase live)]
    exact Function.update_of_ne other ..

def Heap.alives (s : Heap) : Nat := ((Finset.range s.made).filter s.Alive).card

theorem Frame.alives (frame : Frame P s t) : t.alives ≤ s.alives := by
  refine Finset.card_le_card fun o mem => ?_
  simp only [Finset.mem_filter,Finset.mem_range,frame.made] at mem ⊢
  exact ⟨mem.1,by_contra fun dead => frame.ended o dead mem.2⟩

theorem Frame.fewer (frame : Frame P s t) (alive : s.Alive y) (dead : ¬t.Alive y) : t.alives < s.alives := by
  refine Finset.card_lt_card (Finset.ssubset_iff_of_subset (fun o mem => ?_) |>.2 ⟨y,?_,?_⟩)
  · simp only [Finset.mem_filter,Finset.mem_range,frame.made] at mem ⊢
    exact ⟨mem.1,by_contra fun dead => frame.ended o dead mem.2⟩
  · exact Finset.mem_filter.2 ⟨Finset.mem_range.2 alive.1,alive⟩
  · exact fun mem => dead (Finset.mem_filter.1 mem).2

def Shrinks (f : Heap → Nat → Result Heap) : Prop := ∀ s o next, f s o = .ok next → next.live ⊆ s.live

theorem Heap.write_inv (done : s.write v target = .ok t) : v ∈ s.live ∧ t = s.point v target := by
  simp only [Heap.write] at done
  split_ifs at done with mem
  cases done
  exact ⟨mem,rfl⟩

theorem Shrinks.releaseBy {f : Heap → Nat → Result Heap} (shrinks : Shrinks f) (done : s.releaseBy f v = .ok t) : t.live ⊆ s.live := by
  obtain ⟨target,_,done⟩ := bind_inv done
  cases target with
  | none =>
    cases done
    exact subset_rfl
  | some o =>
    obtain ⟨middle,released,done⟩ := bind_inv done
    obtain ⟨_,rfl⟩ := Heap.write_inv done
    have less : middle.live ⊆ s.live := shrinks _ _ _ released
    exact less

theorem Shrinks.destructBy {f : Heap → Nat → Result Heap} (shrinks : Shrinks f) (done : s.destructBy f v = .ok t) : t.live ⊆ s.live.erase v := by
  obtain ⟨middle,released,done⟩ := bind_inv done
  cases done
  exact Finset.erase_subset_erase v (shrinks.releaseBy released)

theorem Shrinks.members {f : Heap → Nat → Result Heap} (shrinks : Shrinks f) {indexes : List Nat}
    (done : indexes.foldlM (fun s index => s.destructBy f (.member y index)) s = .ok t) : t.live ⊆ s.live := by
  induction indexes generalizing s with
  | nil =>
    cases done
    exact subset_rfl
  | cons index rest ih =>
    rw [List.foldlM_cons] at done
    obtain ⟨middle,destructed,done⟩ := bind_inv done
    exact (ih done).trans ((shrinks.destructBy destructed).trans (Finset.erase_subset _ _))

theorem release_ref_shrinks (depth : Nat) : Shrinks (Heap.releaseRef depth) := by
  induction depth with
  | zero =>
    intro s o next done
    cases done
  | succ depth ih =>
    intro s o next done
    obtain ⟨counted,count,done⟩ := bind_inv done
    have same : counted.live = s.live := by
      simp only [Heap.count] at count
      split_ifs at count
      cases count
      rfl
    split_ifs at done with last
    · obtain ⟨after,destroyed,done⟩ := bind_inv done
      cases done
      have less : after.live ⊆ (counted.change o fun object => { object with fate := .dying }).live := ih.members destroyed
      exact same ▸ less
    · cases done
      exact same.le

-- P has all that the release of one TSharedPtr can bring to an end.
def Closed (P : Nat → Prop) (risk : SharedPtr) (before : Heap) : Prop :=
  ∀ o, before.Alive o → (before.object o).given = true →
    (∀ w ∈ before.holders [risk] o, ∃ holder, w.owner = some holder ∧ P holder) → P o

-- In the middle of that release: each other reference given up is that of a member of an object that is being deleted.
structure Ready (P : Nat → Prop) (risk : SharedPtr) (before : Heap) (without : List SharedPtr) (s : Heap) : Prop where
  frame : Frame P before s
  reason : ∀ w ∈ without, w = risk ∨ ∃ holder, w.owner = some holder ∧ P holder ∧ ¬s.Alive holder

variable {risk : SharedPtr}

theorem Ready.next (ready : Ready P risk before without s) (frame : Frame P s t) : Ready P risk before without t where
  frame := ready.frame.trans frame
  reason w mem := (ready.reason w mem).imp_right fun ⟨holder,owner,falls,dead⟩ => ⟨holder,owner,falls,frame.ended holder dead⟩

theorem Ready.falls (ready : Ready P risk before without s) (closed : Closed P risk before) (alive : s.Alive y)
    (given : (s.object y).given = true) (unheld : s.holders without y = ∅) : P y := by
  have was : before.Alive y := by_contra fun dead => ready.frame.ended y dead alive
  refine closed y was (by rw [← ready.frame.given y]; exact given) fun w held => ?_
  obtain ⟨live,apart,points⟩ := Heap.mem_holders.1 held
  by_cases still : w ∈ s.live
  · have within : w ∈ without := by
      by_contra outside
      have this : w ∈ s.holders without y := Heap.mem_holders.2 ⟨still,outside,(ready.frame.ptr w still).trans points⟩
      simp [unheld] at this
    obtain ⟨holder,owner,falls,_⟩ := (ready.reason w within).resolve_left (by simpa using apart)
    exact ⟨holder,owner,falls⟩
  · obtain ⟨holder,owner,aliveThen,dead⟩ := ready.frame.gone w live still
    exact ⟨holder,owner,ready.frame.falls holder aliveThen dead⟩

-- The TSharedPtr being released is destroyed on the way, unless a fault comes first.
structure Lost (P : Nat → Prop) (risk : SharedPtr) (result : Result Heap) : Prop where
  owner : ∃ holder, risk.owner = some holder ∧ P holder
  gone : ∀ next, result = .ok next → risk ∉ next.live

def Cascades (P : Nat → Prop) (risk : SharedPtr) (before : Heap) (depth : Nat) : Prop :=
  ∀ without s y, Ready P risk before without s → Sound without (some y) s → s.Alive y → s.alives ≤ depth →
    (∃ next, Heap.releaseRef depth s y = .ok next ∧ Sound without none next ∧ Frame P s next ∧
      ∀ o, (next.object o).fate = .dying → (s.object o).fate = .dying) ∨
    Lost P risk (Heap.releaseRef depth s y)

theorem release_by {depth : Nat} (cascades : Cascades P risk before depth) (ready : Ready P risk before without s)
    (sound : Sound without none s) (few : s.alives ≤ depth) (mem : v ∈ s.live) (fresh : v ∉ without)
    (reason : v = risk ∨ ∃ holder, v.owner = some holder ∧ P holder ∧ ¬s.Alive holder) :
    (∃ next, s.releaseBy (Heap.releaseRef depth) v = .ok (next.point v none) ∧ Sound (v :: without) none next ∧ Frame P s next ∧
      v ∈ next.live ∧ ∀ o, (next.object o).fate = .dying → (s.object o).fate = .dying) ∨
    Lost P risk (s.releaseBy (Heap.releaseRef depth) v) := by
  simp only [Heap.releaseBy,Heap.read_live mem,ok_bind]
  cases points : s.ptr v with
  | none =>
    exact .inl ⟨s,by rw [Heap.point_null points]; rfl,sound.letGoNull points,.refl,mem,fun _ dying => dying⟩
  | some o =>
    have inside : Ready P risk before (v :: without) s := by
      refine ⟨ready.frame,fun w within => ?_⟩
      rcases List.mem_cons.1 within with rfl | within
      · exact reason
      · exact ready.reason w within
    rcases cascades _ s o inside (sound.letGo mem fresh points) (sound.pointing v mem fresh o points) few with
      ⟨next,done,soundNext,frame,settled⟩ | lost
    · by_cases still : v ∈ next.live
      · refine .inl ⟨next,?_,soundNext,frame,still,settled⟩
        simp only [done,ok_bind,Heap.write_live still]
      · -- Release has yet to write to it.
        obtain ⟨holder,owner,alive,dead⟩ := frame.gone v mem still
        have same : v = risk := by
          rcases reason with same | ⟨other,ownerToo,_,deadThen⟩
          · exact same
          · cases owner.symm.trans ownerToo
            exact absurd alive deadThen
        refine .inr ⟨⟨holder,same ▸ owner,frame.falls holder alive dead⟩,fun after finished => ?_⟩
        obtain ⟨middle,released,finished⟩ := bind_inv finished
        cases done.symm.trans released
        exact absurd (Heap.write_inv finished).1 still
    · refine .inr ⟨lost.owner,fun after finished => ?_⟩
      obtain ⟨middle,released,finished⟩ := bind_inv finished
      obtain ⟨_,rfl⟩ := Heap.write_inv finished
      exact lost.gone middle released

theorem members_destroyed {depth : Nat} {was : Heap} (indexes : List Nat) (cascades : Cascades P risk before depth)
    (aliveFirst : before.Alive y) (aliveThen : was.Alive y) (falls : P y) (nodup : indexes.Nodup) (ready : Ready P risk before without s)
    (sound : Sound without none s) (frame : Frame P was s) (dead : ¬s.Alive y) (few : s.alives ≤ depth)
    (live : ∀ index ∈ indexes, .member y index ∈ s.live) (fresh : ∀ index, .member y index ∈ without → .member y index = risk) :
    (∃ next, indexes.foldlM (fun s index => s.destructBy (Heap.releaseRef depth) (.member y index)) s = .ok next ∧
      Sound without none next ∧ Frame P was next ∧ ¬next.Alive y ∧
      (∀ index, .member y index ∈ next.live → .member y index ∈ s.live ∧ index ∉ indexes) ∧
      ∀ o, (next.object o).fate = .dying → (s.object o).fate = .dying) ∨
    Lost P risk (indexes.foldlM (fun s index => s.destructBy (Heap.releaseRef depth) (.member y index)) s) := by
  have shrinks := release_ref_shrinks depth
  induction indexes generalizing s with
  | nil => exact .inl ⟨s,rfl,sound,frame,dead,fun index mem => ⟨mem,by simp⟩,fun _ dying => dying⟩
  | cons index rest ih =>
    rw [List.foldlM_cons]
    by_cases within : SharedPtr.member y index ∈ without
    · -- This is the one being released.
      have same := fresh index within
      refine .inr ⟨⟨y,same ▸ rfl,falls⟩,fun after finished mem => ?_⟩
      obtain ⟨middle,destructed,finished⟩ := bind_inv finished
      exact Finset.ne_of_mem_erase (shrinks.destructBy destructed (shrinks.members finished mem)) same.symm
    rcases release_by cascades ready sound few (live index (by simp)) within (.inr ⟨y,rfl,falls,dead⟩) with
      ⟨t,done,soundT,frameT,_,settledT⟩ | lost
    swap
    · refine .inr ⟨lost.owner,fun after finished mem => ?_⟩
      obtain ⟨middle,destructed,finished⟩ := bind_inv finished
      obtain ⟨released,released_,dropped⟩ := bind_inv destructed
      cases dropped
      exact lost.gone released released_ (Finset.mem_of_mem_erase (shrinks.members finished mem))
    have deadT := frameT.ended y dead
    have dropped : Sound without none ((t.point (.member y index) none).drop (.member y index)) :=
      soundT.null.drop (Function.update_self ..) (by rintro holder ⟨⟩; exact deadT)
    have readyT := ready.next frameT
    have others : ∀ other ∈ rest, SharedPtr.member y other ∈ ((t.point (.member y index) none).drop (.member y index)).live := by
      intro other mem
      refine Finset.mem_erase.2 ⟨?_,?_⟩
      · rintro ⟨⟩
        exact (List.nodup_cons.1 nodup).1 mem
      · by_contra gone
        obtain ⟨holder,owner,alive,_⟩ := frameT.gone _ (live other (by simp [mem])) gone
        cases owner
        exact dead alive
    simp only [Heap.destructBy,done,ok_bind]
    rcases ih (List.nodup_cons.1 nodup).2 ⟨readyT.frame.drop rfl aliveFirst deadT,readyT.reason⟩ dropped
      ((frame.trans frameT).drop rfl aliveThen deadT) deadT (frameT.alives.trans few) others with
      ⟨next,doneNext,soundNext,frameNext,deadNext,left,settled⟩ | lost
    · refine .inl ⟨next,doneNext,soundNext,frameNext,deadNext,fun other mem => ?_,fun o dying => settledT o (settled o dying)⟩
      obtain ⟨still,later⟩ := left other mem
      obtain ⟨apart,still⟩ := Finset.mem_erase.1 still
      refine ⟨frameT.live still,?_⟩
      rintro (_ | ⟨_,mem⟩)
      · exact apart rfl
      · exact later mem
    · exact .inr lost

theorem delete_this {depth : Nat} (closed : Closed P risk before) (cascades : Cascades P risk before depth)
    (ready : Ready P risk before without s) (sound : Sound without (some y) s) (alive : s.Alive y) (few : s.alives ≤ depth + 1)
    (one : (s.object y).refCount = 1) :
    (∃ next, (s.change y fun object => { object with refCount := 0 }).deleteBy (Heap.releaseRef depth) y = .ok next ∧
      Sound without none next ∧ Frame P s next ∧ ∀ o, (next.object o).fate = .dying → (s.object o).fate = .dying) ∨
    Lost P risk ((s.change y fun object => { object with refCount := 0 }).deleteBy (Heap.releaseRef depth) y) := by
  obtain ⟨given,unheld⟩ := sound.last alive one
  have falls := ready.falls closed alive given unheld
  simp only [Heap.deleteBy,Heap.change_change]
  set dying := s.change y ((fun object => { object with fate := .dying }) ∘ fun object => { object with refCount := 0 }) with isDying
  have fate : (dying.object y).fate = .dying := by simp [isDying]
  have members : (dying.object y).members = (s.object y).members := by simp [isDying]
  have dead : ¬dying.Alive y := fun this => by simp [Heap.Alive,fate] at this
  have frame : Frame P s dying := .ends rfl rfl (by simp) falls
  have soundDying : Sound without none dying := sound.die alive.1 given unheld (.inr rfl) (by simp) rfl rfl (by simp)
  have fewer := frame.fewer alive dead
  have fresh : ∀ index, SharedPtr.member y index ∈ without → .member y index = risk := by
    intro index within
    rcases ready.reason _ within with same | ⟨_,⟨⟩,_,gone⟩
    · exact same
    · exact absurd alive gone
  rw [members]
  rcases members_destroyed (List.range (s.object y).members).reverse cascades (by_contra fun gone => ready.frame.ended y gone alive) alive falls
    (List.nodup_reverse.2 List.nodup_range) (ready.next frame) soundDying frame dead (by omega)
    (fun index mem => sound.members y alive index (by simpa using mem)) fresh with
    ⟨after,done,soundAfter,frameAfter,deadAfter,left,settled⟩ | lost
  · have empty : ∀ index, SharedPtr.member y index ∉ after.live := by
      intro index mem
      have owner := sound.owner y index (left index mem).1
      exact (left index mem).2 (by simpa using owner.1)
    have noHolder : after.holders without y = ∅ := by
      refine Finset.eq_empty_of_forall_notMem fun w mem => ?_
      obtain ⟨live,fresh,points⟩ := Heap.mem_holders.1 mem
      exact deadAfter (soundAfter.pointing w live fresh y points)
    refine .inl ⟨after.change y fun object => { object with fate := .freed },?_,?_,frameAfter.trans (.ends rfl rfl (by simp) falls),?_⟩
    · rw [done]
      rfl
    · exact soundAfter.die (frameAfter.made ▸ alive.1) (by rw [frameAfter.given y]; exact given) noHolder (.inl rfl) (by simp) rfl rfl
        fun _ => empty
    · intro o still
      by_cases same : o = y
      · subst same
        simp at still
      · rw [Heap.change_other _ same] at still
        have before := settled o still
        rwa [isDying,Heap.change_other _ same] at before
  · refine .inr ⟨lost.owner,fun next finished => ?_⟩
    obtain ⟨after,done,finished⟩ := bind_inv finished
    cases finished
    exact lost.gone after done

-- By induction on the depth: each deletion leaves one object less that is alive.
theorem release_ref (closed : Closed P risk before) (depth : Nat) : Cascades P risk before depth := by
  induction depth with
  | zero =>
    intro without s y _ _ alive few
    have one : 0 < s.alives := Finset.card_pos.2 ⟨y,Finset.mem_filter.2 ⟨Finset.mem_range.2 alive.1,alive⟩⟩
    omega
  | succ depth ih =>
    intro without s y ready sound alive few
    have kept := sound.kept y alive
    have counted := sound.counted y alive
    have counts := Heap.count_alive (-1) alive (by omega) (by omega)
    simp only [Heap.releaseRef,counts,ok_bind,Heap.change_object]
    by_cases last : (s.object y).refCount + -1 = 0
    · simp only [last,if_true]
      exact delete_this closed ih ready sound alive few (by omega)
    · simp only [last,if_false]
      refine .inl ⟨_,rfl,?_,.keeps rfl rfl rfl,fun o still => ?_⟩
      · refine sound.recount ?_ (by omega) (by omega) fun o other => by simp [Ne.symm other]
        simp only [if_true,reduceCtorEq,if_false] at counted ⊢
        omega
      · rwa [Heap.change_field RefCountable.fate rfl] at still

end IocpChatServer.ServerCore.RefCounting
