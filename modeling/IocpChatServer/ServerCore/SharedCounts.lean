import IocpChatServer.ServerCore.RefCascade

namespace IocpChatServer.ServerCore.RefCounting
variable {s t : Heap} {v w lhs rhs : SharedPtr} {o : Nat} {without : List SharedPtr} {pending target : Option Nat}

structure Settled (s : Heap) : Prop where
  sound : Sound [] none s
  calm : ∀ o, (s.object o).fate ≠ .dying

theorem alives_le : s.alives ≤ s.made + 1 := by
  have small := Finset.card_filter_le (Finset.range s.made) s.Alive
  rw [Finset.card_range] at small
  exact Nat.le_succ_of_le small

theorem Settled.of_owner (sound : Sound without none s) (calm : ∀ o, (s.object o).fate ≠ .dying) {index : Nat}
    (mem : .member o index ∈ s.live) : s.Alive o := by
  obtain ⟨_,made,unfreed⟩ := sound.owner o index mem
  refine ⟨made,?_⟩
  cases fate : (s.object o).fate with
  | alive => rfl
  | dying => exact absurd fate (calm o)
  | freed => exact absurd fate unfreed

theorem Settled.correct (settled : Settled s) : Correct s where
  counted o made unfreed := by
    have alive : s.Alive o := by
      cases fate : (s.object o).fate with
      | alive => exact ⟨made,fate⟩
      | dying => exact absurd fate (settled.calm o)
      | freed => exact absurd fate unfreed
    simpa using settled.sound.counted o alive
  deleted o made := by
    constructor
    · intro freed
      have dead : ¬s.Alive o := fun alive => by cases freed.symm.trans alive.2
      have given := settled.sound.given o made dead
      have unheld : s.holders [] o = ∅ := by
        refine Finset.eq_empty_of_forall_notMem fun w mem => ?_
        obtain ⟨live,fresh,points⟩ := Heap.mem_holders.1 mem
        exact dead (settled.sound.pointing w live fresh o points)
      simp [RefCountable.own,given,unheld]
    · intro zero
      cases fate : (s.object o).fate with
      | alive =>
        have counted := settled.sound.counted o ⟨made,fate⟩
        have kept := settled.sound.kept o ⟨made,fate⟩
        simp only [reduceCtorEq,if_false] at counted
        omega
      | dying => exact absurd fate (settled.calm o)
      | freed => rfl
  pointing v live o points := by
    have alive := settled.sound.pointing v live (by simp) o points
    exact ⟨alive.1,by simp [alive.2]⟩

section release
variable {P : Nat → Prop}

theorem Settled.release (settled : Settled s) (closed : Closed P v s) (mem : v ∈ s.live) :
    (∃ next, s.release v = .ok (next.point v none) ∧ Sound [v] none next ∧ Frame P s next ∧ v ∈ next.live ∧
      ∀ o, (next.object o).fate ≠ .dying) ∨
    Lost P v (s.release v) := by
  refine (release_by (release_ref closed _) ⟨.refl,by simp⟩ settled.sound alives_le mem (by simp) (.inl rfl)).imp_left ?_
  rintro ⟨next,done,sound,frame,still,calm⟩
  exact ⟨next,done,sound,frame,still,fun o dying => settled.calm o (calm o dying)⟩

theorem Settled.releaseSafe (settled : Settled s) (closed : Closed P v s) (mem : v ∈ s.live) (safe : ∀ holder, v.owner = some holder → ¬P holder) :
    ∃ next, s.release v = .ok (next.point v none) ∧ Sound [v] none next ∧ Frame P s next ∧ v ∈ next.live ∧
      ∀ o, (next.object o).fate ≠ .dying := by
  refine (settled.release closed mem).resolve_right fun lost => ?_
  obtain ⟨holder,owner,falls⟩ := lost.owner
  exact safe holder owner falls

theorem falls_closed : Closed (s.Falls v) v s := by
  intro o alive given all
  refine .unheld alive given (fun w mem => ?_) (fun w mem holder owner => ?_)
  · obtain ⟨holder,owner,_⟩ := all w mem
    simp [owner]
  · obtain ⟨other,same,falls⟩ := all w mem
    cases owner.symm.trans same
    exact falls

theorem falls_dead (sound : Sound [v] none t) (calm : ∀ o, (t.object o).fate ≠ .dying) (frame : Frame P s t) (falls : s.Falls v o) :
    ¬t.Alive o := by
  induction falls with
  | @unheld o alive given owned falls ih =>
    intro still
    have counted := sound.counted o still
    have kept := sound.kept o still
    have own : (t.object o).own = 0 := by simp [RefCountable.own,frame.given o,given]
    have held : 0 < (t.holders [v] o).card := by
      simp only [own,reduceCtorEq,if_false] at counted
      omega
    obtain ⟨w,mem⟩ := Finset.card_pos.1 held
    obtain ⟨live,apart,points⟩ := Heap.mem_holders.1 mem
    have before : w ∈ s.holders [v] o := Heap.mem_holders.2 ⟨frame.live live,apart,(frame.ptr w live).symm.trans points⟩
    cases w with
    | loose name => exact owned _ before rfl
    | member holder index => exact ih _ before holder rfl (Settled.of_owner sound calm live)

theorem Released.stays_of_live (sound : Sound [v] none t) (calm : ∀ o, (t.object o).fate ≠ .dying) (frame : Frame (s.Falls v) s t)
    (live : w ∈ t.live) : s.Stays v w := by
  intro holder owner falls
  cases w with
  | loose name => cases owner
  | member object index =>
    cases owner
    exact falls_dead sound calm frame falls (Settled.of_owner sound calm live)

theorem Settled.release_lost (settled : Settled s) (mem : v ∈ s.live) (goes : ¬s.Stays v v) : s.release v ≠ .ok t := by
  intro done
  rcases settled.release falls_closed mem with ⟨next,_,sound,frame,still,calm⟩ | lost
  · exact goes (Released.stays_of_live sound calm frame still)
  · refine lost.gone t done ?_
    obtain ⟨target,_,released⟩ := bind_inv done
    cases target with
    | none =>
      cases released
      exact mem
    | some o =>
      obtain ⟨middle,_,written⟩ := bind_inv released
      obtain ⟨still,rfl⟩ := Heap.write_inv written
      exact still

end release

-- What the release in an assignment leaves.
structure Released (s : Heap) (lhs : SharedPtr) (next : Heap) : Prop where
  settled : Settled next
  mem : lhs ∈ next.live
  null : next.ptr lhs = none
  stays : ∀ w ∈ s.live, s.Stays lhs w → w ∈ next.live
  ptr : ∀ w ∈ next.live, w ≠ lhs → next.ptr w = s.ptr w
  own : ∀ o, (next.object o).own = (s.object o).own
  left : ∀ w ∈ next.live, w ∈ s.live ∧ s.Stays lhs w

theorem Settled.assign (settled : Settled s) (mem : lhs ∈ s.live) (outlives : s.Stays lhs lhs) :
    ∃ next, s.release lhs = .ok next ∧ Released s lhs next := by
  obtain ⟨t,done,sound,frame,still,calm⟩ := settled.releaseSafe falls_closed mem outlives
  refine ⟨_,done,⟨sound.null,calm⟩,still,Function.update_self ..,fun w live stays => ?_,fun w live other => ?_,fun o => ?_,fun w live => ?_⟩
  · by_contra gone
    obtain ⟨holder,owner,alive,dead⟩ := frame.gone w live gone
    exact stays holder owner (frame.falls holder alive dead)
  · rw [← frame.ptr w live]
    exact Function.update_of_ne other ..
  · simp only [RefCountable.own,Heap.point,frame.given o]
  · exact ⟨frame.live live,Released.stays_of_live sound calm frame live⟩

theorem Settled.set (settled : Settled s) (mem : v ∈ s.live) (null : s.ptr v = none)
    (admits : ∀ o ∈ target, s.Alive o ∧ Fits ((s.object o).own + (s.holders [] o).card)) :
    ∃ next, s.set v target = .ok next ∧ Settled next := by
  simp only [Heap.set,Heap.write_live mem,ok_bind]
  cases target with
  | none => exact ⟨s,by rw [Heap.point_null null]; rfl,settled⟩
  | some o =>
    obtain ⟨alive,fits⟩ := admits o rfl
    have counted := settled.sound.counted o alive
    have kept := settled.sound.kept o alive
    have small : (s.object o).refCount + 1 < 2 ^ 31 := by
      simp only [Fits,reduceCtorEq,if_false] at fits counted
      omega
    have added : (s.point v (some o)).addRef o = .ok _ := Heap.count_alive 1 alive (by simp only [Heap.point]; omega) small
    have sound : Sound [] (some o) (s.change o fun object => { object with refCount := (s.object o).refCount + 1 }) := by
      refine settled.sound.recount ?_ (by omega) small fun other apart => by simp [Ne.symm apart]
      simp only [reduceCtorEq,if_false,if_true] at counted ⊢
      omega
    refine ⟨_,added,sound.take ((Heap.alive_change rfl).2 alive) mem (by simp) null,fun other => ?_⟩
    have fate := settled.calm other
    rwa [← Heap.change_field RefCountable.fate (s := s) (y := o) (f := fun object => { object with refCount := (s.object o).refCount + 1 }) rfl]
      at fate

theorem Settled.move (settled : Settled s) (mem : v ∈ s.live) (null : s.ptr v = none) (live : rhs ∈ s.live) :
    ∃ next, (do let s ← s.write v (← s.read rhs); s.write rhs none) = .ok next ∧ Settled next := by
  have cleared : (s.point v (s.ptr rhs)).write rhs none = .ok ((s.point v (s.ptr rhs)).point rhs none) := Heap.write_live live
  simp only [Heap.read_live live,Heap.write_live mem,cleared,ok_bind]
  refine ⟨_,rfl,?_,settled.calm⟩
  cases points : s.ptr rhs with
  | none =>
    rw [Heap.point_null null,Heap.point_null points]
    exact settled.sound
  | some o =>
    have apart : v ≠ rhs := by
      rintro rfl
      simp [null] at points
    have alive := settled.sound.pointing rhs live (by simp) o points
    exact ((settled.sound.letGo live (by simp) points).take alive mem (by simpa using apart) null).null

theorem Heap.begin_holders (fresh : v ∉ s.live) : (s.begin v).holders [] o = s.holders [] o := by
  ext w
  by_cases same : w = v
  · simp [Heap.begin,same,fresh]
  · simp [Heap.begin,same]

theorem Heap.begin_read (fresh : v ∉ s.live) (live : rhs ∈ s.live) : (s.begin v).read rhs = .ok (s.ptr rhs) := by
  have apart : rhs ≠ v := fun same => fresh (same ▸ live)
  have points : (s.begin v).ptr rhs = s.ptr rhs := Function.update_of_ne apart ..
  rw [← points]
  exact Heap.read_live (Finset.mem_insert_of_mem live)

theorem Settled.begin (settled : Settled s) (loose : v.owner = none) (fresh : v ∉ s.live) : Settled (s.begin v) := by
  refine ⟨⟨fun o alive => ?_,settled.sound.kept,fun w live apart o points => ?_,settled.sound.given,fun o alive index less => ?_,
    fun o index live => ?_⟩,settled.calm⟩
  · rw [Heap.begin_holders fresh]
    exact settled.sound.counted o alive
  · by_cases same : w = v
    · simp [Heap.begin,same] at points
    · exact settled.sound.pointing w (Finset.mem_of_mem_insert_of_ne live same) apart o (by simpa [Heap.begin,same] using points)
  · exact Finset.mem_insert_of_mem (settled.sound.members o alive index less)
  · refine settled.sound.owner o index (Finset.mem_of_mem_insert_of_ne live ?_)
    rintro rfl
    cases loose

@[simp] theorem mem_membersOf {members : Nat} : w ∈ membersOf o members ↔ ∃ index < members, w = .member o index := by
  simp [membersOf,eq_comm]

theorem Settled.create (settled : Settled s) (members : Nat) : Settled (s.create members) := by
  have alive : ∀ o, (s.create members).Alive o ↔ s.Alive o ∨ o = s.made := by
    intro o
    by_cases same : o = s.made
    · simp [Heap.Alive,Heap.create,same]
    · simp only [Heap.Alive,Heap.create,Function.update_of_ne same,same,or_false]
      exact and_congr_left fun _ => by omega
  have points : ∀ w ∈ (s.create members).live, ∀ o, (s.create members).ptr w = some o ↔ w ∈ s.live ∧ s.ptr w = some o := by
    intro w live o
    simp only [Heap.create,Finset.mem_union,mem_membersOf] at live ⊢
    by_cases new : w.owner = some s.made
    · cases w with
      | loose name => cases new
      | member object index =>
        cases new
        have absent : SharedPtr.member s.made index ∉ s.live := fun this => by
          have made := (settled.sound.owner _ _ this).2.1
          omega
        simp [SharedPtr.owner,absent]
    · have old : w ∈ s.live := by
        refine live.resolve_right ?_
        rintro ⟨index,_,rfl⟩
        exact new rfl
      simp [new,old]
  have holders : ∀ o, (s.create members).holders [] o = s.holders [] o := by
    intro o
    ext w
    simp only [Heap.mem_holders,List.not_mem_nil,not_false_eq_true,true_and]
    constructor
    · rintro ⟨live,at_⟩
      exact (points w live o).1 at_
    · rintro ⟨live,at_⟩
      have still : w ∈ (s.create members).live := Finset.mem_union_left _ live
      exact ⟨still,(points w still o).2 ⟨live,at_⟩⟩
  have other : ∀ o, s.Alive o → (s.create members).object o = s.object o := fun o alive =>
    Function.update_of_ne (Nat.ne_of_lt alive.1) ..
  have created : (s.create members).object s.made = { members := members } := Function.update_self ..
  have unheld : s.holders [] s.made = ∅ := by
    refine Finset.eq_empty_of_forall_notMem fun w mem => ?_
    obtain ⟨live,fresh,at_⟩ := Heap.mem_holders.1 mem
    exact Nat.lt_irrefl _ (settled.sound.pointing w live fresh _ at_).1
  refine ⟨⟨fun o now => ?_,fun o now => ?_,fun w live apart o at_ => ?_,fun o less dead => ?_,fun o now index less => ?_,fun o index live => ?_⟩,
    fun o => ?_⟩
  · rw [holders]
    rcases (alive o).1 now with before | rfl
    · rw [other o before]
      exact settled.sound.counted o before
    · simp [created,unheld,RefCountable.own]
  · rcases (alive o).1 now with before | rfl
    · rw [other o before]
      exact settled.sound.kept o before
    · simp [created]
  · obtain ⟨before,at_⟩ := (points w live o).1 at_
    exact (alive o).2 (.inl (settled.sound.pointing w before apart o at_))
  · have apart : o ≠ s.made := fun same => dead ((alive o).2 (.inr same))
    have less_ : o < s.made + 1 := less
    have same : (s.create members).object o = s.object o := Function.update_of_ne apart ..
    rw [same]
    exact settled.sound.given o (by omega) fun before => dead ((alive o).2 (.inl before))
  · rcases (alive o).1 now with before | rfl
    · rw [other o before] at less
      exact Finset.mem_union_left _ (settled.sound.members o before index less)
    · rw [created] at less
      exact Finset.mem_union_right _ (mem_membersOf.2 ⟨index,less,rfl⟩)
  · rcases Finset.mem_union.1 live with before | new
    · obtain ⟨inside,made,unfreed⟩ := settled.sound.owner o index before
      have same : (s.create members).object o = s.object o := Function.update_of_ne (Nat.ne_of_lt made) ..
      rw [same]
      exact ⟨inside,Nat.lt_succ_of_lt made,unfreed⟩
    · obtain ⟨_,less,⟨⟩⟩ := mem_membersOf.1 new
      rw [created]
      exact ⟨less,Nat.lt_succ_self _,by simp⟩
  · by_cases same : o = s.made
    · rw [same,created]
      simp
    · have kept : (s.create members).object o = s.object o := Function.update_of_ne same ..
      rw [kept]
      exact settled.calm o

theorem Sound.giveUp (sound : Sound [] none s) (alive : s.Alive o) (kept : (s.object o).given = false) : Sound [] (some o) (s.giveUp o) := by
  have counted := sound.counted o alive
  refine sound.change rfl rfl (fun _ => rfl) ?_ (sound.kept o alive) fun other apart => by simp [Ne.symm apart]
  simp only [RefCountable.own,kept,reduceCtorEq,Bool.false_eq_true,if_false,if_true] at counted ⊢
  omega

theorem Settled.giveUp (settled : Settled s) (alive : s.Alive o) (kept : (s.object o).given = false) :
    ∃ next, Heap.releaseRef (s.made + 1) (s.giveUp o) o = .ok next ∧ Settled next := by
  have ready : Ready (fun _ => True) (.loose 0) (s.giveUp o) [] (s.giveUp o) := ⟨.refl,by simp⟩
  have closed : Closed (fun _ => True) (.loose 0) (s.giveUp o) := fun _ _ _ _ => trivial
  have cascade := release_ref closed _ [] _ o ready (settled.sound.giveUp alive kept) ((Heap.alive_change rfl).2 alive) (alives_le (s := s.giveUp o))
  obtain ⟨next,done,sound,_,calm⟩ := cascade.resolve_right fun lost => by obtain ⟨_,⟨⟩,_⟩ := lost.owner
  refine ⟨next,done,sound,fun other dying => settled.calm other ?_⟩
  have before := calm other dying
  rwa [Heap.giveUp,Heap.change_field RefCountable.fate rfl] at before

theorem Settled.destruct (settled : Settled s) (loose : v.owner = none) (mem : v ∈ s.live) :
    ∃ next, s.destructBy (Heap.releaseRef (s.made + 1)) v = .ok next ∧ Settled next := by
  have closed : Closed (fun _ => True) v s := fun _ _ _ _ => trivial
  have nowhere : ∀ holder, v.owner ≠ some holder := by simp [loose]
  obtain ⟨t,done,sound,_,_,calm⟩ := settled.releaseSafe closed mem fun holder owner => absurd owner (nowhere holder)
  rw [Heap.release] at done
  simp only [Heap.destructBy,done,ok_bind]
  exact ⟨_,rfl,sound.null.drop (Function.update_self ..) fun holder owner => absurd owner (nowhere holder),calm⟩

open Classical in
theorem Released.holders (released : Released s lhs t) : t.holders [] o = (s.holders [lhs] o).filter fun w => s.Stays lhs w := by
  ext w
  simp only [Heap.mem_holders,Finset.mem_filter,List.not_mem_nil,List.mem_singleton,not_false_eq_true,true_and]
  constructor
  · rintro ⟨live,points⟩
    obtain ⟨before,stays⟩ := released.left w live
    have apart : w ≠ lhs := by
      rintro rfl
      simp [released.null] at points
    exact ⟨⟨before,apart,(released.ptr w live apart).symm.trans points⟩,stays⟩
  · rintro ⟨⟨before,apart,points⟩,stays⟩
    have live := released.stays w before stays
    exact ⟨live,(released.ptr w live apart).trans points⟩

theorem Released.read (released : Released s lhs t) (right : rhs ∈ s.live) (stays : s.Stays lhs rhs) (apart : rhs ≠ lhs) :
    t.read rhs = .ok (s.ptr rhs) := by
  have still := released.stays rhs right stays
  rw [← released.ptr rhs still apart]
  exact Heap.read_live still

theorem Released.alive (released : Released s lhs t) (right : rhs ∈ s.live) (stays : s.Stays lhs rhs) (apart : rhs ≠ lhs)
    (points : s.ptr rhs = some o) : t.Alive o := by
  have still := released.stays rhs right stays
  exact released.settled.sound.pointing rhs still (by simp) o ((released.ptr rhs still apart).trans points)

theorem Settled.copyAssign (settled : Settled s) (enabled : s.Enabled (.copyAssign lhs rhs)) (careful : s.Careful (.copyAssign lhs rhs)) :
    ∃ next, s.perform (.copyAssign lhs rhs) = .ok next ∧ Settled next := by
  obtain ⟨left,right⟩ := enabled
  simp only [Heap.perform,Heap.read_live left,Heap.read_live right,ok_bind]
  by_cases same : s.ptr lhs = s.ptr rhs
  · simp only [same,ne_eq,not_true,if_false]
    exact ⟨s,rfl,settled⟩
  · obtain ⟨⟨outlives,stays⟩,fits⟩ := careful same
    obtain ⟨t,done,released⟩ := settled.assign left outlives
    have apart : rhs ≠ lhs := fun this => same (this ▸ rfl)
    simp only [same,ne_eq,not_false_eq_true,if_true,done,released.read right stays apart,ok_bind]
    refine released.settled.set released.mem released.null fun o points => ⟨released.alive right stays apart points,?_⟩
    rw [released.own o,released.holders]
    exact fits o points

theorem Settled.moveAssign (settled : Settled s) (enabled : s.Enabled (.moveAssign lhs rhs)) (careful : s.Careful (.moveAssign lhs rhs)) :
    ∃ next, s.perform (.moveAssign lhs rhs) = .ok next ∧ Settled next := by
  obtain ⟨t,done,released⟩ := settled.assign enabled.1 careful.1
  simp only [Heap.perform,done,ok_bind]
  exact released.settled.move released.mem released.null (released.stays rhs enabled.2 careful.2)

theorem Settled.construct (settled : Settled s) (loose : v.owner = none) (fresh : v ∉ s.live)
    (admits : ∀ o ∈ target, s.Alive o ∧ Fits ((s.object o).own + (s.holders [] o).card)) :
    ∃ next, (s.begin v).set v target = .ok next ∧ Settled next := by
  refine (settled.begin loose fresh).set (Finset.mem_insert_self ..) (Function.update_self ..) fun o mem => ?_
  rw [Heap.begin_holders fresh]
  exact admits o mem

theorem Settled.perform (settled : Settled s) (call : Call) (enabled : s.Enabled call) (careful : s.Careful call) :
    ∃ next, s.perform call = .ok next ∧ Settled next := by
  cases call with
  | create members => exact ⟨_,rfl,settled.create members⟩
  | construct v target =>
    obtain ⟨⟨loose,fresh⟩,alive⟩ := enabled
    exact settled.construct loose fresh fun o mem => ⟨alive o mem,careful o mem⟩
  | copyConstruct v rhs =>
    obtain ⟨⟨loose,fresh⟩,live⟩ := enabled
    simp only [Heap.perform,Heap.begin_read fresh live,ok_bind]
    exact settled.construct loose fresh fun o mem => ⟨settled.sound.pointing rhs live (by simp) o mem,careful o mem⟩
  | moveConstruct v rhs =>
    obtain ⟨⟨loose,fresh⟩,live⟩ := enabled
    exact (settled.begin loose fresh).move (Finset.mem_insert_self ..) (Function.update_self ..) (Finset.mem_insert_of_mem live)
  | copyAssign lhs rhs => exact settled.copyAssign enabled careful
  | moveAssign lhs rhs => exact settled.moveAssign enabled careful
  | destruct v => exact settled.destruct enabled.1 enabled.2
  | releaseRef o => exact settled.giveUp enabled.1 enabled.2

theorem Settled.overflow (settled : Settled s) (alive : s.Alive o) (full : ¬Fits ((s.object o).own + (s.holders [] o).card))
    (done : s.set v (some o) = .ok t) : ¬Correct t := by
  intro correct
  obtain ⟨written,write,added⟩ := bind_inv done
  obtain ⟨_,rfl⟩ := Heap.write_inv write
  have unfreed : ((s.point v (some o)).object o).fate ≠ .freed := by
    have fate : ((s.point v (some o)).object o).fate = .alive := alive.2
    simp [fate]
  simp only [Heap.addRef,Heap.count,unfreed,if_false,Except.ok.injEq] at added
  subst added
  have counted := settled.sound.counted o alive
  have kept := settled.sound.kept o alive
  have top : (s.object o).refCount + 1 = 2 ^ 31 := by
    simp only [Fits,reduceCtorEq,if_false] at full counted
    omega
  have after := correct.counted o alive.1 (by rw [Heap.change_field RefCountable.fate rfl]; exact unfreed)
  have wrapped : int32 (2 ^ 31) = -2 ^ 31 := by decide
  have before : ((s.point v (some o)).object o).refCount = (s.object o).refCount := rfl
  rw [Heap.change_object] at after
  simp only [before,top,wrapped] at after
  omega

theorem Settled.overflow_construct (settled : Settled s) (loose : v.owner = none) (fresh : v ∉ s.live) (alive : ∀ o ∈ target, s.Alive o)
    (full : ¬∀ o ∈ target, Fits ((s.object o).own + (s.holders [] o).card)) (done : (s.begin v).set v target = .ok t) : ¬Correct t := by
  push Not at full
  obtain ⟨o,points,full⟩ := full
  cases points
  refine (settled.begin loose fresh).overflow (alive o rfl) ?_ done
  rw [Heap.begin_holders fresh]
  exact full

theorem Released.read_lost (released : Released s lhs t) (goes : ¬s.Stays lhs rhs) : t.read rhs ≠ .ok target := by
  intro done
  simp only [Heap.read] at done
  split_ifs at done with live
  exact goes (released.left rhs live).2

theorem Settled.copyAssign_broken (settled : Settled s) (enabled : s.Enabled (.copyAssign lhs rhs)) (careless : ¬s.Careful (.copyAssign lhs rhs))
    (done : s.perform (.copyAssign lhs rhs) = .ok t) : ¬Correct t := by
  classical
  obtain ⟨left,right⟩ := enabled
  simp only [Heap.Careful,Classical.not_imp] at careless
  obtain ⟨differ,careless⟩ := careless
  simp only [Heap.perform,Heap.read_live left,Heap.read_live right,ok_bind,differ,ne_eq,not_false_eq_true,if_true] at done
  obtain ⟨middle,release,done⟩ := bind_inv done
  obtain ⟨target,read,done⟩ := bind_inv done
  by_cases outlives : s.Stays lhs lhs
  swap
  · exact absurd release (settled.release_lost left outlives)
  obtain ⟨after,released_,released⟩ := settled.assign left outlives
  cases released_.symm.trans release
  by_cases stays : s.Stays lhs rhs
  swap
  · exact absurd read (released.read_lost stays)
  have apart : rhs ≠ lhs := fun same => differ (same ▸ rfl)
  cases (released.read right stays apart).symm.trans read
  have full : ∃ o, s.ptr rhs = some o ∧ ¬Fits ((s.object o).own + ((s.holders [lhs] o).filter fun w => s.Stays lhs w).card) := by
    by_contra room
    push Not at room
    exact careless ⟨⟨outlives,stays⟩,room⟩
  obtain ⟨o,points,full⟩ := full
  rw [points] at done
  refine released.settled.overflow (released.alive right stays apart points) ?_ done
  rw [released.own o,released.holders]
  exact full

theorem Settled.moveAssign_broken (settled : Settled s) (enabled : s.Enabled (.moveAssign lhs rhs)) (careless : ¬s.Careful (.moveAssign lhs rhs)) :
    s.perform (.moveAssign lhs rhs) ≠ .ok t := by
  intro done
  obtain ⟨middle,release,done⟩ := bind_inv done
  obtain ⟨target,read,done⟩ := bind_inv done
  by_cases outlives : s.Stays lhs lhs
  · obtain ⟨after,released_,released⟩ := settled.assign enabled.1 outlives
    cases released_.symm.trans release
    exact released.read_lost (fun stays => careless ⟨outlives,stays⟩) read
  · exact settled.release_lost enabled.1 outlives release

theorem Settled.broken (settled : Settled s) (call : Call) (enabled : s.Enabled call) (careless : ¬s.Careful call)
    (done : s.perform call = .ok t) : ¬Correct t := by
  cases call with
  | create members => exact absurd trivial careless
  | construct v target =>
    obtain ⟨⟨loose,fresh⟩,alive⟩ := enabled
    exact settled.overflow_construct loose fresh alive careless done
  | copyConstruct v rhs =>
    obtain ⟨⟨loose,fresh⟩,live⟩ := enabled
    obtain ⟨target,read,done⟩ := bind_inv done
    cases (Heap.begin_read fresh live).symm.trans read
    exact settled.overflow_construct loose fresh (fun o mem => settled.sound.pointing rhs live (by simp) o mem) careless done
  | moveConstruct v rhs => exact absurd trivial careless
  | copyAssign lhs rhs => exact settled.copyAssign_broken enabled careless done
  | moveAssign lhs rhs => exact absurd done (settled.moveAssign_broken enabled careless)
  | destruct v => exact absurd trivial careless
  | releaseRef o => exact absurd trivial careless

theorem settled_start : Settled {} :=
  ⟨⟨fun _ alive => absurd alive.1 (Nat.not_lt_zero _),fun _ alive => absurd alive.1 (Nat.not_lt_zero _),by simp,
    fun _ less => absurd less (Nat.not_lt_zero _),fun _ alive => absurd alive.1 (Nat.not_lt_zero _),by simp⟩,by simp⟩

theorem Settled.run (settled : Settled s) {calls : List Call} (enabled : s.Follows Heap.Enabled calls) :
    (∀ earlier, earlier <+: calls → ∃ next, s.run earlier = .ok next ∧ Correct next) ↔ s.Follows Heap.Careful calls := by
  induction calls generalizing s with
  | nil =>
    refine ⟨fun _ => trivial,fun _ earlier early => ?_⟩
    rw [List.prefix_nil.1 early]
    exact ⟨s,rfl,settled.correct⟩
  | cons call later ih =>
    obtain ⟨admitted,rest⟩ := enabled
    have runs : ∀ middle, s.perform call = .ok middle → ∀ earlier, s.run (call :: earlier) = middle.run earlier := by
      intro middle done earlier
      simp only [Heap.run,List.foldlM_cons,done,ok_bind]
    constructor
    · intro good
      have careful : s.Careful call := by
        by_contra careless
        obtain ⟨next,done,correct⟩ := good [call] ⟨later,rfl⟩
        obtain ⟨middle,performed,finished⟩ := bind_inv done
        cases finished
        exact settled.broken call admitted careless performed correct
      obtain ⟨middle,done,settledMiddle⟩ := settled.perform call admitted careful
      refine ⟨careful,fun next performed => ?_⟩
      cases done.symm.trans performed
      refine (ih settledMiddle (rest middle done)).1 fun earlier early => ?_
      have whole := good (call :: earlier) ((List.prefix_cons_inj call).2 early)
      rwa [runs middle done] at whole
    · rintro ⟨careful,follows⟩ earlier early
      obtain ⟨middle,done,settledMiddle⟩ := settled.perform call admitted careful
      cases earlier with
      | nil => exact ⟨s,rfl,settled.correct⟩
      | cons first earlier =>
        obtain ⟨rfl,shorter⟩ := List.cons_prefix_cons.1 early
        rw [runs middle done]
        exact (ih settledMiddle (rest middle done)).2 (follows middle done) earlier shorter

-- After any of the calls of a run.
theorem counts_exact (calls : List Call) (enabled : Heap.Follows Heap.Enabled {} calls) :
    (∀ earlier, earlier <+: calls → ∃ s, Heap.run {} earlier = .ok s ∧ Correct s) ↔ Heap.Follows Heap.Careful {} calls :=
  settled_start.run enabled

-- A list of two whose head p holds, and then p = p->next.
def listOfTwo : List Call := [.create 1,.create 0,.construct (.loose 0) (some 0),.releaseRef 0,.construct (.loose 1) (some 1),.releaseRef 1,
  .copyAssign (.member 0 0) (.loose 1),.destruct (.loose 1)]

def takeNext : List Call := listOfTwo ++ [.copyAssign (.loose 0) (.member 0 0)]

open Classical in
theorem Heap.stays_fits {v : SharedPtr} {o : Nat} (fits : Fits ((s.object o).own + (s.holders [v] o).card)) :
    Fits ((s.object o).own + ((s.holders [v] o).filter fun w => s.Stays v w).card) := by
  have fewer := Finset.card_filter_le (s.holders [v] o) fun w => s.Stays v w
  unfold Fits at fits ⊢
  omega

theorem listOfTwo_careful : Heap.Follows Heap.Careful {} listOfTwo := by
  refine ⟨trivial,fun next done => ?_⟩
  cases done
  refine ⟨trivial,fun next done => ?_⟩
  cases done
  refine ⟨?_,fun next done => ?_⟩
  · rintro o ⟨⟩
    unfold Fits
    decide +kernel
  cases done
  refine ⟨trivial,fun next done => ?_⟩
  cases done
  refine ⟨?_,fun next done => ?_⟩
  · rintro o ⟨⟩
    unfold Fits
    decide +kernel
  cases done
  refine ⟨trivial,fun next done => ?_⟩
  cases done
  refine ⟨fun _ => ⟨⟨?_,?_⟩,?_⟩,fun _ _ => ⟨trivial,fun _ _ => trivial⟩⟩
  · rintro holder ⟨⟩ falls
    cases falls with
    | unheld _ _ owned => exact owned (.loose 0) (by decide +kernel) rfl
  · rintro holder ⟨⟩
  · rintro o ⟨⟩
    refine Heap.stays_fits ?_
    unfold Fits
    decide +kernel

theorem counts_exact_list : ∃ s, Heap.run {} listOfTwo = .ok s ∧ Correct s :=
  (counts_exact listOfTwo (by decide +kernel)).mpr listOfTwo_careful listOfTwo (List.prefix_refl _)

theorem assign_from_released :
    ¬∀ calls, Heap.Follows Heap.Enabled {} calls → ∀ earlier, earlier <+: calls → ∃ s, Heap.run {} earlier = .ok s ∧ Correct s := by
  intro all
  obtain ⟨s,done,_⟩ := all takeNext (by decide +kernel) takeNext (List.prefix_refl _)
  have dangling : (Heap.run {} takeNext).isOk = false := by decide +kernel
  rw [done] at dangling
  cases dangling

end IocpChatServer.ServerCore.RefCounting
