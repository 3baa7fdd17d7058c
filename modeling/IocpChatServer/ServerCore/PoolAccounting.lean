import IocpChatServer.ServerCore.MemoryPool

namespace IocpChatServer.ServerCore.MemoryPool
open Foundations TransitionSystem

def Place.block : Place → Option Nat
  | .check _ _ block | .unreserve _ _ block | .use _ _ block | .attach _ block | .freeLarge block | .clear _ block | .push _ block => some block
  | .outside | .pop _ _ | .malloc _ _ | .mallocLarge _ | .unuse _ | .reserve _ => none

-- Who has a block: the program, the free list of a pool, or a thread in Allocate or Release.
inductive Keeper (Thread : Type _) where
  | program
  | list (pool : Nat)
  | thread (thread : Thread)

namespace Pools
variable {Thread : Type _} [DecidableEq Thread]

def Keeps (s : Pools Thread) : Keeper Thread → Nat → Prop
  | .program,block => block ∈ s.live
  | .list pool,block => block ∈ s.header pool
  | .thread t,block => (s.place t).block = some block

def Serves (s : Pools Thread) (size : Int32) (block : Nat) : Prop :=
  maxAllocSize < withHeader size ∧ s.capacity block = (withHeader size).toInt ∨
    ∃ pool : Nat, entry (withHeader size) = some pool ∧ s.capacity block = pool

def Right (s : Pools Thread) : Keeper Thread → Nat → Prop
  | .program,block => s.Serves (s.requested block) block ∧ s.allocSize block = withHeader (s.requested block)
  | .list pool,block => s.capacity block = pool ∧ s.allocSize block = 0
  | .thread _,_ => True

def Fits (s : Pools Thread) : Place → Prop
  | .outside | .freeLarge _ | .unuse _ | .reserve _ => True
  | .pop pool size | .malloc pool size => entry (withHeader size) = some pool
  | .check pool size block => entry (withHeader size) = some pool ∧ s.capacity block = pool ∧ s.allocSize block = 0
  | .unreserve pool size block | .use pool size block => entry (withHeader size) = some pool ∧ s.capacity block = pool
  | .mallocLarge size => maxAllocSize < withHeader size
  | .attach size block => s.Serves size block
  | .clear pool block => s.capacity block = pool
  | .push pool block => s.capacity block = pool ∧ s.allocSize block = 0

structure Placed (s : Pools Thread) : Prop where
  one : ∀ block k l, s.Keeps k block → s.Keeps l block → k = l
  nodup : ∀ pool, (s.header pool).Nodup
  allocated : ∀ block k, s.Keeps k block → block ∈ s.allocated
  right : ∀ block k, s.Keeps k block → s.Right k block
  fits : ∀ t, s.Fits (s.place t)
  popped : s.failure ≠ some .popAssert

variable {s next : Pools Thread} {t : Thread} {place : Place} {pool b : Nat} {size : Int32} {event : Event Thread} {events : List (Event Thread)}

omit [DecidableEq Thread] in
theorem Fits.frame (fits : s.Fits place) (same : ∀ c, place.block = some c → next.allocSize c = s.allocSize c ∧ next.capacity c = s.capacity c) :
    next.Fits place := by
  cases place with
  | outside | freeLarge | unuse | reserve | pop | malloc | mallocLarge => exact fits
  | check pool size block | unreserve pool size block | use pool size block | attach size block | clear pool block | push pool block =>
    obtain ⟨header,capacity⟩ := same block rfl
    simp only [Fits,Serves,header,capacity] at fits ⊢
    exact fits

-- A step of `t` that makes `l` the keeper of `b`, or nobody, and leaves all other blocks where
-- they are.
structure Moves (s : Pools Thread) (t : Thread) (b : Nat) (l : Keeper Thread) (next : Pools Thread) : Prop where
  live : ∀ c, c ≠ b → c ∈ next.live → c ∈ s.live
  listed : ∀ c pool, c ≠ b → c ∈ next.header pool → c ∈ s.header pool
  hand : ∀ c, (next.place t).block = some c → c = b
  allocated : ∀ c, c ≠ b → c ∈ s.allocated → c ∈ next.allocated
  same : ∀ c, c ≠ b → next.allocSize c = s.allocSize c ∧ next.capacity c = s.capacity c ∧ next.requested c = s.requested c
  places : ∀ u, u ≠ t → next.place u = s.place u ∧ (s.place u).block ≠ some b
  mine : ∀ k, next.Keeps k b → k = l
  there : next.Keeps l b → b ∈ next.allocated ∧ next.Right l b

omit [DecidableEq Thread] in
theorem Moves.others {l : Keeper Thread} (moves : Moves s t b l next) {c : Nat} (apart : c ≠ b) {k : Keeper Thread} (keeps : next.Keeps k c) :
    s.Keeps k c := by
  cases k with
  | program => exact moves.live c apart keeps
  | list pool => exact moves.listed c pool apart keeps
  | thread u =>
    by_cases same : u = t
    · subst same
      exact absurd (moves.hand c keeps) apart
    · simp only [Keeps,(moves.places u same).1] at keeps
      exact keeps

omit [DecidableEq Thread] in
theorem Right.frame {k : Keeper Thread} {c : Nat} (right : s.Right k c)
    (same : next.allocSize c = s.allocSize c ∧ next.capacity c = s.capacity c ∧ next.requested c = s.requested c) : next.Right k c := by
  obtain ⟨header,capacity,requested⟩ := same
  cases k with
  | program | list =>
    simp only [Right,Serves,header,capacity,requested] at right ⊢
    exact right
  | thread => trivial

omit [DecidableEq Thread] in
theorem Placed.moved {l : Keeper Thread} (placed : Placed s) (moves : Moves s t b l next) (nodup : ∀ pool, (next.header pool).Nodup)
    (fits : next.Fits (next.place t)) (popped : next.failure = s.failure) : Placed next where
  one c k m first second := by
    by_cases same : c = b
    · subst same
      exact (moves.mine k first).trans (moves.mine m second).symm
    · exact placed.one c k m (moves.others same first) (moves.others same second)
  nodup := nodup
  allocated c k keeps := by
    by_cases same : c = b
    · subst same
      cases moves.mine k keeps
      exact (moves.there keeps).1
    · exact moves.allocated c same (placed.allocated c k (moves.others same keeps))
  right c k keeps := by
    by_cases same : c = b
    · subst same
      cases moves.mine k keeps
      exact (moves.there keeps).2
    · exact (placed.right c k (moves.others same keeps)).frame (moves.same c same)
  fits u := by
    by_cases mine : u = t
    · subst mine
      exact fits
    · obtain ⟨stays,elsewhere⟩ := moves.places u mine
      rw [stays]
      refine (placed.fits u).frame fun c hand => ?_
      obtain ⟨header,capacity,_⟩ := moves.same c fun same => elsewhere (same ▸ hand)
      exact ⟨header,capacity⟩
  popped := popped ▸ placed.popped

omit [DecidableEq Thread] in
theorem Placed.only {k : Keeper Thread} (placed : Placed s) (keeps : s.Keeps k b) (l : Keeper Thread) (apart : k ≠ l) : ¬ s.Keeps l b :=
  fun also => apart (placed.one b k l keeps also)

omit [DecidableEq Thread] in
theorem Placed.stands (placed : Placed s) (at_ : s.place t = place) : s.Fits place := by
  rw [← at_]
  exact placed.fits t

omit [DecidableEq Thread] in
theorem Placed.unallocated (placed : Placed s) (fresh : b ∉ s.allocated) (k : Keeper Thread) : ¬ s.Keeps k b :=
  fun keeps => fresh (placed.allocated b k keeps)

omit [DecidableEq Thread] in
theorem handed {k l : Keeper Thread} (unkept : ∀ m, k ≠ m → ¬ s.Keeps m b) (left : next.Keeps k b → k = l)
    (live : b ∈ next.live → .program = l ∨ b ∈ s.live) (listed : ∀ pool, b ∈ next.header pool → .list pool = l ∨ b ∈ s.header pool)
    (places : ∀ u, next.place u = s.place u ∨ .thread u = k ∨ .thread u = l) (m : Keeper Thread) (after : next.Keeps m b) : m = l := by
  by_cases old : k = m
  · subst old
    exact left after
  · cases m with
    | program => exact (live after).resolve_right (unkept _ old)
    | list pool => exact (listed pool after).resolve_right (unkept _ old)
    | thread u =>
      rcases places u with same | same | same
      · simp only [Keeps,same] at after
        exact absurd after (unkept _ old)
      · exact absurd same.symm old
      · exact same

theorem goto_places (u : Thread) : (s.goto t place).place u = s.place u ∨ Keeper.thread u = .thread t := by
  by_cases same : u = t
  · exact .inr (congrArg Keeper.thread same)
  · exact .inl (Function.update_of_ne same _ _)

theorem Placed.walked (placed : Placed s) (useCount reserveCount : Nat → Int32) (same : place.block = (s.place t).block) (fits : s.Fits place) :
    Placed ({s with useCount := useCount,reserveCount := reserveCount}.goto t place) := by
  have keeps (k : Keeper Thread) (c : Nat)
      (after : ({s with useCount := useCount,reserveCount := reserveCount}.goto t place).Keeps k c) : s.Keeps k c := by
    cases k with
    | program | list => exact after
    | thread u =>
      by_cases mine : u = t
      · subst mine
        simpa [Keeps,goto,same] using after
      · simpa [Keeps,goto,mine] using after
  refine ⟨fun c k l one two => placed.one c k l (keeps k c one) (keeps l c two),placed.nodup,
    fun c k after => placed.allocated c k (keeps k c after),fun c k after => ?_,fun u => ?_,placed.popped⟩
  · exact (placed.right c k (keeps k c after)).frame ⟨rfl,rfl,rfl⟩
  · by_cases mine : u = t
    · subst mine
      simp only [goto,Function.update_self]
      exact fits.frame fun _ _ => ⟨rfl,rfl⟩
    · simp only [goto,Function.update_of_ne mine]
      exact (placed.fits u).frame fun _ _ => ⟨rfl,rfl⟩

theorem popped_moves {rest : List Nat} (placed : Placed s) (at_ : s.place t = .pop pool size) (top : s.header pool = b :: rest) :
    Moves s t b (.thread t) ({s with header := Function.update s.header pool rest}.goto t (.check pool size b)) := by
  have keeps : s.Keeps (.list pool) b := by simp [Keeps,top]
  have elsewhere (u : Thread) : (s.place u).block ≠ some b := placed.only keeps (.thread u) (by simp)
  have nodup := placed.nodup pool
  rw [top,List.nodup_cons] at nodup
  refine ⟨fun _ _ => id,fun c other apart member => ?_,fun c hand => ?_,fun _ _ => id,fun _ _ => ⟨rfl,rfl,rfl⟩,fun u apart => ?_,
    handed (placed.only keeps) (fun after => ?_) .inr (fun other member => ?_) fun u => (goto_places u).imp_right .inr,
    fun _ => ⟨placed.allocated b _ keeps,trivial⟩⟩
  · by_cases same : other = pool
    · subst same
      simp only [goto,Function.update_self] at member
      exact top ▸ List.mem_cons_of_mem _ member
    · simpa [goto,same] using member
  · simp only [goto,Function.update_self,Place.block,Option.some.injEq] at hand
    exact hand.symm
  · exact ⟨Function.update_of_ne apart _ _,elsewhere u⟩
  · simp only [Keeps,goto,Function.update_self] at after
    exact absurd after nodup.1
  · by_cases same : other = pool
    · subst same
      simp only [goto,Function.update_self] at member
      exact absurd member nodup.1
    · exact .inr (by simpa [goto,same] using member)

theorem popped_placed {rest : List Nat} (placed : Placed s) (at_ : s.place t = .pop pool size) (top : s.header pool = b :: rest) :
    Placed ({s with header := Function.update s.header pool rest}.goto t (.check pool size b)) := by
  have asked := placed.stands at_
  have listed := placed.right b (.list pool) (by simp [Keeps,top])
  refine placed.moved (popped_moves placed at_ top) (fun other => ?_) ?_ rfl
  · by_cases same : other = pool
    · subst same
      have nodup := placed.nodup other
      rw [top] at nodup
      simpa [goto] using nodup.of_cons
    · simpa [goto,same] using placed.nodup other
  · simp only [goto,Function.update_self]
    exact ⟨asked,listed⟩

theorem malloc_placed {capacity : Int} (placed : Placed s) (fresh : b ∉ s.allocated) (hand : place.block = some b)
    (fits : Fits {s with
      allocated := insert b s.allocated
      capacity := Function.update s.capacity b capacity} place) : Placed ({s with
      allocated := insert b s.allocated
      capacity := Function.update s.capacity b capacity}.goto t place) := by
  have nobody := placed.unallocated fresh
  refine placed.moved (b := b) (l := .thread t) ⟨fun _ _ => id,fun _ _ _ => id,fun c there => ?_,fun c _ => Finset.mem_insert_of_mem,
    fun c apart => ⟨rfl,by simp [goto,apart],rfl⟩,fun u apart => ⟨Function.update_of_ne apart _ _,nobody (.thread u)⟩,
    handed (fun m _ => nobody m) (fun _ => rfl) .inr (fun _ => .inr) fun u => (goto_places u).imp_right .inr,
    fun _ => ⟨Finset.mem_insert_self _ _,trivial⟩⟩ placed.nodup ?_ rfl
  · simp only [goto,Function.update_self,hand,Option.some.injEq] at there
    exact there.symm
  · simp only [goto,Function.update_self]
    exact fits.frame fun _ _ => ⟨rfl,rfl⟩

theorem attached_placed (placed : Placed s) (at_ : s.place t = .attach size b) : Placed ({s with
      allocSize := Function.update s.allocSize b (withHeader size)
      live := insert b s.live
      requested := Function.update s.requested b size}.goto t .outside) := by
  have keeps : s.Keeps (.thread t) b := by simp [Keeps,at_,Place.block]
  have serves := placed.stands at_
  refine placed.moved (b := b) (l := .program) ⟨fun c apart member => ?_,fun _ _ _ => id,fun c there => ?_,fun _ _ => id,
    fun c apart => ⟨by simp [goto,apart],rfl,by simp [goto,apart]⟩,fun u apart => ⟨Function.update_of_ne apart _ _,?_⟩,
    handed (placed.only keeps) (fun after => ?_) (fun _ => .inl rfl) (fun _ => .inr) fun u => (goto_places u).imp_right .inl,
    fun _ => ⟨placed.allocated b _ keeps,?_⟩⟩ placed.nodup ?_ rfl
  · exact (Finset.mem_insert.mp member).resolve_left apart
  · simp [goto,Place.block] at there
  · exact placed.only keeps (.thread u) (by simpa using Ne.symm apart)
  · simp [Keeps,goto,Place.block] at after
  · simpa [Right,Fits,Serves,goto] using serves
  · simp [goto,Fits]

theorem released_placed (placed : Placed s) (live : b ∈ s.live) (hand : place.block = some b) (fits : s.Fits place) :
    Placed ({s with live := s.live.erase b}.goto t place) := by
  have keeps : s.Keeps .program b := live
  refine placed.moved (b := b) (l := .thread t) ⟨fun c _ member => Finset.mem_of_mem_erase member,fun _ _ _ => id,fun c there => ?_,fun _ _ => id,
    fun _ _ => ⟨rfl,rfl,rfl⟩,fun u apart => ⟨Function.update_of_ne apart _ _,?_⟩,
    handed (placed.only keeps) (fun after => ?_) (fun member => .inr (Finset.mem_of_mem_erase member)) (fun _ => .inr)
      fun u => (goto_places u).imp_right .inr,
    fun _ => ⟨placed.allocated b _ keeps,trivial⟩⟩ placed.nodup ?_ rfl
  · simp only [goto,Function.update_self,hand,Option.some.injEq] at there
    exact there.symm
  · exact placed.only keeps (.thread u) (by simp)
  · simp [Keeps,goto] at after
  · simp only [goto,Function.update_self]
    exact fits.frame fun _ _ => ⟨rfl,rfl⟩

theorem freed_placed (placed : Placed s) (at_ : s.place t = .freeLarge b) :
    Placed ({s with allocated := s.allocated.erase b}.goto t .outside) := by
  have keeps : s.Keeps (.thread t) b := by simp [Keeps,at_,Place.block]
  have mine : ∀ k, ({s with allocated := s.allocated.erase b}.goto t .outside).Keeps k b → k = .thread t :=
    handed (placed.only keeps) (fun _ => rfl) .inr (fun _ => .inr) fun u => (goto_places u).imp_right .inl
  have nobody (k : Keeper Thread) : ¬ ({s with allocated := s.allocated.erase b}.goto t .outside).Keeps k b := by
    intro after
    cases mine k after
    simp [Keeps,goto,Place.block] at after
  refine placed.moved (b := b) (l := .program) ⟨fun _ _ => id,fun _ _ _ => id,fun c there => ?_,fun c apart => Finset.mem_erase_of_ne_of_mem apart,
    fun _ _ => ⟨rfl,rfl,rfl⟩,fun u apart => ⟨Function.update_of_ne apart _ _,?_⟩,fun k after => absurd after (nobody k),
    fun after => absurd after (nobody .program)⟩ placed.nodup ?_ rfl
  · simp [goto,Place.block] at there
  · exact placed.only keeps (.thread u) (by simpa using Ne.symm apart)
  · simp [goto,Fits]

theorem cleared_placed (placed : Placed s) (at_ : s.place t = .clear pool b) :
    Placed ({s with allocSize := Function.update s.allocSize b 0}.goto t (.push pool b)) := by
  have keeps : s.Keeps (.thread t) b := by simp [Keeps,at_,Place.block]
  have capacity := placed.stands at_
  refine placed.moved (b := b) (l := .thread t) ⟨fun _ _ => id,fun _ _ _ => id,fun c there => ?_,fun _ _ => id,
    fun c apart => ⟨by simp [goto,apart],rfl,rfl⟩,fun u apart => ⟨Function.update_of_ne apart _ _,?_⟩,
    handed (placed.only keeps) (fun _ => rfl) .inr (fun _ => .inr) fun u => (goto_places u).imp_right .inl,
    fun _ => ⟨placed.allocated b _ keeps,trivial⟩⟩ placed.nodup ?_ rfl
  · simp only [goto,Function.update_self,Place.block,Option.some.injEq] at there
    exact there.symm
  · exact placed.only keeps (.thread u) (by simpa using Ne.symm apart)
  · simpa [goto,Fits] using capacity

theorem pushed_placed (placed : Placed s) (at_ : s.place t = .push pool b) :
    Placed ({s with header := Function.update s.header pool (b :: s.header pool)}.goto t (.unuse pool)) := by
  have keeps : s.Keeps (.thread t) b := by simp [Keeps,at_,Place.block]
  have content := placed.stands at_
  refine placed.moved (b := b) (l := .list pool) ⟨fun _ _ => id,fun c other apart member => ?_,fun c there => ?_,fun _ _ => id,
    fun c apart => ⟨rfl,rfl,rfl⟩,fun u apart => ⟨Function.update_of_ne apart _ _,?_⟩,
    handed (placed.only keeps) (fun after => ?_) .inr (fun other member => ?_) fun u => (goto_places u).imp_right .inl,
    fun _ => ⟨placed.allocated b _ keeps,content⟩⟩ (fun other => ?_) ?_ rfl
  · by_cases same : other = pool
    · subst same
      simp only [goto,Function.update_self] at member
      exact (List.mem_cons.mp member).resolve_left apart
    · simpa [goto,same] using member
  · simp [goto,Place.block] at there
  · exact placed.only keeps (.thread u) (by simpa using Ne.symm apart)
  · simp [Keeps,goto,Place.block] at after
  · by_cases same : other = pool
    · exact .inl (congrArg Keeper.list same)
    · exact .inr (by simpa [goto,same] using member)
  · by_cases same : other = pool
    · subst same
      simpa [goto] using ⟨placed.only keeps (.list other) (by simp),placed.nodup other⟩
    · simpa [goto,same] using placed.nodup other
  · simp [goto,Fits]

theorem entry_fits {n : Int32} (found : entry n = some pool) : n.toInt ≤ pool ∧ n.toInt ≤ 4096 := by
  unfold entry at found
  split at found
  · obtain ⟨fits,small⟩ := Table.made_fits found
    omega
  · cases found

theorem entry_large {n : Int32} (large : maxAllocSize < n) : entry n = none := by
  cases found : entry n with
  | none => rfl
  | some pool =>
    have small := (entry_fits found).2
    have beyond : (4096 : Int32).toInt < n.toInt := Int32.lt_iff_toInt_lt.mp large
    exact absurd (Int.lt_of_lt_of_le beyond small) (by decide)

theorem step_placed (placed : Placed s) (does : Does s event next) (proper : s.Proper event) : Placed next := by
  cases does with
  | asks outside found => exact placed.walked s.useCount s.reserveCount (by rw [outside]; rfl) found
  | asksLarge outside large => exact placed.walked s.useCount s.reserveCount (by rw [outside]; rfl) large
  | strays | refuses | releasesNone => exact ⟨placed.one,placed.nodup,placed.allocated,placed.right,placed.fits,by simp [fail]⟩
  | @releases t block pool outside found =>
    have live : block ∈ s.live := proper
    obtain ⟨serves,header⟩ := placed.right block .program live
    refine released_placed placed live rfl ?_
    rcases serves with ⟨large,_⟩ | ⟨other,foundToo,capacity⟩
    · rw [header,entry_large large] at found
      cases found
    · rw [header,foundToo] at found
      cases found
      exact capacity
  | releasesLarge outside large => exact released_placed placed proper rfl trivial
  | misses at_ empty =>
    have fits := placed.stands at_
    exact placed.walked s.useCount s.reserveCount (by rw [at_]; rfl) fits
  | pops at_ top => exact popped_placed placed at_ top
  | checks at_ =>
    have fits := placed.stands at_
    exact placed.walked s.useCount s.reserveCount (by rw [at_]; rfl) ⟨fits.1,fits.2.1⟩
  | asserts at_ used =>
    have fits := placed.stands at_
    exact absurd fits.2.2 used
  | unreserves at_ =>
    have fits := placed.stands at_
    exact placed.walked s.useCount _ (by rw [at_]; rfl) fits
  | @uses t pool size block at_ =>
    have fits := placed.stands at_
    exact placed.walked _ s.reserveCount (by rw [at_]; rfl) (.inr ⟨pool,fits⟩)
  | attaches at_ => exact attached_placed placed at_
  | frees at_ => exact freed_placed placed at_
  | clears at_ => exact cleared_placed placed at_
  | pushes at_ => exact pushed_placed placed at_
  | unuses at_ => exact placed.walked _ s.reserveCount (by rw [at_]; rfl) trivial
  | reserves at_ => exact placed.walked s.useCount _ (by rw [at_]; rfl) trivial
  | mallocs at_ =>
    have fits := placed.stands at_
    exact malloc_placed placed proper rfl ⟨fits,Function.update_self _ _ _⟩
  | mallocsLarge at_ =>
    have fits := placed.stands at_
    exact malloc_placed placed proper rfl (.inl ⟨fits,Function.update_self _ _ _⟩)

omit [DecidableEq Thread] in
theorem start_placed : Placed (start : Pools Thread) := by
  have nobody (b : Nat) (k : Keeper Thread) : ¬ (start : Pools Thread).Keeps k b := by
    cases k <;> simp [Keeps,start,Place.block]
  exact ⟨fun b k _ keeps => absurd keeps (nobody b k),fun _ => List.nodup_nil,fun b k keeps => absurd keeps (nobody b k),
    fun b k keeps => absurd keeps (nobody b k),fun _ => trivial,by simp [start]⟩

theorem placed_always (path : Runs (Guarded (Enabled step) Proper) (start : Pools Thread) events s) : Placed s :=
  path.invariant (fun _ _ _ placed taken => step_placed placed (step_does taken.1).2 taken.2) start_placed

theorem withHeader_exact (nonneg : 0 ≤ (withHeader size).toInt) : (withHeader size).toInt = size.toInt + 32 := by
  have low := size.le_toInt
  have high := size.toInt_lt
  have header : (32 : Int32).toInt = 32 := by decide
  simp only [withHeader,Int32.toInt_add,header,Int.bmod_def] at nonneg ⊢
  split at nonneg <;> omega

omit [DecidableEq Thread] in
theorem Serves.room (serves : s.Serves size b) : size.toInt + 32 ≤ s.capacity b := by
  rcases serves with ⟨large,capacity⟩ | ⟨pool,found,capacity⟩
  · have beyond : (4096 : Int32).toInt < (withHeader size).toInt := Int32.lt_iff_toInt_lt.mp large
    have positive : 0 ≤ (withHeader size).toInt := Int.le_trans (by decide) (Int.le_of_lt beyond)
    rw [capacity,withHeader_exact positive]
  · have nonneg : 0 ≤ (withHeader size).toInt := by
      unfold entry at found
      split at found
      · assumption
      · cases found
    rw [capacity,← withHeader_exact nonneg]
    exact (entry_fits found).1

def livesIn (s : Pools Thread) (pool : Nat) : Finset Nat := s.live.filter fun block => entry (s.allocSize block) = some pool

-- What the counters of a pool have counted before or after it is so.
def inUse (pool : Nat) : Place → Int
  | .attach size _ => if entry (withHeader size) = some pool then 1 else 0
  | .clear other _ | .push other _ | .unuse other => if other = pool then 1 else 0
  | _ => 0

def inReserve (pool : Nat) : Place → Int
  | .check other _ _ | .unreserve other _ _ => if other = pool then 1 else 0
  | .unuse other | .reserve other => if other = pool then -1 else 0
  | _ => 0

variable [Fintype Thread]

structure Counted (s : Pools Thread) : Prop where
  use : ∀ pool, s.useCount pool = Int32.ofInt ((s.livesIn pool).card + ∑ t, inUse pool (s.place t))
  reserve : ∀ pool, s.reserveCount pool = Int32.ofInt ((s.header pool).length + ∑ t, inReserve pool (s.place t))

theorem sum_moved (f : Place → Int) (places : Thread → Place) (t : Thread) (place : Place) :
    ∑ u, f (Function.update places t place u) = ∑ u, f (places u) - f (places t) + f place := by
  have others : ∑ u ∈ Finset.univ.erase t, f (Function.update places t place u) = ∑ u ∈ Finset.univ.erase t, f (places u) :=
    Finset.sum_congr rfl fun u member => by rw [Function.update_of_ne (Finset.ne_of_mem_erase member)]
  have after := Finset.add_sum_erase Finset.univ (fun u => f (Function.update places t place u)) (Finset.mem_univ t)
  have before := Finset.add_sum_erase Finset.univ (fun u => f (places u)) (Finset.mem_univ t)
  simp only [Function.update_self] at after
  rw [← after,← before,others]
  omega

theorem tally_moved {count : Int32} {n m : Int} {f : Place → Int} (tally : count = Int32.ofInt (n + ∑ u, f (s.place u))) (change : Int)
    (same : m + f place = n + f (s.place t) + change) : count + Int32.ofInt change = Int32.ofInt (m + ∑ u, f (Function.update s.place t place u)) := by
  rw [tally,← Int32.ofInt_add,sum_moved]
  congr 1
  omega

theorem Counted.moved (counted : Counted s) (places : next.place = Function.update s.place t place)
    (use : ∀ pool, ∃ change, next.useCount pool = s.useCount pool + Int32.ofInt change ∧
      (next.livesIn pool).card + inUse pool place = (s.livesIn pool).card + inUse pool (s.place t) + change)
    (reserve : ∀ pool, ∃ change, next.reserveCount pool = s.reserveCount pool + Int32.ofInt change ∧
      (next.header pool).length + inReserve pool place = (s.header pool).length + inReserve pool (s.place t) + change) : Counted next where
  use pool := by
    obtain ⟨change,count,same⟩ := use pool
    rw [count,places]
    exact tally_moved (counted.use pool) change same
  reserve pool := by
    obtain ⟨change,count,same⟩ := reserve pool
    rw [count,places]
    exact tally_moved (counted.reserve pool) change same

theorem still {count : Int32} {n m : Int} (same : m = n) : ∃ change, count = count + Int32.ofInt change ∧ m = n + change :=
  ⟨0,by simp,by omega⟩

theorem shifted {counts : Nat → Int32} {count : Int32} {other : Nat} {n m : Int} (change : Int) (new : count = counts pool + Int32.ofInt change)
    (here : other = pool → m = n + change) (elsewhere : other ≠ pool → m = n) :
    ∃ change, Function.update counts pool count other = counts other + Int32.ofInt change ∧ m = n + change := by
  by_cases same : other = pool
  · refine ⟨change,?_,here same⟩
    rw [same,Function.update_self,new]
  · rw [Function.update_of_ne same]
    exact still (elsewhere same)

omit [DecidableEq Thread] [Fintype Thread] in
theorem livesIn_other (absent : b ∉ s.live) (n : Int32) (other : Nat) :
    livesIn {s with allocSize := Function.update s.allocSize b n} other = s.livesIn other := by
  refine Finset.filter_congr fun c member => ?_
  have apart : c ≠ b := fun same => absent (same ▸ member)
  simp only [Function.update_of_ne apart]

omit [DecidableEq Thread] [Fintype Thread] in
theorem livesIn_released (live : b ∈ s.live) (other : Nat) : ((livesIn {s with live := s.live.erase b} other).card : Int) +
    (if entry (s.allocSize b) = some other then 1 else 0) = (s.livesIn other).card := by
  unfold livesIn
  rw [Finset.filter_erase]
  by_cases here : entry (s.allocSize b) = some other
  · have member : b ∈ s.live.filter fun c => entry (s.allocSize c) = some other := Finset.mem_filter.mpr ⟨live,here⟩
    have positive := Finset.card_pos.mpr ⟨b,member⟩
    rw [if_pos here,Finset.card_erase_of_mem member]
    omega
  · have absent : b ∉ s.live.filter fun c => entry (s.allocSize c) = some other := fun member => here (Finset.mem_filter.mp member).2
    rw [if_neg here,Finset.erase_eq_of_notMem absent]
    omega

omit [DecidableEq Thread] [Fintype Thread] in
theorem livesIn_attached (absent : b ∉ s.live) (n : Int32) (other : Nat) :
    ((livesIn {s with
      allocSize := Function.update s.allocSize b n
      live := insert b s.live} other).card : Int) = (s.livesIn other).card + (if entry n = some other then 1 else 0) := by
  have rest := livesIn_other absent n other
  unfold livesIn at rest ⊢
  dsimp only at rest ⊢
  rw [Finset.filter_insert,rest]
  simp only [Function.update_self]
  split
  · have new : b ∉ s.live.filter fun c => entry (s.allocSize c) = some other := fun member => absent (Finset.mem_filter.mp member).1
    rw [Finset.card_insert_of_notMem new]
    omega
  · omega

theorem step_counted (counted : Counted s) (placed : Placed s) (does : Does s event next) (proper : s.Proper event) : Counted next := by
  cases does with
  | asks outside | asksLarge outside =>
    exact counted.moved rfl (fun pool => still (by rw [outside]; rfl)) fun pool => still (by rw [outside]; rfl)
  | strays | refuses | releasesNone | asserts => exact ⟨counted.use,counted.reserve⟩
  | @releases t block pool outside found =>
    refine counted.moved rfl (fun other => still ?_) fun other => still (by rw [outside]; rfl)
    have lives := livesIn_released (show block ∈ s.live from proper) other
    simp only [found,Option.some.injEq] at lives
    rw [outside]
    exact lives.trans (Int.add_zero _).symm
  | @releasesLarge t block outside large =>
    refine counted.moved rfl (fun other => still ?_) fun other => still (by rw [outside]; rfl)
    have lives := livesIn_released (show block ∈ s.live from proper) other
    rw [entry_large large] at lives
    rw [outside]
    exact lives.trans (Int.add_zero _).symm
  | misses at_ => exact counted.moved rfl (fun pool => still (by rw [at_]; rfl)) fun pool => still (by rw [at_]; rfl)
  | checks at_ => exact counted.moved rfl (fun pool => still (by rw [at_]; rfl)) fun pool => still (by rw [at_]; rfl)
  | @pops t pool size block rest at_ top =>
    refine counted.moved rfl (fun pool => still (by rw [at_]; rfl)) fun other => still ?_
    rw [at_]
    by_cases same : other = pool
    · subst same
      simp [goto,inReserve,top]
    · simp [goto,inReserve,same,Ne.symm same]
  | unreserves at_ =>
    refine counted.moved rfl (fun pool => still (by rw [at_]; rfl)) fun other => ?_
    rw [at_]
    refine shifted (-1) (by simp [Int32.sub_eq_add_neg]) (fun same => ?_) fun apart => ?_
    · simp [goto,inReserve,same]
    · simp [goto,inReserve,Ne.symm apart]
  | uses at_ =>
    have fits := placed.stands at_
    refine counted.moved rfl (fun other => ?_) fun pool => still (by rw [at_]; rfl)
    rw [at_]
    refine shifted 1 rfl (fun same => ?_) fun apart => ?_
    · show ((s.livesIn other).card : Int) + _ = _
      simp [inUse,fits.1,same]
    · show ((s.livesIn other).card : Int) + _ = _
      simp [inUse,fits.1,Ne.symm apart]
  | @attaches t size block at_ =>
    have keeps : s.Keeps (.thread t) block := by simp [Keeps,at_,Place.block]
    refine counted.moved rfl (fun other => still ?_) fun other => still (by rw [at_]; rfl)
    rw [at_]
    have lives := livesIn_attached (placed.only keeps .program (by simp)) (withHeader size) other
    exact (Int.add_zero _).trans lives
  | frees at_ => exact counted.moved rfl (fun pool => still (by rw [at_]; rfl)) fun pool => still (by rw [at_]; rfl)
  | @clears t pool block at_ =>
    have keeps : s.Keeps (.thread t) block := by simp [Keeps,at_,Place.block]
    refine counted.moved rfl (fun other => still ?_) fun other => still (by rw [at_]; rfl)
    have lives := livesIn_other (placed.only keeps .program (by simp)) 0 other
    rw [at_]
    exact congrArg (fun blocks : Finset Nat => (blocks.card : Int) + inUse other (.push pool block)) lives
  | @pushes t pool block at_ =>
    refine counted.moved rfl (fun other => still (by rw [at_]; rfl)) fun other => still ?_
    rw [at_]
    by_cases same : other = pool
    · subst same
      simp [goto,inReserve]
    · simp [goto,inReserve,same,Ne.symm same]
  | unuses at_ =>
    refine counted.moved rfl (fun other => ?_) fun other => still (by rw [at_]; rfl)
    rw [at_]
    refine shifted (-1) (by simp [Int32.sub_eq_add_neg]) (fun same => ?_) fun apart => ?_
    · show ((s.livesIn other).card : Int) + _ = _
      simp [inUse,same]
    · show ((s.livesIn other).card : Int) + _ = _
      simp [inUse,Ne.symm apart]
  | reserves at_ =>
    refine counted.moved rfl (fun other => still (by rw [at_]; rfl)) fun other => ?_
    rw [at_]
    refine shifted 1 rfl (fun same => ?_) fun apart => ?_
    · simp [goto,inReserve,same]
    · simp [goto,inReserve,Ne.symm apart]
  | mallocs at_ => exact counted.moved rfl (fun pool => still (by rw [at_]; rfl)) fun pool => still (by rw [at_]; rfl)
  | mallocsLarge at_ =>
    have fits := placed.stands at_
    refine counted.moved rfl (fun other => still ?_) fun other => still (by rw [at_]; rfl)
    rw [at_]
    show ((s.livesIn other).card : Int) + _ = _
    simp [inUse,entry_large fits]

structure Sound (s : Pools Thread) : Prop where
  placed : Placed s
  counted : Counted s

omit [DecidableEq Thread] in
theorem start_sound : Sound (start : Pools Thread) where
  placed := start_placed
  counted := by
    constructor
    · intro pool
      have none : (start : Pools Thread).livesIn pool = ∅ := Finset.filter_empty _
      rw [none]
      simp [start,inUse]
    · intro pool
      simp [start,inReserve]

theorem step_sound (s : Pools Thread) (event : Event Thread) (next : Pools Thread) (sound : Sound s)
    (taken : Guarded (Enabled step) Proper s event next) : Sound next := by
  obtain ⟨taken,proper⟩ := taken
  have does := (step_does taken).2
  exact ⟨step_placed sound.placed does proper,step_counted sound.counted sound.placed does proper⟩

-- What the pools promise. A thread in `attach` is about to return its block. The counters are
-- int32.
structure HandedOnce (s : Pools Thread) : Prop where
  returned : ∀ t size block, s.place t = .attach size block → block ∉ s.live ∧ size.toInt + 32 ≤ s.capacity block
  live : ∀ block ∈ s.live, (s.requested block).toInt + 32 ≤ s.capacity block
  listed : ∀ pool, (s.header pool).Nodup ∧ ∀ block ∈ s.header pool, s.capacity block = pool ∧ s.allocSize block = 0 ∧ block ∉ s.live
  popped : s.failure ≠ some .popAssert
  counted : (∀ t, s.place t = .outside) → ∀ pool,
    s.useCount pool = Int32.ofInt (s.livesIn pool).card ∧ s.reserveCount pool = Int32.ofInt (s.header pool).length
  again : s.failure = none → ∀ t, s.place t = .outside → ∀ pool, ∀ block ∈ s.header pool,
    s.step (.release t block) = some (s.fail .releaseAssert)

theorem handed_once (path : Runs (Guarded (Enabled step) Proper) (start : Pools Thread) events s) : HandedOnce s := by
  obtain ⟨placed,counted⟩ := path.invariant step_sound start_sound
  refine ⟨fun t size block at_ => ⟨?_,?_⟩,fun block live => (placed.right block .program live).1.room,
    fun pool => ⟨placed.nodup pool,fun block member => ?_⟩,placed.popped,fun quiet pool => ⟨?_,?_⟩,fun running t outside pool block member => ?_⟩
  · have keeps : s.Keeps (.thread t) block := by simp [Keeps,at_,Place.block]
    exact placed.only keeps .program (by simp)
  · have fits := placed.stands at_
    exact Serves.room fits
  · obtain ⟨capacity,header⟩ := placed.right block (.list pool) member
    have keeps : s.Keeps (.list pool) block := member
    exact ⟨capacity,header,placed.only keeps .program (by simp)⟩
  · have none : ∑ t, inUse pool (s.place t) = 0 := Finset.sum_eq_zero fun t _ => by rw [quiet t]; rfl
    rw [counted.use pool,none,Int.add_zero]
  · have none : ∑ t, inReserve pool (s.place t) = 0 := Finset.sum_eq_zero fun t _ => by rw [quiet t]; rfl
    rw [counted.reserve pool,none,Int.add_zero]
  · have header := (placed.right block (.list pool) member).2
    simp [step,running,outside,release,header]

-- One thread takes a block and gives it back; while it is still at it, the other one gets the
-- same block. Then the first one takes a large block.
def recycled : List (Event Bool) :=
  [.allocate false 8,.go false,.malloc false 7,.go false,.go false,.release false 7,.go false,.go false,.allocate true 20,.go true,.go false,
    .go true,.go true,.go false,.go true,.go true,.allocate false 9000,.malloc false 8,.go false]

set_option maxRecDepth 20000 in
theorem handed_once_recycled : ∃ s, Runs (Guarded (Enabled step) Proper) (start : Pools Bool) recycled s ∧ s.live = {8,7} ∧
    s.useCount 64 = 1 ∧ s.reserveCount 64 = 0 ∧ HandedOnce s := by
  have path : Runs (Guarded (Enabled step) Proper) (start : Pools Bool) recycled _ := guard_runs rfl
  exact ⟨_,path,rfl,rfl,rfl,handed_once path⟩

end Pools
end IocpChatServer.ServerCore.MemoryPool
