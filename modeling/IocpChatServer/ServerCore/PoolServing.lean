import IocpChatServer.ServerCore.PoolAccounting

namespace IocpChatServer.ServerCore.MemoryPool
open Foundations TransitionSystem

-- The largest pool. The loop of the constructor that steps by 256 ends at 4096 and leaves that
-- size out, so that the table ends here and not at MAX_ALLOC_SIZE.
def lastPool : Nat := 3840

namespace Table
variable {i size : Nat}

theorem allSizes_small : ∀ size ∈ allSizes, size ≤ lastPool := by decide

theorem made_defined (small : i ≤ lastPool) : ∃ size ∈ made.pools, made.poolTable i = some size ∧ i ≤ size ∧ size ≤ lastPool := by
  have last : lastPool ∈ allSizes := by decide
  have some : (allSizes.find? fun size => i ≤ size).isSome = true := List.find?_isSome.mpr ⟨lastPool,last,by simpa using small⟩
  obtain ⟨size,found⟩ := Option.isSome_iff_exists.mp some
  have fits : i ≤ size := by simpa using List.find?_some found
  rw [made_filled.2,made_exact]
  have member := List.mem_of_find?_eq_some found
  exact ⟨size,member,found,fits,allSizes_small size member⟩

theorem made_undefined (large : lastPool < i) : made.poolTable i = none := by
  rw [made_exact]
  refine List.find?_eq_none.mpr fun size member fits => ?_
  have bound := allSizes_small size member
  have covered : i ≤ size := by simpa using fits
  omega

end Table

-- Where a block of this size is taken from and given back to. Without an entry nothing is known
-- of the pointer in the table.
inductive Route where
  | pool (allocSize : Nat)
  | system (bytes : Int32)
  deriving DecidableEq, Repr

def route (allocSize : Int32) : Option Route :=
  if maxAllocSize < allocSize then some (.system allocSize) else (entry allocSize).map .pool

theorem maxAllocSize_lt {n : Int32} : maxAllocSize < n ↔ 4096 < n.toInt := Int32.lt_iff_toInt_lt

theorem route_pool {n : Int32} (nonneg : 0 ≤ n.toInt) (small : n.toInt ≤ lastPool) :
    ∃ pool ∈ Table.made.pools, route n = some (.pool pool) ∧ entry n = some pool ∧ n.toInt ≤ pool ∧ pool ≤ lastPool := by
  have within : n.toInt.toNat ≤ lastPool := by omega
  obtain ⟨pool,member,found,fits,bound⟩ := Table.made_defined within
  have direct : ¬ maxAllocSize < n := by
    rw [maxAllocSize_lt]
    have last : lastPool = 3840 := rfl
    omega
  have defined : entry n = some pool := by
    unfold entry
    rw [if_pos nonneg,found]
  refine ⟨pool,member,?_,defined,by omega,bound⟩
  unfold route
  rw [if_neg direct,defined]
  rfl

theorem route_system {n : Int32} (large : 4096 < n.toInt) : route n = some (.system n) := if_pos (maxAllocSize_lt.mpr large)

theorem route_none {n : Int32} (outside : n.toInt < 0 ∨ (lastPool : Int) < n.toInt) (small : n.toInt ≤ 4096) : route n = none := by
  have direct : ¬ maxAllocSize < n := by
    rw [maxAllocSize_lt]
    omega
  have undefined : entry n = none := by
    unfold entry
    split
    · exact Table.made_undefined (by omega)
    · rfl
  unfold route
  rw [if_neg direct,undefined]
  rfl

namespace Pools
variable {Thread : Type _} [DecidableEq Thread] {s : Pools Thread} {t : Thread} {size : Int32} {block : Nat} {events : List (Event Thread)}

-- Allocate and Release take the same route, one by the size it is given, the other by the size
-- it reads in the header.
theorem allocate_route (s : Pools Thread) (t : Thread) (size : Int32) : s.allocate t size = match route (withHeader size) with
    | none => s.fail .noEntry
    | some (.pool pool) => s.goto t (.pop pool size)
    | some (.system _) => s.goto t (.mallocLarge size) := by
  unfold allocate route
  split
  · rfl
  · cases entry (withHeader size) <;> rfl

theorem release_route (s : Pools Thread) (t : Thread) (block : Nat) (used : 0 < s.allocSize block) :
    s.release t block = match route (s.allocSize block) with
    | none => s.fail .noEntry
    | some (.pool pool) => {s with live := s.live.erase block}.goto t (.clear pool block)
    | some (.system _) => {s with live := s.live.erase block}.goto t (.freeLarge block) := by
  unfold release route
  rw [if_neg (not_not_intro used)]
  split
  · rfl
  · cases entry (s.allocSize block) <;> rfl

-- In every state that the program can come to, `t` gets a block of this size from the pool, and a
-- block that was asked for with this size is one of the pool and goes back to it.
def Pooled (t : Thread) (size : Int32) (pool : Nat) : Prop :=
  ∀ events (s : Pools Thread), Runs (Guarded (Enabled step) Proper) start events s → s.failure = none → s.place t = .outside →
    s.step (.allocate t size) = some (s.goto t (.pop pool size)) ∧ ∀ block ∈ s.live, s.requested block = size →
      s.capacity block = pool ∧ s.step (.release t block) = some ({s with live := s.live.erase block}.goto t (.clear pool block))

def Direct (t : Thread) (size : Int32) : Prop :=
  ∀ events (s : Pools Thread), Runs (Guarded (Enabled step) Proper) start events s → s.failure = none → s.place t = .outside →
    s.step (.allocate t size) = some (s.goto t (.mallocLarge size)) ∧ ∀ block ∈ s.live, s.requested block = size →
      s.capacity block = size.toInt + 32 ∧
      s.step (.release t block) = some ({s with live := s.live.erase block}.goto t (.freeLarge block))

def Served (t : Thread) (size : Int32) : Prop :=
  (∃ pool ∈ Table.made.pools, size.toInt + 32 ≤ pool ∧ Pooled t size pool) ∨ Direct t size

theorem live_header (path : Runs (Guarded (Enabled step) Proper) (start : Pools Thread) events s) (live : block ∈ s.live) :
    s.Serves (s.requested block) block ∧ s.allocSize block = withHeader (s.requested block) :=
  (placed_always path).right block .program live

theorem live_asked (path : Runs (Guarded (Enabled step) Proper) (start : Pools Thread) events s) (live : block ∈ s.live)
    (asked : s.requested block = size) (nonneg : 0 ≤ size.toInt) (bound : size.toInt + 32 < 2^31) :
    s.Serves size block ∧ s.allocSize block = withHeader size ∧ 0 < s.allocSize block := by
  obtain ⟨serves,header⟩ := live_header path live
  rw [asked] at serves header
  refine ⟨serves,header,?_⟩
  have zero : (0 : Int32).toInt = 0 := by decide
  rw [header,Int32.lt_iff_toInt_lt,withHeader_small size nonneg bound]
  omega

theorem pooled (nonneg : 0 ≤ size.toInt) (small : size.toInt + 32 ≤ lastPool) (t : Thread) :
    ∃ pool ∈ Table.made.pools, size.toInt + 32 ≤ pool ∧ Pooled t size pool := by
  have last : lastPool = 3840 := rfl
  have sum := withHeader_small size nonneg (by omega)
  obtain ⟨pool,member,routed,found,fits,_⟩ := route_pool (n := withHeader size) (by omega) (by omega)
  refine ⟨pool,member,by omega,fun events s path running outside => ⟨?_,fun block live asked => ?_⟩⟩
  · simp only [step,running,outside,and_self,if_true,allocate_route,routed]
  · obtain ⟨serves,header,used⟩ := live_asked path live asked nonneg (by omega)
    refine ⟨?_,?_⟩
    · rcases serves with ⟨large,_⟩ | ⟨other,foundToo,capacity⟩
      · rw [entry_large large] at found
        cases found
      · rw [found] at foundToo
        cases foundToo
        exact capacity
    · simp only [step,running,outside,and_self,if_true,release_route s t block used]
      rw [header,routed]

theorem direct (large : 4096 < size.toInt + 32) (bound : size.toInt + 32 < 2^31) (t : Thread) : Direct t size := by
  have sum := withHeader_small size (by omega) bound
  have beyond : maxAllocSize < withHeader size := maxAllocSize_lt.mpr (by omega)
  have routed := route_system (n := withHeader size) (by omega)
  refine fun events s path running outside => ⟨?_,fun block live asked => ?_⟩
  · simp only [step,running,outside,and_self,if_true,allocate_route,routed]
  · obtain ⟨serves,header,used⟩ := live_asked path live asked (by omega) bound
    refine ⟨?_,?_⟩
    · rcases serves with ⟨_,capacity⟩ | ⟨pool,found,_⟩
      · rw [capacity,sum]
      · rw [entry_large beyond] at found
        cases found
    · simp only [step,running,outside,and_self,if_true,release_route s t block used]
      rw [header,routed]

theorem not_served (gap : (lastPool : Int) < size.toInt + 32) (small : size.toInt + 32 ≤ 4096) (t : Thread) : ¬ Served t size := by
  have last : lastPool = 3840 := rfl
  have sum := withHeader_small size (by omega) (by omega)
  have routed := route_none (n := withHeader size) (by omega) (by omega)
  have strays : (start : Pools Thread).step (.allocate t size) = some (start.fail .noEntry) := by
    simp only [step,allocate_route,routed]
    rfl
  have elsewhere (place : Place) : (start : Pools Thread).step (.allocate t size) ≠ some (start.goto t place) := by
    rw [strays]
    intro same
    have failures : (start.fail .noEntry : Pools Thread).failure = (start.goto t place).failure := congrArg failure (Option.some.inj same)
    cases failures
  rintro (⟨pool,_,_,pooled⟩ | direct)
  · exact elsewhere _ (pooled [] start .nil rfl rfl).1
  · exact elsewhere _ (direct [] start .nil rfl rfl).1

theorem served_exact (nonneg : 0 ≤ size.toInt) (bound : size.toInt + 32 < 2^31) (t : Thread) :
    Served t size ↔ size.toInt + 32 ≤ 3840 ∨ 4096 < size.toInt + 32 := by
  constructor
  · intro served
    by_cases gap : 3840 < size.toInt + 32 ∧ size.toInt + 32 ≤ 4096
    · exact absurd served (not_served gap.1 gap.2 t)
    · omega
  · rintro (small | large)
    · exact .inl (pooled nonneg small t)
    · exact .inr (direct large bound t)

theorem served_exact_hundred : Served () 100 := (served_exact (by decide) (by decide) ()).mpr (by decide)

-- 4032 bytes with the header.
theorem not_every_size_served : ¬ ∀ size : Int32, 0 ≤ size.toInt → size.toInt + 32 < 2^31 → Served () size :=
  fun every => @not_served Unit _ 4000 (by decide) (by decide) () (every 4000 (by decide) (by decide))

end Pools
end IocpChatServer.ServerCore.MemoryPool
