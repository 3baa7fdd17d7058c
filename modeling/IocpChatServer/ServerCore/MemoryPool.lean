import Mathlib.Data.List.Basic
import Mathlib.Algebra.BigOperators.Ring.Finset
import IocpChatServer.Foundations.TransitionSystem
import Mathlib.Logic.Function.Basic

namespace IocpChatServer.ServerCore.MemoryPool

-- `_pools` and `_poolTable`, as Memory's constructor fills them. A pool goes by its
-- _allocSize: there is one of each size.
structure Table where
  pools : List Nat := []
  poolTable : Nat → Option Nat := fun _ => none
  tableIndex : Nat := 0

namespace Table

def fill (size : Nat) : Nat → Table → Table
  | 0,t => t
  | n + 1,t => fill size n {t with
      poolTable := Function.update t.poolTable t.tableIndex (some size)
      tableIndex := t.tableIndex + 1}

def addPool (t : Table) (size : Nat) : Table :=
  fill size (size + 1 - t.tableIndex) {t with pools := t.pools ++ [size]}

-- `for (size = first; size < stop; size += step)`.
def sizes (first stop step : Nat) : List Nat := List.range' first ((stop - first + step - 1) / step) step

def allSizes : List Nat := sizes 32 1024 32 ++ sizes 1024 2048 128 ++ sizes 2048 4096 256

def made : Table := allSizes.foldl addPool {}

variable {t : Table} {size i n : Nat}

theorem fill_exact (size n : Nat) (t : Table) : fill size n t = {t with
    poolTable := fun i => if t.tableIndex ≤ i ∧ i < t.tableIndex + n then some size else t.poolTable i
    tableIndex := t.tableIndex + n} := by
  induction n generalizing t with
  | zero =>
    have none (i : Nat) : ¬(t.tableIndex ≤ i ∧ i < t.tableIndex) := by omega
    simp [fill,none]
  | succ n ih =>
    rw [fill,ih]
    simp only [Table.mk.injEq,true_and]
    refine ⟨funext fun i => ?_,by omega⟩
    by_cases first : i = t.tableIndex
    · subst first
      simp
    · have same : t.tableIndex + 1 ≤ i ∧ i < t.tableIndex + 1 + n ↔ t.tableIndex ≤ i ∧ i < t.tableIndex + (n + 1) := by omega
      simp only [same,Function.update_of_ne first]

structure Filled (t : Table) : Prop where
  entries : ∀ i, t.poolTable i = t.pools.find? fun size => i ≤ size
  index : ∀ i, i < t.tableIndex ↔ ∃ size ∈ t.pools, i ≤ size

theorem addPool_filled (filled : Filled t) (size : Nat) : Filled (t.addPool size) := by
  unfold addPool
  rw [fill_exact]
  refine ⟨fun i => ?_,fun i => ?_⟩
  · rw [List.find?_append]
    dsimp only
    by_cases early : i < t.tableIndex
    · have kept : ¬(t.tableIndex ≤ i ∧ i < t.tableIndex + (size + 1 - t.tableIndex)) := by omega
      obtain ⟨pool,member,fits⟩ := (filled.index i).mp early
      have found : (t.pools.find? fun size => i ≤ size).isSome = true := List.find?_isSome.mpr ⟨pool,member,by simpa using fits⟩
      obtain ⟨first,same⟩ := Option.isSome_iff_exists.mp found
      rw [if_neg kept,filled.entries,same]
      rfl
    · have none : (t.pools.find? fun size => i ≤ size) = none := by
        refine List.find?_eq_none.mpr fun pool member fits => early ((filled.index i).mpr ⟨pool,member,by simpa using fits⟩)
      rw [none,filled.entries,none]
      by_cases fits : i ≤ size
      · have new : t.tableIndex ≤ i ∧ i < t.tableIndex + (size + 1 - t.tableIndex) := by omega
        simp [new,fits]
      · have beyond : ¬(t.tableIndex ≤ i ∧ i < t.tableIndex + (size + 1 - t.tableIndex)) := by omega
        simp [beyond,fits]
  · simp only [List.mem_append,List.mem_singleton]
    constructor
    · intro below
      by_cases early : i < t.tableIndex
      · obtain ⟨pool,member,fits⟩ := (filled.index i).mp early
        exact ⟨pool,.inl member,fits⟩
      · exact ⟨size,.inr rfl,by omega⟩
    · intro covered
      obtain ⟨pool,member | rfl,fits⟩ := covered
      · have early := (filled.index i).mpr ⟨pool,member,fits⟩
        omega
      · omega

theorem addPools_filled (filled : Filled t) (sizes : List Nat) : Filled (sizes.foldl addPool t) ∧
    (sizes.foldl addPool t).pools = t.pools ++ sizes := by
  induction sizes generalizing t with
  | nil => exact ⟨filled,(List.append_nil _).symm⟩
  | cons size rest ih =>
    obtain ⟨filledToo,pools⟩ := ih (addPool_filled filled size)
    refine ⟨filledToo,pools.trans ?_⟩
    rw [addPool,fill_exact]
    simp

theorem made_filled : Filled made ∧ made.pools = allSizes := by
  have start : Filled {} := ⟨fun _ => rfl,fun i => by simp⟩
  obtain ⟨filled,pools⟩ := addPools_filled start allSizes
  exact ⟨filled,pools⟩

theorem made_exact (i : Nat) : made.poolTable i = allSizes.find? fun size => i ≤ size := by
  obtain ⟨filled,pools⟩ := made_filled
  rw [filled.entries,pools]

theorem made_fits (found : made.poolTable i = some size) : i ≤ size ∧ size ≤ 4096 := by
  rw [made_exact] at found
  have small : ∀ size ∈ allSizes, size ≤ 4096 := by decide
  exact ⟨by simpa using List.find?_some found,small size (List.mem_of_find?_eq_some found)⟩

example : made.poolTable 3841 = none := (made_exact 3841).trans (by decide)

end Table
open Foundations TransitionSystem

def maxAllocSize : Int32 := 4096

-- `size + sizeof(MemoryHeader)`, as an int32.
def withHeader (size : Int32) : Int32 := size + 32

theorem withHeader_small (size : Int32) (nonneg : 0 ≤ size.toInt) (bound : size.toInt + 32 < 2^31) :
    (withHeader size).toInt = size.toInt + 32 := by
  have header : (32 : Int32).toInt = 32 := by decide
  simp only [withHeader,Int32.toInt_add,header,Int.bmod_def]
  split <;> omega

-- _poolTable[allocSize], if the constructor has set it.
def entry (allocSize : Int32) : Option Nat :=
  if 0 ≤ allocSize.toInt then Table.made.poolTable allocSize.toInt.toNat else none

-- Where a thread is in Allocate (Pop with it) or in Release (Push with it), one access to what
-- the threads share at a time. `size` is Allocate's argument, `block` the MemoryHeader at hand.
inductive Place where
  | outside
  | pop (pool : Nat) (size : Int32)
  | malloc (pool : Nat) (size : Int32)
  | check (pool : Nat) (size : Int32) (block : Nat)
  | unreserve (pool : Nat) (size : Int32) (block : Nat)
  | use (pool : Nat) (size : Int32) (block : Nat)
  | mallocLarge (size : Int32)
  | attach (size : Int32) (block : Nat)
  | freeLarge (block : Nat)
  | clear (pool block : Nat)
  | push (pool block : Nat)
  | unuse (pool : Nat)
  | reserve (pool : Nat)
  deriving DecidableEq, Repr

inductive Failure where
  | popAssert | releaseAssert | noEntry
  deriving DecidableEq, Repr

-- The pools, by their _allocSize, and the blocks, by their addresses: `allocSize` is the field
-- in a block's header. `live` are the blocks Allocate has returned and nobody has released,
-- each with the size that was asked for; `allocated` are those _aligned_malloc has given out,
-- of these capacities.
structure Pools (Thread : Type _) where
  header : Nat → List Nat
  useCount : Nat → Int32
  reserveCount : Nat → Int32
  allocSize : Nat → Int32
  capacity : Nat → Int
  allocated : Finset Nat
  live : Finset Nat
  requested : Nat → Int32
  place : Thread → Place
  failure : Option Failure

inductive Event (Thread : Type _) where
  | allocate (thread : Thread) (size : Int32)
  | release (thread : Thread) (block : Nat)
  | go (thread : Thread)
  | malloc (thread : Thread) (block : Nat)
  deriving DecidableEq, Repr

namespace Pools
variable {Thread : Type _} [DecidableEq Thread]

def start : Pools Thread := ⟨fun _ => [],fun _ => 0,fun _ => 0,fun _ => 0,fun _ => 0,∅,∅,fun _ => 0,fun _ => .outside,none⟩

variable (s : Pools Thread)

def goto (thread : Thread) (place : Place) : Pools Thread := {s with place := Function.update s.place thread place}

def fail (failure : Failure) : Pools Thread := {s with failure := some failure}

def allocate (thread : Thread) (size : Int32) : Pools Thread :=
  if maxAllocSize < withHeader size then s.goto thread (.mallocLarge size)
  else match entry (withHeader size) with
  | none => s.fail .noEntry
  | some pool => s.goto thread (.pop pool size)

def release (thread : Thread) (block : Nat) : Pools Thread :=
  if ¬ 0 < s.allocSize block then s.fail .releaseAssert
  else if maxAllocSize < s.allocSize block then {s with live := s.live.erase block}.goto thread (.freeLarge block)
  else match entry (s.allocSize block) with
  | none => s.fail .noEntry
  | some pool => {s with live := s.live.erase block}.goto thread (.clear pool block)

def proceed (thread : Thread) : Option (Pools Thread) :=
  match s.place thread with
  | .pop pool size =>
    match s.header pool with
    | [] => some (s.goto thread (.malloc pool size))
    | block :: rest => some ({s with header := Function.update s.header pool rest}.goto thread (.check pool size block))
  | .check pool size block =>
    if s.allocSize block = 0 then some (s.goto thread (.unreserve pool size block)) else some (s.fail .popAssert)
  | .unreserve pool size block =>
    some ({s with reserveCount := Function.update s.reserveCount pool (s.reserveCount pool - 1)}.goto thread (.use pool size block))
  | .use pool size block =>
    some ({s with useCount := Function.update s.useCount pool (s.useCount pool + 1)}.goto thread (.attach size block))
  | .attach size block => some ({s with
      allocSize := Function.update s.allocSize block (withHeader size)
      live := insert block s.live
      requested := Function.update s.requested block size}.goto thread .outside)
  | .freeLarge block => some ({s with allocated := s.allocated.erase block}.goto thread .outside)
  | .clear pool block => some ({s with allocSize := Function.update s.allocSize block 0}.goto thread (.push pool block))
  | .push pool block =>
    some ({s with header := Function.update s.header pool (block :: s.header pool)}.goto thread (.unuse pool))
  | .unuse pool =>
    some ({s with useCount := Function.update s.useCount pool (s.useCount pool - 1)}.goto thread (.reserve pool))
  | .reserve pool =>
    some ({s with reserveCount := Function.update s.reserveCount pool (s.reserveCount pool + 1)}.goto thread .outside)
  | .outside | .malloc _ _ | .mallocLarge _ => none

def malloc (thread : Thread) (block : Nat) : Option (Pools Thread) :=
  match s.place thread with
  | .malloc pool size => some ({s with
      allocated := insert block s.allocated
      capacity := Function.update s.capacity block pool}.goto thread (.use pool size block))
  | .mallocLarge size => some ({s with
      allocated := insert block s.allocated
      capacity := Function.update s.capacity block (withHeader size).toInt}.goto thread (.attach size block))
  | _ => none

def step : Event Thread → Option (Pools Thread)
  | .allocate thread size => if s.failure = none ∧ s.place thread = .outside then some (s.allocate thread size) else none
  | .release thread block => if s.failure = none ∧ s.place thread = .outside then some (s.release thread block) else none
  | .go thread => if s.failure = none then s.proceed thread else none
  | .malloc thread block => if s.failure = none then s.malloc thread block else none

-- Sizes that have a pool or need none, live pointers, and fresh blocks.
def Proper (s : Pools Thread) : Event Thread → Prop
  | .allocate _ size => maxAllocSize < withHeader size ∨ (entry (withHeader size)).isSome = true
  | .release _ block => block ∈ s.live
  | .go _ => True
  | .malloc _ block => block ∉ s.allocated

instance (s : Pools Thread) : (event : Event Thread) → Decidable (s.Proper event)
  | .allocate _ _ => inferInstanceAs (Decidable (_ ∨ _))
  | .release _ block => inferInstanceAs (Decidable (block ∈ s.live))
  | .go _ => .isTrue trivial
  | .malloc _ block => inferInstanceAs (Decidable (block ∉ s.allocated))

inductive Does (s : Pools Thread) : Event Thread → Pools Thread → Prop where
  | asks (outside : s.place t = .outside) (found : entry (withHeader size) = some pool) :
      Does s (.allocate t size) (s.goto t (.pop pool size))
  | asksLarge (outside : s.place t = .outside) (large : maxAllocSize < withHeader size) :
      Does s (.allocate t size) (s.goto t (.mallocLarge size))
  | strays (large : ¬ maxAllocSize < withHeader size) (none : entry (withHeader size) = none) : Does s (.allocate t size) (s.fail .noEntry)
  | releases (outside : s.place t = .outside) (found : entry (s.allocSize block) = some pool) :
      Does s (.release t block) ({s with live := s.live.erase block}.goto t (.clear pool block))
  | releasesLarge (outside : s.place t = .outside) (large : maxAllocSize < s.allocSize block) :
      Does s (.release t block) ({s with live := s.live.erase block}.goto t (.freeLarge block))
  | refuses (released : ¬ 0 < s.allocSize block) : Does s (.release t block) (s.fail .releaseAssert)
  | releasesNone (large : ¬ maxAllocSize < s.allocSize block) (none : entry (s.allocSize block) = none) :
      Does s (.release t block) (s.fail .noEntry)
  | misses (at_ : s.place t = .pop pool size) (empty : s.header pool = []) : Does s (.go t) (s.goto t (.malloc pool size))
  | pops (at_ : s.place t = .pop pool size) (top : s.header pool = block :: rest) :
      Does s (.go t) ({s with header := Function.update s.header pool rest}.goto t (.check pool size block))
  | checks (at_ : s.place t = .check pool size block) : Does s (.go t) (s.goto t (.unreserve pool size block))
  | asserts (at_ : s.place t = .check pool size block) (used : s.allocSize block ≠ 0) : Does s (.go t) (s.fail .popAssert)
  | unreserves (at_ : s.place t = .unreserve pool size block) : Does s (.go t)
      ({s with reserveCount := Function.update s.reserveCount pool (s.reserveCount pool - 1)}.goto t (.use pool size block))
  | uses (at_ : s.place t = .use pool size block) : Does s (.go t)
      ({s with useCount := Function.update s.useCount pool (s.useCount pool + 1)}.goto t (.attach size block))
  | attaches (at_ : s.place t = .attach size block) : Does s (.go t) ({s with
      allocSize := Function.update s.allocSize block (withHeader size)
      live := insert block s.live
      requested := Function.update s.requested block size}.goto t .outside)
  | frees (at_ : s.place t = .freeLarge block) : Does s (.go t) ({s with allocated := s.allocated.erase block}.goto t .outside)
  | clears (at_ : s.place t = .clear pool block) :
      Does s (.go t) ({s with allocSize := Function.update s.allocSize block 0}.goto t (.push pool block))
  | pushes (at_ : s.place t = .push pool block) :
      Does s (.go t) ({s with header := Function.update s.header pool (block :: s.header pool)}.goto t (.unuse pool))
  | unuses (at_ : s.place t = .unuse pool) :
      Does s (.go t) ({s with useCount := Function.update s.useCount pool (s.useCount pool - 1)}.goto t (.reserve pool))
  | reserves (at_ : s.place t = .reserve pool) :
      Does s (.go t) ({s with reserveCount := Function.update s.reserveCount pool (s.reserveCount pool + 1)}.goto t .outside)
  | mallocs (at_ : s.place t = .malloc pool size) : Does s (.malloc t block) ({s with
      allocated := insert block s.allocated
      capacity := Function.update s.capacity block pool}.goto t (.use pool size block))
  | mallocsLarge (at_ : s.place t = .mallocLarge size) : Does s (.malloc t block) ({s with
      allocated := insert block s.allocated
      capacity := Function.update s.capacity block (withHeader size).toInt}.goto t (.attach size block))

variable {s next : Pools Thread} {t : Thread} {block : Nat} {event : Event Thread}

theorem proceed_does (taken : s.proceed t = some next) : Does s (.go t) next := by
  unfold proceed at taken
  cases at_ : s.place t with
  | outside | malloc | mallocLarge => simp [at_] at taken
  | pop pool size =>
    simp only [at_] at taken
    split at taken
    · rename_i empty
      cases taken
      exact .misses at_ empty
    · rename_i top
      cases taken
      exact .pops at_ top
  | check pool size block =>
    simp only [at_] at taken
    split at taken
    · cases taken
      exact .checks at_
    · rename_i used
      cases taken
      exact .asserts at_ used
  | unreserve pool size block =>
    simp only [at_,Option.some.injEq] at taken
    exact taken ▸ .unreserves at_
  | use pool size block =>
    simp only [at_,Option.some.injEq] at taken
    exact taken ▸ .uses at_
  | attach size block =>
    simp only [at_,Option.some.injEq] at taken
    exact taken ▸ .attaches at_
  | freeLarge block =>
    simp only [at_,Option.some.injEq] at taken
    exact taken ▸ .frees at_
  | clear pool block =>
    simp only [at_,Option.some.injEq] at taken
    exact taken ▸ .clears at_
  | push pool block =>
    simp only [at_,Option.some.injEq] at taken
    exact taken ▸ .pushes at_
  | unuse pool =>
    simp only [at_,Option.some.injEq] at taken
    exact taken ▸ .unuses at_
  | reserve pool =>
    simp only [at_,Option.some.injEq] at taken
    exact taken ▸ .reserves at_

theorem malloc_does (taken : s.malloc t block = some next) : Does s (.malloc t block) next := by
  unfold malloc at taken
  split at taken
  · rename_i at_
    cases taken
    exact .mallocs at_
  · rename_i at_
    cases taken
    exact .mallocsLarge at_
  · cases taken

theorem step_does (taken : s.step event = some next) : s.failure = none ∧ Does s event next := by
  cases event with
  | allocate t size =>
    simp only [step,allocate] at taken
    split at taken
    · rename_i ready
      refine ⟨ready.1,?_⟩
      split at taken
      · rename_i large
        cases taken
        exact .asksLarge ready.2 large
      · rename_i large
        split at taken
        · rename_i none
          cases taken
          exact .strays large none
        · rename_i found
          cases taken
          exact .asks ready.2 found
    · cases taken
  | release t block =>
    simp only [step,release] at taken
    split at taken
    · rename_i ready
      refine ⟨ready.1,?_⟩
      split at taken
      · rename_i released
        cases taken
        exact .refuses released
      · split at taken
        · rename_i large
          cases taken
          exact .releasesLarge ready.2 large
        · rename_i large
          split at taken
          · rename_i none
            cases taken
            exact .releasesNone large none
          · rename_i found
            cases taken
            exact .releases ready.2 found
    · cases taken
  | go t =>
    simp only [step] at taken
    split at taken
    · rename_i running
      exact ⟨running,proceed_does taken⟩
    · cases taken
  | malloc t block =>
    simp only [step] at taken
    split at taken
    · rename_i running
      exact ⟨running,malloc_does taken⟩
    · cases taken

end Pools
end IocpChatServer.ServerCore.MemoryPool
