import IocpChatServer.ServerCore.PoolServing
import IocpChatServer.ServerCore.Allocator

namespace IocpChatServer.ServerCore.ContainerMemory
open MemoryPool Allocator.StompAllocator

inductive Build where
  | stomp | pools
  deriving DecidableEq, Repr

-- What an allocation comes to: no memory, a block with so many bytes from its header on, or a
-- call through an entry of the table that nothing has set.
inductive Outcome where
  | noMemory
  | block (bytes : Int)
  | noEntry
  deriving DecidableEq, Repr

-- `grants` are the requests that the system has memory for.
def obtain (grants : Int → Bool) (bytes : Int) : Outcome := if grants bytes then .block bytes else .noMemory

-- VirtualAlloc takes the bytes as a size_t. It refuses 0, and no address space holds what a
-- negative number becomes.
def stompAlloc (grants : Int → Bool) (size : Int32) : Outcome :=
  if 0 < (reserved size).toInt then
    if grants (reserved size).toInt then .block ((reserved size).toInt - (dataOffset size).toInt) else .noMemory
  else .noMemory

-- Memory::Allocate, behind PoolAllocator::Alloc.
def poolAlloc (build : Build) (grants : Int → Bool) (size : Int32) : Outcome :=
  match build with
  | .stomp => stompAlloc grants (withHeader size)
  | .pools => match route (withHeader size) with
    | none => .noEntry
    | some (.pool allocSize) => obtain grants allocSize
    | some (.system bytes) => obtain grants bytes.toInt

def allocate (build : Build) (grants : Int → Bool) (elementSize count : UInt64) : Outcome :=
  poolAlloc build grants (count * elementSize).toUInt32.toInt32

def NeverShort (build : Build) (elementSize count : UInt64) : Prop :=
  ∀ grants, allocate build grants elementSize count = .noMemory ∨
    ∃ bytes, allocate build grants elementSize count = .block bytes ∧ (count.toNat : Int) * elementSize.toNat + 32 ≤ bytes

-- The bytes of the elements, with the header, are in the range of the build, or (with _STOMP)
-- wrap around to a size that the round-up to pages leaves without pages.
def InRange : Build → Nat → Prop
  | .pools,bytes => bytes + 32 ≤ 3840 ∨ 4096 < bytes + 32 ∧ bytes + 32 < 2^31
  | .stomp,bytes => bytes + 32 ≤ 2^31 - 4096 ∨ (bytes + 32) % 2^32 = 0 ∨ 2^31 - 4096 < (bytes + 32) % 2^32

instance : (build : Build) → (bytes : Nat) → Decidable (InRange build bytes)
  | .pools,_ => inferInstanceAs (Decidable (_ ∨ _))
  | .stomp,_ => inferInstanceAs (Decidable (_ ∨ _))

variable {elementSize count : UInt64} {size : Int32} {n : Nat}

theorem size_exact (within : count.toNat * elementSize.toNat < 2^64) :
    (withHeader (count * elementSize).toUInt32.toInt32).toInt = Int.bmod (count.toNat * elementSize.toNat + 32 : Nat) (2^32) := by
  have header : (32 : Int32).toInt = 32 := by decide
  have product : (count * elementSize).toNat = count.toNat * elementSize.toNat := by
    rw [UInt64.toNat_mul,Nat.mod_eq_of_lt within]
  have cast : (count * elementSize).toUInt32.toInt32.toInt = Int.bmod (count.toNat * elementSize.toNat : Nat) (2^32) := by
    rw [← product]
    show ((count * elementSize).toUInt32.toBitVec).toInt = _
    rw [BitVec.toInt_eq_toNat_bmod,UInt32.toNat_toBitVec,UInt64.toNat_toUInt32,Int.natCast_emod]
    exact Int.emod_bmod _ _
  rw [withHeader,Int32.toInt_add,header,cast,Int.bmod_add_bmod]
  rfl

theorem granted_exact {asked got needed : Int} :
    (∀ grants : Int → Bool, (if grants asked then Outcome.block got else .noMemory) = .noMemory ∨
      ∃ bytes, (if grants asked then Outcome.block got else .noMemory) = .block bytes ∧ needed ≤ bytes) ↔ needed ≤ got := by
  constructor
  · intro safe
    rcases safe fun _ => true with none | ⟨bytes,block,enough⟩
    · cases none
    · cases block
      exact enough
  · intro enough grants
    split
    · exact .inr ⟨got,rfl,enough⟩
    · exact .inl rfl

theorem stompAlloc_small (grants : Int → Bool) (low : 0 < size.toInt) (high : size.toInt ≤ 2^31 - 4096) :
    stompAlloc grants size = if grants (reserved size).toInt then .block size.toInt else .noMemory := by
  have pages := pageCount_small (by omega) high
  obtain ⟨product,_⟩ := reserved_exact size
  have positive : 0 < (reserved size).toInt := by omega
  have usable : (reserved size).toInt - (dataOffset size).toInt = size.toInt := by
    rw [dataOffset_exact]
    omega
  rw [stompAlloc,if_pos positive,usable]

theorem stompAlloc_none (grants : Int → Bool) (outside : size.toInt ≤ 0 ∨ 2^31 - 4096 < size.toInt) : stompAlloc grants size = .noMemory := by
  have high := size.toInt_lt
  have none : ¬ 0 < (reserved size).toInt := by
    rw [(reserved_exact size).1,pageCount_exact]
    simp only [tdiv_page]
    split_ifs <;> omega
  rw [stompAlloc,if_neg none]

theorem stomp_never_short (within : count.toNat * elementSize.toNat < 2^64) :
    NeverShort .stomp elementSize count ↔ InRange .stomp (count.toNat * elementSize.toNat) := by
  have sum := size_exact within
  unfold NeverShort allocate poolAlloc InRange
  rw [← Int.natCast_mul]
  generalize count.toNat * elementSize.toNat = bytes at *
  generalize (count * elementSize).toUInt32.toInt32 = size at *
  rw [Int.bmod_def] at sum
  by_cases reach : 0 < (withHeader size).toInt ∧ (withHeader size).toInt ≤ 2^31 - 4096
  · simp only [stompAlloc_small _ reach.1 reach.2]
    rw [granted_exact]
    split at sum <;> omega
  · have none (grants : Int → Bool) : stompAlloc grants (withHeader size) = .noMemory := stompAlloc_none grants (by omega)
    have range : bytes + 32 ≤ 2^31 - 4096 ∨ (bytes + 32) % 2^32 = 0 ∨ 2^31 - 4096 < (bytes + 32) % 2^32 := by
      split at sum <;> omega
    exact iff_of_true (fun grants => .inl (none grants)) range

theorem pools_never_short (within : count.toNat * elementSize.toNat < 2^64) :
    NeverShort .pools elementSize count ↔ InRange .pools (count.toNat * elementSize.toNat) := by
  have last : lastPool = 3840 := rfl
  have sum := size_exact within
  unfold NeverShort allocate poolAlloc InRange
  rw [← Int.natCast_mul]
  generalize count.toNat * elementSize.toNat = bytes at *
  generalize (count * elementSize).toUInt32.toInt32 = size at *
  have most := (withHeader size).toInt_lt
  rw [Int.bmod_def] at sum
  by_cases large : 4096 < (withHeader size).toInt
  · simp only [route_system large]
    refine granted_exact.trans ?_
    split at sum <;> omega
  · by_cases small : 0 ≤ (withHeader size).toInt ∧ (withHeader size).toInt ≤ lastPool
    · obtain ⟨pool,_,routed,_,fits,bound⟩ := route_pool small.1 small.2
      simp only [routed]
      refine granted_exact.trans ?_
      split at sum <;> omega
    · simp only [route_none (n := withHeader size) (by omega) (by omega)]
      refine iff_of_false (fun safe => ?_) (by split at sum <;> omega)
      rcases safe fun _ => true with none | ⟨_,block,_⟩
      · cases none
      · cases block

theorem never_short_exact (build : Build) (within : count.toNat * elementSize.toNat < 2^64) :
    NeverShort build elementSize count ↔ InRange build (count.toNat * elementSize.toNat) := by
  cases build with
  | stomp => exact stomp_never_short within
  | pools => exact pools_never_short within

theorem never_short_exact_small : NeverShort .stomp 8 100 ↔ InRange .stomp ((100 : UInt64).toNat * (8 : UInt64).toNat) :=
  never_short_exact .stomp (by decide)

-- A block of 32 bytes, all header, for 4 GiB of elements.
theorem short_block : ¬ ∀ (build : Build) (elementSize count : UInt64), 1 ≤ elementSize.toNat →
    count.toNat * elementSize.toNat < 2^64 → NeverShort build elementSize count := by
  intro every
  have range := (stomp_never_short (by decide)).mp (every .stomp 1 0x100000000 (by decide) (by decide))
  exact absurd range (by decide)

end IocpChatServer.ServerCore.ContainerMemory
