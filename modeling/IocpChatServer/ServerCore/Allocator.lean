import Mathlib.Data.Int.Basic
import Mathlib.Algebra.Order.Ring.Int
import IocpChatServer.ServerCore.MemoryPool

namespace IocpChatServer.ServerCore.Allocator
open MemoryPool

def pageSize : Int32 := 0x1000

namespace StompAllocator

-- The sum and the quotient are int32: the sum wraps around and the quotient is rounded to zero.
def pageCount (size : Int32) : Int64 := ((size + pageSize - 1) / pageSize).toInt64

-- The bytes VirtualAlloc is asked for.
def reserved (size : Int32) : Int64 := pageCount size * pageSize.toInt64

def dataOffset (size : Int32) : Int64 := reserved size - size.toInt64

-- `baseAddress` is what VirtualAlloc returns.
def alloc (baseAddress : Int64) (size : Int32) : Int64 := baseAddress + dataOffset size

-- The address VirtualFree gets.
def release (ptr : Int64) : Int64 := ptr - ptr % pageSize.toInt64

end StompAllocator

namespace MemoryHeader

-- `headers` has the allocSize that stands in front of each piece of data.
def attachHeader (headers : Int64 → Int32) (header : Int64) (size : Int32) : Int64 × (Int64 → Int32) :=
  (header + 32,Function.update headers header size)

def detachHeader (ptr : Int64) : Int64 := ptr - 32

end MemoryHeader

-- As built with _STOMP.
namespace Memory

def allocate (headers : Int64 → Int32) (baseAddress : Int64) (size : Int32) : Int64 × (Int64 → Int32) :=
  let allocSize := withHeader size
  MemoryHeader.attachHeader headers (StompAllocator.alloc baseAddress allocSize) allocSize

-- Nothing when ASSERT_CRASH fails.
def release (headers : Int64 → Int32) (ptr : Int64) : Option Int64 :=
  let header := MemoryHeader.detachHeader ptr
  let allocSize := headers header
  if allocSize > 0 then some (StompAllocator.release header) else none

end Memory
namespace StompAllocator

def NoOverflow (baseAddress : Int64) (size : Int32) : Prop := baseAddress.toInt + (pageCount size).toInt * 4096 < 2^63

instance (baseAddress : Int64) (size : Int32) : Decidable (NoOverflow baseAddress size) := inferInstanceAs (Decidable (_ < _))

-- The block ends where the last of the fewest pages ends that can hold it.
structure Placed (baseAddress : Int64) (size : Int32) : Prop where
  low : baseAddress.toInt ≤ (alloc baseAddress size).toInt
  high : (alloc baseAddress size).toInt < baseAddress.toInt + (pageCount size).toInt * 4096
  ends : (alloc baseAddress size).toInt + size.toInt = baseAddress.toInt + (pageCount size).toInt * 4096
  holds : size.toInt ≤ (pageCount size).toInt * 4096
  least : ∀ pages, size.toInt ≤ pages * 4096 → (pageCount size).toInt ≤ pages
  frees : release (alloc baseAddress size) = baseAddress

variable {baseAddress : Int64} {size : Int32}

theorem tdiv_page (n : Int) : n.tdiv 4096 = if 0 ≤ n then n / 4096 else -(-n / 4096) := by
  split
  · rename_i nonneg
    exact Int.tdiv_eq_ediv_of_nonneg nonneg
  · rename_i negative
    rw [← Int.tdiv_eq_ediv_of_nonneg (by omega : 0 ≤ -n),Int.neg_tdiv,Int.neg_neg]

theorem pageCount_exact (size : Int32) : (pageCount size).toInt =
    if size.toInt ≤ 2^31 - 4096 then (size.toInt + 4095).tdiv 4096 else (size.toInt + 4095 - 2^32).tdiv 4096 := by
  have low := size.le_toInt
  have high := size.toInt_lt
  have page : pageSize.toInt = 4096 := by decide
  have one : (1 : Int32).toInt = 1 := by decide
  have sum : (size + pageSize - 1).toInt = if size.toInt ≤ 2^31 - 4096 then size.toInt + 4095 else size.toInt + 4095 - 2^32 := by
    simp only [Int32.toInt_sub,Int32.toInt_add,page,one,Int.bmod_def]
    split_ifs <;> omega
  have quotient : ((size + pageSize - 1) / pageSize).toInt = (size + pageSize - 1).toInt.tdiv 4096 := by
    rw [Int32.toInt_div_of_ne_right _ _ (by decide),page]
  rw [pageCount,Int32.toInt_toInt64,quotient,sum]
  split_ifs <;> rfl

theorem pageCount_small (low : 0 ≤ size.toInt) (high : size.toInt ≤ 2^31 - 4096) : (pageCount size).toInt = (size.toInt + 4095) / 4096 := by
  rw [pageCount_exact,if_pos high,Int.tdiv_eq_ediv_of_nonneg (by omega)]

theorem reserved_exact (size : Int32) : (reserved size).toInt = (pageCount size).toInt * 4096 ∧
    -2^32 ≤ (reserved size).toInt ∧ (reserved size).toInt ≤ 2^32 := by
  have low := size.le_toInt
  have high := size.toInt_lt
  have page : pageSize.toInt64.toInt = 4096 := by decide
  have bounds : -2^20 ≤ (pageCount size).toInt ∧ (pageCount size).toInt ≤ 2^20 := by
    simp only [pageCount_exact,tdiv_page]
    split_ifs <;> omega
  have product : (reserved size).toInt = (pageCount size).toInt * 4096 := by
    rw [reserved,Int64.toInt_mul,page,Int.bmod_def]
    split_ifs <;> omega
  omega

theorem dataOffset_exact (size : Int32) : (dataOffset size).toInt = (pageCount size).toInt * 4096 - size.toInt := by
  have low := size.le_toInt
  have high := size.toInt_lt
  obtain ⟨product,bounds⟩ := reserved_exact size
  rw [dataOffset,Int64.toInt_sub,Int32.toInt_toInt64,Int.bmod_def]
  split_ifs <;> omega

theorem alloc_exact (room : NoOverflow baseAddress size) (nonneg : 0 ≤ baseAddress.toInt) (low : 0 ≤ size.toInt)
    (high : size.toInt ≤ 2^31 - 4096) : (alloc baseAddress size).toInt = baseAddress.toInt + (pageCount size).toInt * 4096 - size.toInt := by
  have pages := pageCount_small low high
  have bound := baseAddress.toInt_lt
  unfold NoOverflow at room
  rw [alloc,Int64.toInt_add,dataOffset_exact,Int.bmod_def]
  split_ifs <;> omega

theorem release_exact (ptr : Int64) (nonneg : 0 ≤ ptr.toInt) : (release ptr).toInt = ptr.toInt / 4096 * 4096 := by
  have bound := ptr.toInt_lt
  have page : pageSize.toInt64.toInt = 4096 := by decide
  rw [release,Int64.toInt_sub,Int64.toInt_mod,page,Int.tmod_eq_emod_of_nonneg nonneg,Int.bmod_def]
  split_ifs <;> omega

theorem placed (nonneg : 0 ≤ baseAddress.toInt) (aligned : 4096 ∣ baseAddress.toInt) (low : 1 ≤ size.toInt)
    (high : size.toInt ≤ 2^31 - 4096) (room : NoOverflow baseAddress size) : Placed baseAddress size := by
  have pages := pageCount_small (by omega) high
  have address := alloc_exact room nonneg (by omega) high
  refine ⟨by omega,by omega,by omega,by omega,fun other holds => by omega,Int64.toInt_inj.mp ?_⟩
  rw [release_exact _ (by omega)]
  omega

end StompAllocator
open StompAllocator

namespace Memory
variable {headers : Int64 → Int32} {baseAddress : Int64} {size : Int32} {a : Nat}

theorem allocate_exact (room : NoOverflow baseAddress (withHeader size)) (nonneg : 0 ≤ baseAddress.toInt) (low : 1 ≤ size.toInt)
    (high : size.toInt + 32 ≤ 2^31 - 4096) : (withHeader size).toInt = size.toInt + 32 ∧
      (allocate headers baseAddress size).1.toInt = baseAddress.toInt + (pageCount (withHeader size)).toInt * 4096 - size.toInt := by
  have sum := withHeader_small size (by omega) (by omega)
  have address := alloc_exact room nonneg (by omega) (by omega)
  have pages := @pageCount_small (withHeader size) (by omega) (by omega)
  have thirtyTwo : (32 : Int64).toInt = 32 := by decide
  refine ⟨sum,?_⟩
  unfold NoOverflow at room
  rw [allocate,MemoryHeader.attachHeader,Int64.toInt_add,address,thirtyTwo,Int.bmod_def]
  split_ifs <;> omega

def Returns (headers : Int64 → Int32) (baseAddress : Int64) (size : Int32) (a : Nat) : Prop :=
  (a : Int) ∣ (allocate headers baseAddress size).1.toInt ∧
    release (allocate headers baseAddress size).2 (allocate headers baseAddress size).1 = some baseAddress

instance (headers : Int64 → Int32) (baseAddress : Int64) (size : Int32) (a : Nat) : Decidable (Returns headers baseAddress size a) :=
  inferInstanceAs (Decidable (_ ∧ _))

theorem release_allocated (counted : 0 < (withHeader size).toInt) :
    release (allocate headers baseAddress size).2 (allocate headers baseAddress size).1 =
      some (StompAllocator.release (alloc baseAddress (withHeader size))) := by
  have back : MemoryHeader.detachHeader (allocate headers baseAddress size).1 = alloc baseAddress (withHeader size) :=
    Int64.add_sub_cancel _ _
  have kept : (allocate headers baseAddress size).2 (alloc baseAddress (withHeader size)) = withHeader size := Function.update_self ..
  have positive : withHeader size > 0 := Int32.lt_iff_toInt_lt.mpr counted
  simp only [release,back,kept,positive,if_true]

theorem returns (nonneg : 0 ≤ baseAddress.toInt) (aligned : 4096 ∣ baseAddress.toInt) (low : 1 ≤ size.toInt)
    (high : size.toInt + 32 ≤ 2^31 - 4096) (room : NoOverflow baseAddress (withHeader size)) {k : Nat} (small : k ≤ 12)
    (multiple : ((2^k : Nat) : Int) ∣ size.toInt) : Returns headers baseAddress size (2^k) := by
  obtain ⟨sum,address⟩ := @allocate_exact headers _ _ room nonneg low high
  have page : ((2^k : Nat) : Int) ∣ 4096 := by
    have divides : 2^k ∣ 2^12 := Nat.pow_dvd_pow 2 small
    exact_mod_cast divides
  refine ⟨?_,?_⟩
  · rw [address]
    exact Int.dvd_sub (Int.dvd_add (page.trans aligned) (page.mul_left _)) multiple
  · rw [release_allocated (by omega),(placed nonneg aligned (by omega) (by omega) room).frees]

-- The object's size may come as near to 2^31 as its MemoryHeader leaves room for.
theorem stomp_exact (nonneg : 0 ≤ baseAddress.toInt) (aligned : 4096 ∣ baseAddress.toInt) :
    (∀ size : Int32, 1 ≤ size.toInt → size.toInt ≤ 2^31 - 4096 → NoOverflow baseAddress size → Placed baseAddress size) ∧
      ∀ (headers : Int64 → Int32) (size : Int32), 1 ≤ size.toInt → size.toInt + 32 ≤ 2^31 - 4096 →
        NoOverflow baseAddress (withHeader size) → ∀ k ≤ 12, ((2^k : Nat) : Int) ∣ size.toInt → Returns headers baseAddress size (2^k) :=
  ⟨fun _ low high room => placed nonneg aligned low high room,
    fun _ _ low high room _ small multiple => returns nonneg aligned low high room small multiple⟩

theorem stomp_exact_page : Placed 0x200000000 4096 ∧ Returns (fun _ => 0) 0x200000000 4096 (2^12) :=
  have exact := @stomp_exact 0x200000000 (by decide) (by decide)
  ⟨exact.1 4096 (by decide) (by decide) (by decide),exact.2 _ 4096 (by decide) (by decide) (by decide) 12 (by decide) (by decide)⟩

-- With the header the round-up to pages overflows.
theorem largest_not_returned : ¬ ∀ baseAddress : Int64, 0 ≤ baseAddress.toInt → 4096 ∣ baseAddress.toInt →
    (∀ size : Int32, 1 ≤ size.toInt → size.toInt ≤ 2^31 - 4096 → NoOverflow baseAddress size → Placed baseAddress size) ∧
      ∀ (headers : Int64 → Int32) (size : Int32), 1 ≤ size.toInt → size.toInt ≤ 2^31 - 4096 → NoOverflow baseAddress (withHeader size) →
        ∀ k ≤ 12, ((2^k : Nat) : Int) ∣ size.toInt → Returns headers baseAddress size (2^k) := by
  intro every
  have returns := (every 0x200000000 (by decide) (by decide)).2 (fun _ => 0) 0x7ffff000 (by decide) (by decide) (by decide) 0 (by decide) (by decide)
  exact absurd returns (by decide)

end Memory
end IocpChatServer.ServerCore.Allocator
