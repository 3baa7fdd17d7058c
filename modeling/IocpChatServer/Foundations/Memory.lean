import Mathlib.Algebra.Order.Ring.Nat
import Mathlib.Data.List.Basic

namespace IocpChatServer.Foundations.Memory
variable {α : Type _} {m : Nat → α} {pos base n k : Nat} {bytes : List α}

-- A memory is total; which of its cells belong to an object is the object's concern.
def slice (m : Nat → α) (pos n : Nat) : List α := (List.range n).map fun i => m (pos+i)

def store (m : Nat → α) (pos : Nat) (bytes : List α) : Nat → α := fun i =>
  if pos ≤ i then bytes[i-pos]?.getD (m i) else m i

-- The source is read as a whole before anything is written, so overlapping ranges are harmless.
def move (m : Nat → α) (dst src n : Nat) : Nat → α := store m dst (slice m src n)

@[simp] theorem slice_length : (slice m pos n).length = n := by simp [slice]
@[simp] theorem slice_zero : slice m pos 0 = [] := rfl

theorem slice_congr {other : Nat → α} {pos' : Nat} (same : ∀ i < n, m (pos+i) = other (pos'+i)) :
    slice m pos n = slice other pos' n :=
  List.map_congr_left fun i member => same i (List.mem_range.mp member)

theorem slice_shift : slice (fun i => m (base+i)) pos n = slice m (base+pos) n :=
  slice_congr fun i _ => by simp only [Nat.add_assoc]

theorem slice_add : slice m pos (n+k) = slice m pos n ++ slice m (pos+n) k := by
  simp only [slice,List.range_add,List.map_append,List.map_map]
  congr 1
  exact List.map_congr_left fun i _ => by simp [Nat.add_assoc]

theorem slice_take (within : k ≤ n) : (slice m pos n).take k = slice m pos k := by
  obtain ⟨rest,rfl⟩ := Nat.exists_eq_add_of_le within
  rw [slice_add,List.take_append_of_le_length (by simp),List.take_of_length_le (by simp)]

theorem slice_drop (within : k ≤ n) : (slice m pos n).drop k = slice m (pos+k) (n-k) := by
  obtain ⟨rest,rfl⟩ := Nat.exists_eq_add_of_le within
  rw [slice_add,List.drop_append_of_le_length (by simp),List.drop_of_length_le (by simp),
    Nat.add_sub_cancel_left,List.nil_append]

theorem store_inside (bound : k < bytes.length) : store m pos bytes (pos+k) = bytes[k] := by
  simp [store,bound]

theorem store_before (outside : k < pos) : store m pos bytes k = m k := by
  simp [store,Nat.not_le.mpr outside]

theorem slice_store : slice (store m pos bytes) pos bytes.length = bytes := by
  apply List.ext_getElem (by simp)
  intro i inSlice inBytes
  simp only [slice,List.getElem_map,List.getElem_range]
  exact store_inside inBytes

theorem slice_store_before (apart : base + n ≤ pos) :
    slice (store m pos bytes) base n = slice m base n :=
  slice_congr fun i inside => store_before (by omega)

theorem store_after (outside : pos + bytes.length ≤ k) : store m pos bytes k = m k := by
  unfold store
  split
  · rw [List.getElem?_eq_none (by omega)]
    rfl
  · rfl

theorem slice_store_after (apart : pos + bytes.length ≤ base) :
    slice (store m pos bytes) base n = slice m base n :=
  slice_congr fun i _ => store_after (by omega)

theorem slice_move : slice (move m base pos n) base n = slice m pos n := by
  have stored := @slice_store _ m base (slice m pos n)
  rwa [slice_length] at stored

end IocpChatServer.Foundations.Memory
