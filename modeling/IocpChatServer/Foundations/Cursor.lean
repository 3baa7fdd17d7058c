import IocpChatServer.Foundations.Memory

namespace IocpChatServer.Foundations.Cursor
open Memory

-- A memory that keeps the ranges it has been touched in.
structure Watched (α : Type _) where
  cells : Nat → α
  touched : List (Nat × Nat) := []

variable {α : Type _} {size pos free len : UInt32}

def Watched.put (m : Watched α) (pos : Nat) (bytes : List α) : Watched α :=
  {cells := store m.cells pos bytes,touched := m.touched ++ [(pos,bytes.length)]}

def Watched.get (m : Watched α) (pos n : Nat) : List α × Watched α :=
  (slice m.cells pos n,{m with touched := m.touched ++ [(pos,n)]})

-- An object of `size` cells, a position in it and what is free behind the position: nothing outside has been touched.
structure Inside (size pos free : UInt32) (touched : List (Nat × Nat)) : Prop where
  within : pos ≤ size
  free : free.toNat + pos.toNat = size.toNat
  touches : ∀ range ∈ touched, ∀ index, range.1 ≤ index → index < range.1 + range.2 → index < size.toNat

theorem free_toNat (within : pos ≤ size) : (size - pos).toNat = size.toNat - pos.toNat := UInt32.toNat_sub_of_le _ _ within

theorem short_iff (within : pos ≤ size) : size - pos < len ↔ ¬ pos.toNat + len.toNat ≤ size.toNat := by
  have ordered : pos.toNat ≤ size.toNat := UInt32.le_iff_toNat_le.1 within
  rw [UInt32.lt_iff_toNat_lt,free_toNat within]
  omega

theorem advance_toNat (fits : pos.toNat + len.toNat ≤ size.toNat) : (pos + len).toNat = pos.toNat + len.toNat := by
  have bound := size.toNat_lt
  rw [UInt32.toNat_add,Nat.mod_eq_of_lt (by omega)]

theorem cut_toNat {n : UInt64} (fits : n.toNat ≤ size.toNat) : n.toUInt32.toNat = n.toNat := by
  have bound := size.toNat_lt
  rw [UInt64.toNat_toUInt32,Nat.mod_eq_of_lt (by omega)]

theorem inside_of_within {touched : List (Nat × Nat)} (within : pos ≤ size)
    (touches : ∀ range ∈ touched, ∀ index, range.1 ≤ index → index < range.1 + range.2 → index < size.toNat) :
    Inside size pos (size - pos) touched := by
  have ordered : pos.toNat ≤ size.toNat := UInt32.le_iff_toNat_le.1 within
  exact ⟨within,by rw [free_toNat within]; omega,touches⟩

theorem Inside.advance {touched : List (Nat × Nat)} (inside : Inside size pos free touched) (fits : pos.toNat + len.toNat ≤ size.toNat) :
    Inside size (pos + len) (size - (pos + len)) (touched ++ [(pos.toNat,len.toNat)]) := by
  refine inside_of_within ?_ fun range member index from_ to_ => ?_
  · rw [UInt32.le_iff_toNat_le,advance_toNat fits]
    exact fits
  · rcases List.mem_append.1 member with old | new
    · exact inside.touches range old index from_ to_
    · cases List.mem_singleton.1 new
      exact Nat.lt_of_lt_of_le to_ fits

theorem Inside.fits {touched : List (Nat × Nat)} {start n : Nat} (inside : Inside size pos free touched) (range : (start,n) ∈ touched)
    (ordered : start ≤ size.toNat) : start + n ≤ size.toNat := by
  apply Nat.le_of_not_lt
  intro past
  have last := inside.touches _ range size.toNat ordered past
  exact Nat.lt_irrefl _ last

end IocpChatServer.Foundations.Cursor
