import IocpChatServer.Foundations.Memory

namespace IocpChatServer.Foundations.Known
open Memory
variable {α : Type _} {m : Nat → α} {start pos offset n : Nat} {cells one two : List (Option α)} {bytes : List α}

def Sees (m : Nat → α) (start : Nat) (cells : List (Option α)) : Prop := ∀ i value, cells[i]? = some (some value) → m (start + i) = value

def overwrite (cells : List (Option α)) (offset : Nat) (bytes : List α) : List (Option α) :=
  cells.take offset ++ (bytes.map some ++ cells.drop (offset + bytes.length))

theorem sees_append : Sees m start (one ++ two) ↔ Sees m start one ∧ Sees m (start + one.length) two := by
  constructor
  · intro sees
    refine ⟨fun i value known => sees i value ?_,fun i value known => ?_⟩
    · rw [List.getElem?_append_left (List.getElem?_eq_some_iff.1 known).1]
      exact known
    · rw [Nat.add_assoc]
      refine sees (one.length + i) value ?_
      rw [List.getElem?_append_right (Nat.le_add_right _ _),Nat.add_sub_cancel_left]
      exact known
  · rintro ⟨first,second⟩ i value known
    by_cases left : i < one.length
    · rw [List.getElem?_append_left left] at known
      exact first i value known
    · rw [List.getElem?_append_right (Nat.le_of_not_lt left)] at known
      have there := second (i - one.length) value known
      rwa [Nat.add_assoc,Nat.add_sub_cancel' (Nat.le_of_not_lt left)] at there

theorem sees_nothing : Sees m start (List.replicate n none) := by
  intro i value known
  rw [List.getElem?_replicate] at known
  split at known <;> cases known

theorem sees_store : Sees (store m start bytes) start (bytes.map some) := by
  intro i value known
  have bound : i < bytes.length := by simpa using (List.getElem?_eq_some_iff.1 known).1
  have same : bytes[i] = value := by simpa [bound] using known
  rw [store_inside bound,same]

theorem sees_slice (sees : Sees m start (bytes.map some)) : slice m start bytes.length = bytes := by
  apply List.ext_getElem slice_length
  intro i _ bound
  have there : m (start + i) = bytes[i] := sees i bytes[i] (by simp [bound])
  simpa [slice] using there

theorem sees_beside (sees : Sees m start cells) (apart : start + cells.length ≤ pos ∨ pos + bytes.length ≤ start) :
    Sees (store m pos bytes) start cells := by
  intro i value known
  have inside : i < cells.length := (List.getElem?_eq_some_iff.1 known).1
  rw [← sees i value known]
  rcases apart with before | after
  · exact store_before (by omega)
  · exact store_after (by omega)

theorem overwrite_length (fits : offset + bytes.length ≤ cells.length) : (overwrite cells offset bytes).length = cells.length := by
  simp only [overwrite,List.length_append,List.length_take,List.length_map,List.length_drop]
  omega

theorem sees_overwrite (sees : Sees m start cells) (fits : offset + bytes.length ≤ cells.length) :
    Sees (store m (start + offset) bytes) start (overwrite cells offset bytes) := by
  have parts : cells = cells.take offset ++ ((cells.drop offset).take bytes.length ++ cells.drop (offset + bytes.length)) := by
    rw [← List.drop_drop,List.take_append_drop,List.take_append_drop]
  have first : (cells.take offset).length = offset := List.length_take_of_le (by omega)
  have middle : ((cells.drop offset).take bytes.length).length = bytes.length :=
    List.length_take_of_le (by rw [List.length_drop]; omega)
  rw [parts,sees_append,sees_append,first,middle] at sees
  rw [overwrite,sees_append,sees_append,first,List.length_map]
  refine ⟨sees_beside sees.1 (.inl ?_),sees_store,sees_beside sees.2.2 (.inr (Nat.le_refl _))⟩
  rw [first]

end IocpChatServer.Foundations.Known
