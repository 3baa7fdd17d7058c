import Std.Data.TreeMap.Lemmas
import Mathlib.Data.List.Perm.Subperm

namespace IocpChatServer.Foundations.Table
open Std
variable {α β : Type _} [Ord α] [TransOrd α] [LawfulEqOrd α] {table : TreeMap α β} {key other : α} {value entry : β}

theorem insert_exact : (table.insert key value)[other]? = some entry ↔
    key = other ∧ value = entry ∨ key ≠ other ∧ table[other]? = some entry := by
  rw [TreeMap.getElem?_insert]
  by_cases same : key = other
  · simp [same]
  · simp [same]

theorem erase_exact : (table.erase key)[other]? = some entry ↔ key ≠ other ∧ table[other]? = some entry := by
  rw [TreeMap.getElem?_erase]
  by_cases same : key = other
  · simp [same]
  · simp [same]

theorem entries_exact : entry ∈ table.toList.map (·.2) ↔ ∃ key : α, table[key]? = some entry := by
  simp only [List.mem_map,Prod.exists,TreeMap.mem_toList_iff_getElem?_eq_some]
  constructor
  · intro given
    obtain ⟨key,value,found,rfl⟩ := given
    exact ⟨key,found⟩
  · intro given
    obtain ⟨key,found⟩ := given
    exact ⟨key,entry,found,rfl⟩

theorem insert_fresh [BEq α] [LawfulBEqOrd α] [LawfulBEq α] (fresh : key ∉ table) :
    (table.insert key value).toList.Perm ((key,value) :: table.toList) := by
  have kept : table.toList.filter (fun entry => !key == entry.1) = table.toList := by
    refine List.filter_eq_self.mpr fun entry member => ?_
    have found := TreeMap.mem_toList_iff_getElem?_eq_some.mp member
    simp only [Bool.not_eq_true',beq_eq_false_iff_ne]
    intro same
    subst same
    exact fresh (TreeMap.mem_iff_isSome_getElem?.mpr (by simp [found]))
  have moved := @TreeMap.toList_insert_perm α β compare table _ _ _ key value
  simpa [kept] using moved

end IocpChatServer.Foundations.Table
