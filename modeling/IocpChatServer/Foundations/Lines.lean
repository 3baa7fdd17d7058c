import Mathlib.Data.List.Flatten

namespace IocpChatServer.Foundations.Lines
variable {α β : Type _}

def lines (isEnd : α → Bool) : List α → List (List α)
  | [] => []
  | c :: rest =>
    if isEnd c then [c] :: lines isEnd rest
    else match lines isEnd rest with
      | [] => [[c]]
      | line :: later => (c :: line) :: later

theorem lines_flatten (isEnd : α → Bool) (text : List α) : (lines isEnd text).flatten = text := by
  induction text with
  | nil => rfl
  | cons c rest ih =>
    unfold lines
    split
    · rw [List.flatten_cons,ih]
      rfl
    · rename_i inner
      cases parts : lines isEnd rest with
      | nil =>
        rw [parts] at ih
        rw [← ih]
        rfl
      | cons line later =>
        rw [parts] at ih
        rw [← ih]
        rfl

theorem lines_map (isEnd : β → Bool) (f : α → β) (text : List α) :
    lines isEnd (text.map f) = (lines (fun c => isEnd (f c)) text).map (List.map f) := by
  induction text with
  | nil => rfl
  | cons c rest ih =>
    rw [List.map_cons,lines,lines,ih]
    split
    · rfl
    · cases lines (fun c => isEnd (f c)) rest <;> rfl

theorem flatMap_eq_iff {f g : α → List β} {all : List α} (shorter : ∀ x ∈ all, (f x).Sublist (g x)) :
    all.flatMap f = all.flatMap g ↔ ∀ x ∈ all, f x = g x := by
  induction all with
  | nil => simp
  | cons x rest ih =>
    have ih := ih fun y member => shorter y (List.mem_cons_of_mem _ member)
    have here := shorter x List.mem_cons_self
    have behind : (rest.flatMap f).Sublist (rest.flatMap g) :=
      List.Sublist.flatMap_right rest fun y member => shorter y (List.mem_cons_of_mem _ member)
    rw [List.forall_mem_cons,List.flatMap_cons,List.flatMap_cons,← ih]
    constructor
    · intro same
      have lengths := congrArg List.length same
      have first := here.length_le
      have later := behind.length_le
      simp only [List.length_append] at lengths
      exact ⟨here.eq_of_length (by omega),behind.eq_of_length (by omega)⟩
    · rintro ⟨first,later⟩
      rw [first,later]

end IocpChatServer.Foundations.Lines
