import Mathlib.Data.List.Induction
import Mathlib.Logic.Function.Basic

namespace IocpChatServer.Tools

def uint16Max : Nat := 65535

structure HandlerTable (Handler : Type _) where
  handlers : Fin uint16Max → Handler

namespace HandlerTable
variable {Handler : Type _} {invalid handler : Handler} {entries : List (Nat × Handler)} {t : HandlerTable Handler} {id : Nat}

-- GPacketHandler[id]; one past the last is outside of it, as is every larger one.
def entry (t : HandlerTable Handler) (id : Nat) : Option Handler := if inside : id < uint16Max then some (t.handlers ⟨id,inside⟩) else none

-- A store outside of the table is undefined, and leaves the table as it is here.
def assign (t : HandlerTable Handler) (id : Nat) (handler : Handler) : HandlerTable Handler :=
  if inside : id < uint16Max then ⟨Function.update t.handlers ⟨id,inside⟩ handler⟩ else t

-- Init of the template: the whole table is filled with Handle_INVALID, and each packet that is
-- received gets its handler.
def init (invalid : Handler) (entries : List (Nat × Handler)) : HandlerTable Handler :=
  entries.foldl (fun t entry => t.assign entry.1 entry.2) ⟨fun _ => invalid⟩

theorem entry_inside : (∃ handler, t.entry id = some handler) ↔ id < uint16Max := by
  unfold entry
  split
  · rename_i inside
    exact ⟨fun _ => inside,fun _ => ⟨_,rfl⟩⟩
  · rename_i outside
    exact ⟨fun none => by simp at none,fun inside => absurd inside outside⟩

theorem entry_assign {other : Nat} (inside : id < uint16Max) :
    (t.assign id handler).entry other = if other = id then some handler else t.entry other := by
  unfold assign entry
  rw [dif_pos inside]
  by_cases same : other = id
  · subst same
    simp [inside]
  · rw [if_neg same]
    split
    · exact congrArg some (Function.update_of_ne (by simpa using same) handler t.handlers)
    · rfl

theorem assign_outside (outside : uint16Max ≤ id) : t.assign id handler = t := dif_neg (Nat.not_lt.mpr outside)

theorem entry_fill (inside : id < uint16Max) : entry ⟨fun _ => invalid⟩ id = some invalid := dif_pos inside

theorem init_append (entries : List (Nat × Handler)) (id : Nat) (handler : Handler) :
    init invalid (entries ++ [(id,handler)]) = (init invalid entries).assign id handler := by
  simp [init,List.foldl_append]

theorem init_source (found : (init invalid entries).entry id = some handler) : handler = invalid ∨ (id,handler) ∈ entries := by
  induction entries using List.reverseRecOn with
  | nil =>
    have inside := entry_inside.mp ⟨_,found⟩
    exact .inl (Option.some.inj (found.symm.trans (entry_fill inside)))
  | append_singleton earlier last ih =>
    obtain ⟨other,installed⟩ := last
    rw [init_append] at found
    by_cases inside : other < uint16Max
    · rw [entry_assign inside] at found
      split at found
      · rename_i same
        subst same
        cases found
        exact .inr (by simp)
      · exact (ih found).imp_right (List.mem_append_left _)
    · rw [assign_outside (Nat.not_lt.mp inside)] at found
      exact (ih found).imp_right (List.mem_append_left _)

theorem init_installed (member : (id,handler) ∈ entries) (inside : id < uint16Max)
    (own : ∀ other, (id,other) ∈ entries → other = handler) : (init invalid entries).entry id = some handler := by
  induction entries using List.reverseRecOn with
  | nil => cases member
  | append_singleton earlier last ih =>
    obtain ⟨other,installed⟩ := last
    rw [init_append]
    have before (rest : (id,handler) ∈ earlier) : (init invalid earlier).entry id = some handler :=
      ih rest fun any there => own any (List.mem_append_left _ there)
    by_cases within : other < uint16Max
    · rw [entry_assign within]
      split
      · rename_i same
        subst same
        exact congrArg some (own installed (by simp))
      · rename_i apart
        refine before ((List.mem_append.mp member).resolve_right fun last => ?_)
        simp only [List.mem_singleton,Prod.mk.injEq] at last
        exact apart last.1
    · rw [assign_outside (Nat.not_lt.mp within)]
      refine before ((List.mem_append.mp member).resolve_right fun last => ?_)
      simp only [List.mem_singleton,Prod.mk.injEq] at last
      exact within (last.1 ▸ inside)

end HandlerTable
end IocpChatServer.Tools
