import Mathlib.Data.List.Nodup
import Mathlib.Logic.Function.Basic

namespace IocpChatServer.Foundations.Counted
variable {Object Holder : Type _} [DecidableEq Object] [DecidableEq Holder]

-- Counted references by their holders: an object's count is the length of its list.
def hold (holders : Object → List Holder) (object : Object) (holder : Holder) : Object → List Holder :=
  Function.update holders object (holder :: holders object)

def release (holders : Object → List Holder) (object : Object) (holder : Holder) : Object → List Holder :=
  Function.update holders object ((holders object).erase holder)

structure Exact (holders : Object → List Holder) (Holds : Holder → Object → Prop) : Prop where
  mem : ∀ object holder, holder ∈ holders object ↔ Holds holder object
  nodup : ∀ object, (holders object).Nodup

variable {holders : Object → List Holder} {Holds After : Holder → Object → Prop} {object : Object} {holder : Holder}

omit [DecidableEq Object] [DecidableEq Holder] in
theorem Exact.congr (exact_ : Exact holders Holds) (after : ∀ holder object, After holder object ↔ Holds holder object) :
    Exact holders After :=
  ⟨fun object holder => (exact_.mem object holder).trans (after holder object).symm,exact_.nodup⟩

omit [DecidableEq Object] [DecidableEq Holder] in
theorem Exact.unheld (exact_ : Exact holders Holds) (zero : holders object = []) (holder : Holder) : ¬ Holds holder object := by
  intro holds
  have member := (exact_.mem object holder).mpr holds
  simp [zero] at member

omit [DecidableEq Holder] in
theorem Exact.hold (exact_ : Exact holders Holds) (new : ¬ Holds holder object)
    (after : ∀ other held, After other held ↔ Holds other held ∨ other = holder ∧ held = object) :
    Exact (Counted.hold holders object holder) After where
  mem held other := by
    rw [after,← exact_.mem]
    by_cases same : held = object
    · subst same
      simp [Counted.hold,or_comm]
    · simp [Counted.hold,same]
  nodup held := by
    by_cases same : held = object
    · subst same
      simpa [Counted.hold,exact_.nodup,exact_.mem] using new
    · simpa [Counted.hold,same] using exact_.nodup held

theorem Exact.release (exact_ : Exact holders Holds)
    (after : ∀ other held, After other held ↔ Holds other held ∧ ¬ (other = holder ∧ held = object)) :
    Exact (Counted.release holders object holder) After where
  mem held other := by
    rw [after,← exact_.mem]
    by_cases same : held = object
    · subst same
      simp [Counted.release,(exact_.nodup held).mem_erase_iff,and_comm]
    · simp [Counted.release,same]
  nodup held := by
    by_cases same : held = object
    · subst same
      simpa [Counted.release] using (exact_.nodup held).erase holder
    · simpa [Counted.release,same] using exact_.nodup held

theorem Exact.transfer {giver taker : Holder} (exact_ : Exact holders Holds) (new : Holds taker object → taker = giver)
    (after : ∀ other held, After other held ↔ Holds other held ∧ ¬ (other = giver ∧ held = object) ∨ other = taker ∧ held = object) :
    Exact (Counted.hold (Counted.release holders object giver) object taker) After := by
  refine (exact_.release fun _ _ => Iff.rfl).hold ?_ after
  intro given
  obtain ⟨holds,apart⟩ := given
  exact apart ⟨new holds,rfl⟩

end IocpChatServer.Foundations.Counted
