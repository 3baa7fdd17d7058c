import Mathlib.Data.List.Basic
import Mathlib.Data.List.Induction

namespace IocpChatServer.Foundations.TransitionSystem
variable {σ ε : Type _}

-- Finite runs of a labelled transition relation, newest event last.
inductive Runs (step : σ → ε → σ → Prop) : σ → List ε → σ → Prop where
  | nil : Runs step s [] s
  | step : Runs step s earlier middle → step middle event next → Runs step s (earlier ++ [event]) next

variable {step finer : σ → ε → σ → Prop}

theorem Runs.append (one : Runs step s earlier middle) (two : Runs step middle later next) :
    Runs step s (earlier ++ later) next := by
  induction two with
  | nil => simpa using one
  | step _ taken ih => simpa only [List.append_assoc] using Runs.step ih taken

theorem Runs.single (taken : step s event next) : Runs step s [event] next := .step .nil taken

theorem Runs.cons (taken : step s event middle) (rest : Runs step middle later next) :
    Runs step s (event :: later) next := (Runs.single taken).append rest

theorem Runs.invariant {Inv : σ → Prop} (keeps : ∀ s event next, Inv s → step s event next → Inv next)
    (path : Runs step s events next) (start : Inv s) : Inv next := by
  induction path with
  | nil => exact start
  | step _ taken ih => exact keeps _ _ _ ih taken

theorem Runs.mono (weaker : ∀ s event next, finer s event next → step s event next)
    (path : Runs finer s events next) : Runs step s events next := by
  induction path with
  | nil => exact .nil
  | step _ taken ih => exact .step ih (weaker _ _ _ taken)

theorem Runs.last (path : Runs step s (earlier ++ [event]) next) :
    ∃ middle, Runs step s earlier middle ∧ step middle event next := by
  generalize whole : earlier ++ [event] = events at path
  cases path with
  | nil => simp at whole
  | step path taken =>
    obtain ⟨rfl,same⟩ := List.append_inj' whole rfl
    cases same
    exact ⟨_,path,taken⟩

theorem Runs.before (path : Runs step s (earlier ++ later) next) : ∃ middle, Runs step s earlier middle := by
  induction later using List.reverseRecOn generalizing next with
  | nil => exact ⟨next,by simpa using path⟩
  | append_singleton rest event ih =>
    rw [← List.append_assoc] at path
    obtain ⟨middle,path,_⟩ := path.last
    exact ih path

theorem Runs.unique (functional : ∀ s event one two, step s event one → step s event two → one = two)
    (one : Runs step s events next) (two : Runs step s events other) : next = other := by
  induction one generalizing other with
  | nil =>
    generalize none : ([] : List ε) = events at two
    cases two with
    | nil => rfl
    | step => simp at none
  | step _ taken ih =>
    obtain ⟨middle,path,takenToo⟩ := two.last
    cases ih path
    exact functional _ _ _ _ taken takenToo

def Guarded (step : σ → ε → σ → Prop) (admits : σ → ε → Prop) : σ → ε → σ → Prop :=
  fun s event next => step s event next ∧ admits s event

-- When a step that is not admitted shows at once, the runs that are good all along are
-- the runs of admitted steps.
theorem Runs.exact {Sound Good : σ → Prop} {admits : σ → ε → Prop}
    (functional : ∀ s event one two, step s event one → step s event two → one = two)
    (keeps : ∀ s event next, Sound s → Guarded step admits s event next → Sound next)
    (good : ∀ s, Sound s → Good s)
    (breaks : ∀ s event next, Sound s → step s event next → ¬ admits s event → ¬ Good next)
    (start : Sound s) (path : Runs step s events next) :
    (∀ earlier middle, earlier <+: events → Runs step s earlier middle → Good middle) ↔
      Runs (Guarded step admits) s events next := by
  constructor
  · intro always
    induction path with
    | nil => exact .nil
    | @step earlier middle event next path taken ih =>
      have guarded := ih fun before state early => always before state (early.trans (List.prefix_append _ _))
      by_cases admitted : admits middle event
      · exact .step guarded ⟨taken,admitted⟩
      · exact absurd (always _ next (List.prefix_refl _) (.step path taken))
          (breaks middle event next (guarded.invariant keeps start) taken admitted)
  · rintro guarded earlier middle ⟨later,rfl⟩ reached
    obtain ⟨same,path⟩ := guarded.before
    cases Runs.unique functional reached (path.mono fun _ _ _ taken => taken.1)
    exact good _ (path.invariant keeps start)

def Enabled (f : σ → ε → Option σ) : σ → ε → σ → Prop := fun s event next => f s event = some next

def execute (f : σ → ε → Option σ) : σ → List ε → Option σ
  | s,[] => some s
  | s,event :: rest => (f s event).bind (execute f · rest)

theorem execute_runs {f : σ → ε → Option σ} (done : execute f s events = some next) :
    Runs (Enabled f) s events next := by
  induction events generalizing s with
  | nil =>
    cases done
    exact .nil
  | cons event rest ih =>
    cases taken : f s event with
    | none => simp [execute,taken] at done
    | some middle => exact .cons taken (ih (by simpa [execute,taken] using done))

def guard (f : σ → ε → Option σ) (admits : σ → ε → Prop) [∀ s event, Decidable (admits s event)] : σ → ε → Option σ :=
  fun s event => if admits s event then f s event else none

theorem guard_runs {f : σ → ε → Option σ} {admits : σ → ε → Prop} [∀ s event, Decidable (admits s event)]
    (done : execute (guard f admits) s events = some next) : Runs (Guarded (Enabled f) admits) s events next := by
  refine (execute_runs done).mono fun s event next taken => ?_
  unfold Enabled guard at taken
  split at taken
  · rename_i admitted
    exact ⟨taken,admitted⟩
  · cases taken

end IocpChatServer.Foundations.TransitionSystem
