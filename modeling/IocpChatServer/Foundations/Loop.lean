import Mathlib.Data.Nat.Basic

namespace IocpChatServer.Foundations.Loop
variable {σ : Type _} {body : σ → Option σ}

-- A loop body answers `none` when it leaves the loop with the state it was given
-- and `some next` when it goes round again. Fuel only bounds the number of rounds
-- a computation looks at; it is no part of the meaning of the loop.
def iterate (body : σ → Option σ) : Nat → σ → Option σ
  | 0,_ => none
  | fuel+1,s =>
    match body s with
    | none => some s
    | some next => iterate body fuel next

def Leaves (body : σ → Option σ) (s r : σ) : Prop := ∃ fuel, iterate body fuel s = some r

theorem iterate_leave (left : body s = none) : iterate body (fuel+1) s = some s := by
  simp [iterate,left]

theorem iterate_round (went : body s = some next) :
    iterate body (fuel+1) s = iterate body fuel next := by
  simp [iterate,went]

theorem iterate_more (done : iterate body fuel s = some r) (enough : fuel ≤ more) :
    iterate body more s = some r := by
  induction fuel generalizing s more with
  | zero => simp [iterate] at done
  | succ fuel ih =>
    obtain ⟨more,rfl⟩ := Nat.exists_eq_add_of_le' (Nat.le_trans (Nat.le_add_left 1 fuel) enough)
    cases step : body s with
    | none => simpa [iterate,step] using done
    | some next =>
      rw [iterate_round step] at done ⊢
      exact ih done (Nat.le_of_add_le_add_right enough)

inductive Rounds (body : σ → Option σ) (s : σ) : σ → Prop where
  | start : Rounds body s s
  | round : Rounds body s middle → body middle = some next → Rounds body s next

theorem Rounds.invariant {Inv : σ → Prop} (keeps : ∀ s next, Inv s → body s = some next → Inv next)
    (path : Rounds body s r) (start : Inv s) : Inv r := by
  induction path with
  | start => exact start
  | round _ went ih => exact keeps _ _ ih went

theorem Rounds.first (went : body s = some next) (path : Rounds body next r) : Rounds body s r := by
  induction path with
  | start => exact .round .start went
  | round _ wentOn ih => exact .round ih wentOn

theorem Rounds.leaves (path : Rounds body s middle) (left : Leaves body s r) : Leaves body middle r := by
  induction path with
  | start => exact left
  | round _ went ih =>
    obtain ⟨fuel,done⟩ := ih
    cases fuel with
    | zero => cases done
    | succ fuel => exact ⟨fuel,by rwa [iterate_round went] at done⟩

theorem iterate_rounds (done : iterate body fuel s = some r) : Rounds body s r ∧ body r = none := by
  induction fuel generalizing s with
  | zero => cases done
  | succ fuel ih =>
    cases step : body s with
    | none =>
      rw [iterate_leave step] at done
      cases done
      exact ⟨.start,step⟩
    | some next =>
      rw [iterate_round step] at done
      obtain ⟨path,left⟩ := ih done
      exact ⟨path.first step,left⟩

theorem leaves_variant (variant : σ → Nat)
    (falls : ∀ middle next, Rounds body s middle → body middle = some next → variant next < variant middle) :
    ∃ r, Leaves body s r := by
  generalize bound : variant s = n
  induction n using Nat.strongRecOn generalizing s with
  | ind n ih =>
    cases step : body s with
    | none => exact ⟨s,1,iterate_leave step⟩
    | some next =>
      have less := falls s next .start step
      obtain ⟨r,fuel,done⟩ := ih (variant next) (bound ▸ less)
        (fun middle after path went => falls middle after (path.first step) went) rfl
      exact ⟨r,fuel+1,by rw [iterate_round step]; exact done⟩

end IocpChatServer.Foundations.Loop
