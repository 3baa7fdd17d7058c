import Mathlib.Algebra.Group.Nat.Defs
import Mathlib.Data.List.TakeWhile

namespace IocpChatServer.Foundations.Decimal

def isDigit (c : UInt8) : Bool := 48 ≤ c ∧ c ≤ 57

-- A number of at most `places` places, written in front of `rest` from its last digit.
def digits : Nat → Nat → List UInt8 → List UInt8
  | 0,_,rest => rest
  | places + 1,n,rest => if n < 10 then UInt8.ofNat (48 + n) :: rest else digits places (n / 10) (UInt8.ofNat (48 + n % 10) :: rest)

def value (n : Nat) (digits : List UInt8) : Nat := digits.foldl (fun value c => value * 10 + (c.toNat - 48)) n

variable {places n : Nat} {rest : List UInt8}

theorem digit_toNat (small : n < 10) : (UInt8.ofNat (48 + n)).toNat = 48 + n := by
  rw [UInt8.toNat_ofNat']
  omega

theorem digit_isDigit (small : n < 10) : isDigit (UInt8.ofNat (48 + n)) = true := by
  simp only [isDigit,UInt8.le_iff_toNat_le,digit_toNat small,decide_eq_true_eq]
  change 48 ≤ 48 + n ∧ 48 + n ≤ 57
  omega

theorem digits_value (room : n < 10 ^ places) (some_ : 0 < places) : value 0 (digits places n rest) = value n rest := by
  induction places generalizing n rest with
  | zero => exact absurd some_ (Nat.lt_irrefl 0)
  | succ places ih =>
    unfold digits
    split
    · rename_i small
      rw [value,List.foldl_cons,digit_toNat small,Nat.add_sub_cancel_left]
      simp [value]
    · rename_i large
      have last : n % 10 < 10 := Nat.mod_lt n (by decide)
      rw [Nat.pow_succ] at room
      have more : 0 < places := by
        refine Nat.pos_of_ne_zero fun none => ?_
        subst none
        omega
      rw [ih (Nat.div_lt_of_lt_mul (by omega)) more,value,List.foldl_cons,digit_toNat last,Nat.add_sub_cancel_left]
      have whole : n / 10 * 10 + n % 10 = n := Nat.div_add_mod' n 10
      rw [whole]
      rfl

theorem digits_split (some_ : 0 < places) : ∃ front, front ≠ [] ∧ (∀ c ∈ front, isDigit c = true) ∧
    ∀ rest, digits places n rest = front ++ rest := by
  induction places generalizing n with
  | zero => exact absurd some_ (Nat.lt_irrefl 0)
  | succ places ih =>
    by_cases small : n < 10
    · refine ⟨[UInt8.ofNat (48 + n)],by simp,fun c member => ?_,fun rest => by rw [digits,if_pos small]; rfl⟩
      rw [List.mem_singleton.mp member]
      exact digit_isDigit small
    · have last : isDigit (UInt8.ofNat (48 + n % 10)) = true := digit_isDigit (Nat.mod_lt n (by decide))
      by_cases more : 0 < places
      · obtain ⟨front,some_,all,same⟩ := @ih (n / 10) more
        refine ⟨front ++ [UInt8.ofNat (48 + n % 10)],by simp,fun c member => ?_,fun rest => ?_⟩
        · rcases List.mem_append.mp member with there | here
          · exact all c there
          · rw [List.mem_singleton.mp here]
            exact last
        · rw [digits,if_neg small,same,List.append_assoc]
          rfl
      · refine ⟨[UInt8.ofNat (48 + n % 10)],by simp,fun c member => ?_,fun rest => ?_⟩
        · rw [List.mem_singleton.mp member]
          exact last
        · rw [digits,if_neg small,Nat.eq_zero_of_not_pos more]
          rfl

end IocpChatServer.Foundations.Decimal
