import DeclManual.Proofs.Text.Bytes

/-!
# Letters and their case

Upper and lower case are told apart for ASCII letters alone: every other character is its own
letter in either case.  So what holds of all letters is checked on the ASCII characters.
-/

namespace DeclManual
namespace Text

variable {c : Char}

/-! ## Kinds of characters by their numbers -/

theorem isUpper_iff : c.isUpper = true ↔ 65 ≤ c.toNat ∧ c.toNat ≤ 90 :=
  decide_eq_true_iff

theorem isLower_iff : c.isLower = true ↔ 97 ≤ c.toNat ∧ c.toNat ≤ 122 :=
  Bool.and_eq_true_iff.trans (and_congr decide_eq_true_iff decide_eq_true_iff)

theorem isDigit_iff : c.isDigit = true ↔ 48 ≤ c.toNat ∧ c.toNat ≤ 57 :=
  Bool.and_eq_true_iff.trans (and_congr decide_eq_true_iff decide_eq_true_iff)

theorem isAlpha_iff : c.isAlpha = true ↔ c.isUpper = true ∨ c.isLower = true :=
  Bool.or_eq_true_iff

theorem isAlphanum_iff : c.isAlphanum = true ↔ c.isAlpha = true ∨ c.isDigit = true :=
  Bool.or_eq_true_iff

/-- What holds of the ASCII characters by their numbers holds of each of them. -/
theorem of_ascii
    {holds : Char → Prop}
    (each : ∀ n < 128, holds (Char.ofNat n))
    (ascii : c.toNat < 128) :
    holds c := by
  have here := each c.toNat ascii
  rwa [Char.ofNat_toNat] at here

/-! ## Changing the case -/

/-- Only lower-case letters have another upper-case letter. -/
theorem toUpper_of_not_isLower (other : c.isLower ≠ true) : c.toUpper = c :=
  dif_neg fun letter => other (isLower_iff.2 letter)

theorem toLower_of_not_ascii (other : 128 ≤ c.toNat) : c.toLower = c :=
  dif_neg fun letter => absurd (Nat.le_trans other (isUpper_iff.1 (decide_eq_true letter)).2)
    (by decide)

theorem ascii_toLower (ascii : c.toNat < 128) : c.toLower.toNat < 128 :=
  @of_ascii c (·.toLower.toNat < 128) (by decide) ascii

/-- In upper case a lower-case letter is a letter, and no lower-case one. -/
theorem toUpper_of_isLower (lower : c.isLower = true) :
    c.toUpper.isAlpha = true ∧ c.toUpper.isLower = false := by
  have ascii : c.toNat < 128 := Nat.lt_of_le_of_lt (isLower_iff.1 lower).2 (by decide)
  exact @of_ascii c
    (fun c => c.isLower = true → c.toUpper.isAlpha = true ∧ c.toUpper.isLower = false)
    (by decide) ascii lower

theorem toUpper_toUpper (c : Char) : c.toUpper.toUpper = c.toUpper := by
  by_cases lower : c.isLower = true
  · exact toUpper_of_not_isLower (by simp [toUpper_of_isLower lower])
  · rw [toUpper_of_not_isLower lower, toUpper_of_not_isLower lower]

end Text
end DeclManual
