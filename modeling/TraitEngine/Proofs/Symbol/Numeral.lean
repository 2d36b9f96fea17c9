import TraitEngine.Symbol.Basic
import Mathlib.Data.List.TakeWhile
/-!
# Reading numerals

A numeral is read back from its digits, most significant first. What follows it in a
longer text does not matter as long as it starts with no further digit.
-/

namespace TraitEngine

set_option autoImplicit false

/-- The value of a digit. -/
def digitValue (c : Char) : Nat :=
  if c.isDigit then c.toNat - '0'.toNat
  else if c.isLower then c.toNat - 'a'.toNat + 10
  else c.toNat - 'A'.toNat + 36

/-- The number that digits stand for, the first one counting most. -/
def numeralValue (base : Nat) (cs : List Char) : Nat :=
  cs.foldl (fun n c => n * base + digitValue c) 0

/-- The number at the start of a text, and the text behind its digits. -/
def readNumeral (base : Nat) (isDigit : Char → Bool) (cs : List Char) : Nat × List Char :=
  (numeralValue base (cs.takeWhile isDigit), cs.dropWhile isDigit)

/-- The text does not start with a character of the class. -/
def StartsOutside (isDigit : Char → Bool) (cs : List Char) : Prop :=
  ∀ c ∈ cs.head?, isDigit c = false

theorem startsOutside_cons {isDigit : Char → Bool} {c : Char} {cs : List Char}
    (other : isDigit c = false) : StartsOutside isDigit (c :: cs) := by
  intro first same
  cases same
  exact other

/-! ## Digits -/

/-- The value of a digit is read back. -/
theorem digitValue_numeralDigit : ∀ d < 62, digitValue (numeralDigit d) = d := by
  decide +kernel

theorem isAlphanum_numeralDigit : ∀ d < 62, (numeralDigit d).isAlphanum = true := by
  decide +kernel

theorem isDigit_numeralDigit : ∀ d < 10, (numeralDigit d).isDigit = true := by
  decide +kernel

variable {base : Nat}

theorem exists_of_mem_numeral (two : 2 ≤ base) (n : Nat) :
    ∀ c ∈ numeral base n, ∃ d < base, c = numeralDigit d := by
  fun_induction numeral base n with
  | case1 n small =>
      intro c mem
      exact ⟨n, small.resolve_right (by omega), List.mem_singleton.1 mem⟩
  | case2 n large ih =>
      intro c mem
      rcases List.mem_append.1 mem with mem | mem
      · exact ih c mem
      · exact ⟨n % base, Nat.mod_lt n (by omega), List.mem_singleton.1 mem⟩

theorem all_isAlphanum_numeral (two : 2 ≤ base) (most : base ≤ 62) (n : Nat) :
    ∀ c ∈ numeral base n, c.isAlphanum = true := by
  intro c mem
  obtain ⟨d, small, rfl⟩ := exists_of_mem_numeral two n c mem
  exact isAlphanum_numeralDigit d (by omega)

theorem all_isDigit_numeral (n : Nat) : ∀ c ∈ numeral 10 n, c.isDigit = true := by
  intro c mem
  obtain ⟨d, small, rfl⟩ := exists_of_mem_numeral (by omega) n c mem
  exact isDigit_numeralDigit d small

theorem numeral_ne_nil (base n : Nat) : numeral base n ≠ [] := by
  unfold numeral
  split <;> simp

/-! ## Reading back -/

/-- The value of a numeral is the number that it was made for. -/
theorem numeralValue_numeral (two : 2 ≤ base) (most : base ≤ 62) (n : Nat) :
    numeralValue base (numeral base n) = n := by
  fun_induction numeral base n with
  | case1 n small =>
      have digit := digitValue_numeralDigit n (by omega)
      simpa [numeralValue] using digit
  | case2 n large ih =>
      have digit := digitValue_numeralDigit (n % base) (by
        have := Nat.mod_lt n (show 0 < base by omega)
        omega)
      rw [numeralValue] at ih
      rw [numeralValue, List.foldl_append, ih, List.foldl_cons, List.foldl_nil, digit]
      exact Nat.div_add_mod' n base

/-- A numeral is read up to the first character that is not a digit. -/
theorem readNumeral_append {isDigit : Char → Bool} (two : 2 ≤ base) (most : base ≤ 62) {n : Nat}
    (digits : ∀ c ∈ numeral base n, isDigit c = true) {rest : List Char}
    (stops : StartsOutside isDigit rest) :
    readNumeral base isDigit (numeral base n ++ rest) = (n, rest) := by
  have taken : rest.takeWhile isDigit = [] := by
    cases rest with
    | nil => rfl
    | cons c cs => exact List.takeWhile_cons_of_neg (by simp [stops c rfl])
  have dropped : rest.dropWhile isDigit = rest := by
    cases rest with
    | nil => rfl
    | cons c cs => exact List.dropWhile_cons_of_neg (by simp [stops c rfl])
  rw [readNumeral, List.takeWhile_append_of_pos digits, List.dropWhile_append_of_pos digits, taken,
    dropped, List.append_nil, numeralValue_numeral two most]

end TraitEngine
