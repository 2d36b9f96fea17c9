import TraitEngine.Text.Bootstring
import Mathlib.Tactic.Ring
import Mathlib.Data.List.TakeWhile
/-!
# Reading steps and delimiters

Encoder and decoder come to their thresholds and to the bias in different ways, and to the same
values (`placeThreshold_eq`, `nextBias_eq_adapt`). A step ends with the first digit below its
threshold, so it can be read whatever comes behind it (`readStep_stepDigits`). Its digits are
letters or numerals and never the delimiter, so the last delimiter of an encoding is the one
behind the ASCII characters (`splitLast_append`).
-/

namespace TraitEngine.Bootstring

set_option autoImplicit false

/-! ## Digits -/

/-- The 36 digits. -/
def IsDigit (c : Char) : Prop := ∃ d, d < 36 ∧ c = digitChar d

theorem digitValue?_digitChar {d : Nat} (small : d < 36) : digitValue? (digitChar d) = some d := by
  have all : ∀ d : Fin 36, digitValue? (digitChar d) = some d.val := by decide
  exact all ⟨d, small⟩

theorem IsDigit.of_test {c : Char} (h : IsDigit c) (test : Char → Bool)
    (all : ∀ d : Fin 36, test (digitChar d) = true) : test c = true := by
  obtain ⟨d, small, rfl⟩ := h
  exact all ⟨d, small⟩

theorem IsDigit.ne_delimiter {c : Char} (h : IsDigit c) : c ≠ '-' := by
  simpa using h.of_test (fun c => c != '-') (by decide)

/-- All but the last digit of a step stay below 36 as well: they are a threshold and a rest. -/
theorem stepDigits_digits (bias k q : Nat) : ∀ c ∈ stepDigits bias k q, IsDigit c := by
  induction k, q using stepDigits.induct bias with
  | case1 k q t last =>
      subst t
      intro c mem
      rw [stepDigits, if_pos last] at mem
      have := threshold_le bias k
      exact ⟨q, by omega, by simpa using mem⟩
  | case2 k q t more ih =>
      subst t
      intro c mem
      rw [stepDigits, if_neg more] at mem
      rcases List.mem_cons.1 mem with rfl | mem
      · have := threshold_le bias k
        have rest := Nat.mod_lt (q - threshold bias k) (show 36 - threshold bias k > 0 by omega)
        exact ⟨_, by omega, rfl⟩
      · exact ih c mem

theorem stepDigits_ne_nil (bias k q : Nat) : stepDigits bias k q ≠ [] := by
  rw [stepDigits]
  split <;> exact List.cons_ne_nil _ _

/-! ## Thresholds and bias -/

theorem placeThreshold_eq (bias j : Nat) :
    placeThreshold bias j = threshold bias (36 * (j + 1)) := by
  unfold placeThreshold threshold
  split
  · omega
  · split <;> omega

/-- The encoder's loop divides as often as the decoder counts. -/
theorem scaleDown_eq (delta k : Nat) :
    scaleDown delta k = (delta / Nat.pow 35 (divisions delta), k + 36 * divisions delta) := by
  induction delta, k using scaleDown.induct with
  | case1 delta k large ih =>
      have once_more (n : Nat) : delta / 35 / Nat.pow 35 n = delta / Nat.pow 35 (n + 1) := by
        rw [Nat.div_div_eq_div_mul]
        exact congrArg (delta / ·) Nat.pow_succ'.symm
      rw [scaleDown, if_pos large, ih, divisions.eq_def delta, if_neg (by omega), once_more]
      exact congrArg (Prod.mk _) (by omega)
  | case2 delta k small =>
      rw [scaleDown, if_neg small, divisions, if_pos (by omega)]
      exact congrArg₂ Prod.mk (Nat.div_one delta).symm rfl

/-- Both biases after a step are one. -/
theorem nextBias_eq_adapt (delta size : Nat) (first : Bool) :
    nextBias delta size first = adapt delta size first := by
  have damped : delta / (if first then 700 else 2) = if first then delta / 700 else delta / 2 := by
    cases first <;> rfl
  simp only [nextBias, adapt, damped, scaleDown_eq, Nat.zero_add]

/-! ## One step -/

/-- A step is read back at any weight, whatever follows it. The induction is on the digits that are
written, and the place of the decoder goes along with their position. -/
theorem readStep_stepDigits (bias k q : Nat) (rest : List Char) : ∀ j weight, k = 36 * (j + 1) →
    readStep bias j weight (stepDigits bias k q ++ rest) = some (q * weight, rest) := by
  induction k, q using stepDigits.induct bias with
  | case1 k q t last =>
      subst t
      rintro j weight rfl
      have := threshold_le bias (36 * (j + 1))
      rw [stepDigits, if_pos last, List.singleton_append, readStep,
        digitValue?_digitChar (show q < 36 by omega)]
      rw [← placeThreshold_eq] at last
      exact if_pos last
  | case2 k q t more ih =>
      subst t
      rintro j weight rfl
      have := threshold_le bias (36 * (j + 1))
      have small := Nat.mod_lt (q - threshold bias (36 * (j + 1)))
        (show 36 - threshold bias (36 * (j + 1)) > 0 by omega)
      rw [stepDigits, if_neg more, List.cons_append, readStep, digitValue?_digitChar (by omega)]
      refine (if_neg (by rw [placeThreshold_eq]; omega)).trans ?_
      rw [ih (j + 1) _ (by omega), placeThreshold_eq]
      generalize threshold bias (36 * (j + 1)) = t at more small ⊢
      refine congrArg (fun value => some (value, rest)) ?_
      calc (t + (q - t) % (36 - t)) * weight + (q - t) / (36 - t) * (weight * (36 - t))
          = (t + ((q - t) % (36 - t) + (36 - t) * ((q - t) / (36 - t)))) * weight := by ring
        _ = q * weight := by rw [Nat.mod_add_div, Nat.add_sub_cancel' (Nat.le_of_not_lt more)]

/-- Reading a step inserts one code point. -/
theorem readSteps_stepDigits (r : Reader) (delta : Nat) (rest : List Char) :
    readSteps (stepDigits r.bias 36 delta ++ rest) r = readSteps rest (r.insert delta) := by
  have read := readStep_stepDigits r.bias 36 delta rest 0 1 rfl
  rw [Nat.mul_one] at read
  obtain ⟨c, cs, digits⟩ := List.exists_cons_of_ne_nil (stepDigits_ne_nil r.bias 36 delta)
  rw [digits, List.cons_append] at read ⊢
  rw [readSteps]
  split
  · rename_i none
    rw [read] at none
    cases none
  · rename_i d rest' some
    rw [read] at some
    cases some
    rfl

/-! ## The delimiter -/

theorem splitLast_append {basic steps : List Char} (some : basic ≠ [])
    (free : ∀ c ∈ steps, c ≠ '-') : splitLast (basic ++ '-' :: steps) = (basic, steps) := by
  have tail : ((basic ++ '-' :: steps).reverse.takeWhile (· != '-')).reverse = steps := by
    rw [List.reverse_append, List.reverse_cons, List.append_assoc, List.singleton_append,
      List.takeWhile_append_of_pos (by simpa using free)]
    simp
  simp only [splitLast, tail]
  have length : (basic ++ '-' :: steps).length - steps.length - 1 = basic.length := by
    simp only [List.length_append, List.length_cons]
    omega
  rw [length, List.take_left]
  simp [some]

theorem splitLast_of_free {steps : List Char} (free : ∀ c ∈ steps, c ≠ '-') :
    splitLast steps = ([], steps) := by
  have whole : steps.reverse.takeWhile (· != '-') = steps.reverse := by
    rw [List.takeWhile_eq_self_iff]
    simpa using free
  simp [splitLast, whole]

end TraitEngine.Bootstring
