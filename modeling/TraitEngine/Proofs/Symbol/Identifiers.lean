import TraitEngine.Proofs.Bootstring.Loop
import TraitEngine.Proofs.Symbol.Reader
/-!
# Identifiers with the same text

The text of an identifier can be read back, up to its encoded name and the mark for bootstring
(`identifier_inj`). A name in ASCII is encoded as it is. Any other name is encoded in bootstring,
where `-` is then written as `_`; the steps hold neither, so what is lost is only which of the two
a name had, and where (`alike_iff`).

The check for characters outside of the alphabet comes after the replacement. So a `-` is refused
in a name in ASCII and passes in every other name, where it cannot be told from `_`
(`identifier_merges_hyphen`); apart from that, identifiers with the same text are the same
(`identifier_eq_iff`).
-/

namespace TraitEngine

set_option autoImplicit false

/-! ## Texts that differ below the steps -/

namespace Bootstring

/-- `-` written as `_`. -/
def underscored (cs : List Char) : List Char := cs.map fun c => if c == '-' then '_' else c

section Map

/-! The steps do not depend on which ASCII characters a text has, only on where they are. -/

variable {f : Nat → Nat} (low : ∀ c < 128, f c < 128) (high : ∀ c, 128 ≤ c → f c = c)
include low high

theorem scan_map {basic m : Nat} (past : 128 ≤ m) (text : List Nat) : ∀ s : State,
    scan basic m (text.map f) s = scan basic m text s := by
  induction text with
  | nil => exact fun s => rfl
  | cons c cs ih =>
      intro s
      simp only [List.map_cons, scan, ih]
      by_cases ascii : c < 128
      · rw [if_pos ((low c ascii).trans_le past), if_pos (ascii.trans_le past)]
      · rw [high c (Nat.le_of_not_lt ascii)]

theorem leastOpen?_map {n : Nat} (past : 128 ≤ n) (text : List Nat) :
    leastOpen? (text.map f) n = leastOpen? text n := by
  have same : (text.map f).filter (n ≤ ·) = text.filter (n ≤ ·) := by
    rw [List.filter_map]
    have open_ : text.filter ((n ≤ ·) ∘ f) = text.filter (n ≤ ·) := by
      refine List.filter_congr fun c _ => ?_
      by_cases ascii : c < 128
      · have := low c ascii
        simp only [Function.comp_apply, decide_eq_decide]
        omega
      · rw [Function.comp_apply, high c (Nat.le_of_not_lt ascii)]
    rw [open_]
    refine (List.map_congr_left fun c mem => high c ?_).trans (List.map_id _)
    have := (List.mem_filter.1 mem).2
    simp only [decide_eq_true_eq] at this
    omega
  rw [leastOpen?, leastOpen?, same]

theorem turn?_map {basic n : Nat} (past : 128 ≤ n) (text : List Nat) (s : State) :
    turn? (text.map f) basic n s = turn? text basic n s := by
  rw [turn?, turn?, leastOpen?_map low high past]
  cases least : leastOpen? text n with
  | none => rfl
  | some m =>
      have above := (leastOpen?_eq_some_iff.1 least).1.2
      simp only [Option.bind_eq_bind, Option.bind_some, scan_map low high (past.trans above)]

theorem turns?_map {basic : Nat} {text : List Nat} (n : Nat) (s : State) : 128 ≤ n →
    turns? (text.map f) basic n s = turns? text basic n s := by
  induction n, s using turns?.induct text basic with
  | case1 n s more none =>
      intro past
      rw [turns?_of_open more, turns?_of_open (by simpa using more), turn?_map low high past, none]
      rfl
  | case2 n s more out n' s' turned _ ih =>
      intro past
      have above : 128 ≤ n' := by
        obtain ⟨m, -, least, -, -, -, rfl, -⟩ := turn?_eq_some_iff.1 turned
        have := (leastOpen?_eq_some_iff.1 least).1.2
        omega
      rw [turns?_of_open more, turns?_of_open (by simpa using more), turn?_map low high past,
        turned]
      simp only [Option.bind_some, ih above]
  | case3 n s all =>
      intro past
      rw [turns?, turns?, if_neg all, if_neg (by simpa using all)]

end Map

theorem underscore_basic (c : Char) : isBasic (if c == '-' then '_' else c) = isBasic c := by
  split
  · next hyphen =>
      rw [beq_iff_eq.1 hyphen]
      rfl
  · rfl

theorem filter_underscored (cs : List Char) :
    (underscored cs).filter isBasic = underscored (cs.filter isBasic) := by
  rw [underscored, List.filter_map]
  exact congrArg _ (List.filter_congr fun c _ => underscore_basic c)

theorem turns?_underscored (text : List Char) (s : State) :
    turns? ((underscored text).map Char.toNat) ((underscored text).filter isBasic).length 128 s =
      turns? (text.map Char.toNat) (text.filter isBasic).length 128 s := by
  have points : (underscored text).map Char.toNat =
      (text.map Char.toNat).map fun n => if n = 45 then 95 else n := by
    simp only [underscored, List.map_map]
    refine List.map_congr_left fun c _ => ?_
    have hyphen : c = '-' ↔ c.toNat = 45 := Char.toNat_inj.symm
    simp only [Function.comp_apply, beq_iff_eq, hyphen]
    split <;> rfl
  have count : ((underscored text).filter isBasic).length = (text.filter isBasic).length := by
    rw [filter_underscored, underscored, List.length_map]
  rw [points, count]
  refine turns?_map (fun c ascii => ?_) (fun c other => if_neg (by omega)) 128 s (Nat.le_refl 128)
  split <;> omega

/-! ## The delimiter -/

/-- What stands around the last delimiter. -/
theorem delimited_append_inj {d : Char} {basic basic' steps steps' : List Char}
    (free : ∀ c ∈ steps, c ≠ d) (free' : ∀ c ∈ steps', c ≠ d)
    (same : delimited d basic ++ steps = delimited d basic' ++ steps') :
    basic = basic' ∧ steps = steps' := by
  have tail (basic : List Char) {steps : List Char} (free : ∀ c ∈ steps, c ≠ d) :
      (delimited d basic ++ steps).reverse.takeWhile (· != d) = steps.reverse := by
    rw [List.reverse_append, List.takeWhile_append_of_pos (by simpa using free)]
    cases basic with
    | nil => simp [delimited]
    | cons c cs => simp [delimited]
  have steps_eq : steps = steps' := by
    rw [← List.reverse_inj, ← tail basic free, same, tail basic' free']
  subst steps_eq
  refine ⟨?_, rfl⟩
  have front := List.append_cancel_right same
  cases basic with
  | nil => cases basic' <;> simp_all [delimited]
  | cons c cs => cases basic' <;> simp_all [delimited]

theorem underscored_delimited {basic steps : List Char} (digits : ∀ c ∈ steps, IsDigit c) :
    underscored (delimited '-' basic ++ steps) = delimited '_' (underscored basic) ++ steps := by
  have kept : underscored steps = steps := by
    refine (List.map_congr_left fun c mem => ?_).trans (List.map_id steps)
    exact if_neg (by simpa using (digits c mem).ne_delimiter)
  have front : underscored (delimited '-' basic) = delimited '_' (underscored basic) := by
    cases basic with
    | nil => rfl
    | cons c cs => simp [delimited, underscored]
  rw [← front]
  refine Eq.trans List.map_append ?_
  exact congrArg _ kept

theorem encode?_underscored {text steps : List Char}
    (turned : turns? (text.map Char.toNat) (text.filter isBasic).length 128
      ⟨0, 72, (text.filter isBasic).length⟩ = some steps) :
    encode? (underscored text) =
      some (delimited '-' (underscored (text.filter isBasic)) ++ steps) := by
  have count : ((underscored text).filter isBasic).length = (text.filter isBasic).length := by
    rw [filter_underscored, underscored, List.length_map]
  refine encode?_eq_some_iff.2 ⟨steps, ?_, by rw [filter_underscored]⟩
  rw [turns?_underscored, count, turned]

/-- Texts whose encodings differ in `-` and `_` only differ in `-` and `_` only. -/
theorem underscored_encode?_eq_iff {text other out out' : List Char}
    (coded : encode? text = some out) (coded' : encode? other = some out') :
    underscored out = underscored out' ↔ underscored text = underscored other := by
  obtain ⟨steps, turned, rfl⟩ := encode?_eq_some_iff.1 coded
  obtain ⟨steps', turned', rfl⟩ := encode?_eq_some_iff.1 coded'
  have digits := turns_digits _ _ turned
  have digits' := turns_digits _ _ turned'
  have recoded := encode?_underscored turned
  have recoded' := encode?_underscored turned'
  have low (steps : List Char) (digits : ∀ c ∈ steps, IsDigit c) : ∀ c ∈ steps, c ≠ '_' :=
    fun c mem => by simpa using (digits c mem).of_test (fun c => c != '_') (by decide)
  rw [underscored_delimited digits, underscored_delimited digits']
  constructor
  · intro same
    obtain ⟨basic, rfl⟩ := delimited_append_inj (low steps digits) (low steps' digits') same
    rw [← basic] at recoded'
    exact encode?_injective recoded recoded'
  · intro same
    have both := recoded.symm.trans (same ▸ recoded')
    obtain ⟨basic, rfl⟩ := delimited_append_inj (fun c mem => (digits c mem).ne_delimiter)
      (fun c mem => (digits' c mem).ne_delimiter) (Option.some.inj both)
    rw [basic]

end Bootstring

namespace Structural

open Bootstring

theorem SymbolName.write_injective {name other : SymbolName} (same : name.write = other.write) :
    name = other := by
  have read := readName_append name []
  rw [same, readName_append other []] at read
  exact (congrArg Prod.fst (Option.some.inj read)).symm

theorem asciiName?_of_of? {name : String} {encoded : SymbolName}
    (known : SymbolName.of? name = some encoded) :
    asciiName? name.toList = some (encoded.chars, encoded.altered) := by
  obtain ⟨⟨chars, altered⟩, ascii, rest⟩ := Option.bind_eq_some_iff.1 known
  obtain ⟨valid, own⟩ := Option.dite_none_right_eq_some.1 rest
  cases own
  exact ascii

/-- Accepted identifiers have the same text exactly if their encoded names are the same. -/
theorem identifier_inj {a b : String} {x y : List Char} (made : identifier a = .ok x)
    (made' : identifier b = .ok y) :
    (asciiName? a.toList).isSome ∧ (asciiName? b.toList).isSome ∧
      (x = y ↔ asciiName? a.toList = asciiName? b.toList) := by
  have written := identifier_eq a
  have written' := identifier_eq b
  rw [made] at written
  rw [made'] at written'
  obtain ⟨name, known, rfl⟩ := Option.map_eq_some_iff.1 written.symm
  obtain ⟨name', known', rfl⟩ := Option.map_eq_some_iff.1 written'.symm
  rw [asciiName?_of_of? known, asciiName?_of_of? known']
  refine ⟨rfl, rfl, fun same => by rw [SymbolName.write_injective same], fun same => ?_⟩
  obtain ⟨chars, altered⟩ := Prod.mk.inj (Option.some.inj same)
  rw [SymbolName.write, SymbolName.write, chars, altered]

/-- Two names are encoded alike if they are the same, or if neither is in ASCII and they differ in
`-` and `_` only. -/
theorem asciiName?_eq_iff {a b : List Char} (known : (asciiName? a).isSome)
    (known' : (asciiName? b).isSome) :
    asciiName? a = asciiName? b ↔ a = b ∨
      (a.all isBasic = false ∧ b.all isBasic = false ∧ underscored a = underscored b) := by
  cases ascii : a.all isBasic <;> cases ascii' : b.all isBasic
  case true.true => simp [asciiName?, ascii, ascii']
  case true.false =>
    have other : a ≠ b := by
      rintro rfl
      simp [ascii] at ascii'
    simp [asciiName?, ascii, ascii', other]
  case false.true =>
    have other : a ≠ b := by
      rintro rfl
      simp [ascii] at ascii'
    simp [asciiName?, ascii, ascii', other]
  case false.false =>
    simp only [asciiName?, ascii, ascii', Bool.false_eq_true, if_false, Option.isSome_map]
      at known known' ⊢
    obtain ⟨out, coded⟩ := Option.isSome_iff_exists.1 known
    obtain ⟨out', coded'⟩ := Option.isSome_iff_exists.1 known'
    have alike := underscored_encode?_eq_iff coded coded'
    simp only [coded, coded', Option.map_some, Option.some.injEq, Prod.mk.injEq, and_true, true_and]
    refine alike.trans ⟨.inr, ?_⟩
    rintro (rfl | same)
    · rfl
    · exact same

/-- Two accepted identifiers have the same text exactly if they are the same, or if both hold
characters outside of ASCII and they differ in `-` and `_` only. -/
theorem identifier_eq_iff {a b : String} {x y : List Char} (made : identifier a = .ok x)
    (made' : identifier b = .ok y) :
    x = y ↔ a = b ∨ (a.toList.all isBasic = false ∧ b.toList.all isBasic = false ∧
      underscored a.toList = underscored b.toList) := by
  obtain ⟨known, known', same⟩ := identifier_inj made made'
  rw [same, asciiName?_eq_iff known known', String.toList_inj]

/-- `gödel` and `godel` are both accepted, and their texts differ. -/
theorem identifier_eq_iff_godel :
    ∃ x y, identifier "gödel" = .ok x ∧ identifier "godel" = .ok y ∧ x ≠ y := by
  have made : identifier "gödel" = .ok "u8gdel_5qa".toList := by decide +kernel
  have made' : identifier "godel" = .ok "5godel".toList := by decide +kernel
  refine ⟨_, _, made, made', fun same => ?_⟩
  obtain own | ⟨-, ascii, -⟩ := (identifier_eq_iff made made').1 same
  · exact absurd own (by decide)
  · exact absurd ascii (by decide)

/-- `a-é` and `a_é` have the same text, although `a-b` is refused. -/
theorem identifier_merges_hyphen :
    ∃ x, identifier "a-é" = .ok x ∧ identifier "a_é" = .ok x ∧ "a-é" ≠ "a_é" ∧
      identifier "a-b" = .error (.invalidIdentifier "a-b") :=
  ⟨"u6a__cja".toList, by decide +kernel, by decide +kernel, by decide, by decide +kernel⟩

end Structural

end TraitEngine
