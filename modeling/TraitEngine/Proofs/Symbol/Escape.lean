import TraitEngine.Proofs.Symbol.Numeral
import TraitEngine.Symbol.Legacy
/-!
# Reading legacy segments back

Segments are escaped character by character, but for colons, which go in pairs. So a text
is escaped in parts, if it is divided before a character other than a colon
(`escape?_append`).

An escape is the character itself, or it runs from one dollar sign to the next and has a
code in between that names the character (`readUnit_escapeChar`). Two dots stand for two
colons. A text that holds no dollar sign and no dot is therefore known from its escaped
form (`escape?_injective`). In a symbol that form has its length in front, and is known
unless it starts with a digit (`readSegment_append`).
-/

namespace TraitEngine.Legacy

set_option autoImplicit false

/-! ## Escaping in parts -/

theorem escape?_cons {c : Char} (other : c ≠ ':') (cs : List Char) :
    escape? (c :: cs) = (escape? cs).map (escapeChar c ++ ·) := by
  rw [escape?]
  · exact fun _ same _ => other same
  · exact other

theorem escape?_lone {cs : List Char} (lone : ∀ rest, cs = ':' :: rest → False) :
    escape? (':' :: cs) = none := by
  rw [escape?]
  exact lone

theorem escape?_append (text : List Char) {c : Char} (other : c ≠ ':') (rest : List Char) :
    escape? (text ++ c :: rest) = do
      let front ← escape? text
      let back ← escape? (c :: rest)
      return front ++ back := by
  fun_induction escape? text with
  | case1 => cases escaped : escape? (c :: rest) <;> simp [escaped]
  | case2 cs ih =>
      simp only [List.cons_append, escape?, ih]
      cases escape? cs <;> cases escape? (c :: rest) <;> rfl
  | case3 cs lone =>
      rw [List.cons_append, escape?_lone]
      · rfl
      · intro behind same
        cases cs with
        | nil => exact other (List.cons.inj same).1
        | cons d cs => exact lone cs (congrArg (· :: cs) (List.cons.inj same).1)
  | case4 d cs paired colon ih =>
      rw [List.cons_append, escape?_cons fun same => colon same, ih]
      cases escape? cs <;> cases escape? (c :: rest) <;> simp

/-! ## Reading escapes -/

/-- The character that a code between dollar signs stands for. -/
def codeChar : List Char → Char
  | ['R', 'F'] => '&'
  | ['L', 'T'] => '<'
  | ['G', 'T'] => '>'
  | ['B', 'P'] => '*'
  | ['C'] => ','
  | code => Char.ofNat (numeralValue 16 (code.drop 1))

/-- The unit of a text that stands escaped at the start, and what stands behind it. -/
def readUnit : List Char → Option (List Char × List Char)
  | [] => none
  | c :: cs =>
    if c = '.' then some ([':', ':'], cs.drop 1)
    else if c = '$' then
      some ([codeChar (cs.takeWhile (· != '$'))], (cs.dropWhile (· != '$')).drop 1)
    else some ([c], cs)

/-- Reads at most `fuel` units. -/
def readText : Nat → List Char → List Char
  | 0, _ => []
  | fuel + 1, cs =>
    match readUnit cs with
    | none => []
    | some (unit, rest) => unit ++ readText fuel rest

/-- An escape is the character itself or a code for it between dollar signs. -/
theorem escapeChar_cases {c : Char} (plain : c ≠ '$') :
    escapeChar c = [c] ∨
      ∃ code, escapeChar c = '$' :: (code ++ ['$']) ∧ '$' ∉ code ∧ codeChar code = c := by
  unfold escapeChar
  split
  case h_1 => exact .inr ⟨"u20".toList, by decide +kernel⟩
  case h_2 => exact .inr ⟨"RF".toList, by decide +kernel⟩
  case h_3 => exact .inr ⟨"LT".toList, by decide +kernel⟩
  case h_4 => exact .inr ⟨"GT".toList, by decide +kernel⟩
  case h_5 => exact .inr ⟨"BP".toList, by decide +kernel⟩
  case h_6 => exact .inr ⟨"u5b".toList, by decide +kernel⟩
  case h_7 => exact .inr ⟨"u5d".toList, by decide +kernel⟩
  case h_8 => exact .inr ⟨"u7b".toList, by decide +kernel⟩
  case h_9 => exact .inr ⟨"u7d".toList, by decide +kernel⟩
  case h_10 => exact .inr ⟨"C".toList, by decide +kernel⟩
  case h_11 =>
    split
    · exact .inl rfl
    · refine .inr ⟨'u' :: numeral 16 c.toNat, by simp, ?_, ?_⟩
      · intro mem
        rcases List.mem_cons.1 mem with same | mem
        · cases same
        · exact absurd (all_isAlphanum_numeral (by omega) (by omega) c.toNat '$' mem) (by decide)
      · have value : numeralValue 16 (numeral 16 c.toNat) = c.toNat :=
          numeralValue_numeral (by omega) (by omega) c.toNat
        simp [codeChar, value]

theorem readUnit_escapeChar {c : Char} (plain : c ≠ '$') (other : c ≠ '.') (rest : List Char) :
    readUnit (escapeChar c ++ rest) = some ([c], rest) := by
  obtain single | ⟨code, escape, inside, own⟩ := escapeChar_cases plain
  · simp [single, readUnit, plain, other]
  · have whole : ∀ d ∈ code, (d != '$') = true := by
      intro d mem
      simpa using fun same : d = '$' => inside (same ▸ mem)
    have taken : (code ++ '$' :: rest).takeWhile (· != '$') = code := by
      rw [List.takeWhile_append_of_pos whole]
      simp
    have dropped : (code ++ '$' :: rest).dropWhile (· != '$') = '$' :: rest := by
      rw [List.dropWhile_append_of_pos whole]
      simp
    simp [escape, readUnit, taken, dropped, own]

/-- The text holds no character that only escapes use. -/
def Plain (text : List Char) : Prop := ∀ c ∈ text, c ≠ '$' ∧ c ≠ '.'

instance (text : List Char) : Decidable (Plain text) := List.decidableBAll _ text

theorem readText_escape? {text out : List Char} (plain : Plain text)
    (escaped : escape? text = some out) {fuel : Nat} (enough : text.length ≤ fuel) :
    readText fuel out = text := by
  fun_induction escape? text generalizing out fuel with
  | case1 =>
      cases escaped
      cases fuel <;> rfl
  | case2 cs ih =>
      obtain ⟨behind, rest, rfl⟩ := Option.map_eq_some_iff.1 escaped
      have plain' := (List.forall_mem_cons.1 (List.forall_mem_cons.1 plain).2).2
      obtain ⟨fuel, rfl⟩ := Nat.exists_eq_add_one_of_ne_zero (Nat.ne_zero_of_lt enough)
      have enough' : cs.length ≤ fuel := by
        rw [List.length_cons, List.length_cons] at enough
        omega
      simp [readText, readUnit, ih plain' rest enough']
  | case3 cs lone => cases escaped
  | case4 c cs paired colon ih =>
      obtain ⟨behind, rest, rfl⟩ := Option.map_eq_some_iff.1 escaped
      obtain ⟨own, plain'⟩ := List.forall_mem_cons.1 plain
      obtain ⟨fuel, rfl⟩ := Nat.exists_eq_add_one_of_ne_zero (Nat.ne_zero_of_lt enough)
      simp [readText, readUnit_escapeChar own.1 own.2,
        ih plain' rest (Nat.le_of_succ_le_succ enough)]

/-- The escaped form tells a text that holds no dollar sign and no dot. -/
theorem escape?_injective {text text' out : List Char} (plain : Plain text) (plain' : Plain text')
    (escaped : escape? text = some out) (escaped' : escape? text' = some out) : text = text' := by
  rw [← readText_escape? plain escaped (Nat.le_add_right text.length text'.length),
    readText_escape? plain' escaped' (Nat.le_add_left text'.length text.length)]

/-! ## Segments in a symbol -/

theorem encodeSegment_eq_ok_iff {name : String} {cs : List Char} : encodeSegment name = .ok cs ↔
    ∃ out, escapeSegment? name.toList = some out ∧ numeral 10 out.length ++ out = cs := by
  unfold encodeSegment
  cases escapeSegment? name.toList <;> simp

theorem encodeSegments_cons {name : String} {names : List String} {segments : List (List Char)} :
    (name :: names).mapM encodeSegment = .ok segments ↔
      ∃ first rest, encodeSegment name = .ok first ∧ names.mapM encodeSegment = .ok rest ∧
        first :: rest = segments := by
  rw [List.mapM_cons]
  cases encodeSegment name with
  | error e => simp [bind, Except.bind]
  | ok first => cases names.mapM encodeSegment <;> simp [bind, Except.bind, pure, Except.pure]

theorem symbol_eq_ok_iff {ty : Ty} {path : CanonicalPath} {x : String} : symbol ty path = .ok x ↔
    ∃ segments hash, (segmentTexts path).mapM encodeSegment = .ok segments ∧
      encodeSegment (fingerprint ty.text) = .ok hash ∧
      String.ofList ("_ZN".toList ++ segments.flatten ++ hash ++ ['E']) = x := by
  unfold symbol
  cases (segmentTexts path).mapM encodeSegment with
  | error e => simp [bind, Except.bind]
  | ok segments =>
      cases encodeSegment (fingerprint ty.text) with
      | error e => simp [bind, Except.bind]
      | ok hash => simp [bind, Except.bind, pure, Except.pure]

/-- The segment at the start of a text by its length, and the text behind it. -/
def readSegment (cs : List Char) : List Char × List Char :=
  let (length, rest) := readNumeral 10 Char.isDigit cs
  rest.splitAt length

theorem readSegment_append {c : Char} (other : c.isDigit = false) (segment rest : List Char) :
    readSegment (numeral 10 (c :: segment).length ++ (c :: segment) ++ rest) =
      (c :: segment, rest) := by
  have stops : StartsOutside Char.isDigit ((c :: segment) ++ rest) := startsOutside_cons other
  rw [readSegment, List.append_assoc,
    readNumeral_append (by omega) (by omega) (all_isDigit_numeral _) stops]
  simp

end TraitEngine.Legacy
