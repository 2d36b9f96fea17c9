import TraitEngine.Proofs.Symbol.Escape
import TraitEngine.Session
import Mathlib.Algebra.Ring.Parity
/-!
# The segments of a legacy symbol

What can be read off a legacy symbol, and which paths have none.

A symbol is a list of framed segments, that of the fingerprint being the last, and is read
from the front (`readSymbol_symbol`). Each segment gives back its text if this is readable:
the length in front ends where the text starts, the escapes are known, and the underscore
that marks an angle bracket is not the text's own. The fingerprint always is readable.

A text cannot be escaped exactly if it has a run of colons of odd length
(`escape?_eq_none_iff`), and the first such text of a path is what the error names
(`symbol_eq_error_iff`).
-/

namespace TraitEngine.Legacy

set_option autoImplicit false

/-! ## Runs of colons -/

/-- A run of colons that cannot be longer at either end has odd length. -/
def OddRun (text : List Char) : Prop :=
  ∃ front n back, text = front ++ (List.replicate n ':' ++ back) ∧ Odd n ∧
    front.getLast? ≠ some ':' ∧ back.head? ≠ some ':'

theorem OddRun.cons {c : Char} {text : List Char} (other : c ≠ ':') (odd : OddRun text) :
    OddRun (c :: text) := by
  obtain ⟨front, n, back, rfl, length, before, behind⟩ := odd
  refine ⟨c :: front, n, back, rfl, length, ?_, behind⟩
  cases front with
  | nil => simpa using other
  | cons d front => simpa using before

theorem OddRun.pair {text : List Char} (odd : OddRun text) : OddRun (':' :: ':' :: text) := by
  obtain ⟨front, n, back, rfl, length, before, behind⟩ := odd
  cases front with
  | nil => exact ⟨[], n + 2, back, rfl, length.add_even even_two, before, behind⟩
  | cons d front =>
      refine ⟨':' :: ':' :: d :: front, n, back, rfl, length, ?_, behind⟩
      simpa using before

theorem oddRun_of_escape? {text : List Char} (failed : escape? text = none) : OddRun text := by
  fun_induction escape? text with
  | case1 => cases failed
  | case2 cs ih => exact (ih (Option.map_eq_none_iff.1 failed)).pair
  | case3 cs lone =>
      refine ⟨[], 1, cs, rfl, odd_one, by simp, fun colon => ?_⟩
      obtain ⟨rest, rfl⟩ := List.head?_eq_some_iff.1 colon
      exact lone rest rfl
  | case4 c cs paired other ih => exact (ih (Option.map_eq_none_iff.1 failed)).cons other

theorem escape?_run {back : List Char} (behind : back.head? ≠ some ':') (k : Nat) :
    escape? (List.replicate (2 * k + 1) ':' ++ back) = none := by
  induction k with
  | zero =>
      refine escape?_lone fun rest same => behind ?_
      rw [show back = ':' :: rest from same, List.head?_cons]
  | succ k ih =>
      rw [show 2 * (k + 1) + 1 = 2 * k + 1 + 1 + 1 by omega, List.replicate_succ,
        List.replicate_succ, List.cons_append, List.cons_append, escape?, ih]
      rfl

/-- The pairing of colons starts anew behind any other character. -/
theorem escape?_eq_none_iff {text : List Char} : escape? text = none ↔ OddRun text := by
  refine ⟨oddRun_of_escape?, ?_⟩
  rintro ⟨front, n, back, rfl, ⟨k, rfl⟩, before, behind⟩
  have run : escape? (List.replicate (2 * k + 1) ':' ++ back) = none := escape?_run behind k
  obtain rfl | ⟨front, c, rfl⟩ := List.eq_nil_or_concat front
  · exact run
  · have other : c ≠ ':' := by simpa using before
    rw [List.concat_eq_append, List.append_assoc, List.singleton_append,
      escape?_append front other, escape?_cons other, run]
    cases escape? front <;> rfl

instance (text : List Char) : Decidable (OddRun text) :=
  decidable_of_iff _ escape?_eq_none_iff

theorem escapeSegment?_eq_none_iff {text : List Char} :
    escapeSegment? text = none ↔ OddRun text := by
  rw [← escape?_eq_none_iff, escapeSegment?.eq_def]
  split
  · exact Option.map_eq_none_iff
  · rfl

theorem encodeSegment_eq_error_iff {name : String} {e : SymbolError} :
    encodeSegment name = .error e ↔ OddRun name.toList ∧ .unpairedColon name = e := by
  rw [← escapeSegment?_eq_none_iff, encodeSegment]
  cases escapeSegment? name.toList <;> simp

/-- The first segment that cannot be escaped is the one that is reported. -/
theorem encodeSegments_eq_error_iff {names : List String} {e : SymbolError} :
    names.mapM encodeSegment = .error e ↔
      ∃ name, names.find? (OddRun ·.toList) = some name ∧ .unpairedColon name = e := by
  induction names with
  | nil => exact ⟨nofun, fun ⟨_, found, _⟩ => nomatch found⟩
  | cons name names ih =>
      rw [List.mapM_cons]
      by_cases odd : OddRun name.toList
      · rw [encodeSegment_eq_error_iff.2 ⟨odd, rfl⟩, List.find?_cons_of_pos (by simpa using odd)]
        simp [bind, Except.bind]
      · rw [List.find?_cons_of_neg (by simpa using odd), ← ih]
        cases first : encodeSegment name with
        | error e' => exact absurd (encodeSegment_eq_error_iff.1 first).1 odd
        | ok out => cases names.mapM encodeSegment <;> simp [bind, Except.bind, pure, Except.pure]

/-! ## Readable texts -/

/-- A text that a segment gives back: it holds no character that only escapes use, its length
can stand in front of it, and it does not start as a marked angle bracket does. -/
structure Readable (text : List Char) : Prop where
  plain : Plain text
  opens : ∃ c ∈ text.head?, c.isDigit = false
  unmarked : ¬['_', '<'] <+: text

-- the search for an opening character looks at the text, not at all characters
instance (text : List Char) : Decidable (Readable text) :=
  decidable_of_iff (Plain text ∧ text.head?.any (!·.isDigit) = true ∧ ¬['_', '<'] <+: text)
    ⟨fun ⟨plain, opens, unmarked⟩ => ⟨plain, by simpa [Option.any_eq_true] using opens, unmarked⟩,
      fun ⟨plain, opens, unmarked⟩ =>
        ⟨plain, by simpa [Option.any_eq_true] using opens, unmarked⟩⟩

/-- The text with its mark, if it starts with an angle bracket. -/
def mark : List Char → List Char
  | '<' :: rest => '_' :: '<' :: rest
  | text => text

def unmark : List Char → List Char
  | '_' :: '<' :: rest => '<' :: rest
  | text => text

theorem mark_of_ne {text : List Char} (other : ∀ rest, text = '<' :: rest → False) :
    mark text = text := by
  rw [mark]
  exact other

theorem escapeSegment?_eq (text : List Char) : escapeSegment? text = escape? (mark text) := by
  unfold escapeSegment?
  split
  case h_1 rest =>
    rw [mark, escape?_cons (by decide)]
    rfl
  case h_2 other => rw [mark_of_ne other]

theorem unmark_mark {text : List Char} (unmarked : ¬['_', '<'] <+: text) :
    unmark (mark text) = text := by
  unfold mark
  split
  case h_1 => rfl
  case h_2 =>
    rw [unmark]
    rintro rest rfl
    exact unmarked ⟨rest, rfl⟩

theorem Plain.mark {text : List Char} (plain : Plain text) : Plain (mark text) := by
  unfold Legacy.mark
  split
  case h_1 => exact List.forall_mem_cons.2 ⟨by decide, plain⟩
  case h_2 => exact plain

/-- No escape starts with a digit. -/
theorem escape?_opens {c : Char} {cs out : List Char} (plain : c ≠ '$') (other : c.isDigit = false)
    (escaped : escape? (c :: cs) = some out) : ∃ d rest, out = d :: rest ∧ d.isDigit = false := by
  by_cases colon : c = ':'
  · subst colon
    by_cases paired : ∃ rest, cs = ':' :: rest
    · obtain ⟨rest, rfl⟩ := paired
      obtain ⟨behind, -, rfl⟩ := Option.map_eq_some_iff.1 escaped
      exact ⟨'.', '.' :: behind, rfl, rfl⟩
    · rw [escape?_lone fun rest same => paired ⟨rest, same⟩] at escaped
      cases escaped
  · rw [escape?_cons colon] at escaped
    obtain ⟨behind, -, rfl⟩ := Option.map_eq_some_iff.1 escaped
    obtain single | ⟨code, escape, -⟩ := escapeChar_cases plain
    · exact ⟨c, behind, by rw [single, List.singleton_append], other⟩
    · exact ⟨'$', code ++ ['$'] ++ behind, by rw [escape, List.cons_append], rfl⟩

theorem escapeChar_ne_nil (c : Char) : escapeChar c ≠ [] := by
  unfold escapeChar
  split
  case h_11 => split <;> simp
  all_goals simp

theorem length_le_escape? {text out : List Char} (escaped : escape? text = some out) :
    text.length ≤ out.length := by
  fun_induction escape? text generalizing out with
  | case1 => exact Nat.zero_le _
  | case2 cs ih =>
      obtain ⟨behind, rest, rfl⟩ := Option.map_eq_some_iff.1 escaped
      simpa using ih rest
  | case3 cs lone => cases escaped
  | case4 c cs paired other ih =>
      obtain ⟨behind, rest, rfl⟩ := Option.map_eq_some_iff.1 escaped
      have own := List.length_pos_iff.2 (escapeChar_ne_nil c)
      rw [List.length_cons, List.length_append]
      have := ih rest
      omega

/-- The escaped form of a readable text starts with no digit either. -/
theorem Readable.escaped_opens {text out : List Char} (readable : Readable text)
    (escaped : escapeSegment? text = some out) : ∃ d rest, out = d :: rest ∧ d.isDigit = false := by
  obtain ⟨c, first, other⟩ := readable.opens
  obtain ⟨cs, rfl⟩ := List.head?_eq_some_iff.1 first
  by_cases bracket : c = '<'
  · subst bracket
    rw [escapeSegment?_eq] at escaped
    exact escape?_opens (by decide) rfl escaped
  · rw [escapeSegment?_eq, mark_of_ne fun rest same => bracket (List.cons.inj same).1] at escaped
    exact escape?_opens (List.forall_mem_cons.1 readable.plain).1.1 other escaped

/-! ## Reading a symbol -/

/-- The text of a segment from its escaped form. -/
def readName (segment : List Char) : List Char := unmark (readText segment.length segment)

theorem Readable.readName_eq {text out : List Char} (readable : Readable text)
    (escaped : escapeSegment? text = some out) : readName out = text := by
  rw [escapeSegment?_eq] at escaped
  rw [readName, readText_escape? readable.plain.mark escaped (length_le_escape? escaped),
    unmark_mark readable.unmarked]

/-- Reads at most `fuel` segments, up to the end of the symbol. -/
def readNames : Nat → List Char → List (List Char)
  | 0, _ => []
  | fuel + 1, cs =>
    if cs = ['E'] then []
    else
      let (segment, rest) := readSegment cs
      readName segment :: readNames fuel rest

theorem readNames_flatten {names : List String} {segments : List (List Char)}
    (readable : ∀ name ∈ names, Readable name.toList)
    (encoded : names.mapM encodeSegment = .ok segments) {fuel : Nat}
    (enough : names.length ≤ fuel) :
    readNames fuel (segments.flatten ++ ['E']) = names.map String.toList := by
  induction names generalizing segments fuel with
  | nil =>
      cases encoded
      cases fuel <;> rfl
  | cons name names ih =>
      obtain ⟨own, readable⟩ := List.forall_mem_cons.1 readable
      obtain ⟨_, rest, first, others, rfl⟩ := encodeSegments_cons.1 encoded
      obtain ⟨out, escaped, rfl⟩ := encodeSegment_eq_ok_iff.1 first
      obtain ⟨fuel, rfl⟩ := Nat.exists_eq_add_one_of_ne_zero (Nat.ne_zero_of_lt enough)
      obtain ⟨d, behind, rfl, other⟩ := own.escaped_opens escaped
      rw [List.flatten_cons, List.append_assoc, readNames, if_neg, readSegment_append other]
      · rw [List.map_cons, ← ih readable others (Nat.le_of_succ_le_succ enough)]
        exact congrArg (· :: _) (own.readName_eq escaped)
      · have digits := List.length_pos_iff.2 (numeral_ne_nil 10 (d :: behind).length)
        intro ended
        have := congrArg List.length ended
        simp only [List.length_append, List.length_cons, List.length_nil] at digits this
        omega

/-! ## Fingerprints -/

theorem isAlphanum_fingerprint (text : String) :
    ∀ c ∈ (fingerprint text).toList, c.isAlphanum = true := by
  have half (n : BitVec 64) : ∀ c ∈ halfDigits n, c.isAlphanum = true := by
    intro c mem
    rcases List.mem_append.1 mem with zero | digit
    · rw [List.eq_of_mem_replicate zero]
      rfl
    · exact all_isAlphanum_numeral (by omega) (by omega) _ c digit
  intro c mem
  rw [fingerprint, String.toList_ofList] at mem
  rcases List.mem_cons.1 mem with rfl | digit
  · rfl
  · exact (List.mem_append.1 (List.mem_of_mem_take digit)).elim (half _ c) (half _ c)

theorem head?_fingerprint (text : String) : (fingerprint text).toList.head? = some 'h' := by
  rw [fingerprint, String.toList_ofList, List.head?_cons]

theorem readable_fingerprint (text : String) : Readable (fingerprint text).toList where
  plain := by
    intro c mem
    have alphanumeric := isAlphanum_fingerprint text c mem
    constructor
    · rintro rfl
      cases alphanumeric
    · rintro rfl
      cases alphanumeric
  opens := ⟨'h', head?_fingerprint text, rfl⟩
  unmarked := by
    rintro ⟨rest, same⟩
    have first := head?_fingerprint text
    rw [← same] at first
    cases first

theorem not_oddRun_fingerprint (text : String) : ¬OddRun (fingerprint text).toList := by
  rintro ⟨front, _, back, same, ⟨k, rfl⟩, -, -⟩
  have colon : ':' ∈ (fingerprint text).toList := by
    rw [same, List.mem_append, List.mem_append, List.mem_replicate]
    exact .inr (.inl ⟨by omega, rfl⟩)
  cases isAlphanum_fingerprint text ':' colon

/-! ## Symbols -/

/-- The texts of all segments, that of the fingerprint included. -/
def texts (ty : Ty) (path : CanonicalPath) : List String :=
  segmentTexts path ++ [fingerprint ty.text]

/-- A symbol is read back into the texts of its path and the fingerprint of its type. -/
theorem readNames_symbol {ty : Ty} {path : CanonicalPath} {x : String}
    (made : symbol ty path = .ok x) (readable : ∀ text ∈ segmentTexts path, Readable text.toList)
    {fuel : Nat} (enough : (texts ty path).length ≤ fuel) :
    readNames fuel (x.toList.drop "_ZN".length) = (texts ty path).map String.toList := by
  obtain ⟨segments, hash, encoded, last, rfl⟩ := symbol_eq_ok_iff.1 made
  have whole : (texts ty path).mapM encodeSegment = .ok (segments ++ [hash]) := by
    simp [texts, encoded, last, bind, Except.bind, pure, Except.pure]
  have all : ∀ text ∈ texts ty path, Readable text.toList :=
    List.forall_mem_append.2 ⟨readable, List.forall_mem_singleton.2 (readable_fingerprint ty.text)⟩
  have read := readNames_flatten all whole enough
  rw [List.flatten_append, List.flatten_singleton] at read
  rwa [String.toList_ofList, List.append_assoc, List.append_assoc, ← List.append_assoc _ hash]

/-- Readable paths with one symbol have the same texts. -/
theorem texts_of_same_symbol {ty ty' : Ty} {path path' : CanonicalPath} {x : String}
    (made : symbol ty path = .ok x) (made' : symbol ty' path' = .ok x)
    (readable : ∀ text ∈ segmentTexts path, Readable text.toList)
    (readable' : ∀ text ∈ segmentTexts path', Readable text.toList) :
    segmentTexts path = segmentTexts path' ∧ fingerprint ty.text = fingerprint ty'.text := by
  have read := readNames_symbol made readable
    (Nat.le_add_right (texts ty path).length (texts ty' path').length)
  rw [readNames_symbol made' readable' (Nat.le_add_left _ _),
    List.map_inj_right fun _ _ => String.toList_inj.1] at read
  obtain ⟨same, last⟩ := List.append_inj' read rfl
  exact ⟨same.symm, (List.singleton_inj.1 last).symm⟩

/-- The fingerprint is escaped always, so that a symbol fails by a text of its path. -/
theorem symbol_eq_error_iff {ty : Ty} {path : CanonicalPath} {e : SymbolError} :
    symbol ty path = .error e ↔
      ∃ text, (segmentTexts path).find? (OddRun ·.toList) = some text ∧
        .unpairedColon text = e := by
  rw [← encodeSegments_eq_error_iff, symbol]
  cases (segmentTexts path).mapM encodeSegment with
  | error e' => simp [bind, Except.bind]
  | ok segments =>
      cases hash : encodeSegment (fingerprint ty.text) with
      | error e' =>
          obtain ⟨odd, -⟩ := encodeSegment_eq_error_iff.1 hash
          exact absurd odd (not_oddRun_fingerprint ty.text)
      | ok hash => simp [bind, Except.bind, pure, Except.pure]

end TraitEngine.Legacy

namespace TraitEngine.SymbolScheme

set_option autoImplicit false

theorem legacy_symbol_of_not_hasError {tree : ItemTree} {ty : Ty} (sound : ty.hasError = false)
    (path : CanonicalPath) : legacy.symbol tree ty path = Legacy.symbol ty path := by
  simp [symbol, sound]

theorem hasError_of_symbol {scheme : SymbolScheme} {tree : ItemTree} {ty : Ty}
    {path : CanonicalPath} {x : String} (made : scheme.symbol tree ty path = .ok x) :
    ty.hasError = false := by
  unfold symbol at made
  split at made
  · cases made
  · exact Bool.eq_false_iff.2 ‹_›

/-- Two items with one legacy symbol have the same segments and the same fingerprint, if the
segments are readable; and of the types without errors, those have no symbol for an unpaired
colon in whose path a segment has a run of colons of odd length. -/
theorem legacy_symbol_readable (tree tree' : ItemTree) :
    (∀ ty ty' path path' x, legacy.symbol tree ty path = .ok x →
      legacy.symbol tree' ty' path' = .ok x →
      (∀ text ∈ Legacy.segmentTexts path, Legacy.Readable text.toList) →
      (∀ text ∈ Legacy.segmentTexts path', Legacy.Readable text.toList) →
        Legacy.segmentTexts path = Legacy.segmentTexts path' ∧
          Legacy.fingerprint ty.text = Legacy.fingerprint ty'.text) ∧
    ∀ ty path, ty.hasError = false →
      ((∃ text, legacy.symbol tree ty path = .error (.unpairedColon text)) ↔
        ∃ text ∈ Legacy.segmentTexts path, Legacy.OddRun text.toList) := by
  constructor
  · intro ty ty' path path' x made made' readable readable'
    rw [legacy_symbol_of_not_hasError (hasError_of_symbol made)] at made
    rw [legacy_symbol_of_not_hasError (hasError_of_symbol made')] at made'
    exact Legacy.texts_of_same_symbol made made' readable readable'
  · intro ty path sound
    simp only [legacy_symbol_of_not_hasError sound, Legacy.symbol_eq_error_iff]
    constructor
    · rintro ⟨_, text, found, -⟩
      exact ⟨text, List.mem_of_find?_eq_some found, by simpa using List.find?_some found⟩
    · rintro ⟨text, mem, odd⟩
      cases found : (Legacy.segmentTexts path).find? (Legacy.OddRun ·.toList) with
      | none => exact absurd odd (by simpa using List.find?_eq_none.1 found text mem)
      | some first => exact ⟨first, first, rfl, rfl⟩

/-- A member of one trait's implementations for two types that are namesakes, the second with a
disambiguator. And an implementation whose trait is in a crate with a colon in its name. -/
theorem legacy_symbol_readable_namesakes :
    let tree := ItemTree.empty "main"
    let root := CanonicalPath.crateRoot "main"
    let member (self : Ty) := (root.joinTraitImpl self (root.join "T" .type)).join "f" .value
    let path := member (.adt ⟨0⟩ "S" [])
    let path' := (member (.adt ⟨1⟩ "S" [])).withDisambiguator 1
    ∃ x, legacy.symbol tree (.adt ⟨0⟩ "S" []) path = .ok x ∧
      legacy.symbol tree (.adt ⟨1⟩ "S" []) path' = .ok x ∧
      Legacy.segmentTexts path = Legacy.segmentTexts path' ∧
      ∃ text, legacy.symbol tree .never
        (root.joinTraitImpl .never ((CanonicalPath.crateRoot "a:b").join "T" .type)) =
          .error (.unpairedColon text) := by
  intro tree root member path path'
  obtain ⟨told, failing⟩ := legacy_symbol_readable tree tree
  have made : legacy.symbol tree (.adt ⟨0⟩ "S" []) path =
      .ok "_ZN4main29_$LT$S$u20$as$u20$main..T$GT$1f17h78912b704e4a782aE" := by
    decide +kernel
  have made' : legacy.symbol tree (.adt ⟨1⟩ "S" []) path' =
      .ok "_ZN4main29_$LT$S$u20$as$u20$main..T$GT$1f17h78912b704e4a782aE" := by
    decide +kernel
  have odd : Legacy.OddRun "<! as a:b::T>".toList := by decide
  refine ⟨_, made, made', ?_, (failing .never _ rfl).2 ⟨_, by decide +kernel, odd⟩⟩
  exact (told _ _ _ _ _ made made' (by decide +kernel) (by decide +kernel)).1

end TraitEngine.SymbolScheme
