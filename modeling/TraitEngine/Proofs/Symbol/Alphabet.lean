import TraitEngine.Proofs.Symbol.Encodable
/-!
# The characters of a legacy symbol

A legacy symbol is meant for ASCII letters and digits, `_`, `$` and `.`. The escapes are
written in these, and so are the lengths and the fingerprint; any other ASCII character passes
as it is. A text is covered if its characters are in the alphabet or have an escape, and what is
written of a covered text is in the alphabet (`all_encodeSegment`).

The texts of types are not all covered. There is no escape for the parentheses of tuples and
functions, the semicolon of arrays, the exclamation mark and the plus sign between bounds. If all
names are words, these are the only ones to pass: a symbol is in the alphabet exactly if none
of these types is shown in its path (`legacy_symbol_alphabet`). The item's own type is not
shown; only its fingerprint depends on it.
-/

namespace TraitEngine

set_option autoImplicit false

/-! ## Stray types -/

namespace Ty

mutual

/-- The names that the text of a type shows. -/
def shownNames : Ty → List String
  | .adt _ name args => name :: shownNamesList args
  | .tuple ts => shownNamesList ts
  | .pointer _ _ t | .array t _ | .slice t => shownNames t
  | .fn _ receiver params ret _ =>
    shownNamesOption receiver ++ shownNamesList params ++ shownNames ret
  | .param p => [p.name]
  | .placeholder _ name => [name]
  | .projection self _ traitName name => shownNames self ++ [traitName, name]
  | .dyn bounds => shownNamesBounds bounds
  | .prim _ | .never | .infer _ | .error => []

def shownNamesList : List Ty → List String
  | [] => []
  | t :: ts => shownNames t ++ shownNamesList ts

def shownNamesOption : Option Ty → List String
  | none => []
  | some t => shownNames t

def shownNamesBounds : List DynBound → List String
  | [] => []
  | b :: bs => shownNamesBound b ++ shownNamesBounds bs

def shownNamesBound : DynBound → List String
  | .mk _ name args => name :: shownNamesList args

end

mutual

/-- Whether a tuple, an array, a function, the never type or several bounds occur in a type. -/
def hasStray : Ty → Bool
  | .never | .tuple _ | .array .. | .fn .. => true
  | .adt _ _ args => hasStrayList args
  | .pointer _ _ t | .slice t | .projection t .. => hasStray t
  | .dyn bounds => decide (1 < bounds.length) || hasStrayBounds bounds
  | .prim _ | .param _ | .placeholder .. | .infer _ | .error => false

def hasStrayList : List Ty → Bool
  | [] => false
  | t :: ts => hasStray t || hasStrayList ts

def hasStrayBounds : List DynBound → Bool
  | [] => false
  | b :: bs => hasStrayBound b || hasStrayBounds bs

def hasStrayBound : DynBound → Bool
  | .mk _ _ args => hasStrayList args

end

/-- A list has a stray character if one of its types does. -/
theorem hasStrayList_eq (ts : List Ty) : hasStrayList ts = ts.any hasStray := by
  induction ts with
  | nil => rfl
  | cons t ts ih => rw [hasStrayList, ih, List.any_cons]

theorem shownNamesList_eq (ts : List Ty) : shownNamesList ts = ts.flatMap shownNames := by
  induction ts with
  | nil => rfl
  | cons t ts ih => rw [shownNamesList, ih, List.flatMap_cons]

end Ty

namespace CanonicalPath

mutual

/-- The types that the text of a path shows. -/
def shownTypes : CanonicalPath → List Ty
  | .mk _ _ segments => segmentsTypes segments

def segmentsTypes : List CanonicalSegment → List Ty
  | [] => []
  | s :: rest => segmentTypes s ++ segmentsTypes rest

def segmentTypes : CanonicalSegment → List Ty
  | .named _ _ _ args => args
  | .traitImpl self trait _ args => self :: shownTypes trait ++ args

end

/-- All names in the text of a path, those in its types included. -/
def shownNames (path : CanonicalPath) : List String :=
  path.names ++ path.shownTypes.flatMap Ty.shownNames

end CanonicalPath

namespace Legacy

/-! ## Covered texts -/

/-- The characters that symbols are meant to be written in. -/
def isSymbolChar (c : Char) : Bool := c.isAlphanum || c == '_' || c == '$' || c == '.'

/-- A character of the alphabet, or one that is not written as it is. -/
def isCovered (c : Char) : Bool :=
  isSymbolChar c || " &<>*[]\x7b\x7d,:".toList.contains c || decide (128 ≤ c.toNat)

/-- All characters of the text are covered. -/
def covered (s : String) : Bool := s.toList.all isCovered

/-- A name made of letters, digits and underscores; beyond ASCII any character will do. -/
def IsWord (name : String) : Prop :=
  ∀ c ∈ name.toList, c.toNat < 128 → c.isAlphanum = true ∨ c = '_'

instance (name : String) : Decidable (IsWord name) := List.decidableBAll _ _

/-- Words are covered. -/
theorem covered_of_isWord {name : String} (word : IsWord name) : covered name = true := by
  refine List.all_eq_true.2 fun c mem => ?_
  by_cases ascii : c.toNat < 128
  · obtain alphanumeric | rfl := word c mem ascii
    · simp [isCovered, isSymbolChar, alphanumeric]
    · rfl
  · simp [isCovered, Nat.le_of_not_lt ascii]

theorem covered_of_alphanumeric {s : String} (all : ∀ c ∈ s.toList, c.isAlphanum = true) :
    covered s = true :=
  covered_of_isWord fun c mem _ => .inl (all c mem)

@[simp] theorem covered_append (s t : String) : covered (s ++ t) = (covered s && covered t) := by
  simp [covered, String.toList_append]

/-- A joined text is covered if its parts are. -/
theorem covered_intercalate {separator : String} (own : covered separator = true)
    (parts : List String) : covered (separator.intercalate parts) = parts.all covered := by
  induction parts with
  | nil => rfl
  | cons part parts ih =>
      cases parts with
      | nil => simp
      | cons next parts =>
          rw [String.intercalate_cons_cons, covered_append, covered_append, own, ih,
            Bool.and_true]
          rfl

/-- What else types and paths are written with is covered, … -/
theorem covered_marks : covered "<" = true ∧ covered ">" = true ∧ covered "[" = true ∧
    covered "]" = true ∧ covered " as " = true ∧ covered ">::" = true ∧ covered "dyn " = true := by
  decide

/-- … but for these. -/
theorem covered_strays : covered "(" = false ∧ covered "fn(" = false ∧ covered "; " = false ∧
    covered " + " = false := by
  decide

@[simp] theorem covered_bracketed (args : List String) :
    covered (Ty.bracketed args) = args.all covered := by
  unfold Ty.bracketed
  cases args with
  | nil => rfl
  | cons arg args =>
      have list := covered_intercalate (show covered ", " = true from rfl) (arg :: args)
      simp [list, covered_marks]

/-! ## What is written of a text -/

/-- A character other than a colon is escaped to symbol characters exactly if it is covered.
-/
theorem all_escapeChar {c : Char} (other : c ≠ ':') :
    (escapeChar c).all isSymbolChar = isCovered c := by
  unfold escapeChar
  split
  case h_11 =>
    split
    · next ascii => simp_all [isCovered]
    · next beyond =>
        have code : ∀ d ∈ numeral 16 c.toNat, isSymbolChar d = true := fun d mem => by
          have alphanumeric := all_isAlphanum_numeral (by omega) (by omega) c.toNat d mem
          simp [isSymbolChar, alphanumeric]
        simp [isCovered, Nat.le_of_not_lt beyond, List.all_eq_true.2 code, isSymbolChar]
  all_goals rfl

/-- Escaping a text makes it fit for a symbol exactly if it is covered. -/
theorem all_escape? {text out : List Char} (escaped : escape? text = some out) :
    out.all isSymbolChar = text.all isCovered := by
  fun_induction escape? text generalizing out with
  | case1 =>
      cases escaped
      rfl
  | case2 cs ih =>
      obtain ⟨behind, rest, rfl⟩ := Option.map_eq_some_iff.1 escaped
      rw [List.all_append, ih rest]
      rfl
  | case3 cs lone => cases escaped
  | case4 c cs paired other ih =>
      obtain ⟨behind, rest, rfl⟩ := Option.map_eq_some_iff.1 escaped
      rw [List.all_append, List.all_cons, ih rest, all_escapeChar other]

theorem all_mark (text : List Char) : (mark text).all isCovered = text.all isCovered := by
  unfold mark
  split
  · rfl
  · rfl

/-- A segment is fit for a symbol exactly if its text is covered. -/
theorem all_encodeSegment {name : String} {cs : List Char} (made : encodeSegment name = .ok cs) :
    cs.all isSymbolChar = covered name := by
  obtain ⟨out, escaped, rfl⟩ := encodeSegment_eq_ok_iff.1 made
  have length : (numeral 10 out.length).all isSymbolChar = true := by
    refine List.all_eq_true.2 fun c mem => ?_
    simp [isSymbolChar, all_isAlphanum_numeral (by omega) (by omega) _ c mem]
  rw [escapeSegment?_eq] at escaped
  rw [List.all_append, length, Bool.true_and, all_escape? escaped, all_mark, covered]

theorem all_encodeSegments {names : List String} {segments : List (List Char)}
    (made : names.mapM encodeSegment = .ok segments) :
    segments.flatten.all isSymbolChar = names.all covered := by
  induction names generalizing segments with
  | nil =>
      cases made
      rfl
  | cons name names ih =>
      obtain ⟨first, rest, own, others, rfl⟩ := encodeSegments_cons.1 made
      rw [List.flatten_cons, List.all_append, List.all_cons, ih others, all_encodeSegment own]

/-- The fingerprint is covered always, so that it depends on the path what a symbol is written
in. -/
theorem all_symbol {ty : Ty} {path : CanonicalPath} {x : String}
    (made : symbol ty path = .ok x) :
    x.toList.all isSymbolChar = (segmentTexts path).all covered := by
  obtain ⟨segments, hash, encoded, last, rfl⟩ := symbol_eq_ok_iff.1 made
  have fingerprinted : hash.all isSymbolChar = true := by
    rw [all_encodeSegment last]
    exact covered_of_alphanumeric (isAlphanum_fingerprint ty.text)
  rw [String.toList_ofList, List.all_append, List.all_append, List.all_append,
    all_encodeSegments encoded, fingerprinted]
  exact (Bool.and_true _).trans (Bool.and_true _)

/-! ## The texts of types -/

theorem covered_primitive (p : Primitive) : covered p.text = true := by
  cases p with
  | bool | char | str => rfl
  | int w | uint w | float w => cases w <;> rfl

theorem covered_pointerText (k : PointerKind) (m : Mutability) :
    covered (Ty.pointerText k m) = true := by
  cases k <;> cases m <;> rfl

/-- All of the names are words. -/
def Words (names : List String) : Prop := ∀ name ∈ names, IsWord name

@[simp] theorem words_cons {name : String} {names : List String} :
    Words (name :: names) ↔ IsWord name ∧ Words names := List.forall_mem_cons

@[simp] theorem words_append {names names' : List String} :
    Words (names ++ names') ↔ Words names ∧ Words names' := List.forall_mem_append

mutual

/-- If the names in a type are words, its text is covered exactly if the type has no stray
character. -/
theorem covered_text : ∀ t : Ty, Words t.shownNames → covered t.text = !t.hasStray
  | .prim p, _ => covered_primitive p
  | .never, _ | .error, _ | .infer .any, _ | .infer .integer, _ | .infer .float, _ => rfl
  | .tuple _, _ | .array .., _ | .fn .., _ => by simp [Ty.text, Ty.hasStray, covered_strays]
  | .adt _ name args, words => by
      obtain ⟨own, inner⟩ := words_cons.1 words
      rw [Ty.text, covered_append, covered_of_isWord own, covered_bracketed,
        covered_texts args inner, Ty.hasStray, Bool.true_and]
  | .pointer k m t, words => by
      rw [Ty.text, covered_append, covered_pointerText, covered_text t words, Ty.hasStray,
        Bool.true_and]
  | .slice t, words => by
      have own := covered_text t words
      simp [Ty.text, Ty.hasStray, own, covered_marks]
  | .param p, words => covered_of_isWord (words_cons.1 words).1
  | .placeholder _ name, words => covered_of_isWord (words_cons.1 words).1
  | .projection self _ traitName name, words => by
      obtain ⟨inner, own⟩ := words_append.1 words
      obtain ⟨trait, rest⟩ := words_cons.1 own
      simp [Ty.text, Ty.hasStray, covered_text self inner, covered_of_isWord trait,
        covered_of_isWord (words_cons.1 rest).1, covered_marks]
  | .dyn [], _ => rfl
  | .dyn [b], words => by
      have own := covered_boundTexts [b] words
      simpa [Ty.text, Ty.boundTexts, Ty.hasStray, covered_marks] using own
  | .dyn (b :: b' :: bs), _ => by
      simp [Ty.text, Ty.boundTexts, Ty.hasStray, String.intercalate_cons_cons, covered_strays]

theorem covered_texts : ∀ ts : List Ty, Words (Ty.shownNamesList ts) →
    (Ty.texts ts).all covered = !Ty.hasStrayList ts
  | [], _ => rfl
  | t :: ts, words => by
      obtain ⟨own, rest⟩ := words_append.1 words
      rw [Ty.texts, List.all_cons, covered_text t own, covered_texts ts rest, Ty.hasStrayList,
        Bool.not_or]

theorem covered_boundTexts : ∀ bounds : List DynBound, Words (Ty.shownNamesBounds bounds) →
    (Ty.boundTexts bounds).all covered = !Ty.hasStrayBounds bounds
  | [], _ => rfl
  | .mk _ name args :: bs, words => by
      obtain ⟨own, rest⟩ := words_append.1 words
      obtain ⟨word, inner⟩ := words_cons.1 own
      rw [Ty.boundTexts, List.all_cons, Ty.boundText, covered_append, covered_of_isWord word,
        covered_bracketed, covered_texts args inner, covered_boundTexts bs rest,
        Ty.hasStrayBounds, Ty.hasStrayBound, Bool.true_and, Bool.not_or]

end

/-! ## The texts of paths -/

theorem covered_args {args : List Ty} (words : Words (args.flatMap Ty.shownNames)) :
    (Ty.texts args).all covered = !args.any Ty.hasStray := by
  rw [covered_texts args (by rwa [Ty.shownNamesList_eq]), Ty.hasStrayList_eq]

theorem words_flatMap_append {ts us : List Ty} : Words ((ts ++ us).flatMap Ty.shownNames) ↔
    Words (ts.flatMap Ty.shownNames) ∧ Words (us.flatMap Ty.shownNames) := by
  rw [List.flatMap_append, words_append]

mutual

/-- The same for a path with its arguments. -/
theorem covered_pathText : ∀ p : CanonicalPath, Words p.names →
    Words (p.shownTypes.flatMap Ty.shownNames) → covered p.text = !p.shownTypes.any Ty.hasStray
  | .mk crate _ segments, names, words => by
      obtain ⟨own, rest⟩ := words_cons.1 names
      rw [CanonicalPath.text, covered_intercalate rfl, List.all_cons, covered_of_isWord own,
        covered_segmentTexts segments rest words, CanonicalPath.shownTypes, Bool.true_and]

theorem covered_segmentTexts : ∀ segments : List CanonicalSegment,
    Words (CanonicalPath.segmentsNames segments) →
    Words ((CanonicalPath.segmentsTypes segments).flatMap Ty.shownNames) →
      (CanonicalPath.segmentTexts segments).all covered =
        !(CanonicalPath.segmentsTypes segments).any Ty.hasStray
  | [], _, _ => rfl
  | s :: rest, names, words => by
      obtain ⟨own, others⟩ := words_append.1 names
      obtain ⟨inner, further⟩ := words_flatMap_append.1 words
      rw [CanonicalPath.segmentTexts, List.all_cons, covered_segment s own inner,
        covered_segmentTexts rest others further, CanonicalPath.segmentsTypes, List.any_append,
        Bool.not_or]

theorem covered_segment : ∀ s : CanonicalSegment, Words (CanonicalPath.segmentNames s) →
    Words ((CanonicalPath.segmentTypes s).flatMap Ty.shownNames) →
      covered (CanonicalPath.segmentText s) = !(CanonicalPath.segmentTypes s).any Ty.hasStray
  | .named name _ _ args, names, words => by
      have inner : (Ty.texts args).all covered = !args.any Ty.hasStray := covered_args words
      rw [CanonicalPath.segmentText, covered_append, covered_bracketed, inner,
        covered_of_isWord (words_cons.1 names).1, Bool.true_and, CanonicalPath.segmentTypes]
  | .traitImpl self trait _ args, names, words => by
      obtain ⟨front, inner⟩ := words_flatMap_append.1 words
      obtain ⟨own, nested⟩ := words_append.1 front
      simp [CanonicalPath.segmentText, CanonicalPath.segmentTypes, covered_text self own,
        covered_pathText trait names nested, covered_args inner, covered_marks, Bool.and_assoc]

end

/-- Arguments are set apart by commas in a symbol and by commas and blanks in a path; either way
the same characters are at stake. -/
theorem covered_ownSegment (s : CanonicalSegment) :
    covered (segmentText s) = covered (CanonicalPath.segmentText s) := by
  have shown : CanonicalPath.segmentText s = s.name ++ Ty.bracketed (Ty.texts s.args) := by
    cases s <;> rfl
  rw [shown, covered_append, covered_bracketed, segmentText]
  split
  · next none => simp [List.isEmpty_iff.1 none, Ty.texts]
  · have list := covered_intercalate (show covered "," = true from rfl) (Ty.texts s.args)
    simp [list, covered_marks]

theorem covered_ownSegments (segments : List CanonicalSegment) :
    (segments.map segmentText).all covered =
      (CanonicalPath.segmentTexts segments).all covered := by
  induction segments with
  | nil => rfl
  | cons s rest ih =>
      rw [List.map_cons, List.all_cons, covered_ownSegment, ih, CanonicalPath.segmentTexts,
        List.all_cons]

/-- The segments of a symbol, over a path whose names are words. -/
theorem all_segmentTexts {path : CanonicalPath} (words : Words path.shownNames) :
    (segmentTexts path).all covered = !path.shownTypes.any Ty.hasStray := by
  obtain ⟨names, inner⟩ := words_append.1 words
  obtain ⟨crate, dis, segments⟩ := path
  obtain ⟨own, rest⟩ := words_cons.1 names
  rw [segmentTexts, List.all_cons, CanonicalPath.crate, CanonicalPath.segments,
    covered_of_isWord own, Bool.true_and, covered_ownSegments,
    covered_segmentTexts segments rest inner, CanonicalPath.shownTypes]

end Legacy

namespace SymbolScheme

open Legacy (isSymbolChar IsWord)

/-- If all names that the path of an item shows are words, the item's legacy symbol is written in
letters, digits, `_`, `$` and `.` exactly if the path shows no tuple, array, function, never type
or trait object with several bounds. -/
theorem legacy_symbol_alphabet {tree : ItemTree} {ty : Ty} {path : CanonicalPath} {x : String}
    (made : legacy.symbol tree ty path = .ok x) (words : ∀ name ∈ path.shownNames, IsWord name) :
    (∀ c ∈ x.toList, c.isAlphanum = true ∨ c = '_' ∨ c = '$' ∨ c = '.') ↔
      ∀ t ∈ path.shownTypes, t.hasStray = false := by
  rw [legacy_symbol_of_not_hasError (hasError_of_symbol made)] at made
  have same := (Legacy.all_symbol made).trans (Legacy.all_segmentTexts words)
  have alphabet : x.toList.all isSymbolChar = true ↔
      ∀ c ∈ x.toList, c.isAlphanum = true ∨ c = '_' ∨ c = '$' ∨ c = '.' := by
    simp [isSymbolChar, or_assoc]
  rw [← alphabet, same]
  simp

/-- A reference to a slice and a pointer have escapes for all that they are written with. -/
theorem legacy_symbol_alphabet_pointers :
    let path := (((CanonicalPath.crateRoot "main").joinTraitImpl
      (.ref (.slice (.adt ⟨0⟩ "S_1" []))) ((CanonicalPath.crateRoot "main").join "T" .type)).join
        "f" .value).withArgs [.pointer .raw .shared (.dyn [.mk ⟨1⟩ "T" []]), .infer .integer]
    ∃ x, legacy.symbol (.empty "main") .never path = .ok x ∧
      ∀ c ∈ x.toList, c.isAlphanum = true ∨ c = '_' ∨ c = '$' ∨ c = '.' := by
  intro path
  have made : legacy.symbol (.empty "main") .never path = .ok
      ("_ZN4main45_$LT$$RF$$u5b$S_1$u5d$$u20$as$u20$main..T$GT$" ++
        "52f$LT$$BP$const$u20$dyn$u20$T$C$$u7b$integer$u7d$$GT$17h78912b704e4a3aa4E") := by
    decide +kernel
  exact ⟨_, made, (legacy_symbol_alphabet made (by decide +kernel)).2 (by decide +kernel)⟩

/-- The brackets and the blank of an array are escaped, and its semicolon is not. -/
theorem legacy_symbol_unescaped :
    let self : Ty := .array (.prim (.uint .w8)) 4
    let path := ((CanonicalPath.crateRoot "main").joinTraitImpl self
      ((CanonicalPath.crateRoot "main").join "T" .type)).join "f" .value
    (∀ name ∈ path.shownNames, IsWord name) ∧
      ∃ x, legacy.symbol (.empty "main") (.fn "f" (some (.ref self)) [] .unit []) path = .ok x ∧
        ';' ∈ x.toList := by
  intro self path
  refine ⟨by decide +kernel, ?_⟩
  exact ⟨"_ZN4main47_$LT$$u5b$u8;$u20$4$u5d$$u20$as$u20$main..T$GT$1f17h4340bdc05a60f2beE",
    by decide +kernel, by decide +kernel⟩

end SymbolScheme

end TraitEngine
