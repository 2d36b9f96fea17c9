import TraitEngine.Config
import TraitEngine.Proofs.Symbol.Alphabet
/-!
# Crate names in symbols

A crate name is tested when the configuration is read, and once more by the scheme that writes
it into a symbol. The first test is for letters, digits and underscores of any script; what a
scheme tests is the ASCII form, and each has one of its own.

The tests agree (`crateName_writable`). In ASCII the configuration lets pass what an identifier
may hold, no more and no less. Beyond ASCII a character is written in digits of one sort or the
other, so that its class no longer matters: scheme `v0` fails only if the counter of the bootstring
encoder leaves 32 bits, and the legacy scheme never. For the names that are accepted its escapes
leave out the dots, which stand for colons.
-/

namespace TraitEngine

set_option autoImplicit false

/-! ## What the configuration accepts -/

theorem isCrateName_iff {name : String} : isCrateName name = true ↔
    name ≠ "" ∧ ∀ c ∈ name.toList, isAlphanumeric c = true ∨ c = '_' := by
  simp [isCrateName]

/-- In ASCII, letters and digits of any script are those of ASCII. -/
theorem isWord_of_isCrateName {name : String} (accepted : isCrateName name = true) :
    Legacy.IsWord name := by
  intro c mem ascii
  rw [← isAlphanumeric_ascii c ascii]
  exact (isCrateName_iff.1 accepted).2 c mem

namespace Config

variable {set : Config → Toml.Value → Config} {c : Config}

theorem isCrateName_takeSetting
    (kept : ∀ c v, isCrateName c.crate = true → isCrateName (set c v).crate = true)
    (doc : Toml.Value) (table field : String) (known : isCrateName c.crate = true) :
    isCrateName (takeSetting doc table field set c).crate = true := by
  unfold takeSetting
  split
  · exact known
  · split
    · next entries _ =>
        cases entries.lookup field with
        | none => exact known
        | some v => exact kept c v known
    · exact known

/-- A name that fails the test is reported, and the one before stays. -/
theorem isCrateName_setCrate (c : Config) (v : Toml.Value) (known : isCrateName c.crate = true) :
    isCrateName (setCrate c v).crate = true := by
  unfold setCrate
  split
  · split
    · next accepted => exact accepted
    · exact known
  · exact known

theorem crate_setLimit (c : Config) (v : Toml.Value) : (setLimit c v).crate = c.crate := by
  unfold setLimit
  split
  · split <;> rfl
  · rfl

theorem crate_setScheme (c : Config) (v : Toml.Value) : (setScheme c v).crate = c.crate := by
  unfold setScheme
  split
  · split <;> rfl
  · rfl

/-- Whatever a document says, the name of the crate passes the test. -/
theorem isCrateName_parse? {text : String} (read : parse? text = some c) :
    isCrateName c.crate = true := by
  obtain ⟨doc, -, rfl⟩ := Option.map_eq_some_iff.1 read
  apply isCrateName_takeSetting fun c v known => by rwa [crate_setScheme]
  apply isCrateName_takeSetting fun c v known => by rwa [crate_setLimit]
  apply isCrateName_takeSetting isCrateName_setCrate
  decide

end Config

/-! ## Identifiers -/

namespace Structural

open Bootstring

variable {name : String}

theorem asciiName?_eq_none_iff {text : List Char} :
    asciiName? text = none ↔ encode? text = none := by
  by_cases ascii : text.all isBasic = true
  · simp only [asciiName?, ascii, if_true, encode?_of_ascii ascii, reduceCtorEq]
  · simp only [asciiName?, if_neg ascii, Option.map_eq_none_iff]

/-- No name is refused for its characters if no unfit one is in it, and no hyphen. -/
theorem identifier_eq_error_iff (fit : Refused name → encode? name.toList = none)
    {e : SymbolError} : identifier name = .error e ↔
      e = .unencodable name ∧ encode? name.toList = none := by
  by_cases overflow : encode? name.toList = none
  · rw [identifier, asciiName?_eq_none_iff.2 overflow]
    simp [overflow, eq_comm]
  · have known : SymbolName.of? name ≠ none := fun refused => overflow (fit (of?_eq_none_iff.1 refused))
    obtain ⟨encoded, known⟩ := Option.ne_none_iff_exists'.1 known
    have written := identifier_eq name
    rw [known] at written
    cases made : identifier name with
    | error e' =>
        rw [made] at written
        cases written
    | ok cs => simp [overflow]

/-- What the configuration accepts is refused for the length of its encoding only. -/
theorem encode?_of_refused (accepted : isCrateName name = true) (refused : Refused name) :
    encode? name.toList = none := by
  have word := isWord_of_isCrateName accepted
  cases refused with
  | empty none => exact absurd none (isCrateName_iff.1 accepted).1
  | unfit mem unfit =>
      obtain ⟨ascii, other, line, -⟩ := unfit
      obtain alphanumeric | same := word _ mem ascii
      · simp [alphanumeric] at other
      · exact absurd same line
  | hyphen mem ascii =>
      obtain other | other := word _ mem (by decide)
      · cases other
      · cases other
  | overflow none => exact none

/-- In ASCII the configuration accepts what can be written as it is. -/
theorem isCrateName_iff_identifier (ascii : name.toList.all isBasic = true) :
    isCrateName name = true ↔ ∃ cs, identifier name = .ok cs := by
  have fit : (∃ cs, identifier name = .ok cs) ↔ ¬Refused name := by
    rw [← of?_eq_none_iff]
    have written := identifier_eq name
    cases made : identifier name <;> cases known : SymbolName.of? name <;>
      simp [made, known, Except.toOption] at written ⊢
  rw [fit, refused_ascii_iff ascii, not_not, isCrateName_iff]
  have some : name ≠ "" ↔ name.toList ≠ [] := not_congr String.toList_inj.symm
  refine and_congr some (forall_congr' fun c => forall_congr' fun mem => ?_)
  have own : c.toNat < 128 := of_decide_eq_true (List.all_eq_true.1 ascii c mem)
  rw [isAlphanumeric_ascii c own, isIdentifierChar_iff]

end Structural

/-! ## Legacy segments -/

namespace Legacy

theorem escape?_of_not_mem {text : List Char} (free : ':' ∉ text) :
    escape? text = some (text.flatMap escapeChar) := by
  induction text with
  | nil => rfl
  | cons c cs ih =>
      rw [List.mem_cons, not_or] at free
      rw [escape?_cons (Ne.symm free.1), ih free.2]
      rfl

/-- A letter, a digit or an underscore stays, and a code is written in digits. -/
theorem escapeChar_of_word {c : Char} (word : c.toNat < 128 → c.isAlphanum = true ∨ c = '_') :
    ∀ d ∈ escapeChar c, d.isAlphanum = true ∨ d = '_' ∨ d = '$' := by
  unfold escapeChar
  split
  case h_11 =>
    split
    · next ascii =>
        intro d mem
        rw [List.mem_singleton.1 mem]
        exact (word ascii).imp_right .inl
    · intro d mem
      rcases List.mem_append.1 mem with front | last
      · rcases List.mem_append.1 front with mark | code
        · simp only [String.reduceToList, List.mem_cons, List.not_mem_nil, or_false] at mark
          rcases mark with rfl | rfl <;> simp
        · exact .inl (all_isAlphanum_numeral (by omega) (by omega) c.toNat d code)
      · exact .inr (.inr (List.mem_singleton.1 last))
  all_goals exact absurd (word (by decide)) (by decide)

variable {name : String}

theorem encodeSegment_of_isWord (word : IsWord name) :
    let out := name.toList.flatMap escapeChar
    encodeSegment name = .ok (numeral 10 out.length ++ out) := by
  intro out
  have free {c : Char} (ascii : c.toNat < 128) (other : ¬(c.isAlphanum = true ∨ c = '_')) :
      c ∉ name.toList := fun mem => other (word c mem ascii)
  have unmarked : mark name.toList = name.toList := by
    refine mark_of_ne fun rest own => free (c := '<') (by decide) (by decide) ?_
    rw [own]
    exact List.mem_cons_self
  refine encodeSegment_eq_ok_iff.2 ⟨out, ?_, rfl⟩
  rw [escapeSegment?_eq, unmarked]
  exact escape?_of_not_mem (free (by decide) (by decide))

/-- A word always has a segment, and there is no dot in it. -/
theorem encodeSegment_word (word : IsWord name) : ∃ cs, encodeSegment name = .ok cs ∧
    ∀ c ∈ cs, c.isAlphanum = true ∨ c = '_' ∨ c = '$' := by
  refine ⟨_, encodeSegment_of_isWord word, fun d mem => ?_⟩
  rcases List.mem_append.1 mem with length | escaped
  · exact .inl (all_isAlphanum_numeral (by omega) (by omega) _ d length)
  · obtain ⟨c, own, part⟩ := List.mem_flatMap.1 escaped
    exact escapeChar_of_word (word c own) d part

end Legacy

/-! ## Both tests -/

open Structural (identifier)
open Legacy (encodeSegment)

/-- The name of the crate in a configuration that was read is one that the test accepts. In ASCII
these are the names that are identifiers. Of any accepted name, scheme `v0` has an identifier
unless the counter of the encoder leaves 32 bits, for which the name has to be long, and the legacy
scheme has a segment, in letters, digits, `_` and `$`. -/
theorem crateName_writable :
    (∀ text c, Config.parse? text = some c → isCrateName c.crate = true) ∧
    (∀ name : String, name.toList.all Bootstring.isBasic = true →
      (isCrateName name = true ↔ ∃ cs, identifier name = .ok cs)) ∧
    ∀ name, isCrateName name = true →
      (∀ e, identifier name = .error e ↔ e = .unencodable name ∧
        ∃ v, Bootstring.Counts name.toList v ∧ 0x100000000 ≤ v) ∧
      (name.length ≤ 3855 → ∃ cs, identifier name = .ok cs) ∧
      ∃ cs, encodeSegment name = .ok cs ∧ ∀ c ∈ cs, c.isAlphanum = true ∨ c = '_' ∨ c = '$' := by
  refine ⟨fun _ _ => Config.isCrateName_parse?, fun _ => Structural.isCrateName_iff_identifier,
    fun name accepted => ?_⟩
  have refused {e : SymbolError} := Structural.identifier_eq_error_iff (e := e)
    (Structural.encode?_of_refused accepted)
  refine ⟨fun e => ?_, fun short => ?_, Legacy.encodeSegment_word (isWord_of_isCrateName accepted)⟩
  · rw [refused, Bootstring.encode?_eq_none_iff]
  · cases made : identifier name with
    | ok cs => exact ⟨cs, rfl⟩
    | error e =>
        rw [← String.length_toList] at short
        exact absurd (refused.1 made).2 (Bootstring.encode?_ne_none_of_length_le short)

/-- The name `grö_ß9` of a document, and the name `main` in ASCII. -/
theorem crateName_writable_umlaut :
    (∃ c, Config.parse? "[crate]\nname = \"grö_ß9\"" = some c ∧ c.crate = "grö_ß9" ∧
      isCrateName c.crate = true ∧ (∃ cs, identifier c.crate = .ok cs) ∧
      ∃ cs, encodeSegment c.crate = .ok cs ∧
        ∀ d ∈ cs, d.isAlphanum = true ∨ d = '_' ∨ d = '$') ∧
      ∃ cs, identifier "main" = .ok cs := by
  obtain ⟨parsed, ascii, written⟩ := crateName_writable
  obtain ⟨c, read, named⟩ := Option.map_eq_some_iff.1
    (show (Config.parse? "[crate]\nname = \"grö_ß9\"").map Config.crate = some "grö_ß9" by
      decide +kernel)
  have accepted : isCrateName c.crate = true := parsed _ c read
  obtain ⟨-, short, segment⟩ := written c.crate accepted
  exact ⟨⟨c, read, named, accepted, short (by rw [named]; decide), segment⟩,
    (ascii "main" (by decide)).1 (by decide)⟩

end TraitEngine
