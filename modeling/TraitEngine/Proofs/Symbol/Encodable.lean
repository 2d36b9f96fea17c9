import TraitEngine.Decl.Builder
import TraitEngine.Proofs.Symbol.Identifiers
import TraitEngine.Proofs.Symbol.Segments
/-!
# Which items have a structural symbol

A structural symbol is written in letters, digits and underscores of ASCII: so are
numerals, marks and encoded names, and nothing else is written.

What can fail is a name or a look-up. A name is refused for itself (`of?_eq_none_iff`),
wherever it stands. The names are those of the path and of the paths of its traits; for each
struct, enum or bound that occurs in an encoded type, its canonical path is looked up, and the
names of that path come in addition. The parts of a path are encoded independently of each
other, so a path has a symbol exactly if none of these names is refused and every look-up
succeeds (`pathShape?_eq_none_iff`). The arguments of an implementation segment are not
encoded, nor are the types that all read `p`.
-/

namespace TraitEngine

set_option autoImplicit false

namespace CanonicalPath

mutual

/-- The names in a path: of the crate, of the segments that have one, and those in the path of
an implemented trait. -/
def names : CanonicalPath → List String
  | .mk crate _ segments => crate :: segmentsNames segments

def segmentsNames : List CanonicalSegment → List String
  | [] => []
  | s :: rest => segmentNames s ++ segmentsNames rest

def segmentNames : CanonicalSegment → List String
  | .named name _ _ _ => [name]
  | .traitImpl _ trait _ _ => names trait

end

/-- The names of a declared item's path are the crate's, those of its modules and its own. -/
theorem names_foldl_join (names : List String) (crate : String) :
    CanonicalPath.names (names.foldl (·.join · .type) (.crateRoot crate)) = crate :: names := by
  have own : segmentsNames (names.map (.named · .type 0 [])) = names := by
    induction names with
    | nil => rfl
    | cons name names ih => exact congrArg (name :: ·) ih
  rw [Structural.foldl_join, CanonicalPath.names]
  exact congrArg (crate :: ·) own

end CanonicalPath

namespace Structural

open Bootstring
open CanonicalPath (segmentsNames segmentNames)

/-! ## The characters of a symbol -/

/-- A text in ASCII letters, digits and underscores. -/
def InAlphabet (cs : List Char) : Prop := ∀ c ∈ cs, isIdentifierChar c = true

@[simp] theorem inAlphabet_nil : InAlphabet [] := fun _ mem => nomatch mem

@[simp] theorem inAlphabet_cons {c : Char} {cs : List Char} :
    InAlphabet (c :: cs) ↔ isIdentifierChar c = true ∧ InAlphabet cs := List.forall_mem_cons

@[simp] theorem inAlphabet_append {cs ds : List Char} :
    InAlphabet (cs ++ ds) ↔ InAlphabet cs ∧ InAlphabet ds := List.forall_mem_append

/-- The characters of symbols: letters, digits and the underscore. -/
theorem isIdentifierChar_iff {c : Char} :
    isIdentifierChar c = true ↔ c.isAlphanum = true ∨ c = '_' := by
  simp [isIdentifierChar]

theorem inAlphabet_numeral {base : Nat} (two : 2 ≤ base) (most : base ≤ 62) (n : Nat) :
    InAlphabet (numeral base n) :=
  fun c mem => isIdentifierChar_iff.2 (.inl (all_isAlphanum_numeral two most n c mem))

@[simp] theorem inAlphabet_disambiguator (n : Nat) : InAlphabet (disambiguator n) := by
  unfold disambiguator integer
  split
  · exact inAlphabet_nil
  · split <;> simp [inAlphabet_numeral, show isIdentifierChar 's' = true from rfl,
      show isIdentifierChar '_' = true from rfl]

@[simp] theorem inAlphabet_symbolName (name : SymbolName) : InAlphabet name.write := by
  have own : InAlphabet name.chars := List.all_eq_true.1 name.valid.2
  have marks : InAlphabet (if name.altered then ['u'] else []) ∧
      InAlphabet (separator name.chars) := by
    unfold separator
    constructor <;> split <;> simp [isIdentifierChar]
  simp [SymbolName.write, own, marks, inAlphabet_numeral]

theorem inAlphabet_instantiated {path args : List Char} (own : InAlphabet path)
    (inner : InAlphabet args) (hasArgs : Bool) : InAlphabet (instantiated path hasArgs args) := by
  unfold instantiated
  split
  · simp [own, inner, isIdentifierChar]
  · exact own

/-- The letters that mark namespaces, primitive types and pointers are among them. -/
theorem isIdentifierChar_marks :
    (∀ ns, isIdentifierChar (namespaceChar ns) = true) ∧
    (∀ p, isIdentifierChar (primitiveChar p) = true) ∧
    ∀ k m, isIdentifierChar (pointerChar k m) = true := by
  refine ⟨fun ns => by cases ns <;> rfl, fun p => ?_, fun k m => by cases k <;> cases m <;> rfl⟩
  cases p with
  | bool | char | str => rfl
  | int w | uint w | float w => cases w <;> rfl

mutual

/-- Whatever a path is, its symbol keeps to the alphabet. -/
theorem PathShape.inAlphabet_write : ∀ p : PathShape, InAlphabet p.write
  | .root crate dis => by
      rw [PathShape.write]
      simp [isIdentifierChar]
  | .named parent ns dis name args => by
      rw [PathShape.write]
      refine inAlphabet_instantiated ?_ (TyShape.inAlphabet_writeAll args) _
      simp [isIdentifierChar_marks, parent.inAlphabet_write,
        show isIdentifierChar 'N' = true from rfl]
  | .traitImpl parent dis self trait => by
      rw [PathShape.write]
      simp [parent.inAlphabet_write, self.inAlphabet_write, trait.inAlphabet_write,
        isIdentifierChar]

theorem TyShape.inAlphabet_write : ∀ t : TyShape, InAlphabet t.write
  | .never | .tuple [] | .unnamed => List.all_eq_true.1 rfl
  | .prim p => List.forall_mem_singleton.2 (isIdentifierChar_marks.2.1 p)
  | .tuple (t :: ts) => by
      rw [TyShape.write]
      simp [TyShape.inAlphabet_writeAll (t :: ts), isIdentifierChar]
  | .path p => p.inAlphabet_write
  | .pointer k m t => inAlphabet_cons.2 ⟨isIdentifierChar_marks.2.2 k m, t.inAlphabet_write⟩
  | .array t length => by
      have size : InAlphabet (numeral 16 length) := inAlphabet_numeral (by omega) (by omega) length
      rw [TyShape.write]
      simp [t.inAlphabet_write, size, isIdentifierChar]
  | .slice t => inAlphabet_cons.2 ⟨rfl, t.inAlphabet_write⟩
  | .fn params ret => by
      rw [TyShape.write]
      simp [TyShape.inAlphabet_writeAll params, ret.inAlphabet_write, isIdentifierChar]
  | .dyn bounds => by
      rw [TyShape.write]
      simp [PathShape.inAlphabet_writeAll bounds, isIdentifierChar]

theorem TyShape.inAlphabet_writeAll : ∀ ts : List TyShape, InAlphabet (TyShape.writeAll ts)
  | [] => inAlphabet_nil
  | t :: ts => inAlphabet_append.2 ⟨t.inAlphabet_write, TyShape.inAlphabet_writeAll ts⟩

theorem PathShape.inAlphabet_writeAll : ∀ ps : List PathShape, InAlphabet (PathShape.writeAll ps)
  | [] => inAlphabet_nil
  | p :: ps => inAlphabet_append.2 ⟨p.inAlphabet_write, PathShape.inAlphabet_writeAll ps⟩

end

/-! ## Refused names -/

/-- A character of ASCII that no name in a symbol may hold. -/
def Unfit (c : Char) : Prop := c.toNat < 128 ∧ c.isAlphanum = false ∧ c ≠ '_' ∧ c ≠ '-'

instance (c : Char) : Decidable (Unfit c) := inferInstanceAs (Decidable (_ ∧ _))

/-- A name that symbols cannot carry. A hyphen is fit for bootstring, so it is refused only in a
name that is not written so. -/
inductive Refused (name : String) : Prop where
  | empty (none : name = "")
  | unfit {c : Char} (mem : c ∈ name.toList) (unfit : Unfit c)
  | hyphen (mem : '-' ∈ name.toList) (ascii : name.toList.all isBasic = true)
  | overflow (none : encode? name.toList = none)

/-- There are no steps to encode in a text that is all in ASCII. -/
theorem encode?_of_ascii {text : List Char} (ascii : text.all isBasic = true) :
    encode? text = some (delimited '-' text) := by
  have basic : text.filter isBasic = text := List.filter_eq_self.2 (List.all_eq_true.1 ascii)
  refine encode?_eq_some_iff.2 ⟨[], ?_, by rw [basic, List.append_nil]⟩
  rw [basic, turns?, if_neg (by simp)]

theorem ascii_of_encode?_nil {text : List Char} (coded : encode? text = some []) :
    text.all isBasic = true := by
  have blank : encode? [] = some [] := encode?_of_ascii rfl
  rw [encode?_injective coded blank]
  rfl

theorem inAlphabet_delimited {basic : List Char} (d : Char) (own : isIdentifierChar d = true) :
    InAlphabet (delimited d basic) ↔ InAlphabet basic := by
  cases basic <;> simp [delimited, own]

theorem unfit_iff {c : Char} (basic : isBasic c = true) :
    Unfit c ↔ isIdentifierChar (if c == '-' then '_' else c) = false := by
  have ascii : c.toNat < 128 := of_decide_eq_true basic
  by_cases hyphen : c = '-'
  · simp [Unfit, hyphen, isIdentifierChar]
  · simp [Unfit, hyphen, ascii, isIdentifierChar]

/-- What is written of a name in bootstring is in the alphabet unless the name holds an unfit
character. -/
theorem inAlphabet_underscored {text out : List Char} (coded : encode? text = some out) :
    InAlphabet (underscored out) ↔ ∀ c ∈ text, ¬Unfit c := by
  obtain ⟨steps, turned, rfl⟩ := encode?_eq_some_iff.1 coded
  have digits := turns_digits _ _ turned
  have written : InAlphabet steps := fun c mem =>
    (digits c mem).of_test isIdentifierChar (by decide)
  rw [underscored_delimited digits, inAlphabet_append, inAlphabet_delimited _ rfl,
    and_iff_left written]
  simp only [InAlphabet, underscored, List.forall_mem_map, List.mem_filter]
  refine forall_congr' fun c => ?_
  by_cases basic : isBasic c = true
  · simp [basic, unfit_iff basic]
  · have other : ¬c.toNat < 128 := fun ascii => basic (decide_eq_true ascii)
    simp [basic, Unfit, other]

/-- A name that is all in ASCII is in the alphabet unless it holds an unfit character or a
hyphen. -/
theorem inAlphabet_ascii {text : List Char} (ascii : text.all isBasic = true) :
    InAlphabet text ↔ '-' ∉ text ∧ ∀ c ∈ text, ¬Unfit c := by
  constructor
  · intro plain
    refine ⟨fun hyphen => absurd (plain '-' hyphen) (by decide), fun c mem unfit => ?_⟩
    obtain alphanumeric | rfl := isIdentifierChar_iff.1 (plain c mem)
    · exact absurd alphanumeric (by simp [unfit.2.1])
    · exact unfit.2.2.1 rfl
  · rintro ⟨free, fit⟩ c mem
    have other : c ≠ '-' := fun same => free (same ▸ mem)
    have own := fit c mem
    rw [unfit_iff (List.all_eq_true.1 ascii c mem)] at own
    simpa [other] using own

/-- An ASCII form is accepted if it is not empty and in the alphabet. -/
theorem of?_eq_none_of_form {name : String} {cs : List Char} {altered : Bool}
    (form : asciiName? name.toList = some (cs, altered)) :
    SymbolName.of? name = none ↔ ¬(cs ≠ [] ∧ InAlphabet cs) := by
  have own : InAlphabet cs ↔ cs.all isIdentifierChar = true := List.all_eq_true.symm
  rw [SymbolName.of?, form, Option.bind_some, own]
  exact dite_eq_right_iff.trans (by simp [-not_and])

/-- An ASCII name is refused if it is empty or has another character. -/
theorem refused_ascii_iff {name : String} (ascii : name.toList.all isBasic = true) :
    Refused name ↔ ¬(name.toList ≠ [] ∧ InAlphabet name.toList) := by
  rw [inAlphabet_ascii ascii]
  constructor
  · rintro (rfl | ⟨mem, unfit⟩ | ⟨mem, -⟩ | none) ⟨some, free, fit⟩
    · exact some rfl
    · exact fit _ mem unfit
    · exact free mem
    · rw [encode?_of_ascii ascii] at none
      cases none
  · intro bad
    by_contra fine
    exact bad ⟨fun none => fine (.empty (String.toList_inj.1 none)),
      fun mem => fine (.hyphen mem ascii), fun c mem unfit => fine (.unfit mem unfit)⟩

/-- A name that is coded is refused if its coded form is empty or has another character. -/
theorem refused_coded_iff {name : String} {out : List Char}
    (other : name.toList.all isBasic ≠ true) (coded : encode? name.toList = some out) :
    Refused name ↔ ¬(underscored out ≠ [] ∧ InAlphabet (underscored out)) := by
  rw [inAlphabet_underscored coded]
  constructor
  · rintro (rfl | ⟨mem, unfit⟩ | ⟨-, ascii⟩ | none) ⟨-, fit⟩
    · exact other rfl
    · exact fit _ mem unfit
    · exact other ascii
    · rw [coded] at none
      cases none
  · intro bad
    by_contra fine
    refine bad ⟨fun none => ?_, fun c mem unfit => fine (.unfit mem unfit)⟩
    rw [underscored, List.map_eq_nil_iff] at none
    exact other (ascii_of_encode?_nil (none ▸ coded))

/-- A name has no ASCII form exactly if it is refused. -/
theorem of?_eq_none_iff {name : String} : SymbolName.of? name = none ↔ Refused name := by
  by_cases ascii : name.toList.all isBasic = true
  · rw [refused_ascii_iff ascii]
    exact of?_eq_none_of_form (if_pos ascii)
  · have form : asciiName? name.toList = (encode? name.toList).map fun cs =>
        (underscored cs, true) := if_neg ascii
    cases coded : encode? name.toList with
    | none =>
        rw [coded] at form
        exact iff_of_true (by rw [SymbolName.of?, form]; rfl) (.overflow coded)
    | some out =>
        rw [coded] at form
        rw [refused_coded_iff ascii coded]
        exact of?_eq_none_of_form form

instance (name : String) : Decidable (Refused name) := decidable_of_iff _ of?_eq_none_iff

example : Refused "a-b" ∧ ¬Refused "a-é" := by decide +kernel

/-! ## What is encoded -/

mutual

/-- The structs, enums and bounds that a type is encoded with. -/
def tyDefinitions : Ty → List DefId
  | .adt id _ args => id :: tysDefinitions args
  | .tuple ts => tysDefinitions ts
  | .pointer _ _ t | .array t _ | .slice t => tyDefinitions t
  | .fn _ receiver params ret _ =>
    receiverDefinitions receiver ++ tysDefinitions params ++ tyDefinitions ret
  | .dyn bounds => boundsDefinitions bounds
  | .prim _ | .never | .param _ | .placeholder .. | .projection .. | .infer _ | .error => []

def tysDefinitions : List Ty → List DefId
  | [] => []
  | t :: ts => tyDefinitions t ++ tysDefinitions ts

def receiverDefinitions : Option Ty → List DefId
  | none => []
  | some t => tyDefinitions t

def boundsDefinitions : List DynBound → List DefId
  | [] => []
  | .mk id _ args :: rest => id :: tysDefinitions args ++ boundsDefinitions rest

end

mutual

def pathDefinitions : CanonicalPath → List DefId
  | .mk _ _ segments => segmentsDefinitions segments

def segmentsDefinitions : List CanonicalSegment → List DefId
  | [] => []
  | segment :: rest => segmentDefinitions segment ++ segmentsDefinitions rest

def segmentDefinitions : CanonicalSegment → List DefId
  | .named _ _ _ args => tysDefinitions args
  | .traitImpl self trait _ _ => tyDefinitions self ++ pathDefinitions trait

end

/-- The names of the item's path and of the canonical paths of all that its types refer to. -/
def encodedNames (tree : ItemTree) (path : CanonicalPath) : List String :=
  path.names ++ ((pathDefinitions path).filterMap tree.canonicalPath?).flatMap (·.names)

/-! ## Paths that are encoded -/

/-- A part that succeeds or fails whatever is encoded before it. -/
theorem isSome_bind_iff {α β : Type} {x : Option α} {f : α → Option β} {P : Prop}
    (rest : ∀ a, (f a).isSome ↔ P) : (x >>= f).isSome ↔ x.isSome ∧ P := by
  cases x with
  | none => simp
  | some a => simpa using rest a

theorem isSome_bind_pure {α β : Type} {x : Option α} {f : α → β} :
    (x >>= fun a => pure (f a)).isSome ↔ x.isSome := by
  cases x <;> simp

section

variable {tree : ItemTree}

theorem rootShape?_isSome {crate : String} {dis : Nat} :
    (rootShape? crate dis).isSome ↔ (SymbolName.of? crate).isSome := by
  rw [rootShape?, Option.isSome_map]

theorem namedShape?_isSome {ns : Namespace} {parent : PathShape} {dis : Nat} {name : String}
    {args : List TyShape} :
    (namedShape? ns parent dis name args).isSome ↔ (SymbolName.of? name).isSome := by
  rw [namedShape?, Option.isSome_map]

/-- Nested names have a shape if each has an ASCII form. -/
theorem namesShape?_isSome (names : List String) : ∀ parent : PathShape,
    (names.foldlM (namedShape? .type · 0 · []) parent).isSome ↔
      ∀ name ∈ names, (SymbolName.of? name).isSome := by
  induction names with
  | nil => exact fun parent => by simp
  | cons name names ih =>
      intro parent
      rw [List.foldlM_cons, isSome_bind_iff ih, namedShape?_isSome, List.forall_mem_cons]

mutual

/-- A type has a shape if every declaration that it names has one. -/
theorem tyShape?_isSome : ∀ t : Ty, (tyShape? tree t).isSome ↔
    ∀ id ∈ tyDefinitions t, (definitionShape? tree id).isSome
  | .prim _ | .never | .param _ | .placeholder .. | .projection .. | .infer _ | .error => by
      simp [tyShape?, tyDefinitions]
  | .tuple ts => by rw [tyShape?, Option.isSome_map, tyShapes?_isSome ts, tyDefinitions]
  | .adt id _ args => by
      rw [tyShape?, tyDefinitions, List.forall_mem_cons, ← tyShapes?_isSome args]
      exact isSome_bind_iff fun _ => isSome_bind_pure
  | .pointer _ _ t | .array t _ | .slice t => by
      rw [tyShape?, Option.isSome_map, tyShape?_isSome t, tyDefinitions]
  | .fn _ receiver params ret _ => by
      rw [tyShape?, tyDefinitions, List.forall_mem_append, List.forall_mem_append, and_assoc,
        ← receiverShapes?_isSome receiver, ← tyShapes?_isSome params, ← tyShape?_isSome ret]
      exact isSome_bind_iff fun _ => isSome_bind_iff fun _ => isSome_bind_pure
  | .dyn bounds => by
      rw [tyShape?, Option.isSome_map, boundShapes?_isSome bounds, tyDefinitions]

theorem tyShapes?_isSome : ∀ ts : List Ty, (tyShapes? tree ts).isSome ↔
    ∀ id ∈ tysDefinitions ts, (definitionShape? tree id).isSome
  | [] => by simp [tyShapes?, tysDefinitions]
  | t :: ts => by
      rw [tyShapes?, tysDefinitions, List.forall_mem_append, ← tyShape?_isSome t,
        ← tyShapes?_isSome ts]
      exact isSome_bind_iff fun _ => isSome_bind_pure

theorem receiverShapes?_isSome : ∀ receiver : Option Ty, (receiverShapes? tree receiver).isSome ↔
    ∀ id ∈ receiverDefinitions receiver, (definitionShape? tree id).isSome
  | none => by simp [receiverShapes?, receiverDefinitions]
  | some t => by
      rw [receiverShapes?, Option.isSome_map, tyShape?_isSome t, receiverDefinitions]

theorem boundShapes?_isSome : ∀ bounds : List DynBound, (boundShapes? tree bounds).isSome ↔
    ∀ id ∈ boundsDefinitions bounds, (definitionShape? tree id).isSome
  | [] => by simp [boundShapes?, boundsDefinitions]
  | .mk id _ args :: rest => by
      rw [boundShapes?, boundsDefinitions, List.cons_append, List.forall_mem_cons,
        List.forall_mem_append, ← tyShapes?_isSome args, ← boundShapes?_isSome rest]
      exact isSome_bind_iff fun _ => isSome_bind_iff fun _ => isSome_bind_pure

end

/-- The names are encoded, and so are the declared items. -/
def Encodes (tree : ItemTree) (names : List String) (ids : List DefId) : Prop :=
  (∀ name ∈ names, (SymbolName.of? name).isSome) ∧ ∀ id ∈ ids, (definitionShape? tree id).isSome

theorem encodes_append {names names' : List String} {ids ids' : List DefId} :
    Encodes tree (names ++ names') (ids ++ ids') ↔
      Encodes tree names ids ∧ Encodes tree names' ids' := by
  simp only [Encodes, List.forall_mem_append]
  exact and_and_and_comm

theorem encodes_cons {name : String} {names : List String} {ids : List DefId} :
    Encodes tree (name :: names) ids ↔ (SymbolName.of? name).isSome ∧ Encodes tree names ids := by
  rw [Encodes, List.forall_mem_cons, and_assoc, Encodes]

theorem encodes_definitions {names : List String} {ids ids' : List DefId} :
    Encodes tree names (ids ++ ids') ↔
      (∀ id ∈ ids, (definitionShape? tree id).isSome) ∧ Encodes tree names ids' := by
  rw [Encodes, List.forall_mem_append, and_left_comm, Encodes]

mutual

/-- A path has a shape if its names have an ASCII form and its types name declarations that
have a shape. -/
theorem pathShape?_isSome : ∀ p : CanonicalPath,
    (pathShape? tree p).isSome ↔ Encodes tree p.names (pathDefinitions p)
  | .mk crate dis segments => by
      rw [pathShape?, isSome_bind_iff (segmentsShape?_isSome segments), rootShape?_isSome]
      exact encodes_cons.symm

theorem segmentsShape?_isSome : ∀ (segments : List CanonicalSegment) (parent : PathShape),
    (segmentsShape? tree parent segments).isSome ↔
      Encodes tree (segmentsNames segments) (segmentsDefinitions segments)
  | [], parent => by simp [segmentsShape?, segmentsNames, segmentsDefinitions, Encodes]
  | segment :: rest, parent => by
      rw [segmentsShape?, isSome_bind_iff (segmentsShape?_isSome rest),
        segmentShape?_isSome segment parent, segmentsNames, segmentsDefinitions, encodes_append]

theorem segmentShape?_isSome : ∀ (segment : CanonicalSegment) (parent : PathShape),
    (segmentShape? tree parent segment).isSome ↔
      Encodes tree (segmentNames segment) (segmentDefinitions segment)
  | .named name ns dis args, parent => by
      rw [segmentShape?, isSome_bind_iff fun _ => namedShape?_isSome, tyShapes?_isSome args,
        segmentNames, segmentDefinitions, encodes_cons, and_comm]
      simp [Encodes]
  | .traitImpl self trait dis _, parent => by
      rw [segmentShape?, isSome_bind_iff fun _ => isSome_bind_pure, tyShape?_isSome self,
        pathShape?_isSome trait]
      exact encodes_definitions.symm

end

/-! ## Declared items -/

/-- A declaration has a shape if it is declared and the names of its canonical path have an
ASCII form. -/
theorem definitionShape?_isSome {id : DefId} : (definitionShape? tree id).isSome ↔
    ∃ path, tree.canonicalPath? id = some path ∧
      ∀ name ∈ path.names, (SymbolName.of? name).isSome := by
  unfold definitionShape? ItemTree.canonicalPath?
  cases tree.item? id with
  | none => simp
  | some item =>
      simp only [Option.bind_eq_bind, Option.bind_some, Option.map_some, Option.some.injEq,
        exists_eq_left', CanonicalPath.names_foldl_join, List.forall_mem_cons]
      exact (isSome_bind_iff (namesShape?_isSome _)).trans (and_congr_left' rootShape?_isSome)

/-- A path has no symbol exactly if one of the names is refused or a definition is unknown. -/
theorem pathShape?_eq_none_iff {path : CanonicalPath} : pathShape? tree path = none ↔
    (∃ name ∈ encodedNames tree path, Refused name) ∨
      ∃ id ∈ pathDefinitions path, tree.canonicalPath? id = none := by
  have named (name : String) : (SymbolName.of? name).isSome ↔ ¬Refused name := by
    rw [← of?_eq_none_iff, Option.isSome_iff_ne_none]
  rw [← Option.not_isSome_iff_eq_none, pathShape?_isSome, Encodes, encodedNames]
  simp only [definitionShape?_isSome, named, List.mem_append, List.mem_flatMap,
    List.mem_filterMap]
  constructor
  · intro failed
    by_contra fine
    push Not at fine
    refine failed ⟨fun name mem => fine.1 name (.inl mem), fun id mem => ?_⟩
    obtain ⟨path', found⟩ := Option.ne_none_iff_exists'.1 (fine.2 id mem)
    exact ⟨path', found, fun name own => fine.1 name (.inr ⟨path', ⟨id, mem, found⟩, own⟩)⟩
  · rintro (⟨name, mem | ⟨path', ⟨id, mem, found⟩, own⟩, refused⟩ | ⟨id, mem, unknown⟩)
      ⟨names, ids⟩
    · exact names name mem refused
    · obtain ⟨_, same, fine⟩ := ids id mem
      cases found.symm.trans same
      exact fine name own refused
    · obtain ⟨_, found, -⟩ := ids id mem
      cases found.symm.trans unknown

theorem symbol_eq_error_iff {path : CanonicalPath} :
    (∃ e, symbol tree path = .error e) ↔ pathShape? tree path = none := by
  rw [← Option.map_eq_none_iff (f := fun shape => String.ofList ("_R".toList ++ shape.write)),
    ← symbol_eq]
  cases symbol tree path <;> simp [Except.toOption]

end

end Structural

namespace SymbolScheme

open Structural (encodedNames pathDefinitions Refused)

theorem v0_symbol_of_not_hasError {tree : ItemTree} {ty : Ty} (sound : ty.hasError = false)
    (path : CanonicalPath) : v0.symbol tree ty path = Structural.symbol tree path := by
  simp [symbol, sound]

/-- A structural symbol is `_R` with letters, digits and underscores of ASCII behind it. An item
whose type has no errors lacks one exactly if a name that would be encoded is refused, or a
struct, enum or bound that would be encoded is not declared. -/
theorem v0_symbol_alphabet (tree : ItemTree) (ty : Ty) (path : CanonicalPath) :
    (∀ x, v0.symbol tree ty path = .ok x →
      "_R".toList <+: x.toList ∧ ∀ c ∈ x.toList, c.isAlphanum = true ∨ c = '_') ∧
    (ty.hasError = false → ((∃ e, v0.symbol tree ty path = .error e) ↔
      (∃ name ∈ encodedNames tree path, Refused name) ∨
        ∃ id ∈ pathDefinitions path, tree.canonicalPath? id = none)) := by
  constructor
  · intro x made
    rw [v0_symbol_of_not_hasError (hasError_of_symbol made)] at made
    obtain ⟨shape, -, rfl⟩ := Structural.symbol_eq_ok_iff.1 made
    have text : (String.ofList ("_R".toList ++ shape.write)).toList =
      "_R".toList ++ shape.write := String.toList_ofList
    rw [text]
    refine ⟨List.prefix_append _ _, fun c mem => ?_⟩
    rcases List.mem_append.1 mem with mark | written
    · exact Structural.isIdentifierChar_iff.1 (List.all_eq_true.1 (by decide) c mark)
    · exact Structural.isIdentifierChar_iff.1 (shape.inAlphabet_write c written)
  · intro sound
    rw [v0_symbol_of_not_hasError sound, Structural.symbol_eq_error_iff,
      Structural.pathShape?_eq_none_iff]

/-- A function over a struct has a symbol, but for the function over a struct in a module whose
name holds a blank, and the one over a struct that is not declared. -/
theorem v0_symbol_alphabet_structs :
    let tree := ((ItemTree.empty "main").addAdt .struct "a::S" []).addAdt .struct "b c::S" []
    let f (id : DefId) : CanonicalPath :=
      ((CanonicalPath.crateRoot "main").join "f" .value).withArgs [.adt id "S" []]
    (∃ x, v0.symbol tree .never (f ⟨0⟩) = .ok x ∧
      "_R".toList <+: x.toList ∧ ∀ c ∈ x.toList, c.isAlphanum = true ∨ c = '_') ∧
    (∃ e, v0.symbol tree .never (f ⟨1⟩) = .error e) ∧
      ∃ e, v0.symbol tree .never (f ⟨2⟩) = .error e := by
  intro tree f
  have made : v0.symbol tree .never (f ⟨0⟩) = .ok "_RINvC4main1fNtNtC4main1a1SE" := by
    decide +kernel
  have blank : "b c" ∈ encodedNames tree (f ⟨1⟩) := by decide +kernel
  have unknown : tree.canonicalPath? ⟨2⟩ = none := by rfl
  exact ⟨⟨_, made, (v0_symbol_alphabet tree .never (f ⟨0⟩)).1 _ made⟩,
    ((v0_symbol_alphabet tree .never (f ⟨1⟩)).2 rfl).2
      (.inl ⟨"b c", blank, .unfit (c := ' ') (by decide) (by decide)⟩),
    ((v0_symbol_alphabet tree .never (f ⟨2⟩)).2 rfl).2
      (.inr ⟨⟨2⟩, by decide, unknown⟩)⟩

end SymbolScheme

end TraitEngine
