import TraitEngine.Proofs.Symbol.Escape
import TraitEngine.Proofs.Symbol.Members
import TraitEngine.Proofs.Symbol.Reader
/-!
# Symbols and receivers

Whether the symbols of one trait item for two structs or enums tell them apart
(`Session.traitItemSymbol_receivers`). The schemes differ in what they write for a receiver.

A structural symbol carries its canonical path (`Structural.tyShape?_item`). Two receivers
have one symbol exactly if the names of their paths are encoded alike; names in ASCII are
encoded as they are.

A legacy symbol carries the receiver's text, in the implementation segment and in the type
that the fingerprint is taken from, and the text of a struct or enum is its last name. So
namesakes in two modules have one symbol (`Legacy.symbol_congr`). Other names are told apart,
as the segment is read back up to the receiver (`Legacy.escape?_of_same_symbol`).
-/

namespace TraitEngine

set_option autoImplicit false

namespace Ty

/-! ## Texts of types for receivers -/

/-- What the replacements put in for a parameter is written alike. -/
def WrittenAlike (f g : Param → Option Ty) : Prop := ∀ p, (image f p).text = (image g p).text

section

variable {f g : Param → Option Ty}

mutual

theorem text_replace_congr (alike : WrittenAlike f g) :
    ∀ t : Ty, (t.replace f).text = (t.replace g).text
  | .param p => alike p
  | .tuple ts => by
      simp only [replace, text, texts_replaceList_congr alike ts, length_replaceList]
  | .adt _ _ ts => by simp only [replace, text, texts_replaceList_congr alike ts]
  | .pointer _ _ t | .array t _ | .slice t | .projection t .. => by
      simp only [replace, text, text_replace_congr alike t]
  | .fn _ r ps t _ => by
      simp only [replace, text, receiverTexts_replaceOption_congr alike r,
        texts_replaceList_congr alike ps, text_replace_congr alike t]
  | .dyn bs => by simp only [replace, text, boundTexts_replaceBounds_congr alike bs]
  | .prim _ | .never | .placeholder .. | .infer _ | .error => rfl

theorem texts_replaceList_congr (alike : WrittenAlike f g) : ∀ ts : List Ty,
    texts (replaceList f ts) = texts (replaceList g ts)
  | [] => rfl
  | t :: ts => by
      simp only [replaceList, texts, text_replace_congr alike t, texts_replaceList_congr alike ts]

theorem receiverTexts_replaceOption_congr (alike : WrittenAlike f g) : ∀ t : Option Ty,
    receiverTexts (replaceOption f t) = receiverTexts (replaceOption g t)
  | none => rfl
  | some t => by simp only [replaceOption, receiverTexts, text_replace_congr alike t]

theorem boundTexts_replaceBounds_congr (alike : WrittenAlike f g) : ∀ bs : List DynBound,
    boundTexts (replaceBounds f bs) = boundTexts (replaceBounds g bs)
  | [] => rfl
  | b :: bs => by
      simp only [replaceBounds, boundTexts, boundText_replaceBound_congr alike b,
        boundTexts_replaceBounds_congr alike bs]

theorem boundText_replaceBound_congr (alike : WrittenAlike f g) : ∀ b : DynBound,
    boundText (replaceBound f b) = boundText (replaceBound g b)
  | .mk _ _ ts => by simp only [replaceBound, boundText, texts_replaceList_congr alike ts]

end

end

theorem text_adt_nil (id : DefId) (name : String) : (Ty.adt id name []).text = name := by
  simp [text, texts, bracketed]

end Ty

namespace OfferedItem

variable (o : OfferedItem)

theorem text_typeFor_congr {receiver receiver' : Ty}
    (same : receiver.text = receiver'.text) :
    (o.typeFor receiver).text = (o.typeFor receiver').text := by
  unfold typeFor
  split
  · rfl
  · refine Ty.text_replace_congr (fun q => ?_) o.item.ty
    rw [Predicate.image_receiverArgs, Predicate.image_receiverArgs]
    split
    · exact same
    · rfl

/-- The three segments of the path, the crate's included. -/
theorem segmentTexts_pathFor (crate : String) (receiver : Ty) (name : String) :
    Legacy.segmentTexts (o.pathFor crate receiver name) =
      [crate, "<" ++ receiver.text ++ " as " ++ o.trait.text ++ ">", name] := rfl

end OfferedItem

/-! ## Legacy symbols -/

namespace Legacy

/-- The segment of an implementation from its escaped parts. -/
def implSegment (receiver rest : List Char) : List Char :=
  '_' :: ("$LT$".toList ++ (receiver ++ rest))

theorem escapeSegment?_impl {receiver rest out : List Char}
    (escaped : escapeSegment? ('<' :: (receiver ++ ' ' :: rest)) = some out) :
    ∃ front back, escape? receiver = some front ∧ escape? (' ' :: rest) = some back ∧
      implSegment front back = out := by
  rw [escapeSegment?, escape?_cons (by decide), escape?_append _ (by decide)] at escaped
  generalize escape? (' ' :: rest) = behind at escaped ⊢
  cases front : escape? receiver with
  | none =>
      rw [front] at escaped
      cases escaped
  | some front' =>
      rw [front] at escaped
      cases behind with
      | none => cases escaped
      | some back =>
          cases escaped
          exact ⟨front', back, rfl, rfl, rfl⟩

section

variable {o : OfferedItem} {crate name x y : String} {receiver receiver' : Ty}

/-- The symbol of an item for a receiver, up to the implementation segment and from there on. -/
theorem symbol_pathFor {ty : Ty} (made : symbol ty (o.pathFor crate receiver name) = .ok x) :
    ∃ root front back rest, encodeSegment crate = .ok root ∧
      escape? receiver.text.toList = some front ∧
      escape? (" as " ++ o.trait.text ++ ">").toList = some back ∧
      x.toList = "_ZN".toList ++ root ++
        (numeral 10 (implSegment front back).length ++ implSegment front back ++ rest) := by
  obtain ⟨segments, hash, encoded, -, rfl⟩ := symbol_eq_ok_iff.1 made
  rw [OfferedItem.segmentTexts_pathFor] at encoded
  obtain ⟨root, below, crateEncoded, belowEncoded, rfl⟩ := encodeSegments_cons.1 encoded
  obtain ⟨impl, last, implEncoded, -, rfl⟩ := encodeSegments_cons.1 belowEncoded
  obtain ⟨out, escaped, rfl⟩ := encodeSegment_eq_ok_iff.1 implEncoded
  have whole : ("<" ++ receiver.text ++ " as " ++ o.trait.text ++ ">").toList =
      '<' :: (receiver.text.toList ++ ' ' :: ("as " ++ o.trait.text ++ ">").toList) := by
    simp
  rw [whole] at escaped
  obtain ⟨front, back, own, behind, rfl⟩ := escapeSegment?_impl escaped
  refine ⟨root, front, back, last.flatten ++ hash ++ ['E'], crateEncoded, own, ?_, ?_⟩
  · rw [← behind]
    simp
  · simp

/-- Receivers with one text have one symbol. -/
theorem symbol_congr (same : receiver.text = receiver'.text) :
    symbol (o.typeFor receiver) (o.pathFor crate receiver name) =
      symbol (o.typeFor receiver') (o.pathFor crate receiver' name) := by
  simp only [symbol, OfferedItem.segmentTexts_pathFor, same, o.text_typeFor_congr same]

/-- One symbol for two receivers tells that their texts are escaped alike. -/
theorem escape?_of_same_symbol
    (made : symbol (o.typeFor receiver) (o.pathFor crate receiver name) = .ok x)
    (made' : symbol (o.typeFor receiver') (o.pathFor crate receiver' name) = .ok x) :
    ∃ out, escape? receiver.text.toList = some out ∧ escape? receiver'.text.toList = some out := by
  obtain ⟨root, front, back, rest, crateEncoded, own, behind, parts⟩ := symbol_pathFor made
  obtain ⟨root', front', back', rest', crateEncoded', own', behind', parts'⟩ := symbol_pathFor made'
  cases crateEncoded.symm.trans crateEncoded'
  cases behind.symm.trans behind'
  have segment := congrArg readSegment (List.append_cancel_left (parts.symm.trans parts'))
  rw [implSegment, implSegment, readSegment_append rfl, readSegment_append rfl] at segment
  have fronts := (List.cons.inj (Prod.mk.inj segment).1).2
  obtain rfl : front = front' := List.append_cancel_right (List.append_cancel_left fronts)
  exact ⟨front, own, own'⟩

theorem symbol_eq_iff (made : symbol (o.typeFor receiver) (o.pathFor crate receiver name) = .ok x)
    (made' : symbol (o.typeFor receiver') (o.pathFor crate receiver' name) = .ok y) :
    (receiver.text = receiver'.text → x = y) ∧
      (x = y → escape? receiver.text.toList = escape? receiver'.text.toList) ∧
      (Plain receiver.text.toList → Plain receiver'.text.toList →
        (x = y ↔ receiver.text = receiver'.text)) := by
  have alike (same : receiver.text = receiver'.text) : x = y := by
    rw [symbol_congr same] at made
    exact Except.ok.inj (made.symm.trans made')
  refine ⟨alike, fun same => ?_, fun plain plain' => ⟨fun same => ?_, alike⟩⟩
  · subst same
    obtain ⟨out, own, own'⟩ := escape?_of_same_symbol made made'
    rw [own, own']
  · subst same
    obtain ⟨out, own, own'⟩ := escape?_of_same_symbol made made'
    exact String.toList_inj.1 (escape?_injective plain plain' own own')

end

end Legacy

/-! ## Structural symbols -/

namespace Item

/-- The names on the way from the crate to the item, its own last. -/
def names (item : Item) : List String := item.modules ++ [item.name]

end Item

namespace ItemTree

variable {tree : ItemTree} {i j : DefId} {a b : Item}

theorem canonicalPath?_eq_iff (first : tree.item? i = some a) (second : tree.item? j = some b) :
    tree.canonicalPath? i = tree.canonicalPath? j ↔ a.names = b.names := by
  have named : Function.Injective (CanonicalSegment.named · .type 0 []) := fun m n same => by
    cases same
    rfl
  simp only [canonicalPath?, first, second, Option.map_some, Structural.foldl_join,
    Option.some.injEq, CanonicalPath.mk.injEq, true_and, List.append_cancel_left_eq]
  exact named.list_map.eq_iff

end ItemTree

namespace Structural

namespace PathShape

/-- The shape of a path that goes on from this one by names. -/
def extend (parent : PathShape) (names : List SymbolName) : PathShape :=
  names.foldl (.named · .type 0 · []) parent

/-- The names at the end of a path, as far up as there are only names. -/
def spine : PathShape → List SymbolName
  | .named parent _ _ name _ => parent.spine ++ [name]
  | _ => []

theorem extend_cons (parent : PathShape) (name : SymbolName) (names : List SymbolName) :
    parent.extend (name :: names) = (PathShape.named parent .type 0 name []).extend names := rfl

theorem spine_extend (names : List SymbolName) (parent : PathShape) :
    (parent.extend names).spine = parent.spine ++ names := by
  induction names generalizing parent with
  | nil => exact (List.append_nil _).symm
  | cons name names ih =>
      rw [extend_cons, ih, spine, List.append_assoc, List.singleton_append]

theorem withArgs_extend (names : List SymbolName) {parent : PathShape}
    (bare : parent.withArgs [] = parent) :
    (parent.extend names).withArgs [] = parent.extend names := by
  induction names generalizing parent with
  | nil => exact bare
  | cons name names ih =>
      rw [extend_cons]
      exact ih rfl

end PathShape

theorem foldlM_namedShape?_eq_some_iff (names : List String) {parent shape : PathShape} :
    names.foldlM (namedShape? .type · 0 · []) parent = some shape ↔
      ∃ encoded, names.map SymbolName.of? = encoded.map some ∧ parent.extend encoded = shape := by
  induction names generalizing parent with
  | nil =>
      simp only [List.foldlM_nil, List.map_nil, Option.pure_def, Option.some.injEq]
      exact ⟨fun same => ⟨[], rfl, same⟩,
        fun ⟨_, empty, same⟩ => by rwa [List.map_eq_nil_iff.1 empty.symm] at same⟩
  | cons name names ih =>
      simp only [List.foldlM_cons, namedShape?, List.map_cons]
      cases own : SymbolName.of? name with
      | none =>
          refine ⟨nofun, fun ⟨encoded, names, _⟩ => ?_⟩
          cases encoded <;> cases names
      | some first =>
          refine ih.trans ⟨fun ⟨rest, names, same⟩ => ⟨first :: rest, ?_, same⟩, ?_⟩
          · rw [names, List.map_cons]
          · rintro ⟨encoded, names, same⟩
            cases encoded with
            | nil => cases names
            | cons second rest =>
                obtain ⟨own, others⟩ := List.cons.inj names
                cases own
                exact ⟨rest, others, same⟩

section

variable {tree : ItemTree} {i j : DefId} {a b : Item}

/-- A declared item without arguments, as a receiver, shows the names of its path. -/
theorem tyShape?_item (found : tree.item? i = some a) {shape : TyShape} :
    tyShape? tree (.adt i a.name []) = some shape ↔
      ∃ root encoded, rootShape? tree.crate 0 = some root ∧
        a.names.map SymbolName.of? = encoded.map some ∧ .path (root.extend encoded) = shape := by
  simp only [tyShape?, tyShapes?, definitionShape?, found, Option.bind_eq_bind, Option.bind_some,
    Option.bind_assoc, Option.pure_def, Option.bind_eq_some_iff, foldlM_namedShape?_eq_some_iff]
  have bare {root : PathShape} (crate : rootShape? tree.crate 0 = some root)
      (encoded : List SymbolName) : (root.extend encoded).withArgs [] = root.extend encoded := by
    obtain ⟨_, _, rfl⟩ := Option.map_eq_some_iff.1 crate
    exact PathShape.withArgs_extend encoded rfl
  constructor
  · rintro ⟨root, crate, _, ⟨encoded, names, rfl⟩, same⟩
    rw [bare crate] at same
    exact ⟨root, encoded, crate, names, Option.some.inj same⟩
  · rintro ⟨root, encoded, crate, names, rfl⟩
    exact ⟨root, crate, _, ⟨encoded, names, rfl⟩, by rw [bare crate]⟩

/-- Two declared items show the same exactly if their names are encoded alike. -/
theorem tyShape?_item_eq_iff (first : tree.item? i = some a) (second : tree.item? j = some b)
    {shape shape' : TyShape} (shown : tyShape? tree (.adt i a.name []) = some shape)
    (shown' : tyShape? tree (.adt j b.name []) = some shape') :
    shape = shape' ↔ a.names.map SymbolName.of? = b.names.map SymbolName.of? := by
  obtain ⟨root, encoded, crate, names, rfl⟩ := (tyShape?_item first).1 shown
  obtain ⟨root', encoded', crate', names', rfl⟩ := (tyShape?_item second).1 shown'
  obtain rfl : root = root' := Option.some.inj (crate.symm.trans crate')
  rw [names, names', List.map_inj_right fun _ _ => Option.some.inj]
  refine ⟨fun same => ?_, fun same => same ▸ rfl⟩
  have spine := congrArg PathShape.spine (TyShape.path.inj same)
  rwa [PathShape.spine_extend, PathShape.spine_extend, List.append_cancel_left_eq] at spine

/-- Names in ASCII are encoded as they are. -/
theorem chars_of_basic {names : List String} {encoded : List SymbolName}
    (known : names.map SymbolName.of? = encoded.map some)
    (basic : ∀ name ∈ names, name.toList.all Bootstring.isBasic = true) :
    names.map String.toList = encoded.map SymbolName.chars := by
  induction names generalizing encoded with
  | nil => rw [List.map_eq_nil_iff.1 known.symm]; rfl
  | cons name names ih =>
      cases encoded with
      | nil => cases known
      | cons first rest =>
          obtain ⟨own, others⟩ := List.cons.inj known
          obtain ⟨ascii, basic⟩ := List.forall_mem_cons.1 basic
          simp only [SymbolName.of?, asciiName?, ascii, if_true, Option.bind_some,
            Option.dite_none_right_eq_some, Option.some.injEq] at own
          obtain ⟨valid, rfl⟩ := own
          rw [List.map_cons, List.map_cons, ih others basic]

theorem encoded_alike_iff_of_basic {names names' : List String} {encoded : List SymbolName}
    (known : names.map SymbolName.of? = encoded.map some)
    (basic : ∀ name ∈ names ++ names', name.toList.all Bootstring.isBasic = true) :
    names.map SymbolName.of? = names'.map SymbolName.of? ↔ names = names' := by
  obtain ⟨front, back⟩ := List.forall_mem_append.1 basic
  refine ⟨fun same => ?_, fun same => same ▸ rfl⟩
  have chars := (chars_of_basic known front).trans (chars_of_basic (same ▸ known) back).symm
  exact (List.map_inj_right fun _ _ => String.toList_inj.1).1 chars

variable {o : OfferedItem} {crate name x y : String} {receiver receiver' : Ty}

theorem pathShape?_pathFor {shape : PathShape} :
    pathShape? tree (o.pathFor crate receiver name) = some shape ↔
      ∃ root self trait last, rootShape? crate 0 = some root ∧
        tyShape? tree receiver = some self ∧ pathShape? tree o.trait = some trait ∧
        SymbolName.of? name = some last ∧
        .named (.traitImpl root 0 self trait) .value 0 last [] = shape := by
  simp only [OfferedItem.pathFor, CanonicalPath.joinTraitImpl, CanonicalPath.join,
    CanonicalPath.push, CanonicalPath.crateRoot, CanonicalPath.segments, CanonicalPath.crate,
    CanonicalPath.disambiguator, List.nil_append, List.cons_append, pathShape?, segmentsShape?,
    segmentShape?, tyShapes?, namedShape?]
  cases rootShape? crate 0 <;> cases tyShape? tree receiver <;> cases pathShape? tree o.trait <;>
    cases SymbolName.of? name <;> simp

/-- The symbols of an item for two receivers are one exactly if these show the same. -/
theorem same_symbol_pathFor_iff (made : symbol tree (o.pathFor crate receiver name) = .ok x)
    (made' : symbol tree (o.pathFor crate receiver' name) = .ok y) : ∃ shape shape',
      tyShape? tree receiver = some shape ∧ tyShape? tree receiver' = some shape' ∧
      (x = y ↔ shape = shape') := by
  obtain ⟨whole, known, written⟩ := symbol_eq_ok_iff.1 made
  obtain ⟨whole', known', written'⟩ := symbol_eq_ok_iff.1 made'
  obtain ⟨root, self, trait, last, crate, shown, path, own, rfl⟩ := pathShape?_pathFor.1 known
  obtain ⟨root', self', trait', last', crate', shown', path', own', rfl⟩ :=
    pathShape?_pathFor.1 known'
  cases crate.symm.trans crate'
  cases path.symm.trans path'
  cases own.symm.trans own'
  refine ⟨self, self', shown, shown', fun same => ?_, fun same => ?_⟩
  · have read := read?_symbol made
    rw [same, read?_symbol made', known', known] at read
    cases read
    rfl
  · rw [← written, ← written', same]

end

end Structural

/-! ## Two receivers -/

namespace Session

theorem symbol_eq_ok {s : Session} {ty : Ty} {path : CanonicalPath} {x : String}
    (made : s.symbol ty path = .ok x) :
    match s.config.scheme with
    | .legacy => Legacy.symbol ty path = .ok x
    | .v0 => Structural.symbol s.tree path = .ok x := by
  unfold Session.symbol SymbolScheme.symbol at made
  split at made
  · cases made
  · split <;> simp_all

/-- The symbols of a trait's item for two structs or enums. Scheme `v0` gives them one symbol
exactly if the names of their canonical paths are encoded alike, which for names in ASCII
are the same canonical paths. The legacy scheme gives them one symbol if they have the same
last name; and only then, if their names hold no dollar sign and no dot. -/
theorem traitItemSymbol_receivers {s s₁ s₂ s₃ : Session} {i j : DefId} {a b : Item}
    (declared : s.tree.item? i = some a) (declared' : s.tree.item? j = some b) {path : TypePath}
    {name x y : String}
    (first : s.traitItemSymbol (.adt i a.name []) path name = .ok (.ok x, s₁))
    (between : s₁.Later s₂)
    (second : s₂.traitItemSymbol (.adt j b.name []) path name = .ok (.ok y, s₃)) :
    match s.config.scheme with
    | .legacy =>
      (a.name = b.name → x = y) ∧
      (x = y → Legacy.escape? a.name.toList = Legacy.escape? b.name.toList) ∧
      (Legacy.Plain a.name.toList → Legacy.Plain b.name.toList → (x = y ↔ a.name = b.name))
    | .v0 =>
      (x = y ↔ a.names.map Structural.SymbolName.of? = b.names.map Structural.SymbolName.of?) ∧
      ((∀ n ∈ a.names ++ b.names, n.toList.all Bootstring.isBasic = true) →
        (x = y ↔ s.tree.canonicalPath? i = s.tree.canonicalPath? j)) := by
  obtain ⟨o, made, made'⟩ := traitItemSymbol_later first between second
  have own := symbol_eq_ok made
  have own' := symbol_eq_ok made'
  cases scheme : s.config.scheme with
  | legacy =>
      simp only [scheme] at own own'
      have told := Legacy.symbol_eq_iff own own'
      rwa [Ty.text_adt_nil, Ty.text_adt_nil] at told
  | v0 =>
      simp only [scheme] at own own'
      obtain ⟨shape, shape', shown, shown', told⟩ := Structural.same_symbol_pathFor_iff own own'
      rw [Structural.tyShape?_item_eq_iff declared declared' shown shown'] at told
      refine ⟨told, fun basic => ?_⟩
      obtain ⟨-, encoded, -, known, -⟩ := (Structural.tyShape?_item declared).1 shown
      rw [told, ItemTree.canonicalPath?_eq_iff declared declared']
      exact Structural.encoded_alike_iff_of_basic known basic

/-- A trait `T` with a method `f`, and two structs. -/
def twoStructs (scheme : SymbolScheme) (path path' : String) : Session where
  config := { scheme }
  tree := (ItemTree.empty "main").declareAll [.trait "T" [.method "f" [.self .ref]],
    .adt .struct path [], .adt .struct path' []]
  context := { limit := 128 }
  files := #[]

theorem symbol_of_observed {s : Session} {receiver : Ty} {path : TypePath} {name x : String}
    (observed : (s.traitItemSymbol receiver path name).toOption.map (·.1.toOption) =
      some (some x)) : ∃ s₁, s.traitItemSymbol receiver path name = .ok (.ok x, s₁) := by
  obtain ⟨⟨symbol, s₁⟩, ran, seen⟩ := ok_of_observed observed
  cases symbol <;> cases seen
  exact ⟨s₁, ran⟩

/-- What is observed of two symbols, one after the other. -/
theorem traitItemSymbol_of_observed {s : Session} {receiver receiver' : Ty}
    {path path' : TypePath} {name x y : String}
    (observed : (s.traitItemSymbol receiver path name).toOption.map (fun out => (out.1.toOption,
      (out.2.traitItemSymbol receiver' path' name).toOption.map (·.1.toOption))) =
        some (some x, some (some y))) :
    ∃ s₁ s₂, s.traitItemSymbol receiver path name = .ok (.ok x, s₁) ∧
      s₁.traitItemSymbol receiver' path' name = .ok (.ok y, s₂) := by
  obtain ⟨⟨symbol, s₁⟩, ran, seen⟩ := ok_of_observed observed
  obtain ⟨own, rest⟩ := Prod.mk.inj seen
  obtain ⟨s₂, ran'⟩ := symbol_of_observed rest
  cases symbol <;> cases own
  exact ⟨s₁, s₂, ran, ran'⟩

/-- Scheme `v0` tells namesakes in two modules apart. -/
theorem traitItemSymbol_receivers_namesakes :
    let s := twoStructs .v0 "a::S" "b::S"
    ∃ x y s₁ s₂, s.traitItemSymbol (.adt ⟨1⟩ "S" []) (.ofText "T") "f" = .ok (.ok x, s₁) ∧
      s₁.traitItemSymbol (.adt ⟨2⟩ "S" []) (.ofText "T") "f" = .ok (.ok y, s₂) ∧ x ≠ y := by
  intro s
  obtain ⟨a, declared, seen⟩ := Option.map_eq_some_iff.1
    (show (s.tree.item? ⟨1⟩).map (fun item => (item.names, item.name)) = some (["a", "S"], "S") by
      decide +kernel)
  obtain ⟨b, declared', seen'⟩ := Option.map_eq_some_iff.1
    (show (s.tree.item? ⟨2⟩).map (fun item => (item.names, item.name)) = some (["b", "S"], "S") by
      decide +kernel)
  obtain ⟨names, name⟩ := Prod.mk.inj seen
  obtain ⟨names', name'⟩ := Prod.mk.inj seen'
  obtain ⟨x, y, s₁, s₂, first, second⟩ : ∃ x y s₁ s₂,
      s.traitItemSymbol (.adt ⟨1⟩ "S" []) (.ofText "T") "f" = .ok (.ok x, s₁) ∧
      s₁.traitItemSymbol (.adt ⟨2⟩ "S" []) (.ofText "T") "f" = .ok (.ok y, s₂) :=
    ⟨"_RNvXC4mainNtNtC4main1a1SNtC4main1T1f", "_RNvXC4mainNtNtC4main1b1SNtC4main1T1f",
      traitItemSymbol_of_observed (by decide +kernel)⟩
  have ascii : ∀ n ∈ a.names ++ b.names, n.toList.all Bootstring.isBasic = true := by
    rw [names, names']
    decide +kernel
  obtain ⟨-, told⟩ :=
    traitItemSymbol_receivers declared declared' (name ▸ first) (.refl s₁) (name' ▸ second)
  refine ⟨x, y, s₁, s₂, first, second, ?_⟩
  rw [Ne, told ascii, ItemTree.canonicalPath?_eq_iff declared declared', names, names']
  decide

/-- The legacy scheme does not; and scheme `v0` writes a hyphen as an underscore, if the name is
not in ASCII. -/
theorem traitItemSymbol_shared :
    let s := twoStructs .legacy "a::S" "b::S"
    let t := twoStructs .v0 "a-é" "a_é"
    (s.tree.canonicalPath? ⟨1⟩ ≠ s.tree.canonicalPath? ⟨2⟩ ∧ ∃ x s₁ s₂,
      s.traitItemSymbol (.adt ⟨1⟩ "S" []) (.ofText "T") "f" = .ok (.ok x, s₁) ∧
      s₁.traitItemSymbol (.adt ⟨2⟩ "S" []) (.ofText "T") "f" = .ok (.ok x, s₂)) ∧
    t.tree.canonicalPath? ⟨1⟩ ≠ t.tree.canonicalPath? ⟨2⟩ ∧ ∃ x t₁ t₂,
      t.traitItemSymbol (.adt ⟨1⟩ "a-é" []) (.ofText "T") "f" = .ok (.ok x, t₁) ∧
      t₁.traitItemSymbol (.adt ⟨2⟩ "a_é" []) (.ofText "T") "f" = .ok (.ok x, t₂) := by
  intro s t
  have differ (u : Session) (names names' : List String) (other : names ≠ names')
      (first : (u.tree.item? ⟨1⟩).map Item.names = some names)
      (second : (u.tree.item? ⟨2⟩).map Item.names = some names') :
      u.tree.canonicalPath? ⟨1⟩ ≠ u.tree.canonicalPath? ⟨2⟩ := by
    obtain ⟨a, declared, rfl⟩ := Option.map_eq_some_iff.1 first
    obtain ⟨b, declared', rfl⟩ := Option.map_eq_some_iff.1 second
    exact fun same => other ((ItemTree.canonicalPath?_eq_iff declared declared').1 same)
  have modules := differ s ["a", "S"] ["b", "S"] (by decide) (by decide +kernel) (by decide +kernel)
  have hyphen := differ t ["a-é"] ["a_é"] (by decide) (by decide +kernel) (by decide +kernel)
  exact ⟨⟨modules, "_ZN4main29_$LT$S$u20$as$u20$main..T$GT$1f17h99fd27c1571970d6E",
      traitItemSymbol_of_observed (by decide +kernel)⟩,
    hyphen, "_RNvXC4mainNtC4mainu6a__cjaNtC4main1T1f",
      traitItemSymbol_of_observed (by decide +kernel)⟩

end Session

end TraitEngine
