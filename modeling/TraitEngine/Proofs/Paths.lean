import TraitEngine.Proofs.Store
import TraitEngine.Proofs.Symbol.Shape
import Mathlib.Data.List.Basic
/-!
# Paths and the items that they lead to

A path is divided at each `::` from the left, so a name may start with a colon, or be empty, but
what stands in front of a division never ends the next one: the names behind any of them are those
of the text behind it (`exists_pathNames`), and the names of a path put together again are the
path (`joinNames_pathNames`). Hence the canonical path of an item, read as a path, has the crate
for its first name and the item's own path behind it, provided that the crate's name holds no
colon (`pathNames_joinNames_cons`).

The first name is dropped where it is `crate` or the crate's own, and what is left is looked up.
So a canonical path leads back to its item if that is the latest with its path, and whatever a
path leads to has the last name of the path (`resolvePath_canonicalPath`).
-/

namespace TraitEngine

set_option autoImplicit false

/-! ## Dividing a text -/

theorem splitPath_ne_nil (cs : List Char) : splitPath cs ≠ [] := by
  fun_induction splitPath cs <;> simp

/-- Where no division is, the character belongs to the first piece. -/
theorem splitPath_cons {c : Char} {cs : List Char}
    (inside : ∀ rest, c = ':' → cs = ':' :: rest → False) :
    splitPath (c :: cs) = (splitPath cs).modifyHead (c :: ·) := by
  rw [splitPath]
  · cases pieces : splitPath cs with
    | nil => exact absurd pieces (splitPath_ne_nil cs)
    | cons piece pieces => rfl
  · exact inside

theorem intercalate_splitPath (cs : List Char) : "::".toList.intercalate (splitPath cs) = cs := by
  fun_induction splitPath cs with
  | case1 => rfl
  | case2 rest ih =>
      rw [List.intercalate_cons_of_ne_nil (splitPath_ne_nil rest), ih]
      rfl
  | case3 c rest inside none => exact absurd none (splitPath_ne_nil rest)
  | case4 c rest inside piece pieces split ih =>
      rw [List.intercalate_cons_cons_left, ← split, ih]

/-- A piece without colons ends at the first division. -/
theorem splitPath_append {front : List Char} (plain : ':' ∉ front) (rest : List Char) :
    splitPath (front ++ ':' :: ':' :: rest) = front :: splitPath rest := by
  induction front with
  | nil => rfl
  | cons c front ih =>
      rw [List.mem_cons, not_or] at plain
      obtain ⟨other, plain⟩ := plain
      rw [List.cons_append, splitPath_cons fun _ colon => absurd colon.symm other, ih plain]
      rfl

/-- The pieces behind a division are those of the text behind it. -/
theorem exists_splitPath {cs piece : List Char} {pieces : List (List Char)}
    (split : splitPath cs = piece :: pieces) (more : pieces ≠ []) :
    ∃ rest, splitPath rest = pieces := by
  fun_induction splitPath cs generalizing piece pieces with
  | case1 =>
      cases split
      exact absurd rfl more
  | case2 rest ih =>
      cases split
      exact ⟨rest, rfl⟩
  | case3 c rest inside none => exact absurd none (splitPath_ne_nil rest)
  | case4 c rest inside first pieces' divided ih =>
      cases split
      exact ih divided more

/-! ## Names -/

theorem pathNames_ne_nil (text : String) : pathNames text ≠ [] := by
  simpa [pathNames] using splitPath_ne_nil text.toList

theorem joinNames_pathNames (text : String) : joinNames (pathNames text) = text := by
  rw [← String.toList_inj, joinNames, String.toList_intercalate, pathNames, List.map_map]
  have same : String.toList ∘ String.ofList = id := funext fun _ => String.toList_ofList
  rw [same, List.map_id, intercalate_splitPath]

theorem exists_pathNames {text first : String} {names : List String}
    (split : pathNames text = first :: names) (more : names ≠ []) :
    ∃ rest, pathNames rest = names := by
  obtain ⟨piece, pieces, divided, -, rfl⟩ := List.map_eq_cons_iff.1 split
  obtain ⟨rest, behind⟩ := exists_splitPath divided (by simpa using more)
  exact ⟨String.ofList rest, by rw [pathNames, String.toList_ofList, behind]⟩

theorem pathNames_joinNames_cons {first : String} (plain : ':' ∉ first.toList)
    {names : List String} (more : names ≠ []) :
    pathNames (joinNames (first :: names)) = first :: pathNames (joinNames names) := by
  have text : (joinNames (first :: names)).toList =
      first.toList ++ ':' :: ':' :: (joinNames names).toList := by
    rw [joinNames, String.intercalate_cons_of_ne_nil more, String.toList_append,
      String.toList_append, List.append_assoc]
    rfl
  rw [pathNames, text, splitPath_append plain, List.map_cons, String.ofList_toList]
  rfl

theorem TypePath.names_ofText (text : String) : (ofText text).names = pathNames text := by
  simp [names, ofText, segments, PathSegment.name, Function.comp_def]

/-! ## Items and their paths -/

namespace ItemTree

variable {tree : ItemTree}

theorem splitName_append (path : String) :
    (splitName path).1 ++ [(splitName path).2] = pathNames path := by
  have last := List.getLast?_eq_some_getLast (pathNames_ne_nil path)
  simp only [splitName, last, Option.getD_some]
  exact List.dropLast_append_getLast? _ last

/-- The modules and the name of each item are what its path spells. -/
def Spelled (tree : ItemTree) : Prop :=
  ∀ id item, tree.item? id = some item → pathNames item.path = item.modules ++ [item.name]

theorem Spelled.declare (h : tree.Spelled) {declaration : Declaration}
    (built : declaration.IsBuilt) : (tree.declare declaration).Spelled := by
  have pushed {next : Nat} {path : String} {item : Item} (modules : item.modules = (splitName path).1)
      (name : item.name = (splitName path).2) :
      ({ tree with nextNode := next }.push item).Spelled := by
    intro id found there
    rw [item?_push] at there
    split at there
    · cases there
      rw [Item.path, modules, name, splitName_append, joinNames_pathNames]
    · exact h id found there
  cases declaration with
  | trait path clauses => exact pushed rfl (TraitDraft.foldl_apply_name clauses _)
  | wholeTrait path decl => exact built.elim
  | adt kind path params => exact pushed rfl rfl
  | impl self clauses => exact h

theorem spelled_declareAll (crate : String) {declarations : List Declaration}
    (built : ∀ declaration ∈ declarations, declaration.IsBuilt) :
    ((empty crate).declareAll declarations).Spelled := by
  have start : (empty crate).Spelled := fun id item found => by simp [item?, empty] at found
  exact declareAll_induction start fun _ h declaration mem => h.declare (built declaration mem)

theorem crate_declareAll (crate : String) (declarations : List Declaration) :
    ((empty crate).declareAll declarations).crate = crate :=
  declareAll_induction (motive := fun tree => tree.crate = crate) rfl fun _ own declaration _ => by
    cases declaration <;> exact own

/-- The canonical path of an item is its path behind the name of the crate. -/
theorem text_canonicalPath {id : DefId} {item : Item} (found : tree.item? id = some item) :
    ∃ path, tree.canonicalPath? id = some path ∧
      path.text = joinNames (tree.crate :: (item.modules ++ [item.name])) := by
  have texts (names : List String) :
      CanonicalPath.segmentTexts (names.map (.named · .type 0 [])) = names := by
    induction names with
    | nil => rfl
    | cons name names ih =>
        rw [List.map_cons, CanonicalPath.segmentTexts, CanonicalPath.segmentText, ih]
        simp [Ty.texts, Ty.bracketed]
  refine ⟨_, by rw [canonicalPath?, found, Option.map_some], ?_⟩
  rw [Structural.foldl_join, CanonicalPath.text]
  exact congrArg (fun names => joinNames (tree.crate :: names)) (texts _)

/-! ## Resolution -/

/-- Below a first name that is the crate, the path is looked up as it stands. -/
theorem relativeNames_crate (tree : ItemTree) {names : List String} (more : names ≠ []) :
    tree.relativeNames (tree.crate :: names) = names := by
  simp [relativeNames, more]

/-- What is looked up is the end of a path, and is a path. -/
theorem relativeNames_pathNames (tree : ItemTree) {text : String} (other : text ≠ "crate") :
    ∃ rest, tree.relativeNames (pathNames text) = pathNames rest ∧
      (pathNames rest).getLast? = (pathNames text).getLast? := by
  cases names : pathNames text with
  | nil => exact absurd names (pathNames_ne_nil text)
  | cons first names' =>
      have whole : ∃ rest, first :: names' = pathNames rest ∧
          (pathNames rest).getLast? = (first :: names').getLast? :=
        ⟨text, names.symm, by rw [names]⟩
      have below (more : names' ≠ []) : ∃ rest, names' = pathNames rest ∧
          (pathNames rest).getLast? = (first :: names').getLast? := by
        obtain ⟨rest, own⟩ := exists_pathNames names more
        exact ⟨rest, own.symm, by rw [own, List.getLast?_cons_of_ne_nil more]⟩
      rw [relativeNames]
      split
      · rename_i isCrate
        refine below fun alone => other ?_
        rw [← joinNames_pathNames text, names, alone, beq_iff_eq.1 isCrate]
        exact String.intercalate_singleton
      · split
        · rename_i own
          exact below (by simpa using (Bool.and_eq_true_iff.1 own).2)
        · exact whole

/-- Where a path leads: to the item with this path, or to the only one with its only name. -/
theorem resolveNames_eq_ok {names : List String} {id : DefId}
    (resolved : tree.resolveNames names = .ok id) :
    tree.lookupPath? (joinNames (tree.relativeNames names)) = some id ∨
      ∃ name, tree.relativeNames names = [name] ∧ id ∈ tree.lookupName name := by
  simp only [resolveNames] at resolved
  split at resolved
  · rename_i found
    cases resolved
    exact .inl found
  · split at resolved
    · rename_i name single
      split at resolved
      · cases resolved
      · rename_i only found
        cases resolved
        exact .inr ⟨name, single, by rw [found]; exact List.mem_singleton_self _⟩
      · cases resolved
    · cases resolved

/-- In a tree that is put together clause by clause, an item that is the latest with its path is
what its canonical path leads to; and an item that a path leads to has the last name of the path,
unless the path is `crate` alone. -/
theorem resolvePath_canonicalPath {crate : String} (plain : ':' ∉ crate.toList)
    {declarations : List Declaration}
    (built : ∀ declaration ∈ declarations, declaration.IsBuilt) :
    let tree := (empty crate).declareAll declarations
    (∀ id item, tree.item? id = some item → tree.LatestAt item.path id →
      ∃ path, tree.canonicalPath? id = some path ∧
        tree.resolvePath (.ofText path.text) = .ok id) ∧
    ∀ text id, text ≠ "crate" → tree.resolvePath (.ofText text) = .ok id →
      ∃ item, tree.item? id = some item ∧
        (TypePath.ofText text).last?.map PathSegment.name = some item.name := by
  intro tree
  have indexed : tree.Indexed := indexed_declareAll crate declarations
  have spelled : tree.Spelled := spelled_declareAll crate built
  have own : tree.crate = crate := crate_declareAll crate declarations
  constructor
  · intro id item found latest
    obtain ⟨path, canonical, text⟩ := text_canonicalPath found
    refine ⟨path, canonical, ?_⟩
    have names : (TypePath.ofText path.text).names = tree.crate :: pathNames item.path := by
      rw [TypePath.names_ofText, text, pathNames_joinNames_cons (own ▸ plain) (by simp), Item.path]
    -- Without its first segment the path is that of the item, and the index has its latest item.
    have looked : tree.lookupPath? (joinNames (pathNames item.path)) = some id := by
      rw [joinNames_pathNames]
      exact (indexed.paths item.path id).2 latest
    rw [resolvePath, names, resolveNames, relativeNames_crate tree (pathNames_ne_nil item.path)]
    simp only [looked]
  · intro text id other resolved
    rw [resolvePath, TypePath.names_ofText] at resolved
    obtain ⟨rest, relative, last⟩ := tree.relativeNames_pathNames other
    have final : (TypePath.ofText text).last?.map PathSegment.name = (pathNames text).getLast? := by
      rw [TypePath.last?, ← List.getLast?_map]
      exact congrArg _ (TypePath.names_ofText text)
    rw [final, ← last]
    rcases resolveNames_eq_ok resolved with found | ⟨name, single, found⟩
    · rw [relative, joinNames_pathNames] at found
      obtain ⟨⟨item, there, path⟩, -⟩ := (indexed.paths rest id).1 found
      refine ⟨item, there, ?_⟩
      rw [← path, spelled id item there, List.getLast?_concat]
    · obtain ⟨item, there, named⟩ := (indexed.names name id).1 found
      refine ⟨item, there, ?_⟩
      rw [← relative, single, named]
      rfl

/-- A module and a trait that are called as the crate is and as its keyword, and a stray colon. -/
theorem resolvePath_canonicalPath_misnamed :
    let declarations : List Declaration :=
      [.adt .struct "main::S" [], .trait "crate" [], .trait "a:::b" []]
    let tree := (empty "main").declareAll declarations
    (∃ path, tree.canonicalPath? ⟨0⟩ = some path ∧ path.text = "main::main::S" ∧
      tree.resolvePath (.ofText path.text) = .ok ⟨0⟩) ∧
    ∃ item, tree.item? ⟨2⟩ = some item ∧ tree.resolvePath (.ofText ":b") = .ok ⟨2⟩ ∧
      (TypePath.ofText ":b").last?.map PathSegment.name = some item.name := by
  intro declarations tree
  have built : ∀ declaration ∈ declarations, declaration.IsBuilt := by decide
  have plain : ':' ∉ "main".toList := by decide
  obtain ⟨back, last⟩ := resolvePath_canonicalPath plain built
  have latest : tree.LatestAt "main::S" ⟨0⟩ :=
    ((indexed_declareAll "main" declarations).paths _ _).1 (by decide +kernel)
  have bare : tree.resolvePath (.ofText ":b") = .ok ⟨2⟩ := by decide +kernel
  obtain ⟨path, canonical, resolved⟩ := back ⟨0⟩ _ rfl latest
  obtain ⟨item, found, named⟩ := last ":b" ⟨2⟩ (by decide) bare
  refine ⟨⟨path, canonical, ?_, resolved⟩, item, found, bare, named⟩
  cases canonical
  decide +kernel

end ItemTree

end TraitEngine
