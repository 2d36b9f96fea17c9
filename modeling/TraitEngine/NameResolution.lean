import TraitEngine.Decl.Tree
import TraitEngine.Problem
/-!
# Name resolution

A path may start with `crate` or with the crate's own name; the rest is looked up
below the crate root. A bare name that is not declared there falls back to the
one item of that name, wherever it lies.
-/

namespace TraitEngine

set_option autoImplicit false

inductive NameError where
  | notFound
  | ambiguous (candidates : List DefId)
  deriving DecidableEq, Repr

namespace NameError

def message : NameError → String
  | .notFound => "path not found"
  | .ambiguous candidates =>
    let count := candidates.length
    s!"path is ambiguous between {count} items"

def toProblem (tree : ItemTree) (path : TypePath) : NameError → Problem
  | .notFound => .notFound path.span path.plain
  | .ambiguous candidates =>
    .ambiguous path.span path.plain
      ((candidates.filterMap tree.canonicalPath?).map CanonicalPath.text)

end NameError

namespace ItemTree

/-- The names below the crate root. A path that is the crate's name alone is
taken for a bare name. -/
def relativeNames (tree : ItemTree) : List String → List String
  | [] => []
  | first :: rest =>
    if first == "crate" then rest
    else if first == tree.crate && !rest.isEmpty then rest
    else first :: rest

def resolveNames (tree : ItemTree) (names : List String) : Except NameError DefId :=
  let names := tree.relativeNames names
  match tree.lookupPath? (joinNames names) with
  | some id => .ok id
  | none =>
    match names with
    | [name] =>
      match tree.lookupName name with
      | [] => .error .notFound
      | [id] => .ok id
      | ids => .error (.ambiguous ids)
    | _ => .error .notFound

def resolvePath (tree : ItemTree) (path : TypePath) : Except NameError DefId :=
  tree.resolveNames path.names

/-- Resolves a path that has to name a trait. -/
def resolveTraitPath (tree : ItemTree) (path : TypePath) : Except Problem DefId :=
  match tree.resolvePath path with
  | .error e => .error (e.toProblem tree path)
  | .ok id =>
    match tree.item? id with
    | some ⟨_, .trait _⟩ => .ok id
    | some ⟨_, .adt a⟩ => .error (.expectedTrait path.span path.plain a.kind.text)
    | none => .error (.notFound path.span path.plain)

end ItemTree

end TraitEngine
