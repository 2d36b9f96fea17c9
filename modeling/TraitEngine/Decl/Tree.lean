import TraitEngine.CanonicalPath
import TraitEngine.Decl.Basic
import TraitEngine.Index
/-!
# The declarations of a crate

`ItemTree` holds every declared item and implementation in order; the index of
an item is its id. Two indexes beside them find items by their own name, all of
them in order, and by their path, where the latest declaration wins.
-/

namespace TraitEngine

set_option autoImplicit false

structure ItemTree where
  crate : String
  items : Array Item := #[]
  impls : Array ImplBlock := #[]
  byName : Table String (List DefId) := {}
  byPath : Table String DefId := {}
  nextNode : Nat := 0

namespace ItemTree

def empty (crate : String) : ItemTree := { crate }

def item? (tree : ItemTree) (id : DefId) : Option Item := tree.items[id.index]?

def trait? (tree : ItemTree) (id : DefId) : Option TraitDecl :=
  (tree.item? id).bind fun item => item.decl.trait?

def adt? (tree : ItemTree) (id : DefId) : Option AdtDecl :=
  (tree.item? id).bind fun item => item.decl.adt?

def impl? (tree : ItemTree) (id : ImplId) : Option ImplBlock := tree.impls[id.index]?

/-- The id of the next item to be declared. -/
def nextId (tree : ItemTree) : DefId := ⟨tree.items.size⟩

def ids (tree : ItemTree) : List DefId := (List.range tree.items.size).map DefId.mk

def lookupName (tree : ItemTree) (name : String) : List DefId :=
  (tree.byName.get? name).getD []

def lookupPath? (tree : ItemTree) (path : String) : Option DefId := tree.byPath.get? path

/-- The trait's name, for messages. -/
def traitName (tree : ItemTree) (id : DefId) : String :=
  ((tree.trait? id).map TraitDecl.name).getD "<unknown>"

def canonicalPath? (tree : ItemTree) (id : DefId) : Option CanonicalPath :=
  (tree.item? id).map fun item =>
    (item.modules ++ [item.name]).foldl (·.join · .type) (.crateRoot tree.crate)

/-- Adds an item, and its id to both indexes. -/
def push (tree : ItemTree) (item : Item) : ItemTree :=
  { tree with
    items := tree.items.push item
    byName := tree.byName.insert item.name (tree.lookupName item.name ++ [tree.nextId])
    byPath := tree.byPath.insert item.path tree.nextId }

end ItemTree

end TraitEngine
