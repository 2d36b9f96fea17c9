/-!
# Ids and tables

Declarations, nodes, implementations and source files are numbered from zero in 32
bits. The largest number stands for an absent one, so nothing has it for an index.
What is recorded of them stands in tables: finite maps that list their entries in
the order in which the keys first came.
-/

namespace TraitEngine

set_option autoImplicit false

/-- The number that no id has. -/
def reservedIndex : Nat := 0xffffffff

/-- The id with a given index, `none` from the reserved one on. -/
def ofIndex? {α : Type} (id : Nat → α) (index : Nat) : Option α :=
  if index < reservedIndex then some (id index) else none

/-- A declared trait, struct or enum. -/
structure DefId where
  index : Nat
  deriving DecidableEq, Repr

/-- A declaration node that has a type of its own: a generic parameter, a trait
item, or the self type of an implementation. -/
structure NodeId where
  index : Nat
  deriving DecidableEq, Repr

structure ImplId where
  index : Nat
  deriving DecidableEq, Repr

structure FileId where
  index : Nat
  deriving DecidableEq, Repr

structure Table (κ α : Type) where
  entries : List (κ × α) := []

namespace Table

variable {κ α : Type} [DecidableEq κ]

def get? (t : Table κ α) (k : κ) : Option α :=
  (t.entries.find? fun e => e.1 = k).map Prod.snd

def contains (t : Table κ α) (k : κ) : Bool := (t.get? k).isSome

/-- A key that is there keeps its place. -/
def insert (t : Table κ α) (k : κ) (a : α) : Table κ α :=
  if t.contains k then ⟨t.entries.map fun e => if e.1 = k then (k, a) else e⟩
  else ⟨t.entries ++ [(k, a)]⟩

def erase (t : Table κ α) (k : κ) : Table κ α := ⟨t.entries.filter fun e => e.1 ≠ k⟩

def keys (t : Table κ α) : List κ := t.entries.map Prod.fst

def values (t : Table κ α) : List α := t.entries.map Prod.snd

def size (t : Table κ α) : Nat := t.entries.length

end Table

end TraitEngine
