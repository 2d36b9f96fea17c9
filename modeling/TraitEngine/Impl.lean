import TraitEngine.Resolve.Trait
import TraitEngine.Ty.Acceptance
/-!
# Implementations

The header of an implementation gives the type of its self node. A trait
implementation has to provide every required item of its trait and nothing that
the trait does not declare.

The traits that a type implements are found by comparing it with the recorded self
types. An implementation whose header is not lowered or whose trait does not
resolve is passed over.
-/

namespace TraitEngine

set_option autoImplicit false

namespace ItemTree

/-- Lowers the parameters and the self type, and records the self type. -/
def lowerImplHeader (tree : ItemTree) (block : ImplBlock) : Check Ty := do
  let scope ← tree.lowerGenerics block.params
  let self ← tree.lowerTy scope block.self
  modify (·.insertType block.selfNode self)
  return self

/-- The parameters of an implementation whose header is lowered. -/
def implScope (cx : Context) (block : ImplBlock) : Scope :=
  ⟨block.typeParams.filterMap fun p => (cx.types.get? p.node).bind Ty.param?⟩

/-- The required items that the block leaves out. -/
def missingItems (cx : Context) (block : ImplBlock) (p : Predicate) (t : TraitRef) :
    List String :=
  (t.items.filter fun item =>
    (block.item? item.name).isNone && (p.member? cx item.name).any Member.isRequired).map
      ItemRef.name

def reportMissing (cx : Context) (block : ImplBlock) (p : Predicate) (t : TraitRef) :
    Check Unit := do
  let missing := missingItems cx block p t
  unless missing.isEmpty do
    Check.report (.missingItems block.span t.name missing)

/-- Reports the items of the block that its trait does not declare. -/
def reportStrangers (cx : Context) (block : ImplBlock) (p : Predicate) (t : TraitRef) :
    Check Unit := do
  for item in block.items do
    unless p.containsItem cx item.name do
      Check.report (.notAMember item.span t.name item.name)

/-- Compares the items of the block with those of its trait. -/
def reviewImpl (block : ImplBlock) (p : Predicate) : Check Unit := do
  let cx ← get
  let some t := p.getChecked? cx | return
  reportMissing cx block p t
  reportStrangers cx block p t

def checkImpl (tree : ItemTree) (block : ImplBlock) : Check Unit := do
  let some path := block.trait | return
  let self ← match (← get).types.get? block.selfNode with
    | some self => pure self
    | none => tree.lowerImplHeader block
  let p ← tree.lowerBound (implScope (← get) block) false path
  reviewImpl block (p.bindReceiver self)

/-! ## Probing -/

def probeBlock (tree : ItemTree) (receiver : Ty) (block : ImplBlock) :
    Check (Option (TraitRef × ImplBlock)) := do
  let some path := block.trait | return none
  let some self := (← get).types.get? block.selfNode | return none
  if receiver.compatible self then
    let t ← tree.resolveTrait path
    return if t.isError then none else some (t, block)
  else return none

/-- The implemented traits with their implementations, in order. -/
def probe (tree : ItemTree) (receiver : Ty) : Check (List (TraitRef × ImplBlock)) := do
  return (← tree.impls.toList.mapM (tree.probeBlock receiver)).filterMap id

end ItemTree

end TraitEngine
