import TraitEngine.Decl.Tree
/-!
# Declaring items

Declarations are given as clauses, in the order they are written. Every generic
parameter, trait item and implementation gets a node of its own from the tree's
supply, in that order; the parameters of a method come before the method. A
trait starts with its implicit receiver.
-/

namespace TraitEngine

set_option autoImplicit false

inductive FnClause where
  | self (self : SelfParam)
  | typeParam (name : String) (bounds : List TypePath)
  | param (name : String) (ty : TypeExpr)
  | ret (ty : TypeExpr)
  | body (body : Body)
  | span (span : Span)

inductive TraitClause where
  | span (span : Span)
  | lifetime (name : String)
  | typeParam (name : String) (bounds : List TypePath) (fallback : Option TypeExpr)
  | super (path : TypePath)
  | assocType (name : String) (bounds : List TypePath) (fallback : Option TypeExpr)
  | assocConst (name : String) (ty : TypeExpr) (body : Option Body)
  | method (name : String) (clauses : List FnClause)
  | itemSpan (span : Span)

inductive ImplClause where
  | forTrait (path : TypePath)
  | typeParam (name : String) (bounds : List TypePath)
  | assocType (name : String) (ty : TypeExpr)
  | assocConst (name : String)
  | method (name : String)
  | span (span : Span)

def typeParam (node : NodeId) (name : String) (bounds : List TypePath)
    (fallback : Option TypeExpr) (span : Span) : GenericParam :=
  .type { node, name, bounds := bounds.map .trait, fallback, span }

/-- A function under construction. -/
structure FnDraft where
  nextNode : Nat
  decl : FnDecl := {}
  span : Option Span := none

namespace FnDraft

def apply (d : FnDraft) : FnClause → FnDraft
  | .self self => { d with decl := { d.decl with self := some self } }
  | .typeParam name bounds =>
    let param := typeParam ⟨d.nextNode⟩ name bounds none (d.span.getD default)
    { d with
      nextNode := d.nextNode + 1
      decl := { d.decl with generics := d.decl.generics ++ [param] } }
  | .param name ty => { d with decl := { d.decl with params := d.decl.params ++ [⟨name, ty⟩] } }
  | .ret ty => { d with decl := { d.decl with ret := some ty } }
  | .body body => { d with decl := { d.decl with body := some body } }
  | .span span => { d with span := some span }

end FnDraft

/-- A trait under construction. -/
structure TraitDraft where
  nextNode : Nat
  decl : TraitDecl

namespace TraitDraft

def start (nextNode : Nat) (id : DefId) (name : String) : TraitDraft where
  nextNode := nextNode + 1
  decl := {
    id, name
    params := [typeParam ⟨nextNode⟩ receiverName [] none default]
    supers := [], items := [], span := default }

def pushParam (d : TraitDraft) (param : NodeId → GenericParam) : TraitDraft where
  nextNode := d.nextNode + 1
  decl := { d.decl with params := d.decl.params ++ [param ⟨d.nextNode⟩] }

/-- A new item lies at the span of its trait. -/
def pushItem (d : TraitDraft) (name : String) (kind : TraitItemKind) : TraitDraft where
  nextNode := d.nextNode + 1
  decl := { d.decl with
    items := d.decl.items ++ [{ node := ⟨d.nextNode⟩, name, kind, span := d.decl.span }] }

/-- Moves the newest item to another span. -/
def setItemSpan (d : TraitDraft) (span : Span) : TraitDraft :=
  { d with decl := { d.decl with
      items := d.decl.items.modify (d.decl.items.length - 1) ({ · with span }) } }

/-- Moves the trait, and its receiver with it. -/
def setSpan (d : TraitDraft) (span : Span) : TraitDraft :=
  let params := match d.decl.params with
    | .type receiver :: rest => .type { receiver with span } :: rest
    | params => params
  { d with decl := { d.decl with params, span } }

def apply (d : TraitDraft) : TraitClause → TraitDraft
  | .span span => d.setSpan span
  | .lifetime name => d.pushParam fun node => .lifetime node name d.decl.span
  | .typeParam name bounds fallback =>
    d.pushParam fun node => typeParam node name bounds fallback d.decl.span
  | .super path => { d with decl := { d.decl with supers := d.decl.supers ++ [.trait path] } }
  | .assocType name bounds fallback => d.pushItem name (.type (bounds.map .trait) fallback)
  | .assocConst name ty body => d.pushItem name (.const ty body)
  | .method name clauses =>
    let f := clauses.foldl FnDraft.apply { nextNode := d.nextNode }
    let d := { d with nextNode := f.nextNode }.pushItem name (.fn f.decl)
    match f.span with
    | some span => d.setItemSpan span
    | none => d
  | .itemSpan span => d.setItemSpan span

end TraitDraft

/-- An implementation under construction. -/
structure ImplDraft where
  nextNode : Nat
  block : ImplBlock

namespace ImplDraft

def start (nextNode : Nat) (id : ImplId) (self : TypeExpr) : ImplDraft where
  nextNode := nextNode + 1
  block := {
    id, self, params := [], trait := none, selfNode := ⟨nextNode⟩, items := [], span := default }

def pushItem (d : ImplDraft) (name : String) (kind : ImplItemKind) : ImplDraft :=
  { d with block := { d.block with
      items := d.block.items ++ [{ name, kind, span := d.block.span }] } }

def apply (d : ImplDraft) : ImplClause → ImplDraft
  | .forTrait path => { d with block := { d.block with trait := some path } }
  | .typeParam name bounds =>
    let param := typeParam ⟨d.nextNode⟩ name bounds none d.block.span
    { nextNode := d.nextNode + 1
      block := { d.block with params := d.block.params ++ [param] } }
  | .assocType name ty => d.pushItem name (.type ty)
  | .assocConst name => d.pushItem name .const
  | .method name => d.pushItem name .fn
  | .span span => { d with block := { d.block with span } }

end ImplDraft

namespace TraitDecl

/-- Gives fresh nodes to the parameters, in order. -/
def numberParams : Nat → List GenericParam → List GenericParam × Nat
  | next, [] => ([], next)
  | next, param :: rest =>
    let (rest, after) := numberParams (next + 1) rest
    (param.withNode ⟨next⟩ :: rest, after)

/-- Gives fresh nodes to each item, after the parameters of the method it is. -/
def numberItems : Nat → List TraitItem → List TraitItem × Nat
  | next, [] => ([], next)
  | next, item :: rest =>
    let (kind, own) := match item.kind with
      | .fn decl =>
        let (generics, own) := numberParams next decl.generics
        (TraitItemKind.fn { decl with generics }, own)
      | kind => (kind, next)
    let (rest, after) := numberItems (own + 1) rest
    ({ item with kind, node := ⟨own⟩ } :: rest, after)

end TraitDecl

namespace ItemTree

/-- The modules and the name that a path spells. -/
def splitName (path : String) : List String × String :=
  let names := pathNames path
  (names.dropLast, names.getLast?.getD "")

def addTrait (tree : ItemTree) (path : String) (clauses : List TraitClause) : ItemTree :=
  let (modules, name) := splitName path
  let draft := clauses.foldl TraitDraft.apply (.start tree.nextNode tree.nextId name)
  { tree with nextNode := draft.nextNode }.push ⟨modules, .trait draft.decl⟩

/-- Adds a trait that is already put together. It keeps its own name and gets
fresh nodes; whoever put it together is answerable for its receiver. -/
def insertTrait (tree : ItemTree) (path : String) (decl : TraitDecl) : ItemTree :=
  let (params, next) := TraitDecl.numberParams tree.nextNode decl.params
  let (items, next) := TraitDecl.numberItems next decl.items
  { tree with nextNode := next }.push
    ⟨(splitName path).1, .trait { decl with id := tree.nextId, params, items }⟩

def addAdt (tree : ItemTree) (kind : AdtKind) (path : String) (params : List String) : ItemTree :=
  let (modules, name) := splitName path
  let (params, next) := TraitDecl.numberParams tree.nextNode
    (params.map fun param => typeParam ⟨0⟩ param [] none default)
  { tree with nextNode := next }.push
    ⟨modules, .adt { id := tree.nextId, name, kind, params, span := default }⟩

/-- The id of the next implementation to be declared. -/
def nextImplId (tree : ItemTree) : ImplId := ⟨tree.impls.size⟩

def addImpl (tree : ItemTree) (self : TypeExpr) (clauses : List ImplClause) : ItemTree :=
  let draft := clauses.foldl ImplDraft.apply (.start tree.nextNode tree.nextImplId self)
  { tree with nextNode := draft.nextNode, impls := tree.impls.push draft.block }

end ItemTree

end TraitEngine
