import TraitEngine.Context
import TraitEngine.NameResolution
/-!
# What a declaration names

The bounds that lowering a piece of syntax asks for, read off the syntax alone:
the bounds of trait objects and, inside the arguments of a bound or of a struct,
those of their arguments.

A trait is built in two stages. Early, at its super-traits, it asks for what its
parameter defaults and its super-trait bounds name; late, at its items, for what
its other bounds and its items name. A trait that gets cached on the way has its
default bodies checked there and then, so what they name is asked for at that
stage too. `ItemTree.Uses` is this relation between traits.
-/

namespace TraitEngine

set_option autoImplicit false

namespace TypeExpr

mutual

def mentions : TypeExpr → List TypePath
  | .path p => pathMentions false p
  | .ref _ t => mentions t
  | .ptr _ t => mentions t
  | .tuple ts => listMentions ts
  | .array t _ => mentions t
  | .slice t => mentions t
  | .traitObject bounds => dynMentions bounds
  | .never => []
  | .infer => []

def listMentions : List TypeExpr → List TypePath
  | [] => []
  | t :: ts => mentions t ++ listMentions ts

/-- What the arguments of a path mention; `bindings` says whether bindings count. -/
def pathMentions (bindings : Bool) : TypePath → List TypePath
  | .mk segments _ => lastMentions bindings segments

def dynMentions : List TypePath → List TypePath
  | [] => []
  | p :: rest => p :: (pathMentions true p ++ dynMentions rest)

def lastMentions (bindings : Bool) : List PathSegment → List TypePath
  | [] => []
  | [.mk _ args] => optionalMentions bindings args
  | _ :: s :: rest => lastMentions bindings (s :: rest)

def optionalMentions (bindings : Bool) : Option GenericArgs → List TypePath
  | none => []
  | some args => argsMentions bindings args

def argsMentions (bindings : Bool) : GenericArgs → List TypePath
  | .mk args bound _ => argMentions args ++ if bindings then bindingMentions bound else []

def argMentions : List GenericArg → List TypePath
  | [] => []
  | .lifetime _ :: rest => argMentions rest
  | .type t :: rest => mentions t ++ argMentions rest

def bindingMentions : List TypeBinding → List TypePath
  | [] => []
  | .mk _ t :: rest => mentions t ++ bindingMentions rest

end

end TypeExpr

/-- A bound and what its arguments mention. -/
def TypePath.mentions (path : TypePath) : List TypePath :=
  path :: TypeExpr.pathMentions true path

namespace TypeParam

/-- The bounds of a parameter that are traits, not lifetimes. -/
def boundPaths (p : TypeParam) : List TypePath := p.bounds.filterMap Bound.trait?

def mentions (p : TypeParam) : List TypePath := p.boundPaths.flatMap TypePath.mentions

def fallbackMentions (p : TypeParam) : List TypePath :=
  (p.fallback.map TypeExpr.mentions).getD []

end TypeParam

/-- What the bounds of generic parameters mention. -/
def genericMentions (generics : List GenericParam) : List TypePath :=
  (generics.filterMap GenericParam.type?).flatMap TypeParam.mentions

namespace FnDecl

def mentions (decl : FnDecl) : List TypePath :=
  genericMentions decl.generics ++ TypeExpr.listMentions (decl.params.map FnParam.ty) ++
    (decl.ret.map TypeExpr.mentions).getD []

end FnDecl

namespace TraitItemKind

def mentions : TraitItemKind → List TypePath
  | .type bounds fallback =>
    (bounds.filterMap Bound.trait?).flatMap TypePath.mentions ++
      (fallback.map TypeExpr.mentions).getD []
  | .const t _ => t.mentions
  | .fn decl => decl.mentions

end TraitItemKind

namespace BodyUse

def path : BodyUse → TypePath
  | .bound path => path
  | .item path _ => path

end BodyUse

namespace TraitItem

/-- What the default body of the item mentions. -/
def bodyMentions (item : TraitItem) : List TypePath :=
  ((item.kind.body?.map Body.uses).getD []).flatMap fun use => use.path.mentions

end TraitItem

namespace TraitDecl

/-- The super-trait bounds: those of the trait, then those on its receiver. -/
def superPaths (t : TraitDecl) : List TypePath :=
  (t.supers ++ (t.splitReceiver?.map fun split => split.1.bounds).getD []).filterMap Bound.trait?

/-- The type parameters other than the receiver. -/
def ownParams (t : TraitDecl) : List TypeParam :=
  match t.splitReceiver? with
  | some (receiver, _) => t.typeParams.filter fun p => p.node != receiver.node
  | none => t.typeParams

/-- What the trait mentions at a stage of its resolution. -/
def mentionsAt (t : TraitDecl) : ResolveStage → List TypePath
  | .supers =>
    t.typeParams.flatMap TypeParam.fallbackMentions ++ t.superPaths.flatMap TypePath.mentions
  | .items =>
    t.ownParams.flatMap TypeParam.mentions ++ t.items.flatMap fun item => item.kind.mentions

def bodyMentions (t : TraitDecl) : List TypePath := t.items.flatMap TraitItem.bodyMentions

/-- What is mentioned anywhere in the declaration. -/
def mentions (t : TraitDecl) : List TypePath :=
  t.mentionsAt .supers ++ (t.mentionsAt .items ++ t.bodyMentions)

end TraitDecl

namespace ItemTree

variable (tree : ItemTree)

/-- One of the paths names the trait. -/
def Names (paths : List TypePath) (id : DefId) : Prop :=
  ∃ path ∈ paths, tree.resolveTraitPath path = .ok id

/-- The paths name only traits with the property. -/
def NamesOnly (allowed : DefId → Prop) (paths : List TypePath) : Prop :=
  ∀ id, tree.Names paths id → allowed id

/-- The declaration of `a` names `b` somewhere. -/
def Mentions (a b : DefId) : Prop := ∃ decl, tree.trait? a = some decl ∧ tree.Names decl.mentions b

/-- The traits that the paths name. -/
def named (paths : List TypePath) : List DefId :=
  paths.filterMap fun path => (tree.resolveTraitPath path).toOption

/-- `path` is a super-trait bound of `a` that names `b`. -/
def SuperBound (a : DefId) (path : TypePath) (b : DefId) : Prop :=
  (∃ decl, tree.trait? a = some decl ∧ path ∈ decl.superPaths) ∧
    tree.resolveTraitPath path = .ok b

/-- `b` is a declared super-trait of `a`. -/
def DeclaresSuper (a b : DefId) : Prop := ∃ path, tree.SuperBound a path b

/-- Building `a` may ask for `b` at the given stage. -/
inductive Uses (stage : ResolveStage) : DefId → DefId → Prop where
  | named {a b : DefId} {decl : TraitDecl} (declared : tree.trait? a = some decl)
      (names : tree.Names (decl.mentionsAt stage) b) : Uses stage a b
  | body {a b c : DefId} {decl : TraitDecl} (asked : Uses stage a c)
      (declared : tree.trait? c = some decl) (names : tree.Names decl.bodyMentions b) :
      Uses stage a b

end ItemTree

/-! ## Parts of what is mentioned -/

namespace ItemTree

variable {tree : ItemTree}

/-- More paths name more traits. -/
theorem Names.mono {xs ys : List TypePath} {id : DefId} (h : tree.Names xs id)
    (sub : ∀ path ∈ xs, path ∈ ys) : tree.Names ys id := by
  obtain ⟨path, mem, named⟩ := h
  exact ⟨path, sub path mem, named⟩

namespace NamesOnly

variable {allowed : DefId → Prop} {xs ys : List TypePath}

theorem mono (h : tree.NamesOnly allowed ys) (sub : ∀ path ∈ xs, path ∈ ys) :
    tree.NamesOnly allowed xs :=
  fun id named => h id (named.mono sub)

theorem left (h : tree.NamesOnly allowed (xs ++ ys)) : tree.NamesOnly allowed xs :=
  h.mono fun _ => List.mem_append_left ys

theorem right (h : tree.NamesOnly allowed (xs ++ ys)) : tree.NamesOnly allowed ys :=
  h.mono fun _ => List.mem_append_right xs

theorem tail {path : TypePath} (h : tree.NamesOnly allowed (path :: xs)) :
    tree.NamesOnly allowed xs :=
  h.mono fun _ => List.mem_cons_of_mem path

theorem head {path : TypePath} (h : tree.NamesOnly allowed (path :: xs)) {id : DefId}
    (named : tree.resolveTraitPath path = .ok id) : allowed id :=
  h id ⟨path, List.mem_cons_self, named⟩

theorem flatMap {α : Type} {f : α → List TypePath} {as : List α}
    (h : tree.NamesOnly allowed (as.flatMap f)) {a : α} (mem : a ∈ as) :
    tree.NamesOnly allowed (f a) :=
  h.mono fun _ named => List.mem_flatMap.2 ⟨a, mem, named⟩

end NamesOnly

theorem names_iff {paths : List TypePath} {id : DefId} :
    tree.Names paths id ↔ id ∈ tree.named paths := by
  simp only [Names, named, List.mem_filterMap]
  refine exists_congr fun path => and_congr_right fun _ => ?_
  cases tree.resolveTraitPath path <;> simp [Except.toOption]

/-- The super-traits that a trait declares can be listed. -/
theorem declaresSuper_iff {a b : DefId} :
    tree.DeclaresSuper a b ↔
      ∃ decl, tree.trait? a = some decl ∧ b ∈ tree.named decl.superPaths := by
  simp only [← names_iff]
  constructor
  · rintro ⟨path, ⟨decl, declared, mem⟩, named⟩
    exact ⟨decl, declared, path, mem, named⟩
  · rintro ⟨decl, declared, path, mem, named⟩
    exact ⟨path, ⟨decl, declared, mem⟩, named⟩

/-- A path that resolves to a trait names a declared one. -/
theorem trait?_of_resolveTraitPath {path : TypePath} {id : DefId}
    (named : tree.resolveTraitPath path = .ok id) : ∃ decl, tree.trait? id = some decl := by
  unfold resolveTraitPath at named
  split at named
  · exact absurd named (by simp)
  · split at named
    · rename_i t found
      cases named
      exact ⟨t, by simp [trait?, found, Decl.trait?]⟩
    · exact absurd named (by simp)
    · exact absurd named (by simp)

end ItemTree

namespace TraitDecl

theorem length_of_split {t : TraitDecl} {receiver : TypeParam} {others : List TypeParam}
    (split : t.splitReceiver? = some (receiver, others)) :
    (receiver :: others).length = t.typeParams.length := by
  simp only [splitReceiver?, Option.map_eq_some_iff, Prod.mk.injEq] at split
  obtain ⟨p, found, rfl, rfl⟩ := split
  have mem := List.mem_of_find?_eq_some found
  have named := List.find?_some found
  have some : 0 < t.typeParams.length := List.length_pos_of_mem mem
  rw [List.length_cons, List.length_eraseP_of_mem mem named]
  omega

/-- Putting the receiver in front keeps the number of parameters. -/
theorem length_orderedParams (t : TraitDecl) : t.orderedParams.length = t.typeParams.length := by
  unfold orderedParams
  cases split : t.splitReceiver? with
  | none => rfl
  | some parts =>
      obtain ⟨receiver, others⟩ := parts
      exact length_of_split split

/-- The receiver and the other parameters are the type parameters, reordered. -/
theorem mem_typeParams_of_split {t : TraitDecl} {receiver : TypeParam} {others : List TypeParam}
    (split : t.splitReceiver? = some (receiver, others)) :
    ∀ p ∈ receiver :: others, p ∈ t.typeParams := by
  simp only [splitReceiver?, Option.map_eq_some_iff, Prod.mk.injEq] at split
  obtain ⟨p, found, rfl, rfl⟩ := split
  intro q mem
  rcases List.mem_cons.1 mem with rfl | mem
  · exact List.mem_of_find?_eq_some found
  · exact List.mem_of_mem_eraseP mem

end TraitDecl

end TraitEngine
