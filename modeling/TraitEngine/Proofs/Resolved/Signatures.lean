import TraitEngine.Proofs.Resolved.Sessions
/-!
# Signatures of resolved functions

What the type of an item is depends on what the names in it resolve to. The outer form of a
function does not: it has a receiver if it is declared with one, made of the receiver of the trait,
and the type parameters that it is declared with (`ItemRef.HasSignature`). This is known of every
cached trait (`performAll_signatures`).
-/

namespace TraitEngine

set_option autoImplicit false

open Check

/-- A function has the receiver and the type parameters that it is declared with. -/
def ItemRef.HasSignature (self : Ty) (item : TraitItem) (i : ItemRef) : Prop :=
  ∀ decl, item.name ≠ "" → item.kind = .fn decl → ∃ params ret,
    i.ty = .fn item.name (decl.self.map (Lowering.receiverTy self)) params ret
      ((decl.generics.filterMap GenericParam.type?).map TypeParam.toParam)

/-- The item is what the declared one becomes, and as a function has its signature. -/
structure ItemRef.Renders (params : List TraitParam) (self : Ty) (item : TraitItem)
    (i : ItemRef) : Prop where
  resolves : i.Resolves params self item
  signature : i.HasSignature self item

/-! ## Lowering -/

namespace Lowering

variable {tree : ItemTree} {resolve : Resolver} {cx : Context}

theorem lowerSignature_shape (scope : Scope) (self : Ty) (name : String) (decl : FnDecl) :
    Ends AnyFault (lowerSignature tree resolve scope self name decl) cx fun ty _ =>
      ∃ params ret, ty = .fn name (decl.self.map (receiverTy self)) params ret
        ((decl.generics.filterMap GenericParam.type?).map TypeParam.toParam) := by
  simp only [lowerSignature, lowerGenerics, ends_bind, ends_pure]
  refine (ends_any _).mono fun _ _ _ => (ends_any _).mono fun _ _ _ => ?_
  refine (ends_any _).mono fun params _ _ => ?_
  cases decl.ret with
  | none => exact ⟨params, .unit, rfl⟩
  | some ret =>
      simp only [ends_bind]
      exact (ends_any _).mono fun ty _ _ => ⟨params, ty, rfl⟩

theorem lowerItem_signature (scope : Scope) (id : DefId) (self : Ty) {params : List TraitParam}
    (some : params ≠ []) (item : TraitItem) :
    Ends AnyFault (lowerItem tree resolve scope id self params item) cx fun i _ =>
      i.HasSignature self item := by
  rw [lowerItem]
  split
  · rename_i error
    have nameless : item.name = "" := by simpa [some] using error
    exact fun _ named => absurd nameless named
  · rw [ends_bind]
    cases kind : item.kind with
    | type bounds fallback | const t body =>
        refine (ends_any _).mono fun out _ _ => ?_
        simp only [ends_bind, ends_modify, ends_pure]
        intro decl _ other
        rw [kind] at other
        cases other
    | fn decl =>
        simp only [lowerItemKind, ends_bind, ends_pure]
        refine (lowerSignature_shape scope self item.name decl).mono fun ty _ shape => ?_
        rw [ends_modify]
        intro decl' _ same
        cases kind.symm.trans same
        exact shape

theorem buildTrait_renders {decl : TraitDecl} {receiver : TypeParam} {others : List TypeParam}
    (split : decl.splitReceiver? = some (receiver, others)) :
    Ends AnyFault (buildTrait tree resolve decl) cx fun t _ =>
      List.Forall₂ (ItemRef.Renders t.params (.param receiver.toParam))
        (TraitItem.firsts decl.items) t.items := by
  simp only [buildTrait, split, ends_bind, ends_modify, ends_pure]
  refine (buildSupers_resolves _ decl receiver _).mono fun out cx₁ params => ?_
  have some : out.1 ≠ [] := by
    intro none
    rw [none] at params
    cases params
  refine buildItems_firsts fun item cx => ?_
  exact ((lowerItem_resolves _ decl.id _ some item).and
    (lowerItem_signature _ decl.id _ some item)).mono fun i _ both => ⟨both.1, both.2⟩

end Lowering

/-! ## Every cached trait -/

namespace ItemTree

/-- The items of the trait are what its declared ones become. -/
def Renders (tree : ItemTree) (id : DefId) (t : TraitRef) : Prop :=
  ∃ decl receiver others, tree.trait? id = some decl ∧
    decl.splitReceiver? = some (receiver, others) ∧
    t.params.head?.map TraitParam.param = some receiver.toParam ∧
    List.Forall₂ (ItemRef.Renders t.params (.param receiver.toParam))
      (TraitItem.firsts decl.items) t.items

/-- The item of a name is what the declared item of that name becomes. -/
theorem Renders.item {tree : ItemTree} {id : DefId} {t : TraitRef} (renders : tree.Renders id t)
    {self : Param} (receiver : t.receiver? = some self) {name : String} {i : ItemRef}
    (found : t.item? name = some i) : ∃ decl item, tree.trait? id = some decl ∧
      decl.item? name = some item ∧ i.Renders t.params (.param self) item := by
  obtain ⟨decl, own, _, declared, -, first, each⟩ := renders
  cases receiver.symm.trans first
  have corresponds := TraitRef.item?_of_names (fun ⟨resolves, _⟩ => resolves.name) each name
  rw [found] at corresponds
  generalize asked : decl.item? name = item? at corresponds
  cases corresponds with
  | some made => exact ⟨decl, _, declared, asked, made⟩

theorem lasting_renders (tree : ItemTree) : tree.Lasting fun _ => tree.Renders where
  mono same _ := same
  built {_ _ decl receiver others _} ready declared split top :=
    ((Lowering.buildTrait_mirrors ready declared split top).and
      (Lowering.buildTrait_renders split)).mono fun t _ ended => by
        obtain ⟨mirrors, each⟩ := ended
        refine ⟨decl, receiver, others, declared, split, ?_, each⟩
        rw [← List.head?_map, TraitParam.Resolves.params mirrors.params]
        rfl

end ItemTree

namespace Session

/-- After any declarations and requests, the items of a cached trait are what its declared ones
become. -/
theorem performAll_renders {config : Config} {steps : List Step} {handed : List Problem}
    {s : Session} (ran : (ofConfig config).performAll steps = .ok (handed, s)) {id : DefId}
    {t : TraitRef} (found : s.context.trait? id = some t) : s.tree.Renders id t := by
  refine performAll_lasting ItemTree.lasting_renders ?_ steps [] (settled_ofConfig config)
    (fun _ mem => absurd mem List.not_mem_nil) ran _ (Table.mem_entries_of_get? found)
  rintro tree tree' - id t ⟨decl, receiver, others, declared, rest⟩ extends_
  exact ⟨decl, receiver, others, ItemTree.trait?_of_extends extends_ declared, rest⟩

end Session

end TraitEngine
