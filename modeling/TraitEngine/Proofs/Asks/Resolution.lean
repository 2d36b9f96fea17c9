import TraitEngine.Proofs.Asks.Lowering
import TraitEngine.Proofs.Resolution
/-!
# The course of a resolution

Parameters, items and default bodies make the requests that are listed for them, and so a
trait that is resolved anew goes through these stations (`Course`): it is put on the stack,
its defaults are lowered and its parameters become known, its super-traits and its items are
lowered, it is cached, and its default bodies are checked. The requests of the first stations
are made while the trait is on the stack, those of the bodies after it has left it.

The stack is in the end what it was (`resolveWithin_keepsStack`).
-/

namespace TraitEngine

set_option autoImplicit false

open Check

namespace Lowering

variable {tree : ItemTree} {resolve : Resolver} {cx : Context}

section

variable (keeps : resolve.KeepsStack)

include keeps

/-! ## Bounds and items -/

/-- Bounds ask one after the other, whether they fail or not. -/
theorem lowerBounds_asked (scope : Scope) (isSuper : Bool) (self : Ty) (paths : List TypePath) :
    Ends AnyFault (lowerBounds tree resolve scope isSuper self paths) cx fun _ cx' =>
      Asked resolve (tree.boundsAsks scope paths) cx cx' := by
  induction paths generalizing cx with
  | nil => exact .refl cx
  | cons path rest ih =>
      rw [lowerBounds, ends_bind]
      refine (lowerBound_asked keeps scope isSuper path).mono fun p cx₁ first => ?_
      rw [ends_bind]
      exact ih.mono fun ps cx₂ others => first.1.trans others

theorem lowerParamBounds_asked (scope : Scope) (p : TypeParam) :
    Ends AnyFault (lowerParamBounds tree resolve scope p) cx fun _ cx' =>
      Asked resolve (tree.boundsAsks scope p.boundPaths) cx cx' := by
  rw [lowerParamBounds, ends_bind]
  refine (lowerBounds_asked keeps scope false _ _).mono fun ps cx₁ asked => ?_
  rw [ends_modify]
  exact asked.quietly (.of_eq rfl rfl rfl rfl rfl)

omit keeps in
/-- Recording the types of parameters is quiet. -/
theorem insertTypes_quiet {α : Type} (node : α → NodeId) (ty : α → Ty) (ps : List α) :
    Ends AnyFault (forIn ps PUnit.unit fun p _ => do
      modify (·.insertType (node p) (ty p))
      pure (ForInStep.yield PUnit.unit) : Check PUnit) cx fun _ cx' => Quiet cx cx' := by
  refine ends_forIn _ ps (Quiet.refl cx) fun p _ cx₁ quiet => ?_
  simp only [ends_bind, ends_modify, ends_pure]
  exact ⟨trivial, quiet.trans (.of_eq rfl rfl rfl rfl rfl)⟩

/-- Generic parameters ask for their bounds, in the scope that they make. -/
theorem lowerGenerics_asked (scope : Scope) (generics : List GenericParam) :
    Ends AnyFault (lowerGenerics tree resolve scope generics) cx fun out cx' =>
      Asked resolve (tree.genericAsks scope generics) cx cx' ∧
        out.1 = ItemTree.inner scope generics := by
  simp only [lowerGenerics, ends_bind, ends_pure]
  refine (insertTypes_quiet Param.node Ty.param _).mono fun _ cx₁ quiet => ?_
  refine (ends_forIn_asked _ _ fun p _ cx₂ => ?_).mono fun _ cx₂ asked =>
    ⟨quiet.asked asked, rfl⟩
  rw [ends_bind]
  exact (lowerParamBounds_asked keeps _ p).mono fun _ _ asked => ⟨rfl, asked⟩

/-- A function asks for the bounds of its parameters, for its arguments and for its result. -/
theorem lowerSignature_asked (scope : Scope) (self : Ty) (name : String) (decl : FnDecl) :
    Ends AnyFault (lowerSignature tree resolve scope self name decl) cx fun _ cx' =>
      Asked resolve (tree.signatureAsks scope decl) cx cx' := by
  rw [lowerSignature, ends_bind]
  refine (lowerGenerics_asked keeps scope decl.generics).mono fun out cx₁ lowered => ?_
  obtain ⟨first, own⟩ := lowered
  obtain ⟨inner, params⟩ := out
  cases own
  rw [ends_bind]
  refine (lowerTys_asked keeps _ _).mono fun _ cx₂ second => ?_
  unfold ItemTree.signatureAsks
  cases decl.ret with
  | none => exact first.trans (second.trans (.refl cx₂))
  | some ret =>
      simp only [ends_bind, ends_pure]
      exact (lowerTy_asked keeps _ ret).mono fun _ _ third => first.trans (second.trans third)

/-- An item asks for its bounds and its default, or for its type. -/
theorem lowerItemKind_asked (scope : Scope) (id : DefId) (self : Ty) (name : String)
    (kind : TraitItemKind) :
    Ends AnyFault (lowerItemKind tree resolve scope id self name kind) cx fun _ cx' =>
      Asked resolve (tree.itemKindAsks scope kind) cx cx' := by
  cases kind with
  | type bounds fallback =>
      have round (path : TypePath) (cx : Context) :
          Ends AnyFault (do let _ ← lowerBound tree resolve scope false path; pure (.yield ⟨⟩)) cx
            fun (r : ForInStep PUnit) cx' =>
              r = .yield ⟨⟩ ∧ Asked resolve (tree.boundAsks scope path) cx cx' := by
        rw [ends_bind]
        exact (lowerBound_asked keeps scope false path).mono fun _ _ asked => ⟨rfl, asked.1⟩
      rw [lowerItemKind, ends_bind]
      refine (ends_forIn_asked _ _ fun path _ => round path).mono fun _ cx₁ first => ?_
      cases fallback with
      | none => exact first.trans (.refl cx₁)
      | some t =>
          simp only [ends_bind]
          exact (lowerTy_asked keeps scope t).mono fun _ _ second => first.trans second
  | const t body =>
      simp only [lowerItemKind, ends_bind, ends_pure]
      exact lowerTy_asked keeps scope t
  | fn decl =>
      simp only [lowerItemKind, ends_bind, ends_pure]
      exact lowerSignature_asked keeps scope self name decl

/-- An item without a name asks for nothing. -/
theorem lowerItem_asked (scope : Scope) (id : DefId) (self : Ty) {params : List TraitParam}
    (some : params ≠ []) (item : TraitItem) :
    Ends AnyFault (lowerItem tree resolve scope id self params item) cx fun _ cx' =>
      Asked resolve (if item.name.isEmpty then [] else tree.itemKindAsks scope item.kind)
        cx cx' := by
  have known : params.isEmpty = false := by simpa using some
  rw [lowerItem, known, Bool.or_false]
  split
  · exact .refl cx
  · rw [ends_bind]
    refine (lowerItemKind_asked keeps scope id self item.name item.kind).mono
      fun out cx₁ asked => ?_
    simp only [ends_bind, ends_modify, ends_pure]
    exact asked.quietly (.of_eq rfl rfl rfl rfl rfl)

/-- The second item of a name asks for nothing. -/
theorem lowerItems_asked (scope : Scope) (decl : TraitDecl) (self : Ty) {params : List TraitParam}
    (some : params ≠ []) : ∀ (items seen : List TraitItem) {cx : Context},
      Ends AnyFault (lowerItems tree resolve scope decl self params seen items) cx fun _ cx' =>
        Asked resolve (tree.itemsAsks scope seen items) cx cx'
  | [], _, cx => .refl cx
  | item :: rest, seen, cx => by
      rw [lowerItems, ItemTree.itemsAsks]
      split
      · rename_i first there
        rw [there, Option.isSome_some, if_pos rfl]
        simp only [ends_bind, ends_report]
        exact (lowerItems_asked scope decl self some rest seen).mono fun _ _ others =>
          (Quiet.report cx rfl).asked others
      · rename_i new
        rw [new, Option.isSome_none, if_neg Bool.false_ne_true]
        simp only [ends_bind, ends_pure]
        refine (lowerItem_asked keeps scope decl.id self some item).mono fun _ _ first => ?_
        exact (lowerItems_asked scope decl self some rest (item :: seen)).mono
          fun _ _ others => first.trans others

/-! ## Building -/

/-- The defaults ask in the order of the parameters. -/
theorem lowerFallbacks_asked (scope : Scope) : ∀ (ps : List TypeParam) {cx : Context},
    Ends AnyFault (lowerFallbacks tree resolve scope ps) cx fun params cx' =>
      Asked resolve (tree.fallbackAsks scope ps) cx cx' ∧
        params.map TraitParam.param = ps.map TypeParam.toParam
  | [], cx => ⟨.refl cx, rfl⟩
  | p :: rest, cx => by
      rw [lowerFallbacks, ItemTree.fallbackAsks, List.flatMap_cons]
      have others (fallback : Option Ty) {cx₁ : Context}
          (first : Asked resolve ((p.fallback.map (tree.asks scope)).getD []) cx cx₁) :
          Ends AnyFault (lowerFallbacks tree resolve scope rest) cx₁ fun params cx₂ =>
            Asked resolve (((p.fallback.map (tree.asks scope)).getD []) ++
              tree.fallbackAsks scope rest) cx cx₂ ∧
            ({ TraitParam.ofDecl p with fallback } :: params).map TraitParam.param =
              (p :: rest).map TypeParam.toParam := by
        refine (lowerFallbacks_asked scope rest).mono fun params cx₂ lowered => ?_
        exact ⟨first.trans lowered.1, congrArg (p.toParam :: ·) lowered.2⟩
      cases written : p.fallback with
      | none =>
          rw [written] at others
          simp only [ends_bind, ends_pure]
          exact others none (.refl cx)
      | some t =>
          rw [written] at others
          simp only [ends_bind, ends_map, ends_pure]
          exact (lowerTy_asked keeps scope t).mono fun ty _ first => others (some ty) first

/-- The second stage asks for the bounds of the own parameters, then for the items. -/
theorem buildItems_asked {decl : TraitDecl} {receiver : TypeParam} {others : List TypeParam}
    (split : decl.splitReceiver? = some (receiver, others)) {params : List TraitParam}
    (some : params ≠ []) (scope : Scope) :
    Ends AnyFault (buildItems tree resolve scope decl receiver params) cx fun _ cx' =>
      Asked resolve ((decl.ownParams.flatMap fun p => tree.boundsAsks scope p.boundPaths) ++
        tree.itemsAsks scope [] decl.items) cx cx' := by
  have own : (decl.ownParams.flatMap fun p => tree.boundsAsks scope p.boundPaths) =
      decl.typeParams.flatMap fun p =>
        if p.node == receiver.node then [] else tree.boundsAsks scope p.boundPaths := by
    simp only [TraitDecl.ownParams, split]
    induction decl.typeParams with
    | nil => rfl
    | cons p ps ih =>
        by_cases same : p.node = receiver.node <;> simp [same, ih]
  rw [own]
  simp only [buildItems, ends_bind]
  refine (ends_forIn_asked _ _ fun p _ cx₁ => ?_).mono fun _ cx₁ first =>
    (lowerItems_asked keeps scope decl _ some decl.items []).mono fun _ _ second =>
      first.trans second
  split
  · exact ⟨rfl, .refl cx₁⟩
  · rw [ends_bind]
    exact (lowerParamBounds_asked keeps scope p).mono fun _ _ asked => ⟨rfl, asked⟩

/-! ## The checks that waited -/

/-- A use in a body asks for the bound that it is made through. -/
theorem checkUse_asked (scope : Scope) (use : BodyUse) :
    Ends AnyFault (checkUse tree resolve scope use) cx fun _ cx' =>
      Asked resolve (tree.boundAsks scope use.path) cx cx' := by
  cases use with
  | bound path =>
      simp only [checkUse, ends_bind, ends_pure]
      exact (lowerBound_asked keeps scope false path).mono fun _ _ asked => asked.1
  | item path name =>
      simp only [checkUse, ends_bind, ends_get]
      refine (lowerBound_asked keeps scope false path).mono fun p cx₁ asked => ?_
      split
      · exact asked.1.quietly (.report cx₁ rfl)
      · exact asked.1

theorem checkBodies_asked (scope : Scope) (decl : TraitDecl) :
    Ends AnyFault (checkBodies tree resolve scope decl) cx fun _ cx' =>
      Asked resolve (decl.items.flatMap (tree.bodyAsks scope)) cx cx' := by
  simp only [checkBodies, ends_bind, ends_pure]
  refine ends_forIn_asked _ _ fun item _ cx₁ => ?_
  unfold ItemTree.bodyAsks
  cases item.kind.body? with
  | none => exact ⟨rfl, .refl cx₁⟩
  | some body =>
      simp only [ends_bind, ends_pure]
      refine (ends_forIn_asked _ body.uses fun use _ cx₂ => ?_).mono fun _ _ asked =>
        ⟨trivial, asked⟩
      rw [ends_bind]
      exact (checkUse_asked keeps _ use).mono fun _ _ asked => ⟨rfl, asked⟩

/-! ## The whole course -/

omit keeps in
/-- The stations of a trait that is resolved anew. -/
inductive Course (tree : ItemTree) (resolve : Resolver) (id : DefId) (decl : TraitDecl)
    (cx cx' : Context) : Prop where
  | mk {cx₁ cx₂ cx₃ cx₄ : Context} {params : List TraitParam} {t : TraitRef}
      (begun : Quiet (cx.beginResolving id) cx₁)
      (fallbacks : lowerFallbacks tree resolve decl.scope decl.orderedParams cx₁ =
        .ok (params, cx₂))
      (supers : Asked resolve (tree.boundsAsks decl.scope decl.superPaths)
        (cx₂.setPending decl.id params) cx₃)
      (items : Asked resolve ((decl.ownParams.flatMap fun p =>
          tree.boundsAsks decl.scope p.boundPaths) ++ tree.itemsAsks decl.scope [] decl.items)
        (cx₃.enterItems decl.id) cx₄)
      (own : t.id = some decl.id) (known : t.params = params)
      (bodies : Asked resolve (decl.bodyAsks tree) (cx₄.insertTrait id t) cx')

/-- A trait that is resolved anew takes this course, and the reference returned is the cached
one. -/
theorem resolveNew_course {id : DefId} {decl : TraitDecl} :
    Ends AnyFault (resolveNew tree resolve id decl) cx fun t cx' =>
      Course tree resolve id decl cx cx' ∧ t = (cx'.trait? id).getD .error := by
  simp only [resolveNew, ends_bind, ends_modify, buildTrait]
  cases split : decl.splitReceiver? with
  | none => exact trivial
  | some parts =>
      obtain ⟨receiver, others⟩ := parts
      have ordered : receiver :: others = decl.orderedParams := by
        simp [TraitDecl.orderedParams, split]
      have paths : (decl.supers ++ receiver.bounds).filterMap Bound.trait? = decl.superPaths := by
        simp [TraitDecl.superPaths, split]
      simp only [buildSupers, ends_bind, ends_modify, ends_get, ends_pure, ordered, paths]
      refine (insertTypes_quiet TypeParam.node (fun p => .param p.toParam) _).mono
        fun _ cx₁ begun => ?_
      refine ((ends_self _ cx₁).and (lowerFallbacks_asked keeps decl.scope decl.orderedParams)).mono
        fun params cx₂ lowered => ?_
      obtain ⟨fallbacks, -, named⟩ := lowered
      have filled : params ≠ [] := by
        rintro rfl
        rw [← ordered] at named
        cases named
      refine (lowerBounds_asked keeps decl.scope true _ _).mono fun supers cx₃ asked => ?_
      refine (buildItems_asked keeps split filled decl.scope).mono fun items cx₄ asked' => ?_
      rw [ends_finishTrait]
      refine (checkBodies_asked keeps _ decl).mono fun _ cx₅ bodies => ⟨?_, trivial⟩
      rw [named] at bodies
      let t : TraitRef :=
        { id := some decl.id, name := decl.name, span := decl.span, items, supers, params }
      have taken : Quiet (cx₄.insertTrait id t) ((cx₄.insertTrait id t).takeDeferred decl.id).2 :=
        .of_eq rfl rfl rfl rfl rfl
      have bodies := (taken.trans (Quiet.reporting.checkAll t _ _)).asked bodies
      refine .mk begun fallbacks (asked.quietly ?_) asked' rfl rfl
        (bodies.quietly (.of_eq rfl rfl rfl rfl rfl))
      exact .of_eq rfl rfl rfl rfl rfl

end

/-- While a trait is built it is the top of the stack, and nothing else changes there. -/
theorem Course.stack {id : DefId} {decl : TraitDecl} {cx' : Context}
    (course : Course tree resolve id decl cx cx') (keeps : resolve.KeepsStack)
    (numbered : decl.id = id) (notOpen : id ∉ cx.stack.keys) : cx'.stack = cx.stack := by
  obtain ⟨begun, fallbacks, supers, items, -, -, bodies⟩ := course
  rename_i cx₁ cx₂ cx₃ cx₄ params t
  subst numbered
  have lowered := ((lowerFallbacks_asked keeps decl.scope decl.orderedParams).of_eq_ok fallbacks).1
  have top : cx₃.stack.entries = cx.stack.entries ++ [(decl.id, .supers)] := by
    rw [supers.stack]
    show cx₂.stack.entries = _
    rw [lowered.stack, begun.stack]
    exact Table.entries_insert_of_new notOpen
  have top₄ : cx₄.stack.entries = cx.stack.entries ++ [(decl.id, .items)] := by
    rw [items.stack]
    exact Context.enterItems_entries top notOpen
  rw [bodies.stack]
  exact Table.erase_last top₄ notOpen

/-- By induction on the depth: the trait that a request puts on the stack is off it at the
end. -/
theorem resolveWithin_keepsStack (numbered : tree.Numbered) (depth : Nat) :
    Resolver.KeepsStack (resolveWithin tree depth) := by
  induction depth with
  | zero =>
      intro id span cx t cx' ran
      cases ran
  | succ depth ih =>
      intro id span cx t cx' ran
      have ends : Ends AnyFault (resolveWithin tree (depth + 1) id span) cx fun _ cx' =>
          cx'.stack = cx.stack :=
        ends_resolveWithin span (fun _ _ => rfl) (fun _ => rfl) (fun _ => rfl)
          (fun _ => cx.report_stack _) fun decl declared notOpen _ _ =>
            (resolveNew_course ih).mono fun _ _ course =>
              course.1.stack ih (numbered id decl declared) notOpen
      exact ends.of_eq_ok ran

end Lowering

end TraitEngine
