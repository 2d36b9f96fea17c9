import TraitEngine.Proofs.Passage.Operations
/-!
# What lowering keeps

To lower a type or a bound is to report problems, to defer checks and to ask for traits; it
records nothing by itself. So whatever these three keep is kept (`Resolver.Keeps`): keeping is a
passage that asks nothing of a request and knows nothing of a bound (`Resolver.Keeps.passage`). No
such report is one of the items of an implementation.
-/

namespace TraitEngine

set_option autoImplicit false

open Check

/-- Reports, deferred checks and the requests that are answered keep the property. -/
structure Resolver.Keeps (resolve : Resolver) (keeps : Context → Prop) : Prop where
  report {cx : Context} {p : Problem} (other : p.isOfImpl = false) :
    keeps cx → keeps (cx.report p)
  deferObjectSafety {cx : Context} (id : DefId) (span : Span) :
    keeps cx → keeps (cx.deferObjectSafety id span)
  request {id : DefId} {span : Span} {cx : Context} {t : TraitRef} {cx' : Context} :
    resolve id span cx = .ok (t, cx') → keeps cx → keeps cx'

namespace Resolver.Keeps

variable {tree : ItemTree} {resolve : Resolver} {keeps : Context → Prop} {cx : Context}
  (keeping : resolve.Keeps keeps)

include keeping

/-- What is kept goes on across every plain report. -/
theorem reporting : Reporting fun cx cx' => keeps cx → keeps cx' where
  refl := fun _ => id
  trans := fun first second kept => second (first kept)
  report := fun _ _ plain => keeping.report (Problem.isPlain_iff.1 plain).2.2.2

/-- A check of object safety reports at most. -/
theorem checkObjectSafety (t : TraitRef) (emit : Bool) (span : Span) (kept : keeps cx) :
    keeps (t.checkObjectSafety emit span cx).2 :=
  keeping.reporting.checkObjectSafety t emit span cx kept

/-- A trait on the stack is used as it is, or the cycle that the bound closes is reported; any
other is asked for. -/
theorem boundHead? (id : DefId) (span : Span) (isSuper : Bool) :
    Ends AnyFault (Lowering.boundHead? tree resolve id span isSuper) cx fun _ cx' =>
      keeps cx → keeps cx' := by
  simp only [Lowering.boundHead?, ends_bind, ends_get]
  split
  · split
    · simp only [ends_bind, ends_report, ends_pure]
      exact keeping.report rfl
    · split <;> exact fun kept => kept
  · rw [ends_bind]
    exact (ends_self (resolve _ span) cx).mono fun t cx' asked => keeping.request asked

/-- A bound of a trait object is checked at once, or its check is put off. -/
theorem admitDynBound (p : Predicate) (span : Span) :
    Ends AnyFault (Lowering.admitDynBound p span) cx fun _ cx' => keeps cx → keeps cx' := by
  simp only [Lowering.admitDynBound]
  split
  · exact id
  · simp only [ends_bind, ends_get]
    split
    · simp only [ends_bind, ends_modifyGet]
      exact keeping.reporting.checkPredicate p true span cx
    · simp only [ends_bind, ends_modify, ends_pure]
      exact keeping.deferObjectSafety _ span

omit keeping in
/-- Any request may be made, and any fault may end the passage. -/
def passage (tree : ItemTree) (keeping : resolve.Keeps keeps) : Passage tree resolve where
  Goes := fun cx cx' => keeps cx → keeps cx'
  faults := AnyFault
  reporting := keeping.reporting
  Asks := fun _ _ => True
  AtSuper := fun _ _ => True
  Head := fun _ _ _ _ => True
  Lowered := fun _ _ _ _ => True
  asks := fun _ => id
  atSuper := fun _ => id
  lowered := fun _ => id
  unnamed := fun _ => trivial
  refused := fun _ => trivial
  request := fun span _ => (ends_self (resolve _ span) _).mono fun _ _ asked =>
    keeping.request asked
  head := fun _ _ _ => (keeping.boundHead? _ _ _).mono fun _ _ goes => ⟨goes, trivial⟩
  finish := fun applied _ _ _ => (Lowering.finishBound_goes keeping.reporting _ _ applied).mono
    fun _ _ goes => ⟨goes, trivial⟩
  admitBound := fun span _ => keeping.admitDynBound _ span

/-- Nothing stands in the way of a request. -/
theorem asksAll (cx : Context) (paths : List TypePath) :
    (keeping.passage tree).AsksAll cx paths :=
  fun _ _ => trivial

end Resolver.Keeps

namespace Lowering

variable {tree : ItemTree} {resolve : Resolver} {keeps : Context → Prop} {cx : Context}
  (keeping : resolve.Keeps keeps)

include keeping

/-! ## The forms of types and bounds -/

theorem lowerBound_keeps (scope : Scope) (isSuper : Bool) (path : TypePath) (kept : keeps cx) :
    Ends AnyFault (lowerBound tree resolve scope isSuper path) cx fun _ cx' => keeps cx' :=
  ((keeping.passage tree).lowerBound_goes scope isSuper path (keeping.asksAll cx _)
    fun _ => trivial).mono fun _ _ lowered => lowered.1 kept

theorem lowerBounds_keeps (scope : Scope) (isSuper : Bool) (self : Ty) (paths : List TypePath)
    (kept : keeps cx) :
    Ends AnyFault (lowerBounds tree resolve scope isSuper self paths) cx fun _ cx' => keeps cx' :=
  ((keeping.passage tree).lowerBounds_goes scope isSuper self paths (keeping.asksAll cx _)
    fun _ _ _ => trivial).mono fun _ _ lowered => lowered.1 kept

theorem lowerFallbacks_keeps (scope : Scope) (ps : List TypeParam) (kept : keeps cx) :
    Ends AnyFault (lowerFallbacks tree resolve scope ps) cx fun _ cx' => keeps cx' :=
  ((keeping.passage tree).lowerFallbacks_goes scope ps (keeping.asksAll cx _)).mono
    fun _ _ lowered => lowered.1 kept

/-- A default body may report an item that its trait does not have. -/
theorem checkBodies_keeps (scope : Scope) (kept : keeps cx) (decl : TraitDecl) :
    Ends AnyFault (checkBodies tree resolve scope decl) cx fun _ cx' => keeps cx' := by
  have unknown (p : Problem) (body : p.isUnknownItem = true) :
      (keeping.passage tree).Reports p := by
    refine fun _ => keeping.report ?_
    cases p <;> first | rfl | cases body
  exact ((keeping.passage tree).checkBodies_goes scope unknown (keeping.asksAll cx _)).mono
    fun _ _ goes => goes kept

end Lowering

end TraitEngine
