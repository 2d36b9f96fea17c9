import TraitEngine.Proofs.Ends
import TraitEngine.Proofs.Moves
import TraitEngine.Resolve.Lowering
/-!
# What only reports

Most of what is done about a type or a bound is to look something up and to report it if it is not
there. Nothing is asked for, nothing is recorded, and the report is plain. So a relation between
contexts that holds across plain reports (`Reporting`) holds across each of these parts, whatever
else it is about.
-/

namespace TraitEngine

set_option autoImplicit false

open Check

/-- A name that cannot be resolved is a plain problem, whatever is wrong with it. -/
theorem NameError.toProblem_plain (tree : ItemTree) (path : TypePath) (e : NameError) :
    (e.toProblem tree path).isPlain = true := by
  cases e <;> rfl

/-- So is a path that names no trait. -/
theorem ItemTree.resolveTraitPath_plain {tree : ItemTree} {path : TypePath} {problem : Problem}
    (failed : tree.resolveTraitPath path = .error problem) : problem.isPlain = true := by
  unfold ItemTree.resolveTraitPath at failed
  split at failed
  · cases failed
    exact NameError.toProblem_plain tree path _
  · split at failed <;> cases failed <;> rfl

/-- The relation holds from a context to itself and to the one with a plain report more, and goes
on from there. -/
structure Reporting (Goes : Context → Context → Prop) : Prop where
  refl (cx : Context) : Goes cx cx
  trans {cx cx₁ cx₂ : Context} : Goes cx cx₁ → Goes cx₁ cx₂ → Goes cx cx₂
  report (cx : Context) {p : Problem} (plain : p.isPlain = true) : Goes cx (cx.report p)

namespace Reporting

variable {Goes : Context → Context → Prop} (reporting : Reporting Goes) {cx cx₁ : Context}

include reporting

theorem report_of (goes : Goes cx cx₁) {p : Problem} (plain : p.isPlain = true) :
    Goes cx (cx₁.report p) :=
  reporting.trans goes (reporting.report cx₁ plain)

/-! ## Object safety -/

/-- A check of object safety reports at most, and plainly. -/
theorem checkObjectSafety (t : TraitRef) (emit : Bool) (span : Span) (cx : Context) :
    Goes cx (t.checkObjectSafety emit span cx).2 := by
  obtain same | ⟨problem, found, reported⟩ := cx.checkObjectSafety_cases t emit span
  · rw [same]
    exact reporting.refl cx
  · rw [reported]
    exact reporting.report cx (TraitRef.objectSafetyProblem?_plain found)

/-- A predicate has its trait checked, if the trait is cached. -/
theorem checkPredicate (p : Predicate) (emit : Bool) (span : Span) (cx : Context) :
    Goes cx (p.checkObjectSafety emit span cx).2 := by
  unfold Predicate.checkObjectSafety
  split
  · exact reporting.checkObjectSafety _ emit span cx
  · exact reporting.refl cx

/-- The checks that waited for a trait, one after the other. -/
theorem checkAll (t : TraitRef) (spans : List Span) (cx : Context) :
    Goes cx (t.checkAll spans cx) := by
  induction spans generalizing cx with
  | nil => exact reporting.refl cx
  | cons span rest ih => exact reporting.trans (reporting.checkObjectSafety t true span cx) (ih _)

end Reporting

namespace Lowering

variable {tree : ItemTree} {Goes : Context → Context → Prop} {faults : Fault → Prop}
  {cx : Context} (reporting : Reporting Goes)

include reporting

/-! ## The parts of a type -/

/-- A projection is found through the cached bounds, or reported. -/
theorem lowerProjection_goes (param : Param) (name : String) (span : Span) :
    Ends faults (lowerProjection tree param name span) cx fun _ cx' => Goes cx cx' := by
  simp only [lowerProjection, ends_bind, ends_get]
  split
  · exact reporting.refl cx
  · simp only [ends_bind, ends_report, ends_pure]
    exact reporting.report cx rfl

/-- Among the short paths only a projection can be reported. -/
theorem lowerShort?_goes {scope : Scope} {names : List String} {span : Span} {lowered : Check Ty}
    (short : lowerShort? tree scope names span = some lowered) :
    Ends faults lowered cx fun _ cx' => Goes cx cx' := by
  unfold lowerShort? at short
  split at short
  · split at short
    · cases short
      exact reporting.refl cx
    · obtain ⟨ty, -, rfl⟩ := Option.map_eq_some_iff.1 short
      exact reporting.refl cx
  · obtain ⟨param, -, rfl⟩ := Option.map_eq_some_iff.1 short
    exact lowerProjection_goes reporting param _ span
  · cases short

/-- A path that is neither a struct nor an enum is reported. -/
theorem adtOf?_goes (path : TypePath) :
    Ends faults (adtOf? tree path) cx fun _ cx' => Goes cx cx' := by
  unfold adtOf?
  split
  · simp only [ends_bind, ends_report, ends_pure]
    exact reporting.report cx (NameError.toProblem_plain tree path _)
  · split
    · exact reporting.refl cx
    · simp only [ends_bind, ends_report, ends_pure]
      exact reporting.report cx rfl

/-- A wrong number of arguments is reported. -/
theorem finishAdt_goes (adt : AdtDecl) (args : List Ty) (span : Span) :
    Ends faults (finishAdt adt args span) cx fun _ cx' => Goes cx cx' := by
  simp only [finishAdt]
  split
  · exact reporting.refl cx
  · simp only [ends_bind, ends_report, ends_pure]
    exact reporting.report cx rfl

/-! ## The parts of a bound -/

/-- A mismatch of the arguments is reported; it is only without one that the bindings are looked
at. -/
theorem reviewBound_goes (id : DefId) (p : Predicate) (span : Span)
    (mismatch : Option ArgMismatch) :
    Ends faults (reviewBound tree id p span mismatch) cx fun _ cx' =>
      Goes cx cx' ∧ ∀ cause, mismatch = some cause →
        .argMismatch span (tree.traitName id) cause ∈ cx'.problems := by
  cases mismatch with
  | some cause =>
      simp only [reviewBound, ends_report]
      refine ⟨reporting.report cx rfl, fun cause' same => ?_⟩
      cases same
      exact (cx.mem_problems_report _).2 (Or.inr rfl)
  | none =>
      simp only [reviewBound]
      split
      · simp only [ends_bind, ends_pure]
        refine (ends_forIn _ p.bindings (reporting.refl cx) fun binding _ cx₁ goes => ?_).mono
          fun _ _ goes => ⟨goes, fun _ same => by cases same⟩
        split
        · exact ⟨rfl, goes⟩
        · simp only [ends_bind, ends_report, ends_pure]
          exact ⟨trivial, reporting.report_of goes rfl⟩
      · exact ⟨reporting.refl cx, fun _ same => by cases same⟩

/-- Arguments are applied, or that is a fault of its own, and then the bound is reviewed. -/
theorem finishBound_goes (id : DefId) (p : Predicate) (applied : AppliedArgs) :
    Ends AnyFault (finishBound tree id p applied) cx fun _ cx' => Goes cx cx' := by
  have review (q : Predicate) (mismatch : Option ArgMismatch) :
      Ends AnyFault (reviewBound tree id q applied.span mismatch) cx fun _ cx' => Goes cx cx' :=
    (reviewBound_goes reporting id q applied.span mismatch).mono fun _ _ reviewed => reviewed.1
  simp only [finishBound]
  split
  · cases p.apply applied with
    | error fault => exact trivial
    | ok out =>
        simp only [ends_bind, ends_liftM_ok, ends_pure]
        exact review out.1 out.2
  · simp only [ends_bind, ends_pure]
    exact review p none

end Lowering

end TraitEngine
