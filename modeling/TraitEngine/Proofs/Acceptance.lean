import TraitEngine.Proofs.Occurrence
import TraitEngine.Ty.Acceptance
import Mathlib.Tactic.Tauto
/-!
# Instances and coercions

Acceptance of a type by another one has two sides that are not alike.

* A parameter on the right is open for every type but the error type. So a type accepts what
  it becomes when its parameters are replaced, exactly if no parameter is replaced by the error
  type itself and the type has no error in it already (`accepts_replace`). An error further
  down in what stands for a parameter does no harm. Acceptance is asked with the instance on
  the left.
* A coercion is made at the top level only. It adds a unique reference or pointer for a shared
  one, and `!` for most types (`accepts_coerce_iff`). A parameter and a variable of the integers
  or floats do not get it: what they take is decided before coercions are looked at.
-/

namespace TraitEngine

set_option autoImplicit false

namespace Ty

variable {lookup : Param → Option Ty}

theorem image_ne_error {p : Param} : image lookup p ≠ .error ↔ lookup p ≠ some .error := by
  unfold image
  cases lookup p <;> simp

/-- A type is accepted for a parameter unless it is the error type. -/
theorem accepts_param (t : Ty) (p : Param) (coerce : Bool) :
    accepts t (.param p) coerce = true ↔ t ≠ .error := by
  cases t <;> simp [accepts, acceptsOpen]

mutual

/-- An instance of a type is accepted for it. -/
theorem accepts_replace : ∀ t : Ty, accepts (t.replace lookup) t false = true ↔
    t.hasError = false ∧ ∀ p ∈ t.occurring, image lookup p ≠ .error
  | .param p => by
      rw [accepts_param]
      simp [hasError, occurring, replace, image]
  | .tuple ts | .adt _ _ ts => by
      simpa [replace, accepts, hasError, occurring] using acceptsList_replace ts
  | .pointer _ _ t | .array t _ | .slice t | .projection t .. => by
      simpa [replace, accepts, acceptsMutability, hasError, occurring] using accepts_replace t
  | .fn _ r ps t _ => by
      simp only [replace, accepts, Bool.and_eq_true, acceptsReceiver_replace r,
        acceptsList_replace ps, accepts_replace t, hasError, Bool.or_eq_false_iff, occurring,
        List.mem_append, or_imp, forall_and]
      tauto
  | .dyn bs => by
      simpa [replace, accepts, hasError, occurring] using acceptsBounds_replace bs
  | .infer c => by
      cases c <;> simp [replace, accepts, acceptsOpen, isInteger, isFloat, hasError, occurring]
  | .prim _ | .never | .placeholder .. | .error => by
      simp [replace, accepts, acceptsOpen, hasError, occurring]

theorem acceptsList_replace : ∀ ts : List Ty, acceptsList (replaceList lookup ts) ts = true ↔
    hasErrorList ts = false ∧ ∀ p ∈ occurringList ts, image lookup p ≠ .error
  | [] => by simp [replaceList, acceptsList, hasErrorList, occurringList]
  | t :: ts => by
      simp only [replaceList, acceptsList, Bool.and_eq_true, accepts_replace t,
        acceptsList_replace ts, hasErrorList, Bool.or_eq_false_iff, occurringList,
        List.mem_append, or_imp, forall_and]
      tauto

theorem acceptsReceiver_replace : ∀ t : Option Ty,
    acceptsReceiver (replaceOption lookup t) t = true ↔
      hasErrorOption t = false ∧ ∀ p ∈ occurringOption t, image lookup p ≠ .error
  | none => by simp [replaceOption, acceptsReceiver, hasErrorOption, occurringOption]
  | some t => by
      simpa only [replaceOption, acceptsReceiver, hasErrorOption, occurringOption] using
        accepts_replace t

theorem acceptsBounds_replace : ∀ bs : List DynBound,
    acceptsBounds (replaceBounds lookup bs) bs = true ↔
      hasErrorBounds bs = false ∧ ∀ p ∈ occurringBounds bs, image lookup p ≠ .error
  | [] => by simp [replaceBounds, acceptsBounds, hasErrorBounds, occurringBounds]
  | b :: bs => by
      simp only [replaceBounds, acceptsBounds, Bool.and_eq_true, acceptsBound_replace b,
        acceptsBounds_replace bs, hasErrorBounds, Bool.or_eq_false_iff, occurringBounds,
        List.mem_append, or_imp, forall_and]
      tauto

theorem acceptsBound_replace : ∀ b : DynBound,
    acceptsBound (replaceBound lookup b) b = true ↔
      hasErrorBound b = false ∧ ∀ p ∈ occurringBound b, image lookup p ≠ .error
  | .mk _ _ ts => by
      simpa [replaceBound, acceptsBound, hasErrorBound, occurringBound] using
        acceptsList_replace ts

end

/-- An instance of a type is accepted for it exactly if the type has no error in it and none of
its parameters is bound to the error type itself. The empty list leaves a type as it is, so a
type is accepted for itself exactly if it has no error in it. -/
theorem accepts_specialize (t : Ty) (slots : List ArgSlot) (span : Option Span) :
    (accepts (t.specialize (.of slots span)) t false = true ↔ t.hasError = false ∧
      ∀ p ∈ t.occurring, (ArgList.of slots span).lookup p ≠ some .error) ∧
    t.specialize (.of [] span) = t ∧ (accepts t t false = true ↔ t.hasError = false) := by
  have general (slots : List ArgSlot) : accepts (t.specialize (.of slots span)) t false = true ↔
      t.hasError = false ∧ ∀ p ∈ t.occurring, (ArgList.of slots span).lookup p ≠ some .error := by
    show accepts (t.replace (ArgList.of slots span).lookup) t false = true ↔ _
    simp only [accepts_replace, image_ne_error]
  have unbound : t.specialize (.of [] span) = t := replace_eq_self_iff.2 fun _ _ => rfl
  refine ⟨general slots, unbound, ?_⟩
  have own := general []
  rw [unbound] at own
  simpa [ArgList.lookup, ArgList.toList] using own

/-! ## Coercions -/

/-- What takes `!`. -/
theorem accepts_never (a : Ty) (coerce : Bool) : accepts a .never coerce = true ↔
    a = .never ∨ a = .infer .any ∨ coerce = true ∧ a ≠ .error ∧ (∀ p, a ≠ .param p) ∧
      a ≠ .infer .integer ∧ a ≠ .infer .float := by
  cases a with
  | infer c => cases c <;> simp [accepts, acceptsOpen, isInteger, isFloat]
  | _ => simp [accepts, acceptsOpen]

/-- At the top a shared pointer takes a unique one, too. -/
theorem accepts_pointer (k l : PointerKind) (m n : Mutability) (x y : Ty) :
    accepts (.pointer k m x) (.pointer l n y) true = true ↔
      accepts (.pointer k m x) (.pointer l n y) false = true ∨
      k = l ∧ m = .shared ∧ n = .unique ∧ accepts x y false = true := by
  simp only [accepts, acceptsMutability, Bool.and_eq_true, Bool.or_eq_true, beq_iff_eq,
    Bool.false_eq_true]
  tauto

theorem acceptsOpen_coerce_eq (a : Ty) {b : Ty} (given : b ≠ .never) (coerce : Bool) :
    acceptsOpen a b coerce = acceptsOpen a b false := by
  unfold acceptsOpen
  split <;> simp_all

/-- Nothing else is coerced. -/
theorem accepts_coerce_eq {a b : Ty} (given : b ≠ .never)
    (unlike : ∀ k m x l n y, a = .pointer k m x → b ≠ .pointer l n y) :
    accepts a b true = accepts a b false := by
  fun_cases accepts a b true with
  | case5 k m x l n y => exact absurd rfl (unlike k m x l n y rfl)
  -- The last case is the one in which the two are not built alike.
  | case12 => rw [accepts, acceptsOpen_coerce_eq a given] <;> assumption
  | _ => simp only [accepts]

/-- With coercions the same is accepted as without, and `!` for a type that is not the error
type, a parameter or a variable of the integers or floats, and at the top a unique reference or
pointer for a shared one. -/
theorem accepts_coerce_iff (a b : Ty) :
    accepts a b true = true ↔ accepts a b false = true ∨
      (b = .never ∧ a ≠ .error ∧ (∀ p, a ≠ .param p) ∧ a ≠ .infer .integer ∧
        a ≠ .infer .float) ∨
      ∃ k x y, a = .pointer k .shared x ∧ b = .pointer k .unique y ∧
        accepts x y false = true := by
  cases b with
  | never =>
      simp only [accepts_never]
      tauto
  | pointer l n y =>
      cases a with
      | pointer k m x =>
          rw [accepts_pointer]
          refine or_congr_right ⟨?_, ?_⟩
          · rintro ⟨rfl, rfl, rfl, inner⟩
            exact Or.inr ⟨k, x, y, rfl, rfl, inner⟩
          · rintro (⟨given, -⟩ | ⟨k, x, y, left, right, inner⟩)
            · cases given
            · cases left
              cases right
              exact ⟨rfl, rfl, rfl, inner⟩
      | _ => simp [accepts_coerce_eq]
  | _ => simp [accepts_coerce_eq]

/-- A parameter does not take `!`, and neither does a variable of the integers. -/
theorem accepts_never_refused :
    let t : Ty := .param ⟨⟨0⟩, "T"⟩
    let n : Ty := .infer .integer
    (accepts t .never true = false ∧ accepts n .never true = false) ∧
      ¬ ∀ a b : Ty, accepts a b true = true ↔ accepts a b false = true ∨
        (b = .never ∧ a ≠ .error) ∨ ∃ k x y, a = .pointer k .shared x ∧
          b = .pointer k .unique y ∧ accepts x y false = true := by
  intro t n
  have param : accepts t .never true = false := by simp [t, accepts, acceptsOpen]
  have integer : accepts n .never true = false := by simp [n, accepts, acceptsOpen, isInteger]
  refine ⟨⟨param, integer⟩, fun anywhere => ?_⟩
  have taken := (anywhere t .never).2 (Or.inr (Or.inl ⟨rfl, by simp [t]⟩))
  simp [param] at taken

end Ty

end TraitEngine
