import TraitEngine.Proofs.Declarations
import TraitEngine.Ty.Substitution
/-!
# Node by node

`Ty.Every test t` says that every node of a type passes a test. A test speaks of the
nodes that lowering has to get right: structs and enums, bounds of trait objects,
projections, and the error type. Replacing parameters by types that pass keeps it
(`every_replace`), and so does a more lenient test (`Every.mono`).

Two tests matter. `ItemTree.conformance` says that a node is as the tree declares it.
`NodeTest.noError` only excludes the error type (`every_noError_iff`).
-/

namespace TraitEngine

set_option autoImplicit false

/-- What is asked of the nodes of a type. A struct, an enum and a bound are given with
their number of arguments. -/
structure NodeTest where
  adt : DefId → String → Nat → Prop
  bound : DefId → String → Nat → Prop
  projection : DefId → String → String → Prop
  error : Prop

namespace NodeTest

/-- Whatever passes `a` passes `b`. -/
structure Le (a b : NodeTest) : Prop where
  adt : ∀ id name args, a.adt id name args → b.adt id name args
  bound : ∀ id name args, a.bound id name args → b.bound id name args
  projection : ∀ id traitName name, a.projection id traitName name → b.projection id traitName name
  error : a.error → b.error

/-- Every test is as strict as itself. -/
theorem Le.refl (a : NodeTest) : a.Le a where
  adt := fun _ _ _ h => h
  bound := fun _ _ _ h => h
  projection := fun _ _ _ h => h
  error := id

/-- No node is the error type. -/
def noError : NodeTest where
  adt _ _ _ := True
  bound _ _ _ := True
  projection _ _ _ := True
  error := False

end NodeTest

/-- Every node is as the tree declares it: a struct or enum with its name and an argument
for each of its type parameters, a bound of a trait object with the name of its trait and
an argument for each type parameter but the receiver, and a projection on a trait whose
first item of that name is an associated type. -/
def ItemTree.conformance (tree : ItemTree) : NodeTest where
  adt id name args := ∃ a, tree.adt? id = some a ∧ a.name = name ∧ a.typeParams.length = args
  bound id name args := ∃ t, tree.trait? id = some t ∧ t.name = name ∧
    t.typeParams.length = args + 1
  projection id traitName name := ∃ t, tree.trait? id = some t ∧ t.name = traitName ∧
    t.declaresType name
  error := True

namespace Ty

section

variable (test : NodeTest)

mutual

/-- Every node of the type passes the test. -/
def Every : Ty → Prop
  | .adt id name ts => test.adt id name ts.length ∧ EveryList ts
  | .dyn bs => EveryBounds bs
  | .projection t id traitName name => test.projection id traitName name ∧ Every t
  | .tuple ts => EveryList ts
  | .pointer _ _ t | .array t _ | .slice t => Every t
  | .fn _ r ps t _ => EveryOption r ∧ EveryList ps ∧ Every t
  | .prim _ | .never | .param _ | .placeholder .. | .infer _ => True
  | .error => test.error

def EveryList : List Ty → Prop
  | [] => True
  | t :: ts => Every t ∧ EveryList ts

def EveryOption : Option Ty → Prop
  | none => True
  | some t => Every t

def EveryBounds : List DynBound → Prop
  | [] => True
  | b :: bs => EveryBound b ∧ EveryBounds bs

def EveryBound : DynBound → Prop
  | .mk id name ts => test.bound id name ts.length ∧ EveryList ts

end

end

variable {test test' : NodeTest}

/-- All types of a list pass if each one does. -/
@[simp] theorem everyList_iff {ts : List Ty} : EveryList test ts ↔ ∀ t ∈ ts, t.Every test := by
  induction ts with
  | nil => simp [EveryList]
  | cons t ts ih => simp [EveryList, ih]

@[simp] theorem everyOption_iff {t : Option Ty} : EveryOption test t ↔ ∀ u ∈ t, u.Every test := by
  cases t <;> simp [EveryOption]

@[simp] theorem everyBounds_iff {bs : List DynBound} :
    EveryBounds test bs ↔ ∀ b ∈ bs, EveryBound test b := by
  induction bs with
  | nil => simp [EveryBounds]
  | cons b bs ih => simp [EveryBounds, ih]

/-! ## Lenient tests -/

mutual

/-- What passes a test passes every weaker one. -/
theorem Every.mono (le : test.Le test') : ∀ t : Ty, t.Every test → t.Every test'
  | .adt id name ts, h => ⟨le.adt id name _ h.1, EveryList.mono le ts h.2⟩
  | .dyn bs, h => EveryBounds.mono le bs h
  | .projection t id traitName name, h =>
      ⟨le.projection id traitName name h.1, Every.mono le t h.2⟩
  | .tuple ts, h => EveryList.mono le ts h
  | .pointer _ _ t, h => Every.mono le t h
  | .array t _, h => Every.mono le t h
  | .slice t, h => Every.mono le t h
  | .fn _ r ps t _, h =>
      ⟨EveryOption.mono le r h.1, EveryList.mono le ps h.2.1, Every.mono le t h.2.2⟩
  | .prim _, _ | .never, _ | .param _, _ | .placeholder .., _ | .infer _, _ => trivial
  | .error, h => le.error h

theorem EveryList.mono (le : test.Le test') : ∀ ts : List Ty, EveryList test ts → EveryList test' ts
  | [], _ => trivial
  | t :: ts, h => ⟨Every.mono le t h.1, EveryList.mono le ts h.2⟩

theorem EveryOption.mono (le : test.Le test') :
    ∀ t : Option Ty, EveryOption test t → EveryOption test' t
  | none, _ => trivial
  | some t, h => Every.mono le t h

theorem EveryBounds.mono (le : test.Le test') :
    ∀ bs : List DynBound, EveryBounds test bs → EveryBounds test' bs
  | [], _ => trivial
  | b :: bs, h => ⟨EveryBound.mono le b h.1, EveryBounds.mono le bs h.2⟩

theorem EveryBound.mono (le : test.Le test') : ∀ b : DynBound, EveryBound test b → EveryBound test' b
  | .mk id name ts, h => ⟨le.bound id name _ h.1, EveryList.mono le ts h.2⟩

end

/-! ## Replacing parameters -/

/-- Replacing keeps the number of arguments. -/
theorem length_replaceList (lookup : Param → Option Ty) (ts : List Ty) :
    (replaceList lookup ts).length = ts.length := by
  induction ts with
  | nil => rfl
  | cons t ts ih => simp [replaceList, ih]

/-- Whatever is put in for a parameter passes the test. -/
def Fits (test : NodeTest) (lookup : Param → Option Ty) : Prop :=
  ∀ p t, lookup p = some t → t.Every test

mutual

/-- A type passes after a replacement, if it did before and all images do. -/
theorem every_replace {lookup : Param → Option Ty} (fits : Fits test lookup) :
    ∀ t : Ty, t.Every test → (t.replace lookup).Every test
  | .param p, h => by
      cases found : lookup p with
      | none => simpa [replace, found] using h
      | some t => simpa [replace, found] using fits p t found
  | .adt id name ts, h => by
      refine ⟨?_, everyList_replace fits ts h.2⟩
      rw [length_replaceList]
      exact h.1
  | .dyn bs, h => everyBounds_replace fits bs h
  | .projection t _ _ _, h => ⟨h.1, every_replace fits t h.2⟩
  | .tuple ts, h => everyList_replace fits ts h
  | .pointer _ _ t, h => every_replace fits t h
  | .array t _, h => every_replace fits t h
  | .slice t, h => every_replace fits t h
  | .fn _ r ps t _, h =>
      ⟨everyOption_replace fits r h.1, everyList_replace fits ps h.2.1, every_replace fits t h.2.2⟩
  | .prim _, _ | .never, _ | .placeholder .., _ | .infer _, _ => trivial
  | .error, h => h

theorem everyList_replace {lookup : Param → Option Ty} (fits : Fits test lookup) :
    ∀ ts : List Ty, EveryList test ts → EveryList test (replaceList lookup ts)
  | [], _ => trivial
  | t :: ts, h => ⟨every_replace fits t h.1, everyList_replace fits ts h.2⟩

theorem everyOption_replace {lookup : Param → Option Ty} (fits : Fits test lookup) :
    ∀ t : Option Ty, EveryOption test t → EveryOption test (replaceOption lookup t)
  | none, _ => trivial
  | some t, h => every_replace fits t h

theorem everyBounds_replace {lookup : Param → Option Ty} (fits : Fits test lookup) :
    ∀ bs : List DynBound, EveryBounds test bs → EveryBounds test (replaceBounds lookup bs)
  | [], _ => trivial
  | b :: bs, h => ⟨everyBound_replace fits b h.1, everyBounds_replace fits bs h.2⟩

theorem everyBound_replace {lookup : Param → Option Ty} (fits : Fits test lookup) :
    ∀ b : DynBound, EveryBound test b → EveryBound test (replaceBound lookup b)
  | .mk id name ts, h => by
      refine ⟨?_, everyList_replace fits ts h.2⟩
      rw [length_replaceList]
      exact h.1

end

/-! ## The error type -/

mutual

/-- The test of errors alone is the search for the error type. -/
theorem every_noError_iff : ∀ t : Ty, t.Every .noError ↔ t.hasError = false
  | .adt _ _ ts => by simpa [Every, hasError, NodeTest.noError] using everyList_noError_iff ts
  | .dyn bs => by simpa only [Every, hasError] using everyBounds_noError_iff bs
  | .projection t _ _ _ => by simpa [Every, hasError, NodeTest.noError] using every_noError_iff t
  | .tuple ts => by simpa only [Every, hasError] using everyList_noError_iff ts
  | .pointer _ _ t => by simpa only [Every, hasError] using every_noError_iff t
  | .array t _ => by simpa only [Every, hasError] using every_noError_iff t
  | .slice t => by simpa only [Every, hasError] using every_noError_iff t
  | .fn _ r ps t _ => by
      simp only [Every, hasError, everyOption_noError_iff r, everyList_noError_iff ps,
        every_noError_iff t, Bool.or_eq_false_iff, and_assoc]
  | .prim _ | .never | .param _ | .placeholder .. | .infer _ => by simp [Every, hasError]
  | .error => by simp [Every, hasError, NodeTest.noError]

theorem everyList_noError_iff : ∀ ts : List Ty,
    EveryList .noError ts ↔ hasErrorList ts = false
  | [] => by simp [EveryList, hasErrorList]
  | t :: ts => by
      simp only [EveryList, hasErrorList, every_noError_iff t, everyList_noError_iff ts,
        Bool.or_eq_false_iff]

theorem everyOption_noError_iff : ∀ t : Option Ty,
    EveryOption .noError t ↔ hasErrorOption t = false
  | none => by simp [EveryOption, hasErrorOption]
  | some t => by simpa only [EveryOption, hasErrorOption] using every_noError_iff t

theorem everyBounds_noError_iff : ∀ bs : List DynBound,
    EveryBounds .noError bs ↔ hasErrorBounds bs = false
  | [] => by simp [EveryBounds, hasErrorBounds]
  | b :: bs => by
      simp only [EveryBounds, hasErrorBounds, everyBound_noError_iff b,
        everyBounds_noError_iff bs, Bool.or_eq_false_iff]

theorem everyBound_noError_iff : ∀ b : DynBound,
    EveryBound .noError b ↔ hasErrorBound b = false
  | .mk _ _ ts => by
      simpa [EveryBound, hasErrorBound, NodeTest.noError] using everyList_noError_iff ts

end

end Ty

end TraitEngine
