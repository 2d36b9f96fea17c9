import TraitEngine.Ty.Acceptance
import Mathlib.Tactic.Tauto
/-!
# What acceptance compares

Without coercions, only parameters make acceptance one-sided. Two types that have none are
accepted for each other or not at all (`accepts_comm`), whatever inference variables and errors
are in them. Where they are not built alike, that is `acceptsOpen_comm`.

A rigid type has no parameter, no variable and no error in it. Rigid types are compared form by
form, by everything except the names that are there for display: those of structs and enums, of
the traits of projections and bounds, and of functions with their own parameters. One of
another form is refused (`acceptsOpen_rigid`). So on rigid types acceptance is equality of what
`erase` leaves (`accepts_iff_erase`).
-/

namespace TraitEngine

set_option autoImplicit false

namespace Ty

mutual

/-- Whether an inference variable occurs anywhere in the type. -/
def hasInfer : Ty → Bool
  | .infer _ => true
  | .tuple ts | .adt _ _ ts => hasInferList ts
  | .pointer _ _ t | .array t _ | .slice t | .projection t .. => hasInfer t
  | .fn _ r ps t _ => hasInferOption r || hasInferList ps || hasInfer t
  | .dyn bs => hasInferBounds bs
  | .prim _ | .never | .param _ | .placeholder .. | .error => false

def hasInferList : List Ty → Bool
  | [] => false
  | t :: ts => hasInfer t || hasInferList ts

def hasInferOption : Option Ty → Bool
  | none => false
  | some t => hasInfer t

def hasInferBounds : List DynBound → Bool
  | [] => false
  | b :: bs => hasInferBound b || hasInferBounds bs

def hasInferBound : DynBound → Bool
  | .mk _ _ ts => hasInferList ts

end

mutual

/-- The type without what is there for display only. -/
def erase : Ty → Ty
  | .tuple ts => .tuple (eraseList ts)
  | .adt d _ ts => .adt d "" (eraseList ts)
  | .pointer k m t => .pointer k m (erase t)
  | .array t n => .array (erase t) n
  | .slice t => .slice (erase t)
  | .fn _ r ps t _ => .fn "" (eraseOption r) (eraseList ps) (erase t) []
  | .projection t d _ n => .projection (erase t) d "" n
  | .dyn bs => .dyn (eraseBounds bs)
  | .prim p => .prim p
  | .never => .never
  | .param p => .param p
  | .placeholder d n => .placeholder d n
  | .infer c => .infer c
  | .error => .error

def eraseList : List Ty → List Ty
  | [] => []
  | t :: ts => erase t :: eraseList ts

def eraseOption : Option Ty → Option Ty
  | none => none
  | some t => some (erase t)

def eraseBounds : List DynBound → List DynBound
  | [] => []
  | b :: bs => eraseBound b :: eraseBounds bs

def eraseBound : DynBound → DynBound
  | .mk d _ ts => .mk d "" (eraseList ts)

end

/-! ## Either way -/

/-- A variable is accepted for the types that it accepts, an error neither way. -/
theorem acceptsOpen_comm {a b : Ty} (closed : a.hasParam = false) (closed' : b.hasParam = false) :
    acceptsOpen a b false = acceptsOpen b a false := by
  cases a with
  | param p => cases closed
  | infer c =>
      cases b with
      | param p => cases closed'
      | infer d => cases c <;> cases d <;> rfl
      | _ => cases c <;> rfl
  | _ =>
      cases b with
      | param p => cases closed'
      | infer d => cases d <;> rfl
      | _ => rfl

mutual

-- Two types of one form are compared part by part, in the same order both ways.
/-- Without parameters, acceptance without coercions does not depend on the side. -/
theorem accepts_comm : ∀ (a b : Ty), a.hasParam = false → b.hasParam = false →
    accepts a b false = accepts b a false
  | .prim _, b, closed, closed' => by
      cases b with
      | prim q => simp only [accepts, Bool.beq_comm]
      | _ => simpa only [accepts] using acceptsOpen_comm closed closed'
  | .placeholder _ _, b, closed, closed' => by
      cases b with
      | placeholder e m => simp only [accepts, Bool.beq_comm]
      | _ => simpa only [accepts] using acceptsOpen_comm closed closed'
  | .never, b, closed, closed' => by
      cases b with
      | never => rfl
      | _ => simpa only [accepts] using acceptsOpen_comm closed closed'
  | .tuple xs, b, closed, closed' => by
      cases b with
      | tuple ys => simpa only [accepts] using acceptsList_comm xs ys closed closed'
      | _ => simpa only [accepts] using acceptsOpen_comm closed closed'
  | .adt _ _ xs, b, closed, closed' => by
      cases b with
      | adt e _ ys => simp only [accepts, Bool.beq_comm, acceptsList_comm xs ys closed closed']
      | _ => simpa only [accepts] using acceptsOpen_comm closed closed'
  | .pointer _ _ x, b, closed, closed' => by
      cases b with
      | pointer l n y =>
          simp only [accepts, acceptsMutability, Bool.false_and, Bool.or_false, Bool.beq_comm,
            accepts_comm x y closed closed']
      | _ => simpa only [accepts] using acceptsOpen_comm closed closed'
  | .array x _, b, closed, closed' => by
      cases b with
      | array y m => simp only [accepts, Bool.beq_comm, accepts_comm x y closed closed']
      | _ => simpa only [accepts] using acceptsOpen_comm closed closed'
  | .slice x, b, closed, closed' => by
      cases b with
      | slice y => simpa only [accepts] using accepts_comm x y closed closed'
      | _ => simpa only [accepts] using acceptsOpen_comm closed closed'
  | .projection x _ _ _, b, closed, closed' => by
      cases b with
      | projection y e _ m => simp only [accepts, Bool.beq_comm, accepts_comm x y closed closed']
      | _ => simpa only [accepts] using acceptsOpen_comm closed closed'
  | .fn _ r ps t _, b, closed, closed' => by
      cases b with
      | fn _ s qs u _ =>
          simp only [hasParam, Bool.or_eq_false_iff] at closed closed'
          obtain ⟨⟨receiver, params⟩, ret⟩ := closed
          obtain ⟨⟨receiver', params'⟩, ret'⟩ := closed'
          simp only [accepts, acceptsReceiver_comm r s receiver receiver',
            acceptsList_comm ps qs params params', accepts_comm t u ret ret']
      | _ => simpa only [accepts] using acceptsOpen_comm closed closed'
  | .dyn bs, b, closed, closed' => by
      cases b with
      | dyn cs => simpa only [accepts] using acceptsBounds_comm bs cs closed closed'
      | _ => simpa only [accepts] using acceptsOpen_comm closed closed'
  | .param _, _, closed, closed' | .infer _, _, closed, closed' | .error, _, closed, closed' => by
      simpa only [accepts] using acceptsOpen_comm closed closed'

theorem acceptsList_comm : ∀ (xs ys : List Ty), hasParamList xs = false →
    hasParamList ys = false → acceptsList xs ys = acceptsList ys xs
  | [], [], _, _ | [], _ :: _, _, _ | _ :: _, [], _, _ => by simp only [acceptsList]
  | x :: xs, y :: ys, closed, closed' => by
      simp only [hasParamList, Bool.or_eq_false_iff] at closed closed'
      simp only [acceptsList, accepts_comm x y closed.1 closed'.1,
        acceptsList_comm xs ys closed.2 closed'.2]

theorem acceptsReceiver_comm : ∀ (x y : Option Ty), hasParamOption x = false →
    hasParamOption y = false → acceptsReceiver x y = acceptsReceiver y x
  | none, none, _, _ | none, some _, _, _ | some _, none, _, _ => by simp only [acceptsReceiver]
  | some x, some y, closed, closed' => by
      simpa only [acceptsReceiver] using accepts_comm x y closed closed'

theorem acceptsBounds_comm : ∀ (xs ys : List DynBound), hasParamBounds xs = false →
    hasParamBounds ys = false → acceptsBounds xs ys = acceptsBounds ys xs
  | [], [], _, _ | [], _ :: _, _, _ | _ :: _, [], _, _ => by simp only [acceptsBounds]
  | x :: xs, y :: ys, closed, closed' => by
      simp only [hasParamBounds, Bool.or_eq_false_iff] at closed closed'
      simp only [acceptsBounds, acceptsBound_comm x y closed.1 closed'.1,
        acceptsBounds_comm xs ys closed.2 closed'.2]

theorem acceptsBound_comm : ∀ (x y : DynBound), hasParamBound x = false →
    hasParamBound y = false → acceptsBound x y = acceptsBound y x
  | .mk _ _ xs, .mk _ _ ys, closed, closed' => by
      simp only [acceptsBound, Bool.beq_comm, acceptsList_comm xs ys closed closed']

end

/-! ## Rigid types -/

/-- Neither a parameter nor an inference variable nor the error type is in the type. -/
@[simp] abbrev Rigid (t : Ty) : Prop := t.hasParam = false ∧ t.hasInfer = false ∧ t.hasError = false

@[simp] abbrev RigidList (ts : List Ty) : Prop :=
  hasParamList ts = false ∧ hasInferList ts = false ∧ hasErrorList ts = false

@[simp] abbrev RigidOption (t : Option Ty) : Prop :=
  hasParamOption t = false ∧ hasInferOption t = false ∧ hasErrorOption t = false

@[simp] abbrev RigidBounds (bs : List DynBound) : Prop :=
  hasParamBounds bs = false ∧ hasInferBounds bs = false ∧ hasErrorBounds bs = false

@[simp] abbrev RigidBound (b : DynBound) : Prop :=
  hasParamBound b = false ∧ hasInferBound b = false ∧ hasErrorBound b = false

/-- Rigid types are built from rigid types. -/
theorem rigidList_cons {t : Ty} {ts : List Ty} : RigidList (t :: ts) ↔ t.Rigid ∧ RigidList ts := by
  simp only [RigidList, Rigid, hasParamList, hasInferList, hasErrorList, Bool.or_eq_false_iff]
  tauto

theorem rigidBounds_cons {b : DynBound} {bs : List DynBound} :
    RigidBounds (b :: bs) ↔ RigidBound b ∧ RigidBounds bs := by
  simp only [RigidBounds, RigidBound, hasParamBounds, hasInferBounds, hasErrorBounds,
    Bool.or_eq_false_iff]
  tauto

theorem rigid_fn {name : String} {r : Option Ty} {ps : List Ty} {t : Ty} {own : List Param} :
    Rigid (.fn name r ps t own) ↔ RigidOption r ∧ RigidList ps ∧ t.Rigid := by
  simp only [Rigid, RigidOption, RigidList, hasParam, hasInfer, hasError, Bool.or_eq_false_iff]
  tauto

/-- Nothing is open in a rigid type: one of another form is refused. -/
theorem acceptsOpen_rigid {a b : Ty} (rigid : a.Rigid) (rigid' : b.Rigid) :
    acceptsOpen a b false = false := by
  obtain ⟨closed, known, sound⟩ := rigid
  obtain ⟨closed', known', sound'⟩ := rigid'
  cases a with
  | param p => cases closed
  | infer c => cases known
  | error => cases sound
  | _ =>
      cases b with
      | param p => cases closed'
      | infer c => cases known'
      | _ => rfl

mutual

/-- Rigid types are accepted for each other exactly if nothing but display names sets them
apart. -/
theorem accepts_iff_erase : ∀ (a b : Ty), a.Rigid → b.Rigid →
    (accepts a b false = true ↔ a.erase = b.erase)
  | .param _, _, rigid, _ => by cases rigid.1
  | .infer _, _, rigid, _ => by cases rigid.2.1
  | .error, _, rigid, _ => by cases rigid.2.2
  | .prim _, b, rigid, rigid' => by
      cases b with
      | prim q => simp [accepts, erase]
      | _ => simp [accepts, erase, acceptsOpen_rigid rigid rigid']
  | .never, b, rigid, rigid' => by
      cases b with
      | never => simp [accepts, erase]
      | _ => simp [accepts, erase, acceptsOpen_rigid rigid rigid']
  | .placeholder _ _, b, rigid, rigid' => by
      cases b with
      | placeholder e m => simp [accepts, erase]
      | _ => simp [accepts, erase, acceptsOpen_rigid rigid rigid']
  | .tuple xs, b, rigid, rigid' => by
      cases b with
      | tuple ys => simpa [accepts, erase] using acceptsList_iff_erase xs ys rigid rigid'
      | _ => simp [accepts, erase, acceptsOpen_rigid rigid rigid']
  | .adt _ _ xs, b, rigid, rigid' => by
      cases b with
      | adt e _ ys => simp [accepts, erase, acceptsList_iff_erase xs ys rigid rigid']
      | _ => simp [accepts, erase, acceptsOpen_rigid rigid rigid']
  | .pointer _ _ x, b, rigid, rigid' => by
      cases b with
      | pointer l n y =>
          simp [accepts, acceptsMutability, erase, and_assoc, accepts_iff_erase x y rigid rigid']
      | _ => simp [accepts, erase, acceptsOpen_rigid rigid rigid']
  | .array x _, b, rigid, rigid' => by
      cases b with
      | array y m => simp [accepts, erase, and_comm, accepts_iff_erase x y rigid rigid']
      | _ => simp [accepts, erase, acceptsOpen_rigid rigid rigid']
  | .slice x, b, rigid, rigid' => by
      cases b with
      | slice y => simpa [accepts, erase] using accepts_iff_erase x y rigid rigid'
      | _ => simp [accepts, erase, acceptsOpen_rigid rigid rigid']
  | .projection x _ _ _, b, rigid, rigid' => by
      cases b with
      | projection y e _ m =>
          simp [accepts, erase, and_comm, accepts_iff_erase x y rigid rigid']
      | _ => simp [accepts, erase, acceptsOpen_rigid rigid rigid']
  | .fn _ r ps t _, b, rigid, rigid' => by
      cases b with
      | fn _ s qs u _ =>
          obtain ⟨receiver, params, ret⟩ := rigid_fn.1 rigid
          obtain ⟨receiver', params', ret'⟩ := rigid_fn.1 rigid'
          simp [accepts, erase, and_assoc, acceptsReceiver_iff_erase r s receiver receiver',
            acceptsList_iff_erase ps qs params params', accepts_iff_erase t u ret ret']
      | _ => simp [accepts, erase, acceptsOpen_rigid rigid rigid']
  | .dyn bs, b, rigid, rigid' => by
      cases b with
      | dyn cs => simpa [accepts, erase] using acceptsBounds_iff_erase bs cs rigid rigid'
      | _ => simp [accepts, erase, acceptsOpen_rigid rigid rigid']

theorem acceptsList_iff_erase : ∀ (xs ys : List Ty), RigidList xs → RigidList ys →
    (acceptsList xs ys = true ↔ eraseList xs = eraseList ys)
  | [], [], _, _ | [], _ :: _, _, _ | _ :: _, [], _, _ => by simp [acceptsList, eraseList]
  | x :: xs, y :: ys, rigid, rigid' => by
      obtain ⟨first, rest⟩ := rigidList_cons.1 rigid
      obtain ⟨first', rest'⟩ := rigidList_cons.1 rigid'
      simp [acceptsList, eraseList, accepts_iff_erase x y first first',
        acceptsList_iff_erase xs ys rest rest']

theorem acceptsReceiver_iff_erase : ∀ (x y : Option Ty), RigidOption x → RigidOption y →
    (acceptsReceiver x y = true ↔ eraseOption x = eraseOption y)
  | none, none, _, _ | none, some _, _, _ | some _, none, _, _ => by
      simp [acceptsReceiver, eraseOption]
  | some x, some y, rigid, rigid' => by
      simpa [acceptsReceiver, eraseOption] using accepts_iff_erase x y rigid rigid'

theorem acceptsBounds_iff_erase : ∀ (xs ys : List DynBound), RigidBounds xs →
    RigidBounds ys → (acceptsBounds xs ys = true ↔ eraseBounds xs = eraseBounds ys)
  | [], [], _, _ | [], _ :: _, _, _ | _ :: _, [], _, _ => by simp [acceptsBounds, eraseBounds]
  | x :: xs, y :: ys, rigid, rigid' => by
      obtain ⟨first, rest⟩ := rigidBounds_cons.1 rigid
      obtain ⟨first', rest'⟩ := rigidBounds_cons.1 rigid'
      simp [acceptsBounds, eraseBounds, acceptsBound_iff_erase x y first first',
        acceptsBounds_iff_erase xs ys rest rest']

theorem acceptsBound_iff_erase : ∀ (x y : DynBound), RigidBound x → RigidBound y →
    (acceptsBound x y = true ↔ eraseBound x = eraseBound y)
  | .mk _ _ xs, .mk _ _ ys, rigid, rigid' => by
      simp [acceptsBound, eraseBound, acceptsList_iff_erase xs ys rigid rigid']

end

/-- Between types without parameters acceptance is symmetric. Between rigid types it is equality
up to what is there for display, and so an equivalence. -/
theorem accepts_equivalence :
    (∀ a b : Ty, a.hasParam = false → b.hasParam = false →
      accepts a b false = accepts b a false) ∧
    (∀ a b : Ty, a.Rigid → b.Rigid → (accepts a b false = true ↔ a.erase = b.erase)) ∧
    Equivalence fun a b : { t : Ty // t.Rigid } => accepts a b false = true := by
  refine ⟨accepts_comm, accepts_iff_erase, ?_⟩
  have erased (a b : { t : Ty // t.Rigid }) :
      accepts a b false = true ↔ a.val.erase = b.val.erase := accepts_iff_erase a b a.2 b.2
  simp only [erased]
  exact ⟨fun _ => rfl, Eq.symm, Eq.trans⟩

/-- The signature of a method `draw` of two traits that have other names and other parameters, and
two types that are open in different places. -/
theorem accepts_equivalence_draw :
    let point (name : String) : Ty := .adt ⟨0⟩ name [.array (.prim .char) 3]
    let draw (name shape : String) (own : List Param) : Ty := .fn name (some (.ref (point shape)))
      [.dyn [.mk ⟨1⟩ shape [.tuple []]]] (.projection (point name) ⟨1⟩ name "Colour") own
    let left := draw "draw" "Shape" [⟨⟨4⟩, "T"⟩]
    let right := draw "paint" "Form" []
    let any (t : Ty) : Ty := .tuple [.infer .any, t, .error]
    let int (t : Ty) : Ty := .tuple [.infer .integer, t, .never]
    (left.Rigid ∧ right.Rigid) ∧ left ≠ right ∧ accepts left right false = true ∧
      (any left).hasParam = false ∧ (int right).hasParam = false ∧
      accepts (any left) (int right) false = accepts (int right) (any left) false := by
  intro point draw left right any int
  have rigid : left.Rigid := by decide
  have rigid' : right.Rigid := by decide
  refine ⟨⟨rigid, rigid'⟩, by simp [left, right, draw], ?_, rfl, rfl, ?_⟩
  · exact (accepts_equivalence.2.1 left right rigid rigid').2 rfl
  · exact accepts_equivalence.1 (any left) (int right) rfl rfl

end Ty

end TraitEngine
