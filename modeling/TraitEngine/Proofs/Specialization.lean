import TraitEngine.Proofs.WrittenArgs
import Mathlib.Data.List.Forall2
/-!
# What specializing makes of a type

Specializing, the search for parameters and the search for the error type each walk over a
type on their own. This module says how they fit together.

* `Ty.Replaced value t u` says, form by form, that `u` is `t` with `value p` in the place of
  each parameter `p`. For every `t` there is exactly one such `u` (`replaced_iff`), so the
  relation tells what replacing all parameters at once is without the function that does it.
* Two argument lists in a row are one replacement (`specialize_specialize`): what the first
  list puts in is specialized to the second, and what it leaves the second gets.
* A specialized type has an error exactly where the type had one or an argument brings one,
  and a parameter exactly where one was left or an argument brings one
  (`hasError_hasParam_specialize`). So the type of a trait's item is free of both once there
  is an argument for every parameter in it. The own parameters of a generic method have no
  slot, and stay.
-/

namespace TraitEngine

set_option autoImplicit false

namespace Ty

/-! ## Replacing all parameters at once -/

mutual

/-- The second type is the first with `value p` in the place of each parameter `p`. The own
parameters of a function are names, and stay. -/
inductive Replaced (value : Param → Ty) : Ty → Ty → Prop where
  | param (p : Param) : Replaced value (.param p) (value p)
  | prim (p : Primitive) : Replaced value (.prim p) (.prim p)
  | never : Replaced value .never .never
  | tuple {ts us : List Ty} (elems : List.Forall₂ (Replaced value) ts us) :
      Replaced value (.tuple ts) (.tuple us)
  | adt (id : DefId) (name : String) {ts us : List Ty}
      (args : List.Forall₂ (Replaced value) ts us) :
      Replaced value (.adt id name ts) (.adt id name us)
  | pointer (kind : PointerKind) (m : Mutability) {t u : Ty} (inner : Replaced value t u) :
      Replaced value (.pointer kind m t) (.pointer kind m u)
  | array (length : Nat) {t u : Ty} (elem : Replaced value t u) :
      Replaced value (.array t length) (.array u length)
  | slice {t u : Ty} (elem : Replaced value t u) : Replaced value (.slice t) (.slice u)
  | fn (name : String) (own : List Param) {r s : Option Ty} {ps qs : List Ty} {t u : Ty}
      (receiver : Option.Rel (Replaced value) r s)
      (params : List.Forall₂ (Replaced value) ps qs) (ret : Replaced value t u) :
      Replaced value (.fn name r ps t own) (.fn name s qs u own)
  | placeholder (id : DefId) (name : String) :
      Replaced value (.placeholder id name) (.placeholder id name)
  | projection (id : DefId) (traitName name : String) {t u : Ty} (self : Replaced value t u) :
      Replaced value (.projection t id traitName name) (.projection u id traitName name)
  | dyn {bs cs : List DynBound} (bounds : List.Forall₂ (ReplacedBound value) bs cs) :
      Replaced value (.dyn bs) (.dyn cs)
  | infer (c : InferClass) : Replaced value (.infer c) (.infer c)
  | error : Replaced value .error .error

inductive ReplacedBound (value : Param → Ty) : DynBound → DynBound → Prop where
  | mk (id : DefId) (name : String) {ts us : List Ty}
      (args : List.Forall₂ (Replaced value) ts us) :
      ReplacedBound value (.mk id name ts) (.mk id name us)

end

section

variable {lookup : Param → Option Ty}

mutual

theorem Replaced.eq_replace : ∀ {t u : Ty}, Replaced (image lookup) t u → u = t.replace lookup
  | .param _, _, .param _ | .prim _, _, .prim _ | .never, _, .never | .infer _, _, .infer _
  | .placeholder .., _, .placeholder .. | .error, _, .error => rfl
  | .tuple _, _, .tuple elems => by rw [replace, eq_replaceList elems]
  | .adt .., _, .adt _ _ args => by rw [replace, eq_replaceList args]
  | .pointer .., _, .pointer _ _ inner => by rw [replace, inner.eq_replace]
  | .array .., _, .array _ elem => by rw [replace, elem.eq_replace]
  | .slice _, _, .slice elem => by rw [replace, elem.eq_replace]
  | .fn .., _, .fn _ _ receiver params ret => by
      rw [replace, eq_replaceOption receiver, eq_replaceList params, ret.eq_replace]
  | .projection .., _, .projection _ _ _ self => by rw [replace, self.eq_replace]
  | .dyn _, _, .dyn bounds => by rw [replace, eq_replaceBounds bounds]

theorem eq_replaceList : ∀ {ts us : List Ty}, List.Forall₂ (Replaced (image lookup)) ts us →
    us = replaceList lookup ts
  | [], _, .nil => rfl
  | _ :: _, _, .cons first rest => by rw [replaceList, first.eq_replace, eq_replaceList rest]

theorem eq_replaceOption : ∀ {t u : Option Ty}, Option.Rel (Replaced (image lookup)) t u →
    u = replaceOption lookup t
  | none, _, .none => rfl
  | some _, _, .some inner => by rw [replaceOption, inner.eq_replace]

theorem eq_replaceBounds : ∀ {bs cs : List DynBound},
    List.Forall₂ (ReplacedBound (image lookup)) bs cs → cs = replaceBounds lookup bs
  | [], _, .nil => rfl
  | _ :: _, _, .cons first rest => by
      rw [replaceBounds, first.eq_replaceBound, eq_replaceBounds rest]

theorem ReplacedBound.eq_replaceBound : ∀ {b c : DynBound}, ReplacedBound (image lookup) b c →
    c = replaceBound lookup b
  | .mk .., _, .mk _ _ args => by rw [replaceBound, eq_replaceList args]

end

mutual

theorem replaced_replace : ∀ t : Ty, Replaced (image lookup) t (t.replace lookup)
  | .param p => .param p
  | .prim p => .prim p
  | .never => .never
  | .tuple ts => .tuple (forall₂_replaceList ts)
  | .adt id name ts => .adt id name (forall₂_replaceList ts)
  | .pointer kind m t => .pointer kind m (replaced_replace t)
  | .array t length => .array length (replaced_replace t)
  | .slice t => .slice (replaced_replace t)
  | .fn name r ps t own =>
      .fn name own (rel_replaceOption r) (forall₂_replaceList ps) (replaced_replace t)
  | .placeholder id name => .placeholder id name
  | .projection t id traitName name => .projection id traitName name (replaced_replace t)
  | .dyn bs => .dyn (forall₂_replaceBounds bs)
  | .infer c => .infer c
  | .error => .error

theorem forall₂_replaceList : ∀ ts : List Ty,
    List.Forall₂ (Replaced (image lookup)) ts (replaceList lookup ts)
  | [] => .nil
  | t :: ts => .cons (replaced_replace t) (forall₂_replaceList ts)

theorem rel_replaceOption : ∀ t : Option Ty,
    Option.Rel (Replaced (image lookup)) t (replaceOption lookup t)
  | none => .none
  | some t => .some (replaced_replace t)

theorem forall₂_replaceBounds : ∀ bs : List DynBound,
    List.Forall₂ (ReplacedBound (image lookup)) bs (replaceBounds lookup bs)
  | [] => .nil
  | b :: bs => .cons (replacedBound_replaceBound b) (forall₂_replaceBounds bs)

theorem replacedBound_replaceBound : ∀ b : DynBound,
    ReplacedBound (image lookup) b (replaceBound lookup b)
  | .mk id name ts => .mk id name (forall₂_replaceList ts)

end

/-- Replacing does what the relation says, and nothing else does. -/
theorem replaced_iff {t u : Ty} : Replaced (image lookup) t u ↔ u = t.replace lookup := by
  constructor
  · exact Replaced.eq_replace
  · rintro rfl
    exact replaced_replace t

end

end Ty

/-! ## Two argument lists in a row -/

/-- What comes of a parameter under one list and then another: what the first puts in is
specialized to the second, and what the first leaves is up to the second. -/
def ArgList.andThen (first second : ArgList) (p : Param) : Ty :=
  match first.lookup p with
  | some t => t.specialize second
  | none => (second.lookup p).getD (.param p)

namespace Ty

/-- Specializing twice is replacing each parameter once, by what comes of it under both lists. A
list that binds no parameter of the type changes nothing. -/
theorem specialize_specialize (t : Ty) (slots slots' : List ArgSlot) (span span' : Option Span) :
    let first := ArgList.of slots span
    let second := ArgList.of slots' span'
    (∀ u, Replaced (first.andThen second) t u ↔ u = (t.specialize first).specialize second) ∧
      ((∀ p ∈ t.occurring, first.lookup p = none) → t.specialize first = t) := by
  intro first second
  constructor
  · intro u
    have composed : ∀ p, (image first.lookup p).replace second.lookup =
        image (fun p => some (first.andThen second p)) p := by
      intro p
      show _ = first.andThen second p
      unfold image ArgList.andThen
      cases first.lookup p <;> rfl
    have twice : (t.specialize first).specialize second =
        t.replace fun p => some (first.andThen second p) :=
      replace_replace t composed
    rw [twice]
    show Replaced (image fun p => some (first.andThen second p)) t u ↔ _
    exact replaced_iff
  · intro unbound
    apply replace_eq_self_iff.2
    intro p mem
    rw [image, unbound p mem, Option.getD_none]

/-- The first slot of `T` is open and hides the next, so the second list decides on `T`, also where
the first put it in for `U`. -/
theorem specialize_specialize_hidden :
    let t : Param := ⟨⟨0⟩, "T"⟩
    let u : Param := ⟨⟨1⟩, "U"⟩
    let char : Ty := .prim .char
    let first := ArgList.of [⟨t, none⟩, ⟨t, some .never⟩, ⟨u, some (.slice (.param t))⟩] none
    let second := ArgList.of [⟨t, some char⟩, ⟨u, some .never⟩] none
    let into (a b : Ty) : Ty := .dyn [.mk ⟨0⟩ "Into" [.tuple [a, b]]]
    Replaced (first.andThen second) (into (.param t) (.param u)) (into char (.slice char)) ∧
      first.lookup t = none ∧ (into (.param t) .never).specialize first = into (.param t) .never := by
  intro t u char first second into
  refine ⟨?_, rfl, ?_⟩
  · exact ((specialize_specialize _ _ _ none none).1 _).2 rfl
  · apply (specialize_specialize _ _ [] none none).2
    intro p mem
    obtain rfl : p = t := by simpa [into, occurring, occurringBounds, occurringBound,
      occurringList] using mem
    rfl

/-! ## Parameters and errors -/

mutual

/-- A type has a parameter if one occurs in it. -/
theorem hasParam_iff : ∀ t : Ty, t.hasParam = true ↔ ∃ p, p ∈ t.occurring
  | .param p => by simp [hasParam, occurring]
  | .tuple ts | .adt _ _ ts => by simpa only [hasParam, occurring] using hasParamList_iff ts
  | .pointer _ _ t | .array t _ | .slice t | .projection t .. => by
      simpa only [hasParam, occurring] using hasParam_iff t
  | .fn _ r ps t _ => by
      simp only [hasParam, occurring, Bool.or_eq_true, List.mem_append, exists_or,
        hasParamOption_iff r, hasParamList_iff ps, hasParam_iff t, or_assoc]
  | .dyn bs => by simpa only [hasParam, occurring] using hasParamBounds_iff bs
  | .prim _ | .never | .placeholder .. | .infer _ | .error => by simp [hasParam, occurring]

theorem hasParamList_iff : ∀ ts : List Ty,
    hasParamList ts = true ↔ ∃ p, p ∈ occurringList ts
  | [] => by simp [hasParamList, occurringList]
  | t :: ts => by
      simp only [hasParamList, occurringList, Bool.or_eq_true, List.mem_append, exists_or,
        hasParam_iff t, hasParamList_iff ts]

theorem hasParamOption_iff : ∀ t : Option Ty,
    hasParamOption t = true ↔ ∃ p, p ∈ occurringOption t
  | none => by simp [hasParamOption, occurringOption]
  | some t => by simpa only [hasParamOption, occurringOption] using hasParam_iff t

theorem hasParamBounds_iff : ∀ bs : List DynBound,
    hasParamBounds bs = true ↔ ∃ p, p ∈ occurringBounds bs
  | [] => by simp [hasParamBounds, occurringBounds]
  | b :: bs => by
      simp only [hasParamBounds, occurringBounds, Bool.or_eq_true, List.mem_append, exists_or,
        hasParamBound_iff b, hasParamBounds_iff bs]

theorem hasParamBound_iff : ∀ b : DynBound,
    hasParamBound b = true ↔ ∃ p, p ∈ occurringBound b
  | .mk _ _ ts => by simpa only [hasParamBound, occurringBound] using hasParamList_iff ts

end

section

variable {lookup : Param → Option Ty}

mutual

/-- An error is there before or is brought in with an image. -/
theorem hasError_replace : ∀ t : Ty, (t.replace lookup).hasError = true ↔
    t.hasError = true ∨ ∃ p ∈ t.occurring, (image lookup p).hasError = true
  | .param p => by simp [replace, hasError, occurring, image]
  | .tuple ts | .adt _ _ ts => by
      simpa only [replace, hasError, occurring] using hasErrorList_replace ts
  | .pointer _ _ t | .array t _ | .slice t | .projection t .. => by
      simpa only [replace, hasError, occurring] using hasError_replace t
  | .fn _ r ps t _ => by
      simp only [replace, hasError, occurring, Bool.or_eq_true, List.mem_append, or_and_right,
        exists_or, hasErrorOption_replace r, hasErrorList_replace ps, hasError_replace t,
        or_assoc, or_left_comm]
  | .dyn bs => by simpa only [replace, hasError, occurring] using hasErrorBounds_replace bs
  | .prim _ | .never | .placeholder .. | .infer _ | .error => by
      simp [replace, hasError, occurring]

theorem hasErrorList_replace : ∀ ts : List Ty, hasErrorList (replaceList lookup ts) = true ↔
    hasErrorList ts = true ∨ ∃ p ∈ occurringList ts, (image lookup p).hasError = true
  | [] => by simp [replaceList, hasErrorList, occurringList]
  | t :: ts => by
      simp only [replaceList, hasErrorList, occurringList, Bool.or_eq_true, List.mem_append,
        or_and_right, exists_or, hasError_replace t, hasErrorList_replace ts]
      exact or_or_or_comm

theorem hasErrorOption_replace : ∀ t : Option Ty,
    hasErrorOption (replaceOption lookup t) = true ↔
      hasErrorOption t = true ∨ ∃ p ∈ occurringOption t, (image lookup p).hasError = true
  | none => by simp [replaceOption, hasErrorOption, occurringOption]
  | some t => by
      simpa only [replaceOption, hasErrorOption, occurringOption] using hasError_replace t

theorem hasErrorBounds_replace : ∀ bs : List DynBound,
    hasErrorBounds (replaceBounds lookup bs) = true ↔
      hasErrorBounds bs = true ∨ ∃ p ∈ occurringBounds bs, (image lookup p).hasError = true
  | [] => by simp [replaceBounds, hasErrorBounds, occurringBounds]
  | b :: bs => by
      simp only [replaceBounds, hasErrorBounds, occurringBounds, Bool.or_eq_true, List.mem_append,
        or_and_right, exists_or, hasErrorBound_replace b, hasErrorBounds_replace bs]
      exact or_or_or_comm

theorem hasErrorBound_replace : ∀ b : DynBound, hasErrorBound (replaceBound lookup b) = true ↔
    hasErrorBound b = true ∨ ∃ p ∈ occurringBound b, (image lookup p).hasError = true
  | .mk _ _ ts => by
      simpa only [replaceBound, hasErrorBound, occurringBound] using hasErrorList_replace ts

end

/-- A parameter is left where one stands for itself or for a type that has one. -/
theorem hasParam_replace (t : Ty) : (t.replace lookup).hasParam = true ↔
    ∃ p ∈ t.occurring, (image lookup p).hasParam = true := by
  rw [hasParam_iff]
  constructor
  · rintro ⟨q, mem⟩
    obtain ⟨p, occurs, mem⟩ := (mem_occurring_replace t).1 mem
    exact ⟨p, occurs, (hasParam_iff _).2 ⟨q, mem⟩⟩
  · rintro ⟨p, occurs, left⟩
    obtain ⟨q, mem⟩ := (hasParam_iff _).1 left
    exact ⟨q, (mem_occurring_replace t).2 ⟨p, occurs, mem⟩⟩

end

/-- Neither a parameter nor the error type is in the type. -/
def Concrete (t : Ty) : Prop := t.hasParam = false ∧ t.hasError = false

instance (t : Ty) : Decidable t.Concrete := inferInstanceAs (Decidable (_ ∧ _))

theorem not_mem_occurring {t : Ty} (closed : t.hasParam = false) (p : Param) :
    p ∉ t.occurring := by
  intro mem
  have some := (hasParam_iff t).2 ⟨p, mem⟩
  rw [closed] at some
  cases some

end Ty

namespace ArgList

/-- Each slot after the receiver's is bound to a concrete type, and each parameter of the type
has a slot. -/
structure Completes (args : ArgList) (t : Ty) : Prop where
  bound : ∀ slot ∈ args.written, ∃ u, slot.ty = some u ∧ u.Concrete
  slot : ∀ p ∈ t.occurring, ∃ slot ∈ args.toList, slot.param.node = p.node

/-- If all slots are bound to concrete types, so is each parameter that has a slot. -/
theorem lookup_concrete {args : ArgList}
    (bound : ∀ slot ∈ args.toList, ∃ u, slot.ty = some u ∧ u.Concrete) {p : Param}
    (slot : ∃ slot ∈ args.toList, slot.param.node = p.node) :
    ∃ u, args.lookup p = some u ∧ u.Concrete := by
  obtain ⟨slot, mem, node⟩ := slot
  have there : (args.toList.find? fun slot => slot.param.node == p.node).isSome := by
    apply List.find?_isSome.2
    exact ⟨slot, mem, beq_iff_eq.2 node⟩
  obtain ⟨first, found⟩ := Option.isSome_iff_exists.1 there
  obtain ⟨u, own, concrete⟩ := bound first (List.mem_of_find?_eq_some found)
  refine ⟨u, ?_, concrete⟩
  rw [lookup, found, Option.bind_some, own]

/-- Putting in a concrete receiver leaves the other slots as they are. -/
theorem concrete_specializeReceiver {args : ArgList} {receiver : Ty} (concrete : receiver.Concrete)
    (bound : ∀ slot ∈ args.written, ∃ u, slot.ty = some u ∧ u.Concrete) :
    ∀ slot ∈ (args.rebind 0 receiver).specializeReceiver.toList,
      ∃ u, slot.ty = some u ∧ u.Concrete := by
  cases args with
  | invalid => exact nofun
  | of slots span =>
      cases slots with
      | nil => exact nofun
      | cons first rest =>
          rw [Predicate.specializeReceiver_rebind]
          intro slot mem
          rcases List.mem_cons.1 mem with rfl | mem
          · exact ⟨receiver, rfl, concrete⟩
          · obtain ⟨old, there, rfl⟩ := List.mem_map.1 mem
            obtain ⟨u, own, closed, fine⟩ := bound old there
            have same : u.specialize (Predicate.receiverArgs first.param receiver) = u := by
              apply (Predicate.specialize_receiverArgs_eq_self_iff u receiver first.param).2
              intro q occurs
              exact absurd occurs (Ty.not_mem_occurring closed q)
            refine ⟨u, ?_, closed, fine⟩
            rw [Predicate.boundSlot, own, Option.map_some, same]

end ArgList

namespace Ty

section

variable {t : Ty} {args : ArgList} (valid : args.isInvalid = false)
include valid

/-- A list of arguments that fits replaces its parameters. -/
theorem specialize_of_valid : t.specialize args = t.replace args.lookup := by
  rw [specialize, valid, if_neg Bool.false_ne_true]

/-- An argument brings its error in only if its parameter occurs. -/
theorem hasError_specialize : (t.specialize args).hasError = true ↔
    t.hasError = true ∨ ∃ p ∈ t.occurring, ∃ u, args.lookup p = some u ∧ u.hasError = true := by
  rw [specialize_of_valid valid, hasError_replace]
  refine or_congr_right (exists_congr fun p => and_congr_right fun _ => ?_)
  cases found : args.lookup p with
  | none => simp [image, found, hasError]
  | some u => simp [image, found]

/-- A parameter is left if one that occurs is not filled, or is filled with a type that has
one. -/
theorem hasParam_specialize : (t.specialize args).hasParam = true ↔ ∃ p ∈ t.occurring,
    args.lookup p = none ∨ ∃ u, args.lookup p = some u ∧ u.hasParam = true := by
  rw [specialize_of_valid valid, hasParam_replace]
  refine exists_congr fun p => and_congr_right fun _ => ?_
  cases found : args.lookup p with
  | none => simp [image, found, hasParam]
  | some u => simp [image, found]

/-- A type with all its parameters filled by concrete types is concrete. -/
theorem specialize_concrete
    (each : ∀ p ∈ t.occurring, ∃ u, args.lookup p = some u ∧ u.Concrete) :
    (t.specialize args).hasParam = false ∧
      (t.hasError = false → (t.specialize args).hasError = false) := by
  constructor
  · rw [← Bool.not_eq_true, hasParam_specialize valid]
    rintro ⟨p, occurs, left⟩
    obtain ⟨u, bound, closed, -⟩ := each p occurs
    simp [bound, closed] at left
  · intro declared
    rw [← Bool.not_eq_true, hasError_specialize valid]
    rintro (own | ⟨p, occurs, brought⟩)
    · simp [declared] at own
    · obtain ⟨u, bound, -, sound⟩ := each p occurs
      simp [bound, sound] at brought

end

end Ty

namespace Member

/-- Without parameters nothing is replaced. -/
theorem typeFor_of_isEmpty {m : Member} (fine : m.item.isError = false)
    (none : m.bound.args.isEmpty = true) (receiver : Ty) : m.typeFor receiver = m.item.ty := by
  simp [typeFor, fine, none]

/-- The receiver is put into a copy of the slots, and the declared type is specialized to it. -/
theorem typeFor_of_slots {m : Member} (fine : m.item.isError = false) (kind : m.item.kind ≠ .type)
    (some : m.bound.args.isEmpty = false) (receiver : Ty) :
    m.typeFor receiver =
      m.item.ty.specialize (m.bound.args.rebind 0 receiver).specializeReceiver := by
  simp [typeFor, fine, some, kind]

/-- With a concrete argument for each of its parameters, the type of an item is left without
parameters, and has an error only if it was declared with one. -/
theorem typeFor_concrete {m : Member} (fine : m.item.isError = false) (kind : m.item.kind ≠ .type)
    {receiver : Ty} (concrete : receiver.Concrete)
    (complete : m.bound.args.Completes m.item.ty) :
    (m.typeFor receiver).hasParam = false ∧
      (m.item.ty.hasError = false → (m.typeFor receiver).hasError = false) := by
  cases empty : m.bound.args.isEmpty with
  | true =>
      rw [typeFor_of_isEmpty fine empty]
      refine ⟨?_, id⟩
      -- Without slots there is none for a parameter, so no parameter occurs.
      rw [← Bool.not_eq_true, Ty.hasParam_iff]
      rintro ⟨p, occurs⟩
      obtain ⟨slot, mem, -⟩ := complete.slot p occurs
      rw [ArgList.isEmpty, List.isEmpty_iff] at empty
      rw [empty] at mem
      cases mem
  | false =>
      rw [typeFor_of_slots fine kind empty]
      apply Ty.specialize_concrete
      · cases args : m.bound.args with
        | invalid => simp [args, ArgList.isEmpty, ArgList.toList] at empty
        | of slots span => rfl
      · intro p occurs
        apply ArgList.lookup_concrete (ArgList.concrete_specializeReceiver concrete complete.bound)
        obtain ⟨slot, mem, node⟩ := complete.slot p occurs
        have named : slot.param ∈ (m.bound.args.rebind 0 receiver).specializeReceiver.params := by
          rw [ArgList.params_specializeReceiver, ArgList.params_rebind]
          exact List.mem_map_of_mem mem
        obtain ⟨new, there, own⟩ := List.mem_map.1 named
        exact ⟨new, there, own ▸ node⟩

end Member

namespace Ty

/-- The three walks over a type agree on what is in it. So a type for whose parameters there are
concrete arguments is left without parameters, and has an error only if it had one before; and so
is the type that a trait's item gets for a concrete receiver. -/
theorem hasError_hasParam_specialize :
    (∀ (t : Ty) (slots : List ArgSlot) (span : Option Span),
      let args := ArgList.of slots span
      ((t.specialize args).hasError = true ↔ t.hasError = true ∨
        ∃ p ∈ t.occurring, ∃ u, args.lookup p = some u ∧ u.hasError = true) ∧
      ((t.specialize args).hasParam = true ↔ ∃ p ∈ t.occurring,
        args.lookup p = none ∨ ∃ u, args.lookup p = some u ∧ u.hasParam = true) ∧
      ((∀ p ∈ t.occurring, ∃ u, args.lookup p = some u ∧ u.Concrete) →
        (t.specialize args).hasParam = false ∧
          (t.hasError = false → (t.specialize args).hasError = false))) ∧
    ∀ (m : Member) (receiver : Ty), m.item.isError = false → m.item.kind ≠ .type →
      receiver.Concrete → m.bound.args.Completes m.item.ty →
      (m.typeFor receiver).hasParam = false ∧
        (m.item.ty.hasError = false → (m.typeFor receiver).hasError = false) := by
  constructor
  · intro t slots span args
    exact ⟨hasError_specialize rfl, hasParam_specialize rfl, specialize_concrete rfl⟩
  · intro m receiver fine kind concrete complete
    exact m.typeFor_concrete fine kind concrete complete

/-- An item `fn fill(&self, with: [T]) -> dyn Fill<T>` of `trait Fill<T>`, for `T = char`. -/
theorem hasError_hasParam_specialize_fill :
    let self : Param := ⟨⟨0⟩, "Self"⟩
    let elem : Param := ⟨⟨1⟩, "T"⟩
    let char : Ty := .prim .char
    let fill : Member := {
      bound := { Predicate.ofParams ⟨0⟩ [⟨self, none, default⟩, ⟨elem, none, default⟩] default with
        args := .of [⟨self, none⟩, ⟨elem, some char⟩] none }
      item := ⟨"fill", false, .fn, some ⟨2⟩, .fn "fill" (some (.ref (.param self)))
        [.slice (.param elem)] (.dyn [.mk ⟨0⟩ "Fill" [.param elem]]) [], .param self, [],
        default⟩ }
    fill.bound.args.Completes fill.item.ty ∧ fill.item.ty.hasParam = true ∧
      (fill.typeFor .never).hasParam = false ∧ (fill.typeFor .never).hasError = false ∧
      (fill.item.ty.specialize (.of [⟨self, some char⟩, ⟨elem, some .never⟩] none)).Concrete := by
  intro self elem char fill
  have occurring : fill.item.ty.occurring = [self, elem, elem] := rfl
  have complete : fill.bound.args.Completes fill.item.ty := by
    constructor
    · intro slot mem
      rw [List.mem_singleton.1 mem]
      exact ⟨char, rfl, rfl, rfl⟩
    · rw [occurring]
      decide
  have typed := hasError_hasParam_specialize.2 fill .never rfl (by decide) ⟨rfl, rfl⟩ complete
  have swapped := (hasError_hasParam_specialize.1 fill.item.ty
    [⟨self, some char⟩, ⟨elem, some .never⟩] none).2.2 (by
      rw [occurring]
      intro p mem
      rcases List.mem_cons.1 mem with rfl | mem
      · exact ⟨char, rfl, rfl, rfl⟩
      · obtain rfl : p = elem := by simpa using mem
        exact ⟨.never, rfl, rfl, rfl⟩)
  exact ⟨complete, rfl, typed.1, typed.2 rfl, swapped.1, swapped.2 rfl⟩

end Ty

end TraitEngine
