import TraitEngine.Proofs.Ends
import TraitEngine.Proofs.Occurrence
import TraitEngine.Proofs.PredicateCalls
import TraitEngine.Proofs.Sound.Predicate
import TraitEngine.Workload
import Mathlib.Data.List.Basic
/-!
# What becomes of written arguments

Arguments are applied to a predicate while its receiver is still open, and the receiver is
bound afterwards. Applying puts each written type into its slot as it is, and fills the
other slots from the defaults, for the slots before them (`fillSlots_getElem?`). Binding the
receiver then replaces the receiver parameter in every slot, whether it was written or
filled (`bindReceiver_slots`).

So a default is specialized to the final arguments before it, as it should be. But a written
type keeps its form only if the trait's own receiver parameter does not occur in it, or is
bound to itself (`bindReceiver_apply`). Outside of the trait's own declaration that
parameter is not in scope; inside, `U: Foo<Self>` is recorded as `U: Foo<U>`
(`bindReceiver_captures_ownSelf`).
-/

namespace TraitEngine

set_option autoImplicit false

/-- What the slot of a parameter gets, after the slots before it: the written type, or else
the default for those slots. -/
def TraitParam.argument (p : TraitParam) (before : List ArgSlot) (written : Option Ty) : Ty :=
  written.getD ((p.fallback.map (·.specialize (.of before none))).getD .error)

namespace Predicate

/-! ## Applying arguments -/

theorem fillSlots_cons (done : List ArgSlot) (p : TraitParam) (ps : List TraitParam)
    (types : List Ty) :
    fillSlots done (p :: ps) types =
      fillSlots (done ++ [p.bind (p.argument done types.head?)]) ps types.tail := by
  cases types <;> rfl

theorem take_fillSlots (done : List ArgSlot) (params : List TraitParam) (types : List Ty) :
    (fillSlots done params types).take done.length = done := by
  obtain ⟨new, filled, -⟩ := fillSlots_append params done types
  rw [filled, List.take_left]

/-- The slot of each parameter, in terms of the slots before it. -/
theorem fillSlots_getElem? (params : List TraitParam) :
    ∀ (done : List ArgSlot) (types : List Ty) {i : Nat} {p : TraitParam}, params[i]? = some p →
      (fillSlots done params types)[done.length + i]? =
        some (p.bind (p.argument ((fillSlots done params types).take (done.length + i))
          types[i]?)) := by
  induction params with
  | nil => exact fun _ _ _ _ own => nomatch own
  | cons q qs ih =>
      intro done types i p own
      rw [fillSlots_cons]
      generalize new : q.bind (q.argument done types.head?) = slot
      have grown : (done ++ [slot]).length = done.length + 1 := by simp
      have prefixed := take_fillSlots (done ++ [slot]) qs types.tail
      rw [grown] at prefixed
      cases i with
      | zero =>
          cases own
          have before : (fillSlots (done ++ [slot]) qs types.tail).take done.length = done := by
            have shorter := congrArg (List.take done.length) prefixed
            rwa [List.take_take, Nat.min_eq_left (Nat.le_succ _), List.take_left] at shorter
          have first : (fillSlots (done ++ [slot]) qs types.tail)[done.length]? = some slot := by
            rw [← List.getElem?_take_of_lt (Nat.lt_succ_self _), prefixed,
              List.getElem?_append_right (Nat.le_refl _), Nat.sub_self, List.getElem?_cons_zero]
          rw [Nat.add_zero, first, before, ← List.head?_eq_getElem?, new]
      | succ i =>
          have next := ih (done ++ [slot]) types.tail (List.getElem?_cons_succ ▸ own)
          rw [grown, List.getElem?_tail] at next
          rwa [Nat.add_right_comm] at next

/-! ## Binding the receiver -/

/-- The only binding is that of the receiver. -/
def receiverArgs (self : Param) (receiver : Ty) : ArgList := .of [⟨self, some receiver⟩] none

theorem image_receiverArgs (self q : Param) (receiver : Ty) :
    Ty.image (receiverArgs self receiver).lookup q =
      if q.node = self.node then receiver else .param q := by
  by_cases same : self.node = q.node
  · simp [Ty.image, ArgList.lookup, receiverArgs, ArgList.toList, same]
  · simp [Ty.image, ArgList.lookup, receiverArgs, ArgList.toList, same, Ne.symm same]

/-- A type keeps its form exactly if the receiver does not occur in it or is bound to
itself. -/
theorem specialize_receiverArgs_eq_self_iff (t receiver : Ty) (self : Param) :
    t.specialize (receiverArgs self receiver) = t ↔
      ∀ q ∈ t.occurring, q.node = self.node → receiver = .param q := by
  show t.replace (receiverArgs self receiver).lookup = t ↔ _
  rw [Ty.replace_eq_self_iff]
  simp only [image_receiverArgs]
  refine forall_congr' fun q => forall_congr' fun _ => ?_
  split
  · rename_i same
    exact ⟨fun bound _ => bound, fun bound => bound same⟩
  · rename_i other
    exact ⟨fun _ same => absurd same other, fun _ => rfl⟩

/-- The type of a slot for the receiver. -/
def boundSlot (self : Param) (receiver : Ty) (slot : ArgSlot) : ArgSlot :=
  { slot with ty := slot.ty.map (·.specialize (receiverArgs self receiver)) }

theorem specializeReceiver_rebind (first : ArgSlot) (rest : List ArgSlot) (span : Option Span)
    (receiver : Ty) :
    ((ArgList.of (first :: rest) span).rebind 0 receiver).specializeReceiver =
      .of (⟨first.param, some receiver⟩ :: rest.map (boundSlot first.param receiver)) span :=
  rfl

/-- Binding the receiver replaces it in every other slot, and changes nothing else. -/
theorem bindReceiver_eq {p : Predicate} (fine : p.failed = false) {first : ArgSlot}
    {rest : List ArgSlot} {span : Option Span} (args : p.args = .of (first :: rest) span)
    (receiver : Ty) :
    p.bindReceiver receiver = { p with
      args := .of (⟨first.param, some receiver⟩ :: rest.map (boundSlot first.param receiver))
        span } := by
  rw [bindReceiver, fine, if_neg Bool.false_ne_true, args, specializeReceiver_rebind]

theorem bindReceiver_slots {p : Predicate} (fine : p.failed = false) {self : Param}
    {old : Option Ty} {rest : List ArgSlot} {span : Option Span}
    (args : p.args = .of (⟨self, old⟩ :: rest) span)
    (receiver : Ty) :
    (p.bindReceiver receiver).args.toList =
      ⟨self, some receiver⟩ :: rest.map (boundSlot self receiver) := by
  rw [bindReceiver_eq fine args]
  rfl

/-- What a parameter finds in slots in which `filled` was put in for the receiver, the receiver's
own slot holding `receiver`. -/
theorem lookup_boundSlot (self q : Param) (filled receiver : Ty) (slots : List ArgSlot)
    (span span' : Option Span) :
    (ArgList.of (⟨self, some receiver⟩ :: slots.map (boundSlot self filled)) span).lookup q =
      if q.node = self.node then some receiver
      else ((ArgList.of (⟨self, none⟩ :: slots) span').lookup q).map
        (·.specialize (receiverArgs self filled)) := by
  by_cases same : self.node = q.node
  · simp [ArgList.lookup, ArgList.toList, same]
  · have search : (fun slot : ArgSlot => slot.param.node == q.node) ∘ boundSlot self filled =
        fun slot => slot.param.node == q.node := rfl
    simp only [ArgList.lookup, ArgList.toList, List.find?_cons_of_neg, beq_iff_eq, same,
      Ne.symm same, not_false_eq_true, List.find?_map, search, if_false]
    cases slots.find? _ <;> rfl

theorem lookup_openReceiver {self q : Param} (own : q.node = self.node) (slots : List ArgSlot)
    (span : Option Span) : (ArgList.of (⟨self, none⟩ :: slots) span).lookup q = none := by
  simp [ArgList.lookup, ArgList.toList, own]

/-- Replacing the receiver in what a default has become is specializing the default to slots in
which the receiver is replaced. -/
theorem specialize_boundSlot (d receiver : Ty) (self : Param) (before : List ArgSlot) :
    (d.specialize (.of (⟨self, none⟩ :: before) none)).specialize (receiverArgs self receiver) =
      d.specialize (.of (⟨self, some receiver⟩ :: before.map (boundSlot self receiver)) none) := by
  refine Ty.replace_replace d fun q => ?_
  rw [Ty.image, Ty.image, lookup_boundSlot self q receiver receiver before none none]
  by_cases own : q.node = self.node
  · rw [lookup_openReceiver own, if_pos own]
    show Ty.image (receiverArgs self receiver).lookup q = receiver
    rw [image_receiverArgs, if_pos own]
  · rw [if_neg own]
    cases (ArgList.of (⟨self, none⟩ :: before) none).lookup q with
    | none =>
        show Ty.image (receiverArgs self receiver).lookup q = .param q
        rw [image_receiverArgs, if_neg own]
    | some t => rfl

/-! ## Both together -/

theorem Origin.fresh {o : Origin} {self : TraitParam} {others : List TraitParam}
    (own : o.predicate.params = self :: others) :
    o.predicate.failed = false ∧
      ∃ span, o.predicate.args = .of ((self :: others).map TraitParam.unbound) span := by
  have ofParams_fresh (id : DefId) (params : List TraitParam) (span : Span)
      (own : (Predicate.ofParams id params span).params = self :: others) :
      (Predicate.ofParams id params span).failed = false ∧
        ∃ s, (Predicate.ofParams id params span).args =
          .of ((self :: others).map TraitParam.unbound) s := by
    cases params with
    | nil => cases own
    | cons q qs =>
        obtain ⟨rfl, rfl⟩ := List.cons.inj (show q :: qs = self :: others from own)
        exact ⟨rfl, _, rfl⟩
  cases o with
  | ofTrait t span =>
      simp only [predicate, Predicate.ofTrait] at own ⊢
      split at own
      · exact ofParams_fresh _ _ _ own
      · cases own
  | ofParams id params span => exact ofParams_fresh _ _ _ own
  | error => cases own

/-- Accepted arguments are neither too many nor too few, and fill the slots after the receiver's,
which stays open. -/
theorem apply_accepted {o : Origin} {self : TraitParam} {others : List TraitParam}
    (own : o.predicate.params = self :: others) {applied : AppliedArgs} {p : Predicate}
    (accepted : o.predicate.apply applied = .ok (p, none)) :
    ∃ written new, applied.types = .ok written ∧ written.length ≤ others.length ∧
      requiredCount others ≤ written.length ∧
      fillSlots [self.unbound] others written = self.unbound :: new ∧
      p.failed = false ∧ p.args = .of (self.unbound :: new) (some applied.span) := by
  obtain ⟨fine, span, start⟩ := Origin.fresh own
  obtain ⟨args, slots, -, rfl⟩ | ⟨mismatch, -⟩ := apply_cases accepted
  case inr => cases mismatch
  have first : (o.predicate.args.get? 0).toList = [self.unbound] := by
    rw [start]
    rfl
  simp only [appliedSlots, bind, Except.bind, own, first, List.drop_succ_cons,
    List.drop_zero] at slots
  cases written : applied.types with
  | error cause =>
      rw [written] at slots
      cases slots
  | ok types =>
      rw [written] at slots
      simp only at slots
      split at slots
      · cases slots
      · rename_i fits
        simp only [Bool.or_eq_true, decide_eq_true_eq, not_or, Nat.not_lt] at fits
        obtain ⟨new, filled, -⟩ := fillSlots_append others [self.unbound] types
        refine ⟨types, new, rfl, fits.1, fits.2, filled, fine, ?_⟩
        cases slots
        exact congrArg (ArgList.of · _) filled

/-- Accepted arguments, then a receiver, on a predicate as it comes from its trait. The slots
belong to the parameters, and the first holds the receiver. A slot that was filled from a default
holds the default, specialized to the final slots before it. A slot that was written holds the
written type with the receiver put in for the trait's own receiver parameter; so it is the
written type exactly if that parameter does not occur in it, or stands for itself. -/
theorem bindReceiver_apply {o : Origin} {self : TraitParam} {others : List TraitParam}
    (own : o.predicate.params = self :: others) {applied : AppliedArgs} {p : Predicate}
    (accepted : o.predicate.apply applied = .ok (p, none)) (receiver : Ty) :
    ∃ written slots, applied.types = .ok written ∧ written.length ≤ others.length ∧
      (p.bindReceiver receiver).args.toList = slots ∧
      slots.map ArgSlot.param = (self :: others).map TraitParam.param ∧
      slots[0]? = some ⟨self.param, some receiver⟩ ∧
      (∀ i q, others[i]? = some q → written.length ≤ i → ∃ d, q.fallback = some d ∧
        slots[i + 1]? = some (q.bind (d.specialize (.of (slots.take (i + 1)) none)))) ∧
      ∀ i q t, others[i]? = some q → written[i]? = some t → ∃ recorded,
        slots[i + 1]? = some (q.bind recorded) ∧
        recorded = t.specialize (receiverArgs self.param receiver) ∧
        (recorded = t ↔ ∀ r ∈ t.occurring, r.node = self.param.node → receiver = .param r) := by
  obtain ⟨written, new, types, fits, enough, filled, fine, args⟩ := apply_accepted own accepted
  have each {i : Nat} {q : TraitParam} (there : others[i]? = some q) :
      new[i]? = some (q.bind (q.argument (self.unbound :: new.take i) written[i]?)) := by
    have slot := fillSlots_getElem? others [self.unbound] written there
    rw [filled, List.length_singleton, Nat.add_comm] at slot
    simpa using slot
  refine ⟨written, _, types, fits, bindReceiver_slots fine args receiver, ?_, rfl,
    fun i q there default => ?_, fun i q t there typed => ?_⟩
  · have named := fillSlots_params others [self.unbound] written
    rw [filled] at named
    simpa [boundSlot, Function.comp_def, TraitParam.unbound] using named
  -- Beyond the written arguments every parameter has a default.
  · have past : (others.drop written.length)[i - written.length]? = some q := by
      rw [List.getElem?_drop, Nat.add_sub_cancel' default, there]
    obtain ⟨d, own⟩ := Option.isSome_iff_exists.1
      (fallback_of_required enough q (List.mem_of_getElem? past))
    have slot := each there
    rw [List.getElem?_eq_none default] at slot
    refine ⟨d, own, ?_⟩
    rw [List.getElem?_cons_succ, List.getElem?_map, slot, List.take_succ_cons, ← List.map_take,
      ← specialize_boundSlot]
    simp [boundSlot, TraitParam.argument, own, TraitParam.bind, TraitParam.unbound]
  · have slot := each there
    rw [typed] at slot
    refine ⟨_, ?_, rfl, specialize_receiverArgs_eq_self_iff t receiver self.param⟩
    rw [List.getElem?_cons_succ, List.getElem?_map, slot]
    rfl

/-- `trait Scale<By, Into = Self>`, applied to `u8` for the receiver `bool`: what is written stays,
and the default becomes `bool`. -/
theorem bindReceiver_apply_scale :
    let self : Param := ⟨⟨0⟩, "Self"⟩
    let scale := Predicate.Origin.ofParams ⟨0⟩ [⟨self, none, default⟩, ⟨⟨⟨1⟩, "By"⟩, none, default⟩,
      ⟨⟨⟨2⟩, "Into"⟩, some (.param self), default⟩] default
    let byte : Ty := .prim (.uint .w8)
    ∃ p, scale.predicate.apply ⟨[.type byte], [], default⟩ = .ok (p, none) ∧
      (p.bindReceiver (.prim .bool)).args.toList.map ArgSlot.ty =
        [some (.prim .bool), some byte, some (.prim .bool)] := by
  intro self scale byte
  obtain ⟨p, accepted⟩ : ∃ p, scale.predicate.apply ⟨[.type byte], [], default⟩ = .ok (p, none) :=
    ⟨_, rfl⟩
  obtain ⟨written, slots, types, -, bound, params, first, filled, kept⟩ :=
    bindReceiver_apply rfl accepted (.prim .bool)
  obtain rfl : written = [byte] := by cases types; rfl
  obtain ⟨recorded, second, -, same⟩ := kept 0 _ byte rfl rfl
  obtain rfl : recorded = byte := same.2 nofun
  obtain ⟨d, own, third⟩ := filled 1 _ rfl (Nat.le_refl 1)
  refine ⟨p, accepted, ?_⟩
  have counted := congrArg List.length params
  rw [List.length_map] at counted
  obtain ⟨_, _, _, rfl⟩ := List.length_eq_three.1 counted
  cases first
  cases second
  cases own
  simp only [List.getElem?_cons_succ, List.getElem?_cons_zero, Option.some.injEq] at third
  rw [bound, third]
  rfl

end Predicate

/-- `trait Foo<T> { fn f<U: Foo<Self>>(&self); }`. -/
def ItemTree.boundOnOwnSelf : ItemTree := (empty "main").declareAll [
  .trait "Foo" [.typeParam "T" [] none,
    .method "f" [.self .ref, .typeParam "U" [.mk [.mk "Foo" (some (.mk
      [.type (.path (.ofText "Self"))] [] default))] default]]]]

/-- The bound `U: Foo<Self>` is recorded with the argument `U`: the written `Self` is taken for the
receiver of the bound. -/
theorem ItemTree.bindReceiver_captures_ownSelf :
    let self : Ty := .param ⟨⟨0⟩, "Self"⟩
    let user : Ty := .param ⟨⟨2⟩, "U"⟩
    ∃ handed cx, Request.runAll boundOnOwnSelf [.runPasses [.traits]] { limit := 128 } =
        .ok (handed, cx) ∧ handed ++ cx.problems = [] ∧
      boundOnOwnSelf.lowerTy ⟨[⟨⟨0⟩, "Self"⟩, ⟨⟨1⟩, "T"⟩, ⟨⟨2⟩, "U"⟩]⟩ (.path (.ofText "Self")) cx =
        .ok (self, cx) ∧
      ((cx.bounds.get? ⟨2⟩).getD {}).toList.map (fun p => p.args.toList.map ArgSlot.ty) =
        [[some user, some user]] ∧ self ≠ user := by
  intro self user
  have observed :
      (Request.runAll boundOnOwnSelf [.runPasses [.traits]] { limit := 128 }).toOption.map (fun out => (out.1 ++ out.2.problems,
        ((out.2.bounds.get? ⟨2⟩).getD {}).toList.map fun p => p.args.toList.map ArgSlot.ty)) =
      some ([], [[some user, some user]]) := by
    decide +kernel
  obtain ⟨⟨handed, cx⟩, ran, seen⟩ := ok_of_observed observed
  simp only [Prod.mk.injEq] at seen
  exact ⟨handed, cx, ran, seen.1, rfl, seen.2, by simp [self, user]⟩

end TraitEngine
