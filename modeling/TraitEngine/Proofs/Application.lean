import TraitEngine.Proofs.WrittenArgs
import Mathlib.Data.List.Nodup
/-!
# Applying arguments

Arguments are written as lifetimes first and types after them. What `Predicate.apply` makes
of them is decided in three steps, and this module says what each step decides.

* The first lifetime behind a type is an error (`types_of_misplaces`); without one, the types
  are all that counts (`types_of_not_misplaces`).
* Their number has to lie between the position of the last parameter without a default and
  the number of parameters (`lastRequired_requiredCount`).
* Then each parameter gets its written type or its default. The default is for the slots
  before it, which may come from defaults themselves: a parameter that has such a slot is
  replaced by what the slot holds, all of them at once, and no other parameter is replaced
  (`substitutes_lookup`, `filled_fillSlots`).

`apply_eq` puts the steps together, for any receiver slot and any pattern of defaults.
-/

namespace TraitEngine

set_option autoImplicit false

/-! ## The written arguments -/

namespace AppliedArgs

/-- The lifetime is the first that stands behind a type. -/
def Misplaces (a : AppliedArgs) (lifetime : String) : Prop :=
  ∃ (before : List String) (types : List Ty) (after : List AppliedArg), types ≠ [] ∧
    a.args = before.map .lifetime ++ types.map .type ++ .lifetime lifetime :: after

theorem exists_lifetimes {args : List AppliedArg} (all : ∀ arg ∈ args, arg.lifetime?.isSome) :
    ∃ names : List String, args = names.map .lifetime := by
  induction args with
  | nil => exact ⟨[], rfl⟩
  | cons arg rest ih =>
      obtain ⟨names, rfl⟩ := ih fun other mem => all other (List.mem_cons_of_mem arg mem)
      cases arg with
      | lifetime name => exact ⟨name :: names, rfl⟩
      | type t => cases all _ List.mem_cons_self

theorem exists_types {args : List AppliedArg} (all : ∀ arg ∈ args, arg.lifetime? = Option.none) :
    ∃ types : List Ty, args = types.map .type := by
  induction args with
  | nil => exact ⟨[], rfl⟩
  | cons arg rest ih =>
      obtain ⟨types, rfl⟩ := ih fun other mem => all other (List.mem_cons_of_mem arg mem)
      cases arg with
      | lifetime name => cases all _ List.mem_cons_self
      | type t => exact ⟨t :: types, rfl⟩

/-- The leading lifetimes are skipped, whatever comes behind the first type. -/
theorem dropWhile_lifetimes (before : List String) (rest : List AppliedArg)
    (typed : ∀ arg ∈ rest.head?, arg.lifetime? = Option.none) :
    (before.map AppliedArg.lifetime ++ rest).dropWhile (fun arg => arg.lifetime?.isSome) =
      rest := by
  induction before with
  | nil =>
      cases rest with
      | nil => rfl
      | cons arg rest => simp [typed arg rfl]
  | cons name names ih => simpa [AppliedArg.lifetime?] using ih

theorem types_of_misplaces {a : AppliedArgs} {lifetime : String} (h : a.Misplaces lifetime) :
    a.types = .error (.misplacedLifetime lifetime) := by
  obtain ⟨before, written, after, nonempty, args⟩ := h
  obtain ⟨t, ts, rfl⟩ := List.exists_cons_of_ne_nil nonempty
  have skipped := dropWhile_lifetimes before
    ((t :: ts).map .type ++ .lifetime lifetime :: after) (by simp [AppliedArg.lifetime?])
  have found : ((t :: ts).map AppliedArg.type ++ .lifetime lifetime :: after).findSome?
      AppliedArg.lifetime? = some lifetime := by
    rw [List.findSome?_append, List.findSome?_eq_none_iff.2 (by simp [AppliedArg.lifetime?])]
    rfl
  rw [types, args, List.append_assoc, skipped]
  simp only [found]

theorem types_of_not_misplaces {a : AppliedArgs} (h : ∀ lifetime, ¬ a.Misplaces lifetime) :
    a.types = .ok (a.args.filterMap AppliedArg.type?) := by
  generalize skip : (fun arg : AppliedArg => arg.lifetime?.isSome) = isLifetime
  have whole := List.takeWhile_append_dropWhile (p := isLifetime) (l := a.args)
  obtain ⟨before, leading⟩ : ∃ names : List String,
      a.args.takeWhile isLifetime = names.map .lifetime :=
    exists_lifetimes fun arg mem => by
      have := List.mem_takeWhile_imp mem
      rwa [← skip] at this
  simp only [types, skip]
  cases found : (a.args.dropWhile isLifetime).findSome? AppliedArg.lifetime? with
  | none =>
      have none : (before.map AppliedArg.lifetime).filterMap AppliedArg.type? = [] :=
        List.filterMap_eq_nil_iff.2 (by simp [AppliedArg.type?])
      conv_rhs => rw [← whole, leading, List.filterMap_append, none, List.nil_append]
  | some lifetime =>
      obtain ⟨typed, arg, after, rest, own, earlier⟩ := List.findSome?_eq_some_iff.1 found
      obtain ⟨ts, rfl⟩ := exists_types earlier
      cases arg with
      | type t => cases own
      | lifetime name =>
          cases own
          refine absurd ⟨before, ts, after, ?_, ?_⟩ (h lifetime)
          · -- The rest does not begin with a lifetime, so there is a type before this one.
            rintro rfl
            have head := List.head?_dropWhile_not isLifetime a.args
            rw [rest, ← skip] at head
            simp [AppliedArg.lifetime?] at head
          · rw [List.append_assoc, ← leading, ← rest, whole]

theorem mem_types_iff {a : AppliedArgs} {types : List Ty} (typed : a.types = .ok types) {t : Ty} :
    t ∈ types ↔ .type t ∈ a.args := by
  have placed : ∀ lifetime, ¬ a.Misplaces lifetime := by
    intro lifetime misplaced
    have failed := types_of_misplaces misplaced
    rw [typed] at failed
    cases failed
  rw [types_of_not_misplaces placed] at typed
  cases typed
  rw [List.mem_filterMap]
  constructor
  · rintro ⟨_ | t, mem, own⟩
    · cases own
    · cases own
      exact mem
  · intro mem
    exact ⟨.type t, mem, rfl⟩

end AppliedArgs

namespace Predicate

/-! ## How many types have to be written -/

/-- `m` is the position of the last parameter without a default, counted from one, and zero if
every parameter has a default. -/
structure LastRequired (params : List TraitParam) (m : Nat) : Prop where
  last : ∀ i, m = i + 1 → ∃ q, params[i]? = some q ∧ q.fallback = none
  past : ∀ i q, m ≤ i → params[i]? = some q → q.fallback.isSome

theorem LastRequired.unique {params : List TraitParam} {m m' : Nat}
    (h : LastRequired params m) (h' : LastRequired params m') : m = m' := by
  have le {m m' : Nat} (h : LastRequired params m) (h' : LastRequired params m') : m ≤ m' := by
    by_contra above
    obtain ⟨i, rfl⟩ : ∃ i, m = i + 1 := ⟨m - 1, by omega⟩
    obtain ⟨q, own, none⟩ := h.last i rfl
    have defaulted := h'.past i q (by omega) own
    rw [none] at defaulted
    cases defaulted
  exact Nat.le_antisymm (le h h') (le h' h)

theorem lastRequired_requiredCount (params : List TraitParam) :
    LastRequired params (requiredCount params) where
  past := by
    intro i q past own
    refine fallback_of_required past q (List.mem_of_getElem? (i := 0) ?_)
    rw [List.getElem?_drop, Nat.add_zero, own]
  last := by
    intro i counted
    let defaulted (q : TraitParam) : Bool := q.fallback.isSome
    have split := List.takeWhile_append_dropWhile (p := defaulted) (l := params.reverse)
    have whole : params = (params.reverse.dropWhile defaulted).reverse ++
        (params.reverse.takeWhile defaulted).reverse := by
      rw [← List.reverse_append, split, List.reverse_reverse]
    have length : (params.reverse.dropWhile defaulted).length = i + 1 := by
      have both := congrArg List.length split
      rw [List.length_append, List.length_reverse] at both
      have counted : params.length - (params.reverse.takeWhile defaulted).length = i + 1 := counted
      omega
    have first := List.head?_dropWhile_not defaulted params.reverse
    obtain ⟨q, rest, stop⟩ := List.exists_cons_of_length_eq_add_one length
    rw [stop] at whole first length
    have open_ : q.fallback = none := by simpa [defaulted] using first
    have place : rest.reverse.length = i := by simpa using length
    refine ⟨q, ?_, open_⟩
    rw [whole, List.reverse_cons, List.append_assoc, ← place,
      List.getElem?_append_right (Nat.le_refl _), Nat.sub_self]
    rfl

/-! ## What the slots are filled with -/

/-- What stands for a parameter that has a slot, by its node, is what the slot holds; an open
slot, or none, leaves the parameter as it is. -/
structure Substitutes (slots : List ArgSlot) (value : Param → Option Ty) : Prop where
  slot : ∀ slot ∈ slots, ∀ q, q.node = slot.param.node → value q = slot.ty
  other : ∀ q, (∀ slot ∈ slots, slot.param.node ≠ q.node) → value q = none

theorem substitutes_lookup {slots : List ArgSlot}
    (distinct : (slots.map fun slot => slot.param.node).Nodup) (span : Option Span) :
    Substitutes slots (ArgList.of slots span).lookup where
  slot := by
    intro slot mem q same
    have there : slots.find? (fun slot => slot.param.node == q.node) = some slot := by
      obtain ⟨found, search⟩ := Option.isSome_iff_exists.1 (List.find?_isSome
        (p := fun slot : ArgSlot => slot.param.node == q.node).2
        ⟨slot, mem, beq_iff_eq.2 same.symm⟩)
      have own : found.param.node = slot.param.node :=
        Eq.trans (by simpa using List.find?_some search) same
      rw [search, List.inj_on_of_nodup_map distinct (List.mem_of_find?_eq_some search) mem own]
    simp [ArgList.lookup, ArgList.toList, there]
  other := by
    intro q foreign
    have none : slots.find? (fun slot => slot.param.node == q.node) = Option.none :=
      List.find?_eq_none.2 fun slot mem => by simpa using foreign slot mem
    simp [ArgList.lookup, ArgList.toList, none]

/-- The slots of the parameters after the receiver: the written types, then the defaults, each for
the slots before it. -/
structure Filled (receiver : ArgSlot) (others : List TraitParam) (types : List Ty)
    (slots : List ArgSlot) : Prop where
  params : slots.map ArgSlot.param = others.map TraitParam.param
  written : ∀ (i : Nat) q t, others[i]? = some q → types[i]? = some t → slots[i]? = some (q.bind t)
  defaulted : ∀ (i : Nat) q, others[i]? = some q → types.length ≤ i →
    ∃ d value, q.fallback = some d ∧ Substitutes (receiver :: slots.take i) value ∧
      slots[i]? = some (q.bind (d.replace value))

theorem filled_fillSlots (receiver : ArgSlot) {params : List TraitParam} {types : List Ty}
    (distinct : (receiver.param.node :: params.map fun q => q.param.node).Nodup)
    (enough : requiredCount params ≤ types.length) :
    ∃ slots, fillSlots [receiver] params types = receiver :: slots ∧
      Filled receiver params types slots := by
  obtain ⟨slots, filled, -⟩ := fillSlots_append params [receiver] types
  rw [List.singleton_append] at filled
  have named : slots.map ArgSlot.param = params.map TraitParam.param := by
    have all := fillSlots_params params [receiver] types
    rw [filled] at all
    exact (List.cons.inj all).2
  have each {i : Nat} {q : TraitParam} (own : params[i]? = some q) :
      slots[i]? = some (q.bind (q.argument (receiver :: slots.take i) types[i]?)) := by
    have slot := fillSlots_getElem? params [receiver] types own
    rw [filled, List.length_singleton, Nat.add_comm] at slot
    simpa using slot
  refine ⟨slots, filled, named, fun i q t own written => ?_, fun i q own past => ?_⟩
  · rw [each own, written]
    rfl
  · have defaulted := (lastRequired_requiredCount params).past i q (enough.trans past) own
    obtain ⟨d, default⟩ := Option.isSome_iff_exists.1 defaulted
    refine ⟨d, _, default, substitutes_lookup ?_ none, ?_⟩
    · have nodes : (receiver :: slots.take i).map (fun slot => slot.param.node) =
          (receiver.param.node :: params.map fun q => q.param.node).take (i + 1) := by
        have same := congrArg (List.map Param.node) named
        simp only [List.map_map, Function.comp_def] at same
        rw [List.map_cons, List.map_take, same, List.take_succ_cons]
      rw [nodes]
      exact distinct.sublist (List.take_sublist _ _)
    · rw [each own, List.getElem?_eq_none past]
      simp only [TraitParam.argument, default]
      rfl

/-! ## Applying -/

theorem appliedSlots_of_types {p : Predicate} {self : TraitParam} {others : List TraitParam}
    {first : ArgSlot} (own : p.params = self :: others) (slot : p.args.get? 0 = some first)
    {applied : AppliedArgs} {types : List Ty} (written : applied.types = .ok types) :
    p.appliedSlots applied =
      if others.length < types.length || types.length < requiredCount others then
        .error (.count others.length types.length)
      else .ok (.of (fillSlots [first] others types) (some applied.span)) := by
  simp only [appliedSlots, written, own, slot, bind, Except.bind, List.drop_succ_cons,
    List.drop_zero, Option.toList_some]
  split <;> rfl

/-- With a slot for the receiver, applying does not fault. -/
theorem apply_of_slot {p : Predicate} {self : TraitParam} {others : List TraitParam}
    {first : ArgSlot} (own : p.params = self :: others) (slot : p.args.get? 0 = some first)
    (applied : AppliedArgs) :
    p.apply applied = match p.appliedSlots applied with
      | .ok args => .ok ({ p with args, bindings := applied.bindings }, none)
      | .error mismatch => .ok ({ p with failed := true }, some mismatch) := by
  have slots : p.args.isEmpty = false := by
    simp only [ArgList.isEmpty, List.isEmpty_eq_false_iff]
    intro none
    rw [ArgList.get?, none] at slot
    cases slot
  rw [apply, slots, own]
  rfl

/-- Enough types, and not too many, fill the slots after the first. -/
theorem apply_of_types {p : Predicate} {self : TraitParam} {others : List TraitParam}
    {first : ArgSlot} (own : p.params = self :: others) (slot : p.args.get? 0 = some first)
    {applied : AppliedArgs} {types : List Ty} (written : applied.types = .ok types)
    (fits : types.length ≤ others.length) (enough : requiredCount others ≤ types.length) :
    p.apply applied = .ok ({ p with
      args := .of (fillSlots [first] others types) (some applied.span)
      bindings := applied.bindings }, none) := by
  have accepted :
      ¬ (others.length < types.length || types.length < requiredCount others) = true := by
    simp only [Bool.or_eq_true, decide_eq_true_eq]
    omega
  rw [apply_of_slot own slot, appliedSlots_of_types own slot written, if_neg accepted]

/-- Applying arguments to a predicate over `Self` and other parameters, whatever its receiver slot
holds. -/
theorem apply_eq {p : Predicate} {self : TraitParam} {others : List TraitParam}
    {receiver : Option Ty} (own : p.params = self :: others)
    (slot : p.args.get? 0 = some ⟨self.param, receiver⟩)
    (distinct : (p.params.map fun q => q.param.node).Nodup) (applied : AppliedArgs) :
    let types := applied.args.filterMap AppliedArg.type?
    (∀ lifetime, applied.Misplaces lifetime →
      p.apply applied = .ok ({ p with failed := true }, some (.misplacedLifetime lifetime))) ∧
    ((∀ lifetime, ¬ applied.Misplaces lifetime) → ∃ m, LastRequired others m ∧
      (¬ (m ≤ types.length ∧ types.length ≤ others.length) →
        p.apply applied =
          .ok ({ p with failed := true }, some (.count others.length types.length))) ∧
      (m ≤ types.length → types.length ≤ others.length → ∃ slots,
        p.apply applied = .ok ({ p with
          args := .of (⟨self.param, receiver⟩ :: slots) (some applied.span)
          bindings := applied.bindings }, none) ∧
        Filled ⟨self.param, receiver⟩ others types slots)) := by
  intro types
  rw [apply_of_slot own slot]
  refine ⟨fun lifetime misplaced => ?_, fun placed => ?_⟩
  · have error : p.appliedSlots applied = .error (.misplacedLifetime lifetime) := by
      rw [appliedSlots, AppliedArgs.types_of_misplaces misplaced]
      rfl
    rw [error]
  · rw [appliedSlots_of_types own slot (AppliedArgs.types_of_not_misplaces placed)]
    refine ⟨requiredCount others, lastRequired_requiredCount others, fun outside => ?_,
      fun enough fits => ?_⟩
    · have rejected :
          (others.length < types.length || types.length < requiredCount others) = true := by
        simp only [Bool.or_eq_true, decide_eq_true_eq]
        omega
      rw [if_pos rejected]
    -- As many as are needed and no more: every parameter gets a slot.
    · have accepted :
          ¬ (others.length < types.length || types.length < requiredCount others) = true := by
        simp only [Bool.or_eq_true, decide_eq_true_eq]
        omega
      rw [own, List.map_cons] at distinct
      obtain ⟨slots, filled, each⟩ := filled_fillSlots ⟨self.param, receiver⟩ distinct enough
      refine ⟨slots, ?_, each⟩
      rw [if_neg accepted, filled]

/-- `trait Build<A = Self, B, C = (A, Self), D = [C]>` with an open receiver, applied to a lifetime
and two types. The default of `A` does not make `A` optional, as `B` has none; the default of `D`
is for the slot that the default of `C` has filled. -/
theorem apply_eq_chained :
    let self : Param := ⟨⟨0⟩, "Self"⟩
    let param (node : Nat) (name : String) (fallback : Option Ty) : TraitParam :=
      ⟨⟨⟨node⟩, name⟩, fallback, default⟩
    let a := param 1 "A" (some (.param self))
    let b := param 2 "B" none
    let c := param 3 "C" (some (.tuple [.param a.param, .param self]))
    let d := param 4 "D" (some (.slice (.param c.param)))
    let bool : Ty := .prim .bool
    let pair : Ty := .tuple [bool, .param self]
    let build := ofParams ⟨0⟩ [⟨self, none, default⟩, a, b, c, d] default
    let applied : AppliedArgs := ⟨[.lifetime "l", .type bool, .type .never], [], default⟩
    ∃ q m, build.apply applied = .ok (q, none) ∧ LastRequired [a, b, c, d] m ∧ m = 2 ∧
      q.args.toList.map ArgSlot.ty =
        [none, some bool, some .never, some pair, some (.slice pair)] := by
  intro self param a b c d bool pair build applied
  have placed (lifetime : String) : ¬ applied.Misplaces lifetime := by
    intro misplaced
    have types := AppliedArgs.types_of_misplaces misplaced
    cases types
  obtain ⟨m, required, -, filled⟩ := (apply_eq (p := build) rfl rfl (by decide) applied).2 placed
  obtain rfl : m = 2 := required.unique (lastRequired_requiredCount [a, b, c, d])
  obtain ⟨slots, taken, each⟩ := filled (by decide) (by decide)
  refine ⟨_, _, taken, required, rfl, ?_⟩
  have evaluated : (build.apply applied).toOption.map (fun out => out.1.args.toList) =
      some [⟨self, none⟩, a.bind bool, b.bind .never, c.bind pair, d.bind (.slice pair)] := by
    decide +kernel
  rw [taken] at evaluated
  cases evaluated
  rfl

end Predicate

end TraitEngine
