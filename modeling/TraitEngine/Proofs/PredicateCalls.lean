import TraitEngine.Proofs.Predicate
/-!
# Predicates under sequences of calls

A predicate comes from a resolved trait, from the parameters of a declaration, or is the
error predicate; then its receiver is bound and arguments are applied to it, in any order
and any number of times, also after a mismatch.

What one call does is `Onward`: the trait, the parameters and the place stay, the flag is
not taken back, and a predicate that was regular before is so afterwards. Regular means
that the slots belong to the parameters, one by one (`Aligned`), or that there is neither a
trait nor a parameter. All origins are regular
(`Origin.regular`), which tells the calls that fault from those that do not.
-/

namespace TraitEngine

set_option autoImplicit false

namespace ArgList

/-- The parameters that the slots belong to. -/
def params (args : ArgList) : List Param := args.toList.map ArgSlot.param

@[simp] theorem isInvalid_mapSlots (f : List ArgSlot → List ArgSlot) (args : ArgList) :
    (args.mapSlots f).isInvalid = args.isInvalid := by
  cases args <;> rfl

@[simp] theorem params_rebind (args : ArgList) (i : Nat) (t : Ty) :
    (args.rebind i t).params = args.params := by
  cases args with
  | invalid => rfl
  | of slots span =>
      refine List.ext_getElem (by simp [params, rebind, mapSlots, toList]) fun j _ _ => ?_
      simp only [params, rebind, mapSlots, toList, List.getElem_map, List.getElem_modify]
      split <;> rfl

@[simp] theorem params_specializeReceiver (args : ArgList) :
    args.specializeReceiver.params = args.params := by
  cases args with
  | invalid => rfl
  | of slots span =>
      cases slots <;> simp [params, specializeReceiver, mapArgs, mapSlots, toList]

theorem length_params (args : ArgList) : args.params.length = args.length := by
  simp [params, length]

theorem isEmpty_eq_false_iff (args : ArgList) : args.isEmpty = false ↔ args.params ≠ [] := by
  simp [isEmpty, params]

end ArgList

namespace Predicate

/-! ## Origins and calls -/

/-- What a predicate is made from. -/
inductive Origin where
  | ofTrait (t : TraitRef) (span : Span)
  | ofParams (id : DefId) (params : List TraitParam) (span : Span)
  | error

namespace Origin

def predicate : Origin → Predicate
  | .ofTrait t span => Predicate.ofTrait t span
  | .ofParams id params span => Predicate.ofParams id params span
  | .error => Predicate.error

/-- There is no parameter, so the origin gives the error predicate. -/
def Paramless : Origin → Prop
  | .ofTrait t _ => t.id = none ∨ t.params = []
  | .ofParams _ params _ => params = []
  | .error => True

end Origin

inductive Call where
  | bindReceiver (receiver : Ty)
  | apply (applied : AppliedArgs)

/-- The predicate after a call, with a mismatch or without. -/
def perform (p : Predicate) : Call → Except Fault Predicate
  | .bindReceiver receiver => .ok (p.bindReceiver receiver)
  | .apply applied => (p.apply applied).map Prod.fst

def performAll (p : Predicate) (calls : List Call) : Except Fault Predicate :=
  calls.foldlM perform p

/-! ## Slots and parameters -/

/-- There are slots, and they belong to the parameters, one by one. -/
structure Aligned (p : Predicate) : Prop where
  valid : p.args.isInvalid = false
  some : 1 ≤ p.args.length
  length : p.args.length = p.params.length
  params : p.args.params = p.params.map TraitParam.param

/-- The predicate is aligned if it has a trait, and has no parameters otherwise. -/
structure Regular (p : Predicate) : Prop where
  bare : p.trait = none → p.params = []
  aligned : p.trait.isSome → p.Aligned

theorem Aligned.of_params {p : Predicate} (valid : p.args.isInvalid = false)
    (some : p.params ≠ []) (params : p.args.params = p.params.map TraitParam.param) :
    p.Aligned := by
  have length : p.args.length = p.params.length := by
    rw [← ArgList.length_params, params, List.length_map]
  exact ⟨valid, length ▸ List.length_pos_iff.2 some, length, params⟩

theorem Aligned.params_ne_nil {p : Predicate} (h : p.Aligned) : p.params ≠ [] :=
  List.length_pos_iff.1 (h.length ▸ h.some)

theorem fillSlots_params (params : List TraitParam) : ∀ (done : List ArgSlot) (types : List Ty),
    (fillSlots done params types).map ArgSlot.param =
      done.map ArgSlot.param ++ params.map TraitParam.param := by
  induction params with
  | nil => simp [fillSlots]
  | cons p ps ih =>
      intro done types
      cases types <;> simp [fillSlots, ih, TraitParam.bind]

/-- The slot of the receiver stays, and each other parameter gets a slot of its own. -/
theorem Aligned.appliedSlots {p : Predicate} (h : p.Aligned) {applied : AppliedArgs}
    {args : ArgList} (eq : p.appliedSlots applied = .ok args) :
    args.isInvalid = false ∧ args.params = p.params.map TraitParam.param := by
  simp only [Predicate.appliedSlots, bind, Except.bind] at eq
  split at eq
  · cases eq
  · split at eq
    · cases eq
    · cases eq
      refine ⟨rfl, ?_⟩
      have params := h.params
      obtain ⟨q, qs, own⟩ := List.exists_cons_of_ne_nil h.params_ne_nil
      rw [own] at params ⊢
      have receiver : (p.args.get? 0).toList.map ArgSlot.param = [q.param] := by
        cases slots : p.args.toList with
        | nil => simp [ArgList.params, slots] at params
        | cons slot rest =>
            simp only [ArgList.params, slots, List.map_cons, List.cons.injEq] at params
            simp [ArgList.get?, slots, params.1]
      show (fillSlots _ _ _).map ArgSlot.param = _
      rw [fillSlots_params, receiver]
      rfl

/-! ## Origins are regular -/

theorem error_regular : error.Regular := ⟨fun _ => rfl, nofun⟩

theorem ofParams_regular (id : DefId) (params : List TraitParam) (span : Span) :
    (ofParams id params span).Regular := by
  cases params with
  | nil => exact error_regular
  | cons q qs =>
      refine ⟨nofun, fun _ => .of_params rfl (List.cons_ne_nil q qs) ?_⟩
      simp [ofParams, ArgList.params, ArgList.toList, TraitParam.unbound]

theorem Origin.regular (o : Origin) : o.predicate.Regular := by
  cases o with
  | ofTrait t span =>
      simp only [predicate, Predicate.ofTrait]
      split
      · exact ofParams_regular _ _ span
      · exact error_regular
  | ofParams id params span => exact ofParams_regular id params span
  | error => exact error_regular

theorem trait_ofParams (id : DefId) (params : List TraitParam) (span : Span) :
    (ofParams id params span).trait = none ↔ params = [] := by
  cases params <;> simp [ofParams, error]

theorem Origin.paramless_iff (o : Origin) : o.Paramless ↔ o.predicate.trait = none := by
  cases o with
  | ofTrait t span =>
      cases own : t.id with
      | none => simp [Paramless, predicate, Predicate.ofTrait, own, Predicate.error]
      | some id => simp [Paramless, predicate, Predicate.ofTrait, own, trait_ofParams]
  | ofParams id params span => simp [Paramless, predicate, trait_ofParams]
  | error => simp [Paramless, predicate, Predicate.error]

/-! ## One call -/

/-- Applying arguments faults exactly if there is no trait. -/
theorem Regular.apply_eq_error_iff {p : Predicate} (h : p.Regular) (applied : AppliedArgs)
    (f : Fault) :
    p.apply applied = .error f ↔ p.trait = none ∧ f = .argumentsWithoutParameters := by
  unfold apply
  cases own : p.trait with
  | none =>
      have none : p.params.isEmpty = true := by simp [h.bare own]
      simp [none, eq_comm]
  | some id =>
      have aligned := h.aligned (by simp [own])
      have slots : p.args.isEmpty = false := by
        rw [ArgList.isEmpty_eq_false_iff, aligned.params]
        simpa using aligned.params_ne_nil
      have some : p.params.isEmpty = false := by simpa using aligned.params_ne_nil
      cases p.appliedSlots applied <;> simp [slots, some]

/-- What a call does not change, and the regularity it keeps. -/
structure Onward (p q : Predicate) : Prop where
  trait : q.trait = p.trait
  params : q.params = p.params
  span : q.span = p.span
  failed : p.failed = true → q.failed = true
  regular : p.Regular → q.Regular

theorem Onward.refl (p : Predicate) : p.Onward p := ⟨rfl, rfl, rfl, id, id⟩

theorem Onward.trans {p q r : Predicate} (h : p.Onward q) (h' : q.Onward r) : p.Onward r where
  trait := h'.trait.trans h.trait
  params := h'.params.trans h.params
  span := h'.span.trans h.span
  failed := h'.failed ∘ h.failed
  regular := h'.regular ∘ h.regular

/-- Other slots for the same parameters keep a predicate regular. -/
theorem Regular.withArgs {p q : Predicate} (h : p.Regular) (trait : q.trait = p.trait)
    (params : q.params = p.params)
    (args : p.Aligned → q.args.isInvalid = false ∧
      q.args.params = p.params.map TraitParam.param) : q.Regular where
  bare := by
    rw [trait, params]
    exact h.bare
  aligned := by
    intro own
    have aligned := h.aligned (trait ▸ own)
    obtain ⟨valid, slots⟩ := args aligned
    exact .of_params valid (params ▸ aligned.params_ne_nil) (params ▸ slots)

theorem bindReceiver_onward (p : Predicate) (t : Ty) : p.Onward (p.bindReceiver t) := by
  unfold bindReceiver
  split
  · exact .refl p
  · refine ⟨rfl, rfl, rfl, id, fun h => h.withArgs rfl rfl fun aligned => ⟨?_, ?_⟩⟩
    · simpa [ArgList.specializeReceiver, ArgList.mapArgs, ArgList.rebind] using aligned.valid
    · simpa using aligned.params

theorem apply_cases {p q : Predicate} {applied : AppliedArgs} {mismatch : Option ArgMismatch}
    (eq : p.apply applied = .ok (q, mismatch)) :
    (∃ args, p.appliedSlots applied = .ok args ∧ mismatch = none ∧
        q = { p with args, bindings := applied.bindings }) ∨
      (mismatch.isSome ∧ q = { p with failed := true }) := by
  unfold apply at eq
  split at eq
  · cases eq
  · split at eq
    · next args slots =>
        cases eq
        exact .inl ⟨args, slots, rfl, rfl⟩
    · cases eq
      exact .inr ⟨rfl, rfl⟩

theorem apply_onward {p q : Predicate} {applied : AppliedArgs} {mismatch : Option ArgMismatch}
    (eq : p.apply applied = .ok (q, mismatch)) : p.Onward q := by
  obtain ⟨args, slots, -, rfl⟩ | ⟨-, rfl⟩ := apply_cases eq
  · exact ⟨rfl, rfl, rfl, id, fun h => h.withArgs rfl rfl fun aligned => aligned.appliedSlots slots⟩
  · exact ⟨rfl, rfl, rfl, fun _ => rfl, fun h => h.withArgs rfl rfl fun aligned =>
      ⟨aligned.valid, aligned.params⟩⟩

theorem perform_onward {p q : Predicate} {call : Call} (eq : p.perform call = .ok q) :
    p.Onward q := by
  cases call with
  | bindReceiver t =>
      cases eq
      exact bindReceiver_onward p t
  | apply applied =>
      simp only [perform] at eq
      cases result : p.apply applied with
      | error f =>
          rw [result] at eq
          cases eq
      | ok out =>
          rw [result] at eq
          cases eq
          exact apply_onward result

/-! ## All calls -/

theorem performAll_onward {calls : List Call} : ∀ {p q : Predicate},
    p.performAll calls = .ok q → p.Onward q := by
  induction calls with
  | nil =>
      intro p q eq
      cases eq
      exact .refl p
  | cons call calls ih =>
      intro p q eq
      simp only [performAll, List.foldlM_cons, bind, Except.bind] at eq
      split at eq
      · cases eq
      · next next first => exact (perform_onward first).trans (ih eq)

/-- No call on a predicate with parameters faults. -/
theorem exists_performAll {o : Origin} (some : ¬o.Paramless) (calls : List Call) :
    ∃ p, o.predicate.performAll calls = .ok p := by
  have run : ∀ {p : Predicate}, p.Regular → p.trait ≠ none → ∃ q, p.performAll calls = .ok q := by
    induction calls with
    | nil => exact fun {p} _ _ => ⟨p, rfl⟩
    | cons call calls ih =>
        intro p regular own
        obtain ⟨q, first⟩ : ∃ q, p.perform call = .ok q := by
          cases call with
          | bindReceiver t => exact ⟨_, rfl⟩
          | apply applied =>
              cases result : p.apply applied with
              | ok out => exact ⟨out.1, by simp [perform, result, Except.map]⟩
              | error f => exact absurd ((regular.apply_eq_error_iff applied f).1 result).1 own
        have onward := perform_onward first
        simp only [performAll, List.foldlM_cons, bind, Except.bind, first]
        exact ih (onward.regular regular) (onward.trait ▸ own)
  exact run o.regular fun bare => some (o.paramless_iff.2 bare)

/-- Whatever is called on a predicate, and however often: its trait, its parameters and its
place are those of its origin; if it has a trait, its slots belong to its parameters; the flag
stays once it is set; a mismatch sets the flag and changes nothing else; and applying
arguments faults exactly if the origin has no parameters. -/
theorem performAll_keeps (o : Origin) {calls : List Call} {p : Predicate}
    (reached : o.predicate.performAll calls = .ok p) :
    (p.trait = o.predicate.trait ∧ p.params = o.predicate.params ∧ p.span = o.predicate.span) ∧
    (p.trait.isSome → p.Aligned) ∧
    (∀ more q, p.performAll more = .ok q → p.failed = true → q.failed = true) ∧
    (∀ applied q mismatch, p.apply applied = .ok (q, some mismatch) →
      q = { p with failed := true }) ∧
    (∀ applied f, p.apply applied = .error f ↔
      o.Paramless ∧ f = .argumentsWithoutParameters) := by
  have onward := performAll_onward reached
  have regular := onward.regular o.regular
  refine ⟨⟨onward.trait, onward.params, onward.span⟩, regular.aligned,
    fun more q eq => (performAll_onward eq).failed, fun applied q mismatch eq => ?_,
    fun applied f => ?_⟩
  · obtain ⟨-, -, none, -⟩ | ⟨-, changed⟩ := apply_cases eq
    · cases none
    · exact changed
  · rw [regular.apply_eq_error_iff, onward.trait, o.paramless_iff]

/-- `trait Add<Rhs = Self>`, with its receiver bound to `u8`, then `Add`, `Add<bool, bool>`
and `Add<bool>`: the second list is one too long, the third is taken all the same. -/
theorem performAll_keeps_afterMismatch :
    let self : Param := ⟨⟨0⟩, "Self"⟩
    let params := [⟨self, none, default⟩, ⟨⟨⟨1⟩, "Rhs"⟩, some (.param self), default⟩]
    let types (ts : List Ty) : Call := .apply ⟨ts.map .type, [], default⟩
    let bool : Ty := .prim .bool
    let byte : Ty := .prim (.uint .w8)
    ∃ p, (Origin.ofParams ⟨0⟩ params default).predicate.performAll
        [.bindReceiver byte, types [], types [bool, bool], types [bool]] = .ok p ∧
      p.args.toList.map ArgSlot.ty = [some byte, some bool] ∧ p.failed = true ∧
      p.trait = some ⟨0⟩ ∧ p.Aligned ∧
      ∀ more q, p.performAll more = .ok q → p.failed = true → q.failed = true := by
  intro self params types bool byte
  obtain ⟨p, reached, slots, failed⟩ :
      ∃ p, (Origin.ofParams ⟨0⟩ params default).predicate.performAll
          [.bindReceiver byte, types [], types [bool, bool], types [bool]] = .ok p ∧
        p.args.toList.map ArgSlot.ty = [some byte, some bool] ∧ p.failed = true :=
    ⟨_, rfl, rfl, rfl⟩
  obtain ⟨⟨trait, -, -⟩, aligned, stays, -, -⟩ := performAll_keeps _ reached
  have own : p.trait = some ⟨0⟩ := trait
  exact ⟨p, reached, slots, failed, own, aligned (by simp [own]), stays⟩

end Predicate

end TraitEngine
