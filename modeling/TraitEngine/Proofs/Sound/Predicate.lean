import TraitEngine.Proofs.NodeTest
import TraitEngine.Trait.Reference
import Mathlib.Data.List.TakeWhile
/-!
# Predicates whose types pass a test

The types in a predicate are those in its slots, its bindings and the defaults of its
parameters. A predicate is sound for a test if all of them pass, and if it stands for a
declared trait with one slot for each type parameter; a predicate may have failed only
where the test lets the error type pass.

Applying arguments and binding a receiver keep a predicate sound. That needs the count
of the required arguments: a slot past the written arguments is filled from a default
(`fillSlots_every`), so it never comes to the error type.
-/

namespace TraitEngine

set_option autoImplicit false

variable {test test' : NodeTest}

namespace ArgList

/-- The types in the slots pass the test. -/
def Every (test : NodeTest) (args : ArgList) : Prop :=
  ∀ slot ∈ args.toList, ∀ t, slot.ty = some t → t.Every test

theorem fits_lookup {args : ArgList} (h : args.Every test) : Ty.Fits test args.lookup := by
  intro p t found
  simp only [lookup, Option.bind_eq_some_iff] at found
  obtain ⟨slot, first, bound⟩ := found
  exact h slot (List.mem_of_find?_eq_some first) t bound

end ArgList

theorem Ty.every_specialize {t : Ty} {args : ArgList} (h : t.Every test) (fits : args.Every test)
    (valid : args.isInvalid = false) : (t.specialize args).Every test := by
  simp only [specialize, valid, Bool.false_eq_true, if_false]
  exact every_replace (ArgList.fits_lookup fits) t h

namespace ArgList

@[simp] theorem length_rebind (args : ArgList) (i : Nat) (t : Ty) :
    (args.rebind i t).length = args.length := by
  cases args <;> simp [rebind, mapSlots, length, toList]

theorem every_rebind {args : ArgList} {i : Nat} {t : Ty} (h : args.Every test)
    (fine : t.Every test) : (args.rebind i t).Every test := by
  cases args with
  | invalid => exact h
  | of slots span =>
      intro slot mem u bound
      have mem : slot ∈ slots.modify i fun slot => { slot with ty := some t } := mem
      obtain ⟨j, small, rfl⟩ := List.mem_iff_getElem.1 mem
      rw [List.getElem_modify] at bound
      split at bound
      · cases bound
        exact fine
      · exact h _ (List.getElem_mem _) u bound

@[simp] theorem length_specializeReceiver (args : ArgList) :
    args.specializeReceiver.length = args.length := by
  cases args with
  | invalid => rfl
  | of slots span => cases slots <;> simp [specializeReceiver, mapArgs, mapSlots, length, toList]

theorem every_specializeReceiver {args : ArgList} (h : args.Every test) :
    args.specializeReceiver.Every test := by
  cases args with
  | invalid => exact h
  | of slots span =>
      have receiver : (ArgList.of (slots.take 1) none).Every test :=
        fun slot mem => h slot (List.mem_of_mem_take mem)
      cases slots with
      | nil => exact h
      | cons first rest =>
          intro slot mem t bound
          simp only [specializeReceiver, mapArgs, mapSlots, toList] at mem
          rcases List.mem_cons.1 mem with rfl | mem
          · exact h slot List.mem_cons_self t bound
          · obtain ⟨old, there, rfl⟩ := List.mem_map.1 mem
            obtain ⟨u, own, rfl⟩ := Option.map_eq_some_iff.1 bound
            exact Ty.every_specialize (h old (List.mem_cons_of_mem first there) u own) receiver rfl

end ArgList

/-! ## Parameters -/

/-- The defaults of the parameters pass the test. -/
def DefaultsPass (test : NodeTest) (params : List TraitParam) : Prop :=
  ∀ p ∈ params, ∀ t, p.fallback = some t → t.Every test

theorem DefaultsPass.mono {params : List TraitParam} (h : DefaultsPass test params)
    (le : test.Le test') : DefaultsPass test' params :=
  fun p mem t own => (h p mem t own).mono le

namespace Predicate

/-- The parameters past the required ones have defaults. -/
theorem fallback_of_required {params : List TraitParam} {n : Nat}
    (enough : requiredCount params ≤ n) : ∀ p ∈ params.drop n, p.fallback.isSome := by
  intro p mem
  have tail : (params.drop n).reverse = params.reverse.take (params.length - n) := by
    rw [List.take_reverse]
    congr 2
    by_cases short : n ≤ params.length
    · omega
    · have past := List.length_drop (i := n) (l := params)
      have whole : params.length - (params.length - n) = params.length := by omega
      rw [List.drop_eq_nil_of_le (by omega)] at mem
      exact absurd mem List.not_mem_nil
  have counted : (params.reverse.take (params.length - n)).length ≤
      (params.reverse.takeWhile fun p => p.fallback.isSome).length := by
    simp only [requiredCount] at enough
    simp only [List.length_take, List.length_reverse]
    omega
  have inside := (List.prefix_of_prefix_length_le (List.take_prefix _ _)
    (List.takeWhile_prefix _) counted).subset
  have defaulted : p ∈ params.reverse.takeWhile fun p => p.fallback.isSome :=
    inside (tail ▸ List.mem_reverse.2 mem)
  have own := List.mem_takeWhile_imp defaulted
  exact own

/-- Each parameter gets a bound slot, after the slots that are there. -/
theorem fillSlots_append (params : List TraitParam) : ∀ (done : List ArgSlot) (types : List Ty),
    ∃ new, fillSlots done params types = done ++ new ∧ new.length = params.length ∧
      ∀ slot ∈ new, slot.ty.isSome := by
  induction params with
  | nil =>
      intro done types
      exact ⟨[], by simp [fillSlots], rfl, by simp⟩
  | cons p ps ih =>
      have step (done : List ArgSlot) (t : Ty) (types : List Ty) :
          ∃ new, fillSlots (done ++ [p.bind t]) ps types = done ++ new ∧
            new.length = (p :: ps).length ∧ ∀ slot ∈ new, slot.ty.isSome := by
        obtain ⟨new, eq, counted, bound⟩ := ih (done ++ [p.bind t]) types
        refine ⟨p.bind t :: new, by rw [eq, List.append_assoc, List.singleton_append],
          by simp [counted], ?_⟩
        intro slot mem
        rcases List.mem_cons.1 mem with rfl | mem
        · rfl
        · exact bound slot mem
      intro done types
      cases types with
      | nil => exact step done _ []
      | cons t types => exact step done t types

theorem fillSlots_every {params : List TraitParam} (defaults : DefaultsPass test params) :
    ∀ {done : List ArgSlot} {types : List Ty}, (∀ p ∈ params.drop types.length, p.fallback.isSome) →
      (ArgList.of done none).Every test → (∀ t ∈ types, t.Every test) →
      (ArgList.of (fillSlots done params types) none).Every test := by
  induction params with
  | nil =>
      intro done types _ fine _
      simpa only [fillSlots] using fine
  | cons p ps ih =>
      have rest : DefaultsPass test ps := fun q mem => defaults q (List.mem_cons_of_mem p mem)
      have push {done : List ArgSlot} {t : Ty} (fine : (ArgList.of done none).Every test)
          (head : t.Every test) : (ArgList.of (done ++ [p.bind t]) none).Every test := by
        intro slot mem u bound
        rcases List.mem_append.1 mem with mem | mem
        · exact fine slot mem u bound
        · rw [List.mem_singleton.1 mem] at bound
          cases bound
          exact head
      intro done types filled fine written
      cases types with
      | cons t types =>
          exact ih rest filled (push fine (written t List.mem_cons_self))
            fun u mem => written u (List.mem_cons_of_mem t mem)
      | nil =>
          have own : p.fallback.isSome := filled p List.mem_cons_self
          obtain ⟨t, found⟩ := Option.isSome_iff_exists.1 own
          have head : ((p.fallback.map fun t => t.specialize (.of done none)).getD
              Ty.error).Every test := by
            rw [found]
            exact Ty.every_specialize (defaults p List.mem_cons_self t found) fine rfl
          exact ih rest (fun q mem => filled q (List.mem_cons_of_mem p (List.mem_of_mem_drop mem)))
            (push fine head) written

end Predicate

/-! ## Predicates -/

namespace AppliedArgs

/-- The types among the arguments and in the bindings pass the test. -/
structure Every (test : NodeTest) (a : AppliedArgs) : Prop where
  args : ∀ t, AppliedArg.type t ∈ a.args → t.Every test
  bindings : ∀ b ∈ a.bindings, b.2.Every test

theorem every_none (span : Span) : (none span).Every test where
  args := nofun
  bindings := nofun

theorem every_types {a : AppliedArgs} (h : a.Every test) {ts : List Ty} (eq : a.types = .ok ts) :
    ∀ t ∈ ts, t.Every test := by
  simp only [types] at eq
  split at eq <;> cases eq
  intro t mem
  obtain ⟨arg, there, own⟩ := List.mem_filterMap.1 mem
  cases arg with
  | lifetime name => cases own
  | type u =>
      cases own
      exact h.args _ ((List.dropWhile_suffix _).subset there)

end AppliedArgs

namespace Predicate

/-- The predicate is over a declared trait with parameters, and has a slot for each. -/
def Covers (tree : ItemTree) (p : Predicate) : Prop :=
  ∃ id decl, p.trait = some id ∧ tree.trait? id = some decl ∧ 0 < decl.typeParams.length ∧
    p.params.length = decl.typeParams.length ∧ p.args.length = decl.typeParams.length

structure Sound (tree : ItemTree) (test : NodeTest) (p : Predicate) : Prop where
  failed : p.failed = true → test.error
  covers : p.failed = false → p.Covers tree
  args : p.args.Every test
  bindings : ∀ b ∈ p.bindings, b.2.Every test
  defaults : DefaultsPass test p.params

/-- Every slot after the receiver is bound. -/
def Applied (p : Predicate) : Prop := ∀ slot ∈ p.args.written, slot.ty.isSome

variable {tree tree' : ItemTree} {p : Predicate}

theorem Sound.mono (h : p.Sound tree test) (le : test.Le test') : p.Sound tree test' where
  failed := fun failed => le.error (h.failed failed)
  covers := h.covers
  args := fun slot mem t bound => (h.args slot mem t bound).mono le
  bindings := fun b mem => (h.bindings b mem).mono le
  defaults := h.defaults.mono le

theorem Sound.of_tree (h : p.Sound tree test)
    (more : ∀ id decl, tree.trait? id = some decl → tree'.trait? id = some decl) :
    p.Sound tree' test where
  failed := h.failed
  covers := by
    intro fine
    obtain ⟨id, decl, own, declared, counts⟩ := h.covers fine
    exact ⟨id, decl, own, more id decl declared, counts⟩
  args := h.args
  bindings := h.bindings
  defaults := h.defaults

theorem error_sound (err : test.error) : error.Sound tree test where
  failed := fun _ => err
  covers := nofun
  args := nofun
  bindings := nofun
  defaults := nofun

theorem ofParams_sound {id : DefId} {decl : TraitDecl} {params : List TraitParam} {span : Span}
    (declared : tree.trait? id = some decl) (counted : params.length = decl.typeParams.length)
    (defaults : DefaultsPass test params) (some : decl.typeParams = [] → test.error) :
    (ofParams id params span).Sound tree test := by
  cases params with
  | nil =>
      exact error_sound (some (List.length_eq_zero_iff.1 counted.symm))
  | cons q qs =>
      refine ⟨nofun, fun _ => ⟨id, decl, rfl, declared, ?_, counted, ?_⟩, ?_, nofun, defaults⟩
      · rw [← counted]
        exact Nat.succ_pos _
      · rw [← counted]
        simp [ofParams, ArgList.length, ArgList.toList]
      · intro slot mem t bound
        have mem : slot ∈ (q :: qs).map TraitParam.unbound := mem
        obtain ⟨param, -, rfl⟩ := List.mem_map.1 mem
        cases bound

theorem eq_error_of_ofParams_failed {id : DefId} {params : List TraitParam} {span : Span}
    (failed : (ofParams id params span).failed = true) : ofParams id params span = error := by
  cases params with
  | nil => rfl
  | cons q qs => cases failed

/-- A predicate over a receiver alone has nothing to apply. -/
theorem applied_of_params_le (covers : p.Covers tree) (few : p.params.length ≤ 1) : p.Applied := by
  obtain ⟨id, decl, -, -, -, params, slots⟩ := covers
  have slots : p.args.toList.length = decl.typeParams.length := slots
  have none : p.args.written = [] := List.drop_eq_nil_of_le (by omega)
  intro slot mem
  rw [none] at mem
  exact absurd mem List.not_mem_nil

theorem bindReceiver_sound (h : p.Sound tree test) {t : Ty} (fine : t.Every test) :
    (p.bindReceiver t).Sound tree test := by
  unfold bindReceiver
  split
  · exact h
  · refine ⟨h.failed, fun unfailed => ?_, ?_, h.bindings, h.defaults⟩
    · obtain ⟨id, decl, own, declared, some, params, args⟩ := h.covers unfailed
      exact ⟨id, decl, own, declared, some, params, by simpa using args⟩
    · exact ArgList.every_specializeReceiver (ArgList.every_rebind h.args fine)

/-- Arguments that fit bind every slot after the receiver, to types that pass. -/
theorem Sound.appliedSlots_every (h : p.Sound tree test) (fine : p.failed = false)
    {applied : AppliedArgs} (types : applied.Every test) {args : ArgList}
    (eq : p.appliedSlots applied = .ok args) :
    args.Every test ∧ args.length = p.args.length ∧ ∀ slot ∈ args.written, slot.ty.isSome := by
  simp only [appliedSlots, bind, Except.bind] at eq
  cases written : applied.types with
  | error cause =>
      rw [written] at eq
      cases eq
  | ok ts =>
      rw [written] at eq
      simp only at eq
      split at eq
      · cases eq
      · rename_i fits
        cases eq
        obtain ⟨id, decl, -, -, some, params, slots⟩ := h.covers fine
        obtain ⟨new, filled, counted, bound⟩ :=
          fillSlots_append (p.params.drop 1) (p.args.get? 0).toList ts
        -- The receiver slot comes first; what the arguments fill stands behind it.
        have first : (p.args.get? 0).toList.length = 1 := by
          have there : 0 < p.args.toList.length := by
            show 0 < p.args.length
            omega
          simp [ArgList.get?, List.getElem?_eq_getElem there]
        have enough : requiredCount (p.params.drop 1) ≤ ts.length := by
          simp only [Bool.or_eq_true, decide_eq_true_eq, not_or, Nat.not_lt] at fits
          exact fits.2
        have receiver : (ArgList.of (p.args.get? 0).toList none).Every test := by
          intro slot mem
          have mem : slot ∈ (p.args.get? 0).toList := mem
          exact h.args slot (List.mem_of_getElem? (Option.mem_toList.1 mem))
        refine ⟨fillSlots_every (fun q mem => h.defaults q (List.mem_of_mem_drop mem))
          (fallback_of_required enough) receiver (AppliedArgs.every_types types written), ?_, ?_⟩
        · show (fillSlots _ _ _).length = _
          rw [filled, List.length_append, first, counted, List.length_drop]
          omega
        · intro slot mem
          have mem : slot ∈ (fillSlots (p.args.get? 0).toList (p.params.drop 1) ts).drop 1 := mem
          rw [filled, ← first, List.drop_left] at mem
          exact bound slot mem

/-- Arguments that fit keep a predicate sound and bind all its slots; those that do not
change nothing but the flag. -/
theorem apply_sound (h : p.Sound tree test) (fine : p.failed = false) {applied : AppliedArgs}
    (types : applied.Every test) {q : Predicate} {mismatch : Option ArgMismatch}
    (eq : p.apply applied = .ok (q, mismatch)) :
    (mismatch = none → q.Sound tree test ∧ q.failed = false ∧ q.Applied) ∧
      (mismatch.isSome → q = { p with failed := true }) := by
  unfold apply at eq
  split at eq
  · cases eq
  · cases slots : p.appliedSlots applied with
    | error cause =>
        rw [slots] at eq
        cases eq
        exact ⟨nofun, fun _ => rfl⟩
    | ok args =>
        rw [slots] at eq
        cases eq
        obtain ⟨every, counted, bound⟩ := h.appliedSlots_every fine types slots
        refine ⟨fun _ => ⟨⟨fun failed => ?_, fun _ => ?_, every, types.bindings, h.defaults⟩, fine,
          bound⟩, nofun⟩
        · exact absurd (failed.symm.trans fine) (by decide)
        · obtain ⟨id, decl, own, declared, some, params, slots⟩ := h.covers fine
          exact ⟨id, decl, own, declared, some, params, counted.trans slots⟩

/-- A bound of a trait object has all arguments of its trait. -/
theorem dynBound?_every (h : p.Sound tree test) (fine : p.failed = false) (applied : p.Applied)
    (bound : ∀ id name args, tree.conformance.bound id name args → test.bound id name args)
    {b : DynBound} (eq : p.dynBound? tree = some b) : Ty.EveryBound test b := by
  obtain ⟨id, decl, own, declared, some, params, slots⟩ := h.covers fine
  simp only [dynBound?, own, declared, Option.bind_eq_bind, Option.bind_some, Option.pure_def,
    Option.some.injEq] at eq
  cases eq
  refine ⟨bound id decl.name _ ⟨decl, declared, rfl, ?_⟩, ?_⟩
  · rw [List.length_map, ArgList.written, List.length_drop]
    have slots : p.args.toList.length = decl.typeParams.length := slots
    omega
  · rw [Ty.everyList_iff]
    intro t mem
    obtain ⟨slot, there, rfl⟩ := List.mem_map.1 mem
    obtain ⟨t, bound⟩ := Option.isSome_iff_exists.1 (applied slot there)
    rw [bound]
    exact h.args slot (List.mem_of_mem_drop there) t bound

end Predicate

end TraitEngine
