import TraitEngine.Trait.Reference
/-!
# Predicates under their operations

Binding a receiver and applying arguments keep the trait and the place of a
predicate. Applying succeeds, with a mismatch or without, on every predicate that
has parameters. Predicates that are attached to a type are its bounds, each once and in the
order in which they came first.
-/

namespace TraitEngine

set_option autoImplicit false

namespace Predicate

/-- The predicate has parameters and as many slots that are still open. -/
structure Fresh (p : Predicate) (id : DefId) (span : Span) : Prop where
  trait : p.trait = some id
  span : p.span = span
  failed : p.failed = false
  args : p.args.isEmpty = false
  params : p.params ≠ []

theorem ofParams_fresh (id : DefId) {params : List TraitParam} (span : Span)
    (some : params ≠ []) : (ofParams id params span).Fresh id span := by
  cases params with
  | nil => exact absurd rfl some
  | cons receiver others => exact ⟨rfl, rfl, rfl, rfl, List.cons_ne_nil _ _⟩

theorem ofTrait_fresh {t : TraitRef} {id : DefId} (span : Span) (own : t.id = some id)
    (some : t.params ≠ []) : (ofTrait t span).Fresh id span := by
  rw [ofTrait, own]
  exact ofParams_fresh id span some

@[simp] theorem bindReceiver_trait (p : Predicate) (ty : Ty) :
    (p.bindReceiver ty).trait = p.trait := by
  unfold bindReceiver
  split <;> rfl

@[simp] theorem bindReceiver_span (p : Predicate) (ty : Ty) :
    (p.bindReceiver ty).span = p.span := by
  unfold bindReceiver
  split <;> rfl

@[simp] theorem bindReceiver_failed (p : Predicate) (ty : Ty) :
    (p.bindReceiver ty).failed = p.failed := by
  unfold bindReceiver
  split <;> rfl

/-- Applying arguments to a predicate with parameters is no fault; a mismatch only
sets the flag. -/
theorem Fresh.apply {p : Predicate} {id : DefId} {span : Span} (h : p.Fresh id span)
    (applied : AppliedArgs) :
    ∃ q mismatch, p.apply applied = .ok (q, mismatch) ∧ q.trait = some id ∧ q.span = span ∧
      q.failed = mismatch.isSome := by
  have params : p.params.isEmpty = false := by
    simpa using h.params
  unfold Predicate.apply
  rw [h.args, params]
  simp only [Bool.or_self, Bool.false_eq_true, if_false]
  cases p.appliedSlots applied with
  | ok args => exact ⟨_, _, rfl, h.trait, h.span, h.failed⟩
  | error mismatch => exact ⟨_, _, rfl, h.trait, h.span, rfl⟩

end Predicate

/-- Once no repetition is left, removing repetitions changes nothing. -/
theorem eraseDups_eraseDups {α : Type} [BEq α] [LawfulBEq α] :
    ∀ l : List α, l.eraseDups.eraseDups = l.eraseDups
  | [] => rfl
  | a :: l => by
      have others : ((l.filter fun b => !b == a).eraseDups.filter fun b => !b == a) =
          (l.filter fun b => !b == a).eraseDups := by
        rw [List.filter_eq_self]
        intro b mem
        exact (List.mem_filter.1 (List.mem_eraseDups.1 mem)).2
      rw [List.eraseDups_cons, List.eraseDups_cons, others, eraseDups_eraseDups]
termination_by l => l.length
decreasing_by exact Nat.lt_succ_of_le (List.length_filter_le _ _)

namespace Bounds

theorem mem_add_iff {b : Bounds} {p q : Predicate} :
    p ∈ (b.add q).toList ↔ p ∈ b.toList ∨ p = q := by
  unfold add
  split
  · rename_i old
    constructor
    · exact Or.inl
    · rintro (mem | rfl)
      · exact mem
      · exact old
  · rw [List.mem_append, List.mem_singleton]

theorem mem_addAll_iff {ps : List Predicate} {p : Predicate} {b : Bounds} :
    p ∈ (b.addAll ps).toList ↔ p ∈ b.toList ∨ p ∈ ps := by
  induction ps generalizing b with
  | nil => simp [addAll]
  | cons q qs ih =>
      show p ∈ ((b.add q).addAll qs).toList ↔ _
      rw [ih, mem_add_iff, List.mem_cons, or_assoc]

/-- Of the added predicates those stay that are new, each once. -/
theorem toList_addAll (ps : List Predicate) (b : Bounds) :
    (b.addAll ps).toList = b.toList ++ (ps.filter (· ∉ b.toList)).eraseDups := by
  induction ps generalizing b with
  | nil => simp [addAll]
  | cons p ps ih =>
      show ((b.add p).addAll ps).toList = _
      rw [ih, add]
      split
      · rename_i old
        rw [List.filter_cons_of_neg (by simpa using old)]
      · rename_i new
        have later : (ps.filter fun q => q ∉ b.toList ++ [p]) =
            (ps.filter fun q => q ∉ b.toList).filter fun q => !q == p := by
          rw [List.filter_filter]
          exact List.filter_congr fun q _ => by
            by_cases same : q = p <;> simp [same]
        rw [List.filter_cons_of_pos (by simpa using new), List.eraseDups_cons, later,
          List.append_assoc, List.singleton_append]

theorem toList_addAll_empty (ps : List Predicate) : (addAll {} ps).toList = ps.eraseDups := by
  rw [toList_addAll, List.nil_append, List.filter_eq_self.2 fun _ _ => by simp]

/-- Bounds without repetitions are the same when they are added to none. -/
theorem addAll_toList (ps : List Predicate) : addAll {} (addAll {} ps).toList = addAll {} ps := by
  rw [Bounds.mk.injEq, toList_addAll_empty, toList_addAll_empty, eraseDups_eraseDups]

end Bounds

end TraitEngine
