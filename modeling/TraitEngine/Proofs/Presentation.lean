import TraitEngine.Diagnostic
import TraitEngine.Proofs.Ends
import TraitEngine.Workload
import Mathlib.Data.List.Destutter
import Mathlib.Data.List.Duplicate
/-!
# What is shown of the diagnostics

Diagnostics are sorted by location and code, and equal neighbours are dropped. Nothing is
lost, and the order is the one that is asked for (`Diagnostic.arrange_complete`).

Dropping neighbours does not drop all that is equal. Location and code do not tell
diagnostics apart, and sorting is stable: what has one location and one code stays in the
order in which it was reported. A diagnostic is shown twice exactly if another one of its
standing was reported in between (`sublist_mergeSort_iff`, `nodup_destutter_iff`).
-/

namespace TraitEngine

set_option autoImplicit false

/-! ## Dropping equal neighbours -/

section

variable {α : Type}

/-- Between two occurrences stands something else, where neighbours differ. -/
theorem exists_between {l : List α} (changes : l.IsChain (· ≠ ·)) {a : α}
    (twice : List.Duplicate a l) : ∃ b, a ≠ b ∧ [a, b, a].Sublist l := by
  induction twice with
  | @cons_mem l again =>
      cases l with
      | nil => cases again
      | cons b l =>
          have differ : a ≠ b := (List.isChain_cons_cons.1 changes).1
          have later : a ∈ l := List.mem_of_ne_of_mem differ again
          exact ⟨b, differ, ((List.singleton_sublist.2 later).cons_cons b).cons_cons a⟩
  | @cons_duplicate c l _ ih =>
      obtain ⟨b, differ, within⟩ := ih changes.tail
      exact ⟨b, differ, within.cons c⟩

variable [DecidableEq α]

/-- The loop keeps the last element and what it has kept before. -/
theorem eraseReps_loop_eq (rest : List α) (a : α) (acc : List α) :
    List.eraseRepsBy.loop (· == ·) a rest acc = acc.reverse ++ rest.destutter' (· ≠ ·) a := by
  induction rest generalizing a acc with
  | nil => simp [List.eraseRepsBy.loop]
  | cons b rest ih =>
      by_cases same : a = b
      · subst same
        simp [List.eraseRepsBy.loop, ih]
      · simp [List.eraseRepsBy.loop, ih, same, beq_false_of_ne same]

/-- Erasing repetitions keeps of each run of equals the first. -/
theorem eraseReps_eq_destutter (l : List α) : l.eraseReps = l.destutter (· ≠ ·) := by
  cases l with
  | nil => rfl
  | cons a rest => exact (eraseReps_loop_eq rest a []).trans (List.nil_append _)

theorem sublist_destutter' {l pattern : List α} {a : α} (changes : pattern.IsChain (· ≠ ·))
    (within : pattern.Sublist (a :: l)) : pattern.Sublist (l.destutter' (· ≠ ·) a) := by
  induction l generalizing a pattern with
  | nil => exact within
  | cons b l ih =>
      by_cases differ : a ≠ b
      · rw [List.destutter'_cons_pos l differ]
        cases within with
        | cons _ within => exact (ih changes within).cons a
        | cons_cons _ within => exact (ih changes.tail within).cons_cons a
      · obtain rfl : a = b := not_not.1 differ
        rw [List.destutter'_cons_neg l differ]
        refine ih changes ?_
        cases within with
        | cons _ within => exact within
        | cons_cons _ within =>
            cases within with
            | cons _ within => exact within.cons_cons a
            | cons_cons _ _ => exact absurd rfl (List.isChain_cons_cons.1 changes).1

/-- What changes from each element to the next is still there without the repetitions. -/
theorem sublist_destutter {l pattern : List α} (changes : pattern.IsChain (· ≠ ·))
    (within : pattern.Sublist l) : pattern.Sublist (l.destutter (· ≠ ·)) := by
  cases l with
  | nil => exact within
  | cons a l => exact sublist_destutter' changes within

/-- Nothing is lost but repetitions. -/
theorem mem_destutter {l : List α} {a : α} : a ∈ l.destutter (· ≠ ·) ↔ a ∈ l := by
  constructor
  · exact fun kept => (List.destutter_sublist _ l).subset kept
  · intro mem
    have single := sublist_destutter (List.isChain_singleton a) (List.singleton_sublist.2 mem)
    exact List.singleton_sublist.1 single

/-- A repetition is left exactly if something else stands between two equals. -/
theorem nodup_destutter_iff {l : List α} :
    (l.destutter (· ≠ ·)).Nodup ↔ ∀ a b, a ≠ b → ¬[a, b, a].Sublist l := by
  constructor
  · intro distinct a b differ within
    have changes : [a, b, a].IsChain (· ≠ ·) := by simp [differ, differ.symm]
    have alone := distinct.sublist (sublist_destutter changes within)
    simp at alone
  · intro none
    refine List.nodup_iff_forall_not_duplicate.2 fun a twice => ?_
    obtain ⟨b, differ, within⟩ := exists_between (List.isChain_destutter _ l) twice
    exact none a b differ (within.trans (List.destutter_sublist _ l))

end

namespace Diagnostic

/-! ## The order -/

instance : Std.TransOrd Code :=
  inferInstanceAs (Std.TransCmp (compareLex (compareOn fun c : Code => c.phase.number)
    (compareOn Code.number)))

instance : Std.TransOrd Span :=
  inferInstanceAs (Std.TransCmp (compareLex (compareOn fun s : Span => s.file.index)
    (compareLex (compareOn Span.start) (compareOn Span.stop))))

/-- Locations are compared as optional spans. -/
theorem compareLocation_eq (a b : Option Span) : compareLocation a b = compare a b := by
  cases a <;> cases b <;> rfl

instance : Std.TransCmp order := by
  have lexicographic : order = compareLex (compareOn location) (compareOn code) := by
    funext a b
    rw [order, compareLocation_eq]
    rfl
  rw [lexicographic]
  infer_instance

theorem precedes_iff {a b : Diagnostic} : precedes a b = true ↔ (order a b).isLE = true := by
  rw [precedes, bne_iff_ne, Ordering.isLE_iff_ne_gt]

theorem precedes_trans (a b c : Diagnostic) (first : precedes a b = true)
    (second : precedes b c = true) : precedes a c = true := by
  rw [precedes_iff] at *
  exact Std.TransCmp.isLE_trans first second

theorem precedes_total (a b : Diagnostic) : (precedes a b || precedes b a) = true := by
  have swap : order b a = (order a b).swap := Std.OrientedCmp.eq_swap
  rw [Bool.or_eq_true, precedes_iff, precedes_iff, swap]
  cases order a b <;> simp

variable {ds : List Diagnostic}

/-- Sorting puts diagnostics in order. -/
theorem pairwise_mergeSort : (ds.mergeSort precedes).Pairwise (precedes · ·) :=
  List.pairwise_mergeSort precedes_trans precedes_total ds

/-! ## Diagnostics of one standing -/

theorem order_alike {a b d : Diagnostic} (own : order d a = .eq) (other : order d b = .eq) :
    order a b = .eq :=
  Std.TransCmp.eq_trans (Std.OrientedCmp.eq_symm own) other

/-- They stay in the order in which they were reported. -/
theorem filter_mergeSort (d : Diagnostic) :
    (ds.mergeSort precedes).filter (order d · == .eq) = ds.filter (order d · == .eq) := by
  have alike : (ds.filter (order d · == .eq)).Pairwise (precedes · ·) := by
    refine List.pairwise_of_forall_mem_list fun a first b second => ?_
    have own : order d a = .eq := by simpa using (List.mem_filter.1 first).2
    have other : order d b = .eq := by simpa using (List.mem_filter.1 second).2
    rw [precedes_iff, order_alike own other, Ordering.isLE_eq]
  have kept := (List.sublist_mergeSort precedes_trans precedes_total alike
    List.filter_sublist).filter (order d · == .eq)
  simp only [List.filter_filter, Bool.and_self] at kept
  have length := ((List.mergeSort_perm ds precedes).filter (order d · == .eq)).length_eq
  exact (kept.eq_of_length length.symm).symm

/-- Sorting does not reorder diagnostics of equal standing. -/
theorem sublist_mergeSort_iff {pattern : List Diagnostic} {d : Diagnostic}
    (alike : ∀ a ∈ pattern, order d a = .eq) :
    pattern.Sublist (ds.mergeSort precedes) ↔ pattern.Sublist ds := by
  have all : pattern.filter (order d · == .eq) = pattern :=
    List.filter_eq_self.2 fun a mem => beq_iff_eq.2 (alike a mem)
  have passes (l : List Diagnostic) :
      pattern.Sublist l ↔ pattern.Sublist (l.filter (order d · == .eq)) := by
    refine ⟨fun within => ?_, fun within => within.trans List.filter_sublist⟩
    rw [← all]
    exact within.filter _
  rw [passes, filter_mergeSort, ← passes]

/-- A diagnostic that surrounds another one in a sorted list has the other's standing. -/
theorem order_of_sublist {a b : Diagnostic} (within : [a, b, a].Sublist (ds.mergeSort precedes)) :
    order a b = .eq := by
  have sorted := pairwise_mergeSort.sublist within
  simp only [List.pairwise_cons, List.mem_cons, precedes_iff] at sorted
  exact Std.OrientedCmp.isLE_antisymm (sorted.1 b (.inl rfl)) (sorted.2.1 a (.inl rfl))

/-- So whether one stands between two others was decided when they were reported. -/
theorem surrounding_sublist_iff {a b : Diagnostic} (same : order a b = .eq) :
    [a, b, a].Sublist (ds.mergeSort precedes) ↔ [a, b, a].Sublist ds := by
  have own : order a a = .eq := Std.ReflCmp.compare_self
  exact sublist_mergeSort_iff (d := a) (by simp [own, same])

/-- A diagnostic is shown twice exactly if another one of equal standing was reported in
between. -/
theorem nodup_arrange_iff :
    (arrange ds).Nodup ↔ ∀ a b, a ≠ b → order a b = .eq → ¬[a, b, a].Sublist ds := by
  rw [arrange, eraseReps_eq_destutter, nodup_destutter_iff]
  constructor
  · intro none a b differ same within
    exact none a b differ ((surrounding_sublist_iff same).2 within)
  · intro none a b differ within
    have same := order_of_sublist within
    exact none a b differ same ((surrounding_sublist_iff same).1 within)

/-- What is shown is in order and is all that was reported. It repeats nothing exactly if
between two reports of one diagnostic no other one of its location and code was reported. -/
theorem arrange_complete (ds : List Diagnostic) :
    (arrange ds).Pairwise (order · · ≠ .gt) ∧ (∀ d, d ∈ arrange ds ↔ d ∈ ds) ∧
      ((arrange ds).Nodup ↔ ∀ a b, a ≠ b → order a b = .eq → ¬[a, b, a].Sublist ds) := by
  refine ⟨?_, fun d => ?_, nodup_arrange_iff⟩
  · rw [arrange, eraseReps_eq_destutter]
    have sorted := pairwise_mergeSort.sublist
      (List.destutter_sublist (· ≠ ·) (ds.mergeSort precedes))
    exact sorted.imp fun first => bne_iff_ne.1 first
  · rw [arrange, eraseReps_eq_destutter, mem_destutter, List.mem_mergeSort]

end Diagnostic

namespace Session

/-- `impl X for X {}` and `trait A: Y {}`, where neither `X` nor `Y` is declared. -/
def undeclaredNames : Session where
  config := {}
  tree := (ItemTree.empty "main").declareAll [.impl (.ofText "X") [.forTrait (.ofText "X")],
    .trait "A" [.super (.ofText "Y")]]
  context := { limit := 128 }
  files := #[]

/-- Three passes report, `X` twice and `Y` in between, all at one place. -/
theorem arrange_repeats :
    ∃ ds s, undeclaredNames.analyze = .ok (ds, s) ∧ ¬(Diagnostic.arrange ds).Nodup := by
  let unknown (name : String) : Diagnostic := (Problem.notFound default name).describe
  obtain ⟨⟨ds, s⟩, ran, seen⟩ := ok_of_observed
    (show undeclaredNames.analyze.toOption.map (·.1) =
      some [unknown "X", unknown "Y", unknown "X"] by decide +kernel)
  obtain rfl : ds = [unknown "X", unknown "Y", unknown "X"] := seen
  refine ⟨_, s, ran, fun distinct => ?_⟩
  exact Diagnostic.nodup_arrange_iff.1 distinct (unknown "X") (unknown "Y") (by decide) (by decide)
    (List.Sublist.refl _)

end Session

end TraitEngine
