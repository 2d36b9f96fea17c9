import TraitEngine.Proofs.ObjectSafety
import Mathlib.Data.List.Flatten
/-!
# Searches in two contexts

A search along super-traits reads a context only where it gets to. So it gives the same
in two contexts that hold the same for some traits from which no others are reached
(`Agree`), whatever else the two have in their caches: the bound on its depth or on its
steps depends on the cache, but it is never reached.
-/

namespace TraitEngine

set_option autoImplicit false

/-- Two searches of a list agree if they do for each element, as long as what is visited
keeps a property. -/
theorem allVisiting_congr {α : Type} {f g : α → List DefId → Bool × List DefId}
    (fits : List DefId → Prop) : ∀ (xs : List α) {seen : List DefId},
    (∀ x ∈ xs, ∀ seen, fits seen → f x seen = g x seen) →
    (∀ x ∈ xs, ∀ seen seen', fits seen → g x seen = (true, seen') → fits seen') →
    fits seen → allVisiting f xs seen = allVisiting g xs seen
  | [], _, _, _, _ => rfl
  | x :: xs, seen, same, keeps, now => by
      rw [allVisiting, allVisiting, same x List.mem_cons_self seen now]
      cases visited : g x seen with
      | mk safe seen' =>
          cases safe with
          | false => rfl
          | true =>
              exact allVisiting_congr fits xs (fun y mem => same y (List.mem_cons_of_mem x mem))
                (fun y mem => keeps y (List.mem_cons_of_mem x mem))
                (keeps x List.mem_cons_self seen seen' now visited)

namespace Context

/-- The contexts hold the same for the known traits, which only lead to known ones. -/
structure Agree (known : DefId → Prop) (a b : Context) : Prop where
  same : ∀ id, known id → a.trait? id = b.trait? id
  closed : ∀ x y, known x → b.SuperEdge x y → known y

variable {known : DefId → Prop} {a b : Context}

/-! ## Object safety -/

section

variable (agree : Agree known a b) (right : b.Labelled)

include agree right

omit agree in
/-- A search that finds nothing unsafe has not forgotten what it visited before. -/
theorem visited_subset {n : Nat} {p : Predicate} {seen seen' : List DefId}
    (few : b.unseen seen < n) (visited : (match p.get? b with
      | none => (true, seen)
      | some s => s.safeAbove b n seen) = (true, seen')) : seen ⊆ seen' := by
  cases super : p.get? b with
  | none =>
      rw [super] at visited
      cases visited
      exact List.Subset.refl seen
  | some s =>
      rw [super] at visited
      have visited : s.safeAbove b n seen = (true, seen') := visited
      obtain ⟨y, -, cached⟩ := Option.bind_eq_some_iff.1 super
      have searched := searched_safeAbove right n seen cached few
      rw [visited] at searched
      cases searched with
      | clear reached explored => exact explored.grows

/-- Both bounds on the depth are large enough, so both searches take the same way. -/
theorem safeAbove_eq (m : Nat) : ∀ (n : Nat) {id : DefId} {t : TraitRef} {seen : List DefId},
    known id → b.trait? id = some t → a.unseen seen < m → b.unseen seen < n →
    t.safeAbove a m seen = t.safeAbove b n seen := by
  induction m with
  | zero => exact fun _ _ _ _ _ _ few => absurd few (Nat.not_lt_zero _)
  | succ m ih =>
      intro n id t seen trusted found few few'
      cases n with
      | zero => exact absurd few' (Nat.not_lt_zero _)
      | succ n =>
          have found' : a.trait? id = some t := (agree.same id trusted).trans found
          have own : t.id = some id := right id t found
          simp only [TraitRef.safeAbove, own, Option.any_some, decide_eq_true_eq,
            Option.toList_some, List.singleton_append]
          split
          · rfl
          · rename_i new
            split
            · rfl
            -- In both contexts the trait is one less that is unseen, so both bounds go on being
            -- enough.
            · have less := unseen_cons_lt (Table.mem_keys_of_get? found') new
              have less' := unseen_cons_lt (Table.mem_keys_of_get? found) new
              refine allVisiting_congr (fun seen => a.unseen seen < m ∧ b.unseen seen < n) t.supers
                ?_ ?_ (by omega)
              · intro p mem seen few
                cases super : p.trait with
                | none => simp [Predicate.get?, super]
                | some y =>
                    have edge : b.SuperEdge id y := superEdge_iff.2 ⟨t, found, p, mem, super⟩
                    have above := agree.closed id y trusted edge
                    simp only [Predicate.get?, super, Option.bind_some, agree.same y above]
                    cases cached : b.trait? y with
                    | none => rfl
                    | some s => exact ih n above cached few.1 few.2
              · intro p mem seen seen' few visited
                have grows := visited_subset right few.2 visited
                have := a.unseen_anti grows
                have := b.unseen_anti grows
                omega

theorem unsafeSupers_eq : ∀ (ps : List Predicate) (seen : List DefId),
    (∀ p ∈ ps, ∀ y, p.trait = some y → known y) →
    TraitRef.unsafeSupers a ps seen = TraitRef.unsafeSupers b ps seen
  | [], _, _ => rfl
  | p :: ps, seen, trusted => by
      have rest (seen : List DefId) := unsafeSupers_eq ps seen fun q mem =>
        trusted q (List.mem_cons_of_mem p mem)
      have few (cx : Context) : cx.unseen seen < cx.cache.size + 1 := by
        have := cx.unseen_anti (List.nil_subset seen)
        rw [unseen_nil] at this
        omega
      cases super : p.trait with
      | none => simp [TraitRef.unsafeSupers, Predicate.get?, super, rest]
      | some y =>
          have above := trusted p List.mem_cons_self y super
          simp only [TraitRef.unsafeSupers, Predicate.get?, super, Option.bind_some,
            agree.same y above]
          cases cached : b.trait? y with
          | none => exact rest seen
          | some s =>
              simp only
              rw [safeAbove_eq agree right _ _ above cached (few a) (few b)]
              split <;> rw [rest]

/-- What a context says about the safety of a known trait. -/
theorem objectSafetyProblem?_eq {id : DefId} {t : TraitRef} (trusted : known id)
    (found : b.trait? id = some t) (span : Span) :
    t.objectSafetyProblem? a span = t.objectSafetyProblem? b span := by
  have supers := unsafeSupers_eq agree right t.supers [] fun p mem y super =>
    agree.closed id y trusted (superEdge_iff.2 ⟨t, found, p, mem, super⟩)
  simp only [TraitRef.objectSafetyProblem?, supers]

end

/-! ## Associated types -/

/-- How many super-traits the traits that are not expanded yet have together. -/
def upcomingIn (entries : List (DefId × TraitRef)) (seen : List DefId) : Nat :=
  ((entries.filter fun e => e.1 ∉ seen).flatMap fun e => e.2.supers).length

def upcoming (cx : Context) (seen : List DefId) : Nat := upcomingIn cx.cache.entries seen

theorem upcoming_nil (cx : Context) : cx.upcoming [] = cx.superCount := by
  have all : (cx.cache.entries.filter fun e => e.1 ∉ ([] : List DefId)) = cx.cache.entries := by
    simp
  rw [upcoming, upcomingIn, all, superCount, Table.values, List.flatMap_map]

/-- The more is expanded, the fewer super-traits are to come. -/
theorem upcomingIn_anti {seen seen' : List DefId} (grows : seen ⊆ seen')
    (entries : List (DefId × TraitRef)) : upcomingIn entries seen' ≤ upcomingIn entries seen := by
  have fewer : (entries.filter fun e => e.1 ∉ seen').Sublist
      (entries.filter fun e => e.1 ∉ seen) := by
    refine List.monotone_filter_right entries fun e new => ?_
    simp only [decide_eq_true_eq] at new ⊢
    exact fun mem => new (grows mem)
  exact (fewer.flatMap fun e => e.2.supers).length_le

theorem upcoming_anti (cx : Context) {seen seen' : List DefId} (grows : seen ⊆ seen') :
    cx.upcoming seen' ≤ cx.upcoming seen :=
  upcomingIn_anti grows _

/-- A trait that is expanded is no longer to come. -/
theorem upcomingIn_cons_of_mem {id : DefId} {seen : List DefId} (new : id ∉ seen) {t : TraitRef}
    {entries : List (DefId × TraitRef)} (mem : (id, t) ∈ entries) :
    t.supers.length + upcomingIn entries (id :: seen) ≤ upcomingIn entries seen := by
  induction entries with
  | nil => exact absurd mem List.not_mem_nil
  | cons e rest ih =>
      rcases List.mem_cons.1 mem with rfl | mem
      · have := upcomingIn_anti (List.subset_cons_self id seen) rest
        simpa [upcomingIn, List.filter_cons, new] using this
      · have := ih mem
        unfold upcomingIn at this ⊢
        grind

/-- A trait that is expanded puts no more on the stack than it takes from what is to
come. -/
theorem upcoming_cons (cx : Context) {id : DefId} {seen : List DefId} (new : id ∉ seen) :
    (cx.superIds id).length + cx.upcoming (id :: seen) ≤ cx.upcoming seen := by
  cases found : cx.trait? id with
  | none =>
      simp only [superIds, found, Option.map_none, Option.getD_none, List.length_nil, Nat.zero_add]
      exact upcomingIn_anti (List.subset_cons_self id seen) _
  | some t =>
      have counted : (cx.superIds id).length ≤ t.supers.length := by
        simp only [superIds, found, Option.map_some, Option.getD_some]
        exact List.length_filterMap_le _ _
      have := upcomingIn_cons_of_mem new (Table.mem_entries_of_get? found)
      simp only [upcoming]
      omega

theorem Agree.superIds (agree : Agree known a b) {id : DefId} (trusted : known id) :
    a.superIds id = b.superIds id := by
  rw [Context.superIds, agree.same id trusted, Context.superIds]

theorem searchAssocType_eq (agree : Agree known a b) (tree : ItemTree) (name : String) (m : Nat) :
    ∀ (n : Nat) {stack seen : List DefId}, (∀ id ∈ stack, known id) →
      stack.length + a.upcoming seen < m → stack.length + b.upcoming seen < n →
      searchAssocType tree a name m stack seen = searchAssocType tree b name n stack seen := by
  induction m with
  | zero => exact fun _ _ _ _ few => absurd few (Nat.not_lt_zero _)
  | succ m ih =>
      intro n stack seen trusted few few'
      cases n with
      | zero => exact absurd few' (Nat.not_lt_zero _)
      | succ n =>
          cases stack with
          | nil => rfl
          | cons id rest =>
              have others : ∀ x ∈ rest, known x := fun x mem => trusted x (List.mem_cons_of_mem id mem)
              have own := trusted id List.mem_cons_self
              rw [List.length_cons] at few few'
              rw [searchAssocType, searchAssocType]
              split
              · exact ih n others (by omega) (by omega)
              · rename_i new
                have less := a.upcoming_cons new
                have less' := b.upcoming_cons new
                split
                · exact ih n others (by omega) (by omega)
                · split
                  · rfl
                  · rw [agree.superIds own] at less ⊢
                    refine ih n (fun x mem => ?_) ?_ ?_
                    · rcases List.mem_append.1 mem with mem | mem
                      · exact agree.closed id x own mem
                      · exact others x mem
                    · rw [List.length_append]
                      omega
                    · rw [List.length_append]
                      omega

theorem findAssocType?_eq (agree : Agree known a b) (tree : ItemTree) {start : List DefId}
    (trusted : ∀ id ∈ start, known id) (name : String) :
    a.findAssocType? tree start name = b.findAssocType? tree start name := by
  refine searchAssocType_eq agree tree name _ _ trusted ?_ ?_ <;> rw [upcoming_nil] <;> omega

end Context

end TraitEngine
