import TraitEngine.Index
/-!
# Look-ups and updates of tables

A table is read through `get?` and `keys`. A new key goes to the end, a key that
is there keeps its place, and erasing drops nothing but the key.
-/

namespace TraitEngine

set_option autoImplicit false

namespace Table

variable {κ α : Type} {t : Table κ α} {k : κ} {a : α}

theorem mem_keys_iff : k ∈ t.keys ↔ ∃ a, (k, a) ∈ t.entries := by
  simp [keys]

variable [DecidableEq κ]

theorem isSome_get?_iff : (t.get? k).isSome ↔ k ∈ t.keys := by
  simp only [get?, Option.isSome_map, List.find?_isSome, decide_eq_true_eq, keys, List.mem_map]

@[simp] theorem contains_iff : t.contains k = true ↔ k ∈ t.keys := isSome_get?_iff

theorem get?_eq_none_iff : t.get? k = none ↔ k ∉ t.keys := by
  rw [← isSome_get?_iff, Bool.not_eq_true, Option.isSome_eq_false_iff, Option.isNone_iff_eq_none]

theorem mem_entries_of_get? (h : t.get? k = some a) : (k, a) ∈ t.entries := by
  simp only [get?, Option.map_eq_some_iff] at h
  obtain ⟨e, found, rfl⟩ := h
  have key : e.1 = k := by simpa using List.find?_some found
  exact key ▸ List.mem_of_find?_eq_some found

theorem mem_keys_of_get? (h : t.get? k = some a) : k ∈ t.keys :=
  mem_keys_iff.2 ⟨a, mem_entries_of_get? h⟩

/-! ## Inserting -/

/-- A new key goes to the end. -/
theorem entries_insert_of_new (new : k ∉ t.keys) :
    (t.insert k a).entries = t.entries ++ [(k, a)] := by
  rw [insert, if_neg (by rwa [contains_iff])]

theorem keys_insert_of_new (new : k ∉ t.keys) : (t.insert k a).keys = t.keys ++ [k] := by
  simp only [keys, entries_insert_of_new new, List.map_append, List.map_cons, List.map_nil]

/-- A key that is there keeps its place. -/
theorem keys_insert_of_mem (old : k ∈ t.keys) : (t.insert k a).keys = t.keys := by
  rw [insert, if_pos (by rwa [contains_iff])]
  simp only [keys, List.map_map]
  refine List.map_congr_left fun e _ => ?_
  simp only [Function.comp_apply]
  split
  · rename_i same; exact same.symm
  · rfl

theorem mem_keys_insert {k' : κ} : k' ∈ (t.insert k a).keys ↔ k' = k ∨ k' ∈ t.keys := by
  by_cases old : k ∈ t.keys
  · rw [keys_insert_of_mem old]
    constructor
    · exact Or.inr
    · rintro (rfl | h)
      · exact old
      · exact h
  · rw [keys_insert_of_new old, List.mem_append, List.mem_singleton, or_comm]

/-- An entry of a table after an insertion is the new one or was there before. -/
theorem mem_entries_insert {e : κ × α} (h : e ∈ (t.insert k a).entries) :
    e = (k, a) ∨ e ∈ t.entries := by
  by_cases old : k ∈ t.keys
  · rw [insert, if_pos (by rwa [contains_iff])] at h
    obtain ⟨e', mem, rfl⟩ := List.mem_map.1 h
    split
    · exact Or.inl rfl
    · exact Or.inr mem
  · rw [entries_insert_of_new old, List.mem_append, List.mem_singleton] at h
    exact h.symm

theorem get?_insert_of_new {k' : κ} (new : k ∉ t.keys) :
    (t.insert k a).get? k' = if k' = k then some a else t.get? k' := by
  simp only [get?, entries_insert_of_new new, List.find?_append, List.find?_cons, List.find?_nil]
  by_cases same : k' = k
  · subst same
    have absent : t.entries.find? (fun e => e.1 = k') = none := by
      simpa [get?] using get?_eq_none_iff.2 new
    simp [absent]
  · have other : ¬ k = k' := fun h => same h.symm
    simp [same, other]

/-- A key is found with the value that was put in last. -/
theorem get?_insert {k' : κ} :
    (t.insert k a).get? k' = if k' = k then some a else t.get? k' := by
  by_cases old : k ∈ t.keys
  · rw [insert, if_pos (by rwa [contains_iff])]
    have kept : ((fun e : κ × α => decide (e.1 = k')) ∘ fun e => if e.1 = k then (k, a) else e) =
        fun e => decide (e.1 = k') := by
      funext e
      by_cases same : e.1 = k <;> simp [same]
    simp only [get?, List.find?_map, kept, Option.map_map]
    cases found : t.entries.find? fun e => decide (e.1 = k') with
    | none =>
        have other : k' ≠ k := by
          rintro rfl
          have absent : t.get? k' = none := by simp [get?, found]
          exact get?_eq_none_iff.1 absent old
        simp [other]
    | some e =>
        have key : e.1 = k' := by simpa using List.find?_some found
        by_cases same : k' = k <;> simp [key, same]
  · exact get?_insert_of_new old

/-- Changing the newest entry of a table changes nothing below it. -/
theorem entries_insert_last {b : α} {base : List (κ × α)} (h : t.entries = base ++ [(k, b)])
    (unique : k ∉ base.map Prod.fst) : (t.insert k a).entries = base ++ [(k, a)] := by
  have old : k ∈ t.keys := by simp [keys, h]
  rw [insert, if_pos (by rwa [contains_iff])]
  have kept : base.map (fun e => if e.1 = k then (k, a) else e) = base.map id := by
    refine List.map_congr_left fun e mem => ?_
    have other : e.1 ≠ k := by rintro rfl; exact unique (List.mem_map_of_mem mem)
    rw [if_neg other, id]
  simp only [h, List.map_append, List.map_cons, List.map_nil, if_pos, kept, List.map_id]

/-! ## Erasing -/

theorem mem_entries_erase {e : κ × α} :
    e ∈ (t.erase k).entries ↔ e ∈ t.entries ∧ e.1 ≠ k := by
  simp [erase]

/-- The other keys stay in order. -/
theorem keys_erase : (t.erase k).keys = t.keys.filter (· ≠ k) := by
  simp [erase, keys, List.filter_map, Function.comp_def]

/-- Erasing the newest entry uncovers the table below it. -/
theorem entries_erase_last {b : α} {base : List (κ × α)} (h : t.entries = base ++ [(k, b)])
    (unique : k ∉ base.map Prod.fst) : (t.erase k).entries = base := by
  have kept : base.filter (fun e => e.1 ≠ k) = base := by
    refine List.filter_eq_self.2 fun e mem => ?_
    have : e.1 ≠ k := by rintro rfl; exact unique (List.mem_map_of_mem mem)
    simpa using this
  simp only [erase, h, List.filter_append, kept]
  simp

theorem erase_last {b : α} {base : Table κ α} (h : t.entries = base.entries ++ [(k, b)])
    (unique : k ∉ base.keys) : t.erase k = base := by
  have below := entries_erase_last h unique
  cases erased : t.erase k
  rw [erased] at below
  cases below
  rfl

end Table

end TraitEngine
