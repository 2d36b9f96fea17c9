import TraitEngine.Context
import Mathlib.Data.List.Basic
/-!
# Journals of resolution

`Nested limit log opened closed` says that a journal is one of an orderly
resolution, read from its first entry on: a trait is begun when it is new and
fewer than `limit` traits are open, only the last trait begun can be cached, and
its bodies are done once, after that. `opened` are the traits begun and not yet
cached, the outermost first; `closed` are the cached ones.

Every prefix of such a journal is one (`Nested.of_append`), so a law of the
journal is a law of every moment that it records. The states of one trait come in
the order of `ResolveState`, none of them twice (`Nested.statesOf_prefix`).
-/

namespace TraitEngine

set_option autoImplicit false

namespace Journal

abbrev Log := List (DefId × ResolveState)

inductive Nested (limit : Nat) : Log → List DefId → List DefId → Prop where
  | nil : Nested limit [] [] []
  | resolving {log : Log} {opened closed : List DefId} {id : DefId}
      (before : Nested limit log opened closed) (notOpen : id ∉ opened)
      (notClosed : id ∉ closed) (room : opened.length < limit) :
      Nested limit (log ++ [(id, .resolving)]) (opened ++ [id]) closed
  | cached {log : Log} {opened closed : List DefId} {id : DefId}
      (before : Nested limit log (opened ++ [id]) closed) :
      Nested limit (log ++ [(id, .cached)]) opened (closed ++ [id])
  | bodiesResolved {log : Log} {opened closed : List DefId} {id : DefId}
      (before : Nested limit log opened closed) (isClosed : id ∈ closed)
      (first : (id, .bodiesResolved) ∉ log) :
      Nested limit (log ++ [(id, .bodiesResolved)]) opened closed

/-- The states that one trait has come to, in order. -/
def statesOf (log : Log) (id : DefId) : List ResolveState :=
  (log.filter fun e => e.1 = id).map Prod.snd

theorem statesOf_append_self (log : Log) (id : DefId) (s : ResolveState) :
    statesOf (log ++ [(id, s)]) id = statesOf log id ++ [s] := by
  simp [statesOf]

theorem statesOf_append_of_ne (log : Log) {id other : DefId} (s : ResolveState)
    (ne : other ≠ id) : statesOf (log ++ [(other, s)]) id = statesOf log id := by
  simp [statesOf, ne]

theorem mem_statesOf {log : Log} {id : DefId} {s : ResolveState} :
    s ∈ statesOf log id ↔ (id, s) ∈ log := by
  simp only [statesOf, List.mem_map, List.mem_filter, decide_eq_true_eq]
  constructor
  · rintro ⟨⟨_, _⟩, ⟨mem, rfl⟩, rfl⟩
    exact mem
  · exact fun mem => ⟨(id, s), ⟨mem, rfl⟩, rfl⟩

/-- The state that a look-up finds is the last one of the trait. -/
theorem get?_eq_getLast? (j : Journal) (id : DefId) :
    j.get? id = (statesOf j.entries id).getLast? := by
  rw [get?, statesOf, List.getLast?_map, ← List.head?_reverse, ← List.filter_reverse,
    List.head?_filter]

@[simp] theorem get?_record_self (j : Journal) (id : DefId) (s : ResolveState) :
    (j.record id s).get? id = some s := by
  simp [get?, record]

theorem get?_record_of_ne (j : Journal) {id other : DefId} (s : ResolveState)
    (ne : other ≠ id) : (j.record other s).get? id = j.get? id := by
  simp [get?, record, ne]

namespace Nested

variable {limit : Nat} {log : Log} {opened closed : List DefId}

/-! ## The stack -/

/-- Open and closed traits are pairwise distinct. -/
theorem nodup (h : Nested limit log opened closed) : (opened ++ closed).Nodup := by
  induction h with
  | nil => exact List.nodup_nil
  | @resolving log opened closed id before notOpen notClosed room ih =>
      rw [List.append_assoc, List.singleton_append]
      refine List.perm_middle.nodup_iff.2 (List.nodup_cons.2 ⟨?_, ih⟩)
      rw [List.mem_append]
      exact not_or.2 ⟨notOpen, notClosed⟩
  | @cached log opened closed id before ih =>
      have moved : (opened ++ (closed ++ [id])).Perm (opened ++ [id] ++ closed) := by
        rw [List.append_assoc]
        exact List.Perm.append_left opened List.perm_append_comm
      exact moved.nodup_iff.2 ih
  | bodiesResolved before isClosed first ih => exact ih

theorem nodup_opened (h : Nested limit log opened closed) : opened.Nodup :=
  (List.nodup_append.1 h.nodup).1

theorem not_closed_of_open (h : Nested limit log opened closed) {id : DefId}
    (isOpen : id ∈ opened) : id ∉ closed := fun isClosed =>
  (List.nodup_append.1 h.nodup).2.2 id isOpen id isClosed rfl

theorem length_opened_le (h : Nested limit log opened closed) : opened.length ≤ limit := by
  induction h with
  | nil => exact Nat.zero_le _
  | resolving before notOpen notClosed room ih =>
      rw [List.length_append]
      exact room
  | cached before ih =>
      rw [List.length_append] at ih
      exact Nat.le_of_succ_le ih
  | bodiesResolved before isClosed first ih => exact ih

/-- Where nothing can be open, nothing is ever closed. -/
theorem limit_pos (h : Nested limit log opened closed) {id : DefId} (isClosed : id ∈ closed) :
    0 < limit := by
  induction h with
  | nil => exact absurd isClosed List.not_mem_nil
  | resolving _ _ _ _ ih => exact ih isClosed
  | cached before ih =>
      have room := before.length_opened_le
      rw [List.length_append, List.length_singleton] at room
      omega
  | bodiesResolved _ _ _ ih => exact ih isClosed

/-- What an orderly journal records at any earlier moment is orderly. -/
theorem of_append {earlier later : Log} (h : Nested limit (earlier ++ later) opened closed) :
    ∃ opened' closed', Nested limit earlier opened' closed' := by
  generalize whole : earlier ++ later = log at h
  induction h generalizing later with
  | nil =>
      obtain ⟨rfl, -⟩ := List.append_eq_nil_iff.1 whole
      exact ⟨_, _, .nil⟩
  | resolving before notOpen notClosed room ih
  | cached before ih
  | bodiesResolved before isClosed first ih =>
      rcases List.eq_nil_or_concat later with rfl | ⟨init, last, rfl⟩
      · rw [List.append_nil] at whole
        subst whole
        exact ⟨_, _, by constructor <;> assumption⟩
      · rw [List.concat_eq_append, ← List.append_assoc] at whole
        exact ih (List.append_inj_left' whole rfl)

/-! ## The states of one trait -/

/-- A trait has no state, is being resolved, or is cached and its bodies may be
done: which one it is, the stack and the cache say. -/
theorem statesOf_cases (h : Nested limit log opened closed) (id : DefId) :
    (id ∉ opened ∧ id ∉ closed ∧ statesOf log id = []) ∨
      (id ∈ opened ∧ statesOf log id = [.resolving]) ∨
      (id ∈ closed ∧ (statesOf log id = [.resolving, .cached] ∨
        statesOf log id = [.resolving, .cached, .bodiesResolved])) := by
  -- Each step of the log is about one trait, and the others keep their states.
  induction h with
  | nil => exact Or.inl ⟨List.not_mem_nil, List.not_mem_nil, rfl⟩
  | @resolving log opened closed other before notOpen notClosed room ih =>
      by_cases same : other = id
      · subst same
        obtain ⟨-, -, none⟩ | ⟨isOpen, -⟩ | ⟨isClosed, -⟩ := ih
        · exact Or.inr (Or.inl ⟨by simp, by rw [statesOf_append_self, none, List.nil_append]⟩)
        · exact absurd isOpen notOpen
        · exact absurd isClosed notClosed
      · have away : id ≠ other := Ne.symm same
        simpa [statesOf_append_of_ne log _ same, away] using ih
  | @cached log opened closed other before ih =>
      by_cases same : other = id
      · subst same
        obtain ⟨notOpen, -⟩ | ⟨-, one⟩ | ⟨isClosed, -⟩ := ih
        · exact absurd (by simp) notOpen
        · refine Or.inr (Or.inr ⟨by simp, Or.inl ?_⟩)
          rw [statesOf_append_self, one, List.singleton_append]
        · exact absurd isClosed (before.not_closed_of_open (by simp))
      · have away : id ≠ other := Ne.symm same
        simpa [statesOf_append_of_ne log _ same, away] using ih
  | @bodiesResolved log opened closed other before isClosed first ih =>
      by_cases same : other = id
      · subst same
        obtain ⟨-, notClosed, -⟩ | ⟨isOpen, -⟩ | ⟨-, two | three⟩ := ih
        · exact absurd isClosed notClosed
        · exact absurd isClosed (before.not_closed_of_open isOpen)
        · refine Or.inr (Or.inr ⟨isClosed, Or.inr ?_⟩)
          rw [statesOf_append_self, two]
          rfl
        · refine absurd (mem_statesOf.1 ?_) first
          rw [three]
          decide
      · simpa only [statesOf_append_of_ne log _ same] using ih

/-- A trait goes through its states in order and never back. -/
theorem statesOf_prefix (h : Nested limit log opened closed) (id : DefId) :
    statesOf log id <+: [.resolving, .cached, .bodiesResolved] := by
  obtain ⟨-, -, e⟩ | ⟨-, e⟩ | ⟨-, e | e⟩ := h.statesOf_cases id <;> rw [e] <;> decide

/-- A trait is begun at most once. -/
theorem count_resolving_le_one (h : Nested limit log opened closed) (id : DefId) :
    log.count (id, .resolving) ≤ 1 := by
  have counted : log.count (id, .resolving) = (statesOf log id).count .resolving := by
    rw [statesOf, List.count, List.count, List.countP_map, List.countP_filter]
    refine List.countP_congr fun e _ => ?_
    obtain ⟨other, s⟩ := e
    simp [and_comm]
  rw [counted]
  obtain ⟨-, -, e⟩ | ⟨-, e⟩ | ⟨-, e | e⟩ := h.statesOf_cases id <;> rw [e] <;> decide

theorem get?_eq_none {j : Journal} (h : Nested limit j.entries opened closed) {id : DefId}
    (notOpen : id ∉ opened) (notClosed : id ∉ closed) : j.get? id = none := by
  obtain ⟨-, -, e⟩ | ⟨isOpen, -⟩ | ⟨isClosed, -⟩ := h.statesOf_cases id
  · rw [get?_eq_getLast?, e]
    rfl
  · exact absurd isOpen notOpen
  · exact absurd isClosed notClosed

theorem get?_of_open {j : Journal} (h : Nested limit j.entries opened closed) {id : DefId}
    (isOpen : id ∈ opened) : j.get? id = some .resolving := by
  obtain ⟨notOpen, -⟩ | ⟨-, e⟩ | ⟨isClosed, -⟩ := h.statesOf_cases id
  · exact absurd isOpen notOpen
  · rw [get?_eq_getLast?, e]
    rfl
  · exact absurd isClosed (h.not_closed_of_open isOpen)

theorem open_of_get? {j : Journal} (h : Nested limit j.entries opened closed) {id : DefId}
    (resolving : j.get? id = some .resolving) : id ∈ opened := by
  rw [get?_eq_getLast?] at resolving
  obtain ⟨-, -, e⟩ | ⟨isOpen, -⟩ | ⟨-, e | e⟩ := h.statesOf_cases id
  · simp [e] at resolving
  · exact isOpen
  · simp [e] at resolving
  · simp [e] at resolving

theorem get?_of_closed {j : Journal} (h : Nested limit j.entries opened closed) {id : DefId}
    (isClosed : id ∈ closed) :
    j.get? id = some .cached ∧ (id, .bodiesResolved) ∉ j.entries ∨
      j.get? id = some .bodiesResolved := by
  obtain ⟨-, notClosed, -⟩ | ⟨isOpen, -⟩ | ⟨-, e | e⟩ := h.statesOf_cases id
  · exact absurd isClosed notClosed
  · exact absurd isClosed (h.not_closed_of_open isOpen)
  · refine Or.inl ⟨by rw [get?_eq_getLast?, e]; rfl, fun mem => ?_⟩
    rw [← mem_statesOf, e] at mem
    exact absurd mem (by decide)
  · exact Or.inr (by rw [get?_eq_getLast?, e]; rfl)

/-- The cached traits are those that have been cached. -/
theorem mem_cached_iff (h : Nested limit log opened closed) {id : DefId} :
    (id, .cached) ∈ log ↔ id ∈ closed := by
  rw [← mem_statesOf]
  obtain ⟨-, notClosed, e⟩ | ⟨isOpen, e⟩ | ⟨isClosed, e | e⟩ := h.statesOf_cases id <;> rw [e]
  · simp [notClosed]
  · simp [h.not_closed_of_open isOpen]
  · simp [isClosed]
  · simp [isClosed]

/-- While a trait is just cached, its bodies are not done. -/
theorem not_done_of_get? {j : Journal} (h : Nested limit j.entries opened closed) {id : DefId}
    (waits : j.get? id = some .cached) : (id, .bodiesResolved) ∉ j.entries := by
  rw [get?_eq_getLast?] at waits
  rw [← mem_statesOf]
  obtain ⟨-, -, e⟩ | ⟨-, e⟩ | ⟨-, e | e⟩ := h.statesOf_cases id <;> rw [e] at waits ⊢
  · simp
  · simp
  · simp
  · cases waits

end Nested

end Journal

end TraitEngine
