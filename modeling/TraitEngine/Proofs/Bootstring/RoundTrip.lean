import TraitEngine.Proofs.Bootstring.Steps
/-!
# Encoder and decoder in step

The encoder looks at the whole text once for each code point, in ascending order; the decoder
inserts the same code points into what it has. Both count in one unit: a place among the code
points done so far, and a whole round of places for each code point passed over. `Follows` is
what holds between the two in the middle of a scan. The encoder's counter is the distance from
the decoder's last insertion to the place that is looked at, so a step is just the distance to
the next insertion (`Follows.insert`).
-/

namespace TraitEngine.Bootstring

set_option autoImplicit false

/-- The text is `pre ++ suf`, and the scan for `m` has come to `suf`. -/
structure Follows (basic m : Nat) (pre suf : List Nat) (s : State) (r : Reader) : Prop where
  out : r.out = pre.filter (· ≤ m) ++ suf.filter (· < m)
  done : s.done = r.out.length
  bias : s.bias = r.bias
  behind : r.code ≤ m
  distance : s.delta + r.place + r.code * (s.done + 1) =
    (pre.filter (· ≤ m)).length + m * (s.done + 1)
  started : basic ≤ s.done
  first : s.done = basic ↔ r.place = 0

namespace Follows

variable {basic m c : Nat} {pre suf : List Nat} {s : State} {r : Reader}

/-- A code point that is done already is one place further. -/
theorem below (h : Follows basic m pre (c :: suf) s r) (less : c < m) :
    Follows basic m (pre ++ [c]) suf { s with delta := s.delta + 1 } r where
  out := by
    rw [h.out]
    simp [less, less.le]
  done := h.done
  bias := h.bias
  behind := h.behind
  distance := by
    have before := h.distance
    simp only [List.filter_append, List.length_append]
    simp [less.le]
    omega
  started := h.started
  first := h.first

/-- A code point for a later scan has no place yet. -/
theorem above (h : Follows basic m pre (c :: suf) s r) (greater : m < c) :
    Follows basic m (pre ++ [c]) suf s r where
  out := by
    rw [h.out]
    simp [greater.not_ge, greater.not_gt]
  done := h.done
  bias := h.bias
  behind := h.behind
  distance := by
    rw [h.distance]
    simp [greater.not_ge]
  started := h.started
  first := h.first

/-- The counter as a step leads the decoder to the place of this `m`. -/
theorem insert (h : Follows basic m pre (m :: suf) s r) :
    Follows basic m (pre ++ [m]) suf
      ⟨0, adapt s.delta (s.done + 1) (s.done == basic), s.done + 1⟩ (r.insert s.delta) := by
  obtain ⟨out, done, bias, behind, distance, started, first⟩ := h
  generalize place : (pre.filter (· ≤ m)).length = p at distance
  have inside : p < s.done + 1 := by
    rw [done, out, List.length_append]
    omega
  have ahead : r.place + s.delta = p + (m - r.code) * (s.done + 1) := by
    have split : m * (s.done + 1) = r.code * (s.done + 1) + (m - r.code) * (s.done + 1) := by
      rw [← Nat.add_mul, Nat.add_sub_cancel' behind]
    omega
  have code : r.code + (r.place + s.delta) / (s.done + 1) = m := by
    rw [ahead, Nat.add_mul_div_right _ _ (Nat.succ_pos _), Nat.div_eq_of_lt inside]
    omega
  have target : (r.place + s.delta) % (s.done + 1) = p := by
    rw [ahead, Nat.add_mul_mod_self_right, Nat.mod_eq_of_lt inside]
  have parts : r.out.take p = pre.filter (· ≤ m) ∧ r.out.drop p = suf.filter (· < m) := by
    rw [out, ← place]
    simp
  have inserted : r.insert s.delta = ⟨m, p + 1, adapt s.delta (s.done + 1) (r.place == 0),
      pre.filter (· ≤ m) ++ m :: suf.filter (· < m)⟩ := by
    simp only [Reader.insert, nextBias_eq_adapt, ← done, code, target, parts]
  have same : (s.done == basic) = (r.place == 0) := by
    rw [Bool.eq_iff_iff, beq_iff_eq, beq_iff_eq, first]
  rw [inserted, same]
  refine ⟨by simp, ?_, rfl, Nat.le_refl m, ?_, started.trans (Nat.le_succ s.done), ?_⟩
  · rw [done, out]
    simp only [List.length_append, List.length_cons, List.filter_cons, Nat.lt_irrefl, decide_false,
      Bool.false_eq_true, if_false]
    omega
  · simp only [List.filter_append, List.length_append, place]
    simp
  · exact ⟨fun fresh => absurd fresh (by simp only; omega), nofun⟩

/-- Between two scans: nothing in the text lies between `n` and the next code point. -/
theorem jump {n : Nat} {text : List Nat} (h : Follows basic n [] text s r)
    (least : leastOpen? text n = some m) :
    Follows basic m [] text { s with delta := s.delta + (m - n) * (s.done + 1) } r := by
  obtain ⟨⟨-, above⟩, none⟩ := leastOpen?_eq_some_iff.1 least
  refine ⟨?_, h.done, h.bias, h.behind.trans above, ?_, h.started, h.first⟩
  · rw [h.out]
    refine congrArg _ (List.filter_congr fun c mem => ?_)
    by_cases low : c < n
    · simp [low, low.trans_le above]
    · have := none c mem (Nat.le_of_not_lt low)
      simp [low, this]
  · have before := h.distance
    have split : m * (s.done + 1) = n * (s.done + 1) + (m - n) * (s.done + 1) := by
      rw [← Nat.add_mul, Nat.add_sub_cancel' above]
    simp only [List.filter_nil, List.length_nil] at before ⊢
    omega

/-- A scan that has come to the end of the text has done all up to `m`. -/
theorem next {text : List Nat} (h : Follows basic m text [] s r) :
    Follows basic (m + 1) [] text { s with delta := s.delta + 1 } r := by
  have out := h.out
  rw [List.filter_nil, List.append_nil] at out
  refine ⟨?_, h.done, h.bias, h.behind.trans (Nat.le_succ m), ?_, h.started, h.first⟩
  · rw [out]
    simp only [List.filter_nil, List.nil_append, Nat.lt_add_one_iff]
  · have before := h.distance
    have all : (text.filter (· ≤ m)).length = s.done := by rw [h.done, out]
    have split : (m + 1) * (s.done + 1) = m * (s.done + 1) + (s.done + 1) := Nat.succ_mul _ _
    simp only [List.filter_nil, List.length_nil]
    omega

end Follows

/-! ## Scans and turns -/

/-- The three things a scan does with a code point. -/
theorem scan_cons_eq_some {basic m c : Nat} {cs : List Nat} {s s' : State} {steps : List Char}
    (eq : scan basic m (c :: cs) s = some (steps, s')) :
    (c < m ∧ s.delta + 1 < 0x100000000 ∧
      scan basic m cs { s with delta := s.delta + 1 } = some (steps, s')) ∨
    (c = m ∧ ∃ more, steps = stepDigits s.bias 36 s.delta ++ more ∧
      scan basic m cs ⟨0, adapt s.delta (s.done + 1) (s.done == basic), s.done + 1⟩ =
        some (more, s')) ∨
    (m < c ∧ scan basic m cs s = some (steps, s')) := by
  rw [scan] at eq
  split at eq
  · next less =>
      obtain ⟨_, counted, scanned⟩ := Option.bind_eq_some_iff.1 eq
      obtain ⟨fits, rfl⟩ := word?_eq_some_iff.1 counted
      exact .inl ⟨less, fits, scanned⟩
  · split at eq
    · next same =>
        obtain ⟨⟨more, after⟩, scanned, last⟩ := Option.bind_eq_some_iff.1 eq
        cases last
        exact .inr (.inl ⟨same, more, rfl, scanned⟩)
    · exact .inr (.inr ⟨by omega, eq⟩)

/-- The steps of a scan make the decoder insert what the scan has found. -/
theorem scan_reads {basic m : Nat} {s' : State} (rest : List Char) (suf : List Nat) :
    ∀ {pre : List Nat} {s : State} {r : Reader} {steps : List Char},
      Follows basic m pre suf s r → scan basic m suf s = some (steps, s') →
      ∃ r', readSteps (steps ++ rest) r = readSteps rest r' ∧
        Follows basic m (pre ++ suf) [] s' r' := by
  induction suf with
  | nil =>
      intro pre s r steps h eq
      cases eq
      exact ⟨r, rfl, by simpa using h⟩
  | cons c cs ih =>
      intro pre s r steps h eq
      rw [List.append_cons]
      obtain ⟨less, -, scanned⟩ | ⟨rfl, more, rfl, scanned⟩ | ⟨greater, scanned⟩ :=
        scan_cons_eq_some eq
      · exact ih (h.below less) scanned
      · obtain ⟨r', read, follows⟩ := ih h.insert scanned
        refine ⟨r', ?_, follows⟩
        rw [h.bias, List.append_assoc, readSteps_stepDigits, read]
      · exact ih (h.above greater) scanned

theorem turn_reads {basic n n' : Nat} {text : List Nat} {s s' : State} {r : Reader}
    {steps : List Char} (rest : List Char) (h : Follows basic n [] text s r)
    (eq : turn? text basic n s = some (steps, n', s')) :
    ∃ r', readSteps (steps ++ rest) r = readSteps rest r' ∧ Follows basic n' [] text s' r' := by
  obtain ⟨m, t, least, -, scanned, -, rfl, rfl⟩ := turn?_eq_some_iff.1 eq
  obtain ⟨r', read, follows⟩ := scan_reads rest text (h.jump least) scanned
  exact ⟨r', read, Follows.next follows⟩

/-- When everything is done, the decoder has the text. -/
theorem Follows.out_eq {basic n : Nat} {text : List Nat} {s : State} {r : Reader}
    (h : Follows basic n [] text s r) (all : text.length ≤ s.done) : r.out = text := by
  have out : r.out = text.filter (· < n) := h.out
  rw [h.done, out] at all
  rw [out]
  exact List.filter_sublist.eq_of_length_le all

theorem turns?_of_open {basic n : Nat} {text : List Nat} {s : State}
    (more : s.done < text.length) :
    turns? text basic n s = (turn? text basic n s).bind fun turn =>
      (turns? text basic turn.2.1 turn.2.2).map (turn.1 ++ ·) := by
  rw [turns?, if_pos more]
  split <;> simp [*]

theorem turns_reads {basic : Nat} {text : List Nat} (n : Nat) (s : State) :
    ∀ {r : Reader} {steps : List Char}, Follows basic n [] text s r →
      turns? text basic n s = some steps → readSteps steps r = some text := by
  induction n, s using turns?.induct text basic with
  | case1 n s more none =>
      intro r steps h eq
      rw [turns?_of_open more, none] at eq
      cases eq
  | case2 n s more out n' s' turned _ ih =>
      intro r steps h eq
      rw [turns?_of_open more, turned] at eq
      obtain ⟨steps, later, rfl⟩ := Option.map_eq_some_iff.1 eq
      obtain ⟨r', read, follows⟩ := turn_reads steps h turned
      rw [read, ih follows later]
  | case3 n s all =>
      intro r steps h eq
      rw [turns?, if_neg all] at eq
      cases eq
      rw [readSteps, h.out_eq (Nat.le_of_not_lt all)]

/-! ## The whole encoding -/

/-- The loop starts where the decoder starts. -/
theorem follows_start (text : List Char) :
    Follows (text.filter isBasic).length 128 [] (text.map Char.toNat)
      ⟨0, 72, (text.filter isBasic).length⟩
      ⟨128, 0, 72, (text.filter isBasic).map Char.toNat⟩ where
  out := by
    rw [List.filter_nil, List.nil_append, List.filter_map]
    rfl
  done := by simp
  bias := rfl
  behind := Nat.le_refl 128
  distance := by simp
  started := Nat.le_refl _
  first := by simp

theorem scan_digits {basic m : Nat} {suf : List Nat} : ∀ {s s' : State} {steps : List Char},
    scan basic m suf s = some (steps, s') → ∀ c ∈ steps, IsDigit c := by
  induction suf with
  | nil =>
      intro s s' steps eq
      cases eq
      exact nofun
  | cons c cs ih =>
      intro s s' steps eq
      obtain ⟨-, -, scanned⟩ | ⟨-, more, rfl, scanned⟩ | ⟨-, scanned⟩ := scan_cons_eq_some eq
      · exact ih scanned
      · intro d mem
        rcases List.mem_append.1 mem with own | later
        · exact stepDigits_digits _ _ _ d own
        · exact ih scanned d later
      · exact ih scanned

theorem turns_digits {basic : Nat} {text : List Nat} (n : Nat) (s : State) :
    ∀ {steps : List Char}, turns? text basic n s = some steps → ∀ c ∈ steps, IsDigit c := by
  induction n, s using turns?.induct text basic with
  | case1 n s more none =>
      intro steps eq
      rw [turns?_of_open more, none] at eq
      cases eq
  | case2 n s more out n' s' turned _ ih =>
      intro steps eq
      rw [turns?_of_open more, turned] at eq
      obtain ⟨steps, later, rfl⟩ := Option.map_eq_some_iff.1 eq
      obtain ⟨m, t, -, -, scanned, -⟩ := turn?_eq_some_iff.1 turned
      intro c mem
      rcases List.mem_append.1 mem with own | mem
      · exact scan_digits scanned c own
      · exact ih later c mem
  | case3 n s all =>
      intro steps eq
      rw [turns?, if_neg all] at eq
      cases eq
      exact nofun

/-- The two parts of an encoding. -/
theorem encode?_eq_some_iff {text out : List Char} :
    encode? text = some out ↔ ∃ steps,
      turns? (text.map Char.toNat) (text.filter isBasic).length 128
        ⟨0, 72, (text.filter isBasic).length⟩ = some steps ∧
      out = delimited '-' (text.filter isBasic) ++ steps := by
  simp only [encode?, Option.bind_eq_bind, Option.bind_eq_some_iff, Option.pure_def,
    Option.some.injEq]
  exact exists_congr fun _ => and_congr_right fun _ => eq_comm

theorem splitLast_delimited {basic steps : List Char} (digits : ∀ c ∈ steps, IsDigit c) :
    splitLast (delimited '-' basic ++ steps) = (basic, steps) := by
  have free (c : Char) (mem : c ∈ steps) : c ≠ '-' := (digits c mem).ne_delimiter
  cases basic with
  | nil => exact splitLast_of_free free
  | cons b bs =>
      have delimited := splitLast_append (List.cons_ne_nil b bs) free
      rwa [List.append_cons] at delimited

/-- The decoder gives back the text that was encoded. -/
theorem decode?_of_encode? {text out : List Char} (eq : encode? text = some out) :
    decode? out = some (text.map Char.toNat) := by
  obtain ⟨steps, turned, rfl⟩ := encode?_eq_some_iff.1 eq
  have ascii : (text.filter isBasic).all isBasic = true := by simp
  rw [decode?, splitLast_delimited (turns_digits _ _ turned)]
  simp only [ascii, if_true]
  exact turns_reads _ _ (follows_start text) turned

end TraitEngine.Bootstring
