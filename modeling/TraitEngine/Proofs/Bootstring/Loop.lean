import TraitEngine.Proofs.Bootstring.RoundTrip
/-!
# The encoder's loop

The loop goes on as long as a code point is open. Then there is a least one, and a turn does all
its occurrences (`head_progress`), so there are no more turns than code points. Nothing can fail
but the counter: it is added to when a turn begins, for each code point below the one looked for,
and when a turn ends. `Counts` collects the values of these sums, and the encoder fails exactly if
one of them is no 32-bit word (`encode?_eq_none_iff`). That takes a long text: a step sets the
counter back, and the next code point is less than the number of all code points away
(`Counts.le`). What is computed from the counter is computed without a test, and needs none: a bias
that comes from a word is below 216 (`Stands.fits`).
-/

namespace TraitEngine.Bootstring

set_option autoImplicit false

def points (text : List Char) : List Nat := text.map Char.toNat

def basicCount (text : List Char) : Nat := (text.filter isBasic).length

/-- The states in which the encoder comes to the head of its loop. -/
inductive Head (text : List Char) : Nat → State → Prop where
  | start : Head text 128 ⟨0, 72, basicCount text⟩
  | turn {n n' : Nat} {s s' : State} {out : List Char} : Head text n s → s.done < text.length →
      turn? (points text) (basicCount text) n s = some (out, n', s') → Head text n' s'

/-- The state in which the scan for `m` begins. -/
def State.jumpTo (s : State) (n m : Nat) : State :=
  { s with delta := s.delta + (m - n) * (s.done + 1) }

/-- The values of the counter that the encoder computes, each after those that were computed before
it have turned out to fit. -/
inductive Counts (text : List Char) : Nat → Prop where
  | jump {n m : Nat} {s : State} : Head text n s → s.done < text.length →
      leastOpen? (points text) n = some m → Counts text (s.jumpTo n m).delta
  | count {n m : Nat} {s t : State} {pre suf : List Nat} {out : List Char} : Head text n s →
      s.done < text.length → leastOpen? (points text) n = some m → points text = pre ++ suf →
      scan (basicCount text) m pre (s.jumpTo n m) = some (out, t) → (∀ c ∈ suf.head?, c < m) →
      Counts text (t.delta + 1)

variable {text : List Char} {n m : Nat} {s t : State}

/-! ## Progress -/

theorem Head.follows (h : Head text n s) :
    ∃ r, Follows (basicCount text) n [] (points text) s r := by
  induction h with
  | start => exact ⟨_, follows_start text⟩
  | turn _ _ turned ih =>
      obtain ⟨r, follows⟩ := ih
      obtain ⟨r', -, later⟩ := turn_reads [] follows turned
      exact ⟨r', later⟩

theorem Head.done_eq (h : Head text n s) : s.done = ((points text).filter (· < n)).length := by
  obtain ⟨r, follows⟩ := h.follows
  have out : r.out = (points text).filter (· < n) := follows.out
  rw [follows.done, out]

theorem Head.done_le (h : Head text n s) : s.done ≤ text.length := by
  rw [h.done_eq]
  exact (List.length_filter_le _ _).trans_eq (List.length_map _)

theorem Head.leastOpen?_isSome (h : Head text n s) (more : s.done < text.length) :
    ∃ m, leastOpen? (points text) n = some m := by
  cases least : leastOpen? (points text) n with
  | some m => exact ⟨m, rfl⟩
  | none =>
      have all : (points text).filter (· < n) = points text := by
        rw [leastOpen?, List.min?_eq_none_iff, List.filter_eq_nil_iff] at least
        exact List.filter_eq_self.2 fun c mem => by simpa using least c mem
      rw [h.done_eq, all, points, List.length_map] at more
      exact absurd more (Nat.lt_irrefl _)

/-- The code points below the next one are those below and the occurrences of this one. -/
theorem length_filter_next (points : List Nat) (m : Nat) :
    (points.filter (· < m + 1)).length = (points.filter (· < m)).length + points.count m := by
  induction points with
  | nil => rfl
  | cons c cs ih =>
      simp only [List.filter_cons, List.count_cons, decide_eq_true_eq, beq_iff_eq]
      rcases Nat.lt_trichotomy c m with less | rfl | greater
      · rw [if_pos (by omega), if_pos less, if_neg (by omega), List.length_cons, List.length_cons]
        omega
      · rw [if_pos (by omega), if_neg (by omega), if_pos rfl, List.length_cons]
        omega
      · rw [if_neg (by omega), if_neg (by omega), if_neg (by omega)]
        omega

/-- A turn does every occurrence of the least open code point. -/
theorem head_progress (h : Head text n s) (more : s.done < text.length) :
    ∃ m, leastOpen? (points text) n = some m ∧ 0 < (points text).count m ∧
      ∀ out n' s', turn? (points text) (basicCount text) n s = some (out, n', s') →
        s'.done = s.done + (points text).count m ∧ s'.done ≤ text.length := by
  obtain ⟨m, least⟩ := h.leastOpen?_isSome more
  obtain ⟨⟨mem, above⟩, none⟩ := leastOpen?_eq_some_iff.1 least
  refine ⟨m, least, List.count_pos_iff.2 mem, fun out n' s' turned => ?_⟩
  have later := h.turn more turned
  refine ⟨?_, later.done_le⟩
  obtain ⟨m', -, same, -, -, -, rfl, -⟩ := turn?_eq_some_iff.1 turned
  obtain rfl : m = m' := Option.some.inj (least.symm.trans same)
  obtain ⟨r, follows⟩ := h.follows
  have low : (points text).filter (· < m) = (points text).filter (· < n) := by
    have out : r.out = _ := (follows.jump least).out
    exact out.symm.trans follows.out
  rw [later.done_eq, length_filter_next, low, ← h.done_eq]

/-! ## Overflow -/

/-- A scan goes on behind a part of the text from where it was left. -/
theorem scan_append {basic : Nat} {pre : List Nat} (suf : List Nat) :
    ∀ {s : State} {out : List Char}, scan basic m pre s = some (out, t) →
      scan basic m (pre ++ suf) s = (scan basic m suf t).map fun rest => (out ++ rest.1, rest.2) := by
  induction pre with
  | nil =>
      intro s out eq
      cases eq
      simp
  | cons c cs ih =>
      intro s out eq
      rw [List.cons_append, scan]
      obtain ⟨less, fits, scanned⟩ | ⟨rfl, more, rfl, scanned⟩ | ⟨greater, scanned⟩ :=
        scan_cons_eq_some eq
      · rw [if_pos less, word?_eq_some_iff.2 ⟨fits, rfl⟩]
        exact ih scanned
      · rw [if_neg (Nat.lt_irrefl c), if_pos rfl]
        simp only [ih scanned]
        cases scan basic c suf t <;> simp
      · rw [if_neg greater.not_gt, if_neg greater.ne', ih scanned]

theorem scan_one_isSome {basic c : Nat} (fits : c < m → s.delta + 1 < 0x100000000) :
    ∃ out t, scan basic m [c] s = some (out, t) := by
  rw [scan]
  rcases Nat.lt_trichotomy c m with less | rfl | greater
  · rw [if_pos less, word?_eq_some_iff.2 ⟨fits less, rfl⟩]
    exact ⟨_, _, rfl⟩
  · rw [if_neg (Nat.lt_irrefl c), if_pos rfl]
    exact ⟨_, _, rfl⟩
  · rw [if_neg greater.not_gt, if_neg greater.ne']
    exact ⟨_, _, rfl⟩

/-- A scan gets through if its counter fits at each code point below. -/
theorem scan_isSome {basic : Nat} {whole : List Nat}
    (fits : ∀ pre suf out t, whole = pre ++ suf → scan basic m pre s = some (out, t) →
      (∀ c ∈ suf.head?, c < m) → t.delta + 1 < 0x100000000) :
    ∃ out t, scan basic m whole s = some (out, t) := by
  have through (suf : List Nat) : ∀ pre, whole = pre ++ suf →
      (∃ out t, scan basic m pre s = some (out, t)) →
      ∃ out t, scan basic m whole s = some (out, t) := by
    induction suf with
    | nil =>
        rintro pre rfl scanned
        rwa [List.append_nil]
    | cons c cs ih =>
        rintro pre split ⟨out, t, scanned⟩
        refine ih (pre ++ [c]) (split.trans (List.append_cons pre c cs)) ?_
        obtain ⟨one, after, next⟩ := scan_one_isSome fun less =>
          fits pre (c :: cs) out t split scanned fun d own => by
            cases own
            exact less
        exact ⟨out ++ one, after, by rw [scan_append [c] scanned, next]; rfl⟩
  exact through whole [] rfl ⟨[], s, rfl⟩

/-- As long as the encoder succeeds, its loop goes on from each head. -/
theorem Head.turns?_isSome {out : List Char} (fine : encode? text = some out)
    (h : Head text n s) : ∃ steps, turns? (points text) (basicCount text) n s = some steps := by
  induction h with
  | start =>
      obtain ⟨steps, turned, -⟩ := encode?_eq_some_iff.1 fine
      exact ⟨steps, turned⟩
  | turn _ more turned ih =>
      obtain ⟨steps, eq⟩ := ih
      rw [turns?_of_open (by simpa [points] using more), turned] at eq
      obtain ⟨later, eq, -⟩ := Option.map_eq_some_iff.1 eq
      exact ⟨later, eq⟩

theorem Head.turn?_isSome {out : List Char} (fine : encode? text = some out)
    (h : Head text n s) (more : s.done < text.length) :
    ∃ out n' s', turn? (points text) (basicCount text) n s = some (out, n', s') := by
  obtain ⟨steps, eq⟩ := h.turns?_isSome fine
  rw [turns?_of_open (by simpa [points] using more)] at eq
  obtain ⟨⟨out, n', s'⟩, turned, -⟩ := Option.bind_eq_some_iff.1 eq
  exact ⟨out, n', s', turned⟩

theorem fits_of_encode? {out : List Char} (fine : encode? text = some out) {v : Nat}
    (counted : Counts text v) : v < 0x100000000 := by
  cases counted with
  | jump h more least =>
      obtain ⟨_, _, _, turned⟩ := h.turn?_isSome fine more
      obtain ⟨m', _, same, fits, -⟩ := turn?_eq_some_iff.1 turned
      obtain rfl := Option.some.inj (least.symm.trans same)
      exact fits
  | @count n m s t pre suf out' h more least whole scanned head =>
      obtain ⟨_, _, _, turned⟩ := h.turn?_isSome fine more
      obtain ⟨m', t', same, -, through, counted, -⟩ := turn?_eq_some_iff.1 turned
      obtain rfl : m = m' := Option.some.inj (least.symm.trans same)
      rw [whole] at through
      cases suf with
      | nil =>
          rw [List.append_nil] at through
          cases scanned.symm.trans through
          exact counted
      | cons c cs =>
          have less : c < m := head c rfl
          have rest := (scan_append (c :: cs) scanned).symm.trans through
          obtain ⟨⟨_, after⟩, scanned, -⟩ := Option.map_eq_some_iff.1 rest
          obtain ⟨-, fits, -⟩ | ⟨same, -⟩ | ⟨greater, -⟩ := scan_cons_eq_some scanned
          · exact fits
          · omega
          · omega

theorem turns?_isSome_of_fits (fits : ∀ v, Counts text v → v < 0x100000000) (n : Nat) (s : State) :
    Head text n s → ∃ steps, turns? (points text) (basicCount text) n s = some steps := by
  induction n, s using turns?.induct (points text) (basicCount text) with
  | case1 n s more none =>
      intro h
      have more : s.done < text.length := by simpa [points] using more
      obtain ⟨m, least⟩ := h.leastOpen?_isSome more
      obtain ⟨out, t, scanned⟩ := scan_isSome fun pre suf out t whole scanned head =>
        fits _ (.count h more least whole scanned head)
      have turned := turn?_eq_some_iff.2 ⟨m, t, least, fits _ (.jump h more least), scanned,
        fits _ (.count h more least (List.append_nil _).symm scanned (by simp)), rfl, rfl⟩
      rw [none] at turned
      cases turned
  | case2 n s more out n' s' turned _ ih =>
      intro h
      obtain ⟨steps, later⟩ := ih (h.turn (by simpa [points] using more) turned)
      rw [turns?_of_open more, turned]
      exact ⟨out ++ steps, by simp [later]⟩
  | case3 n s all =>
      intro h
      rw [turns?, if_neg all]
      exact ⟨[], rfl⟩

/-- The encoder fails exactly if its counter leaves 32 bits. -/
theorem encode?_eq_none_iff :
    encode? text = none ↔ ∃ v, Counts text v ∧ 0x100000000 ≤ v := by
  constructor
  · intro failed
    by_contra none
    obtain ⟨steps, turned⟩ := turns?_isSome_of_fits
      (fun v counted => Nat.lt_of_not_le fun big => none ⟨v, counted, big⟩) _ _ Head.start
    rw [encode?_eq_some_iff.2 ⟨steps, turned, rfl⟩] at failed
    cases failed
  · rintro ⟨v, counted, big⟩
    cases coded : encode? text with
    | none => rfl
    | some out => exact absurd (fits_of_encode? coded counted) (Nat.not_lt.2 big)

/-! ## How far the counter gets -/

/-- A scan adds one at most for each code point. -/
theorem scan_delta_le {basic : Nat} {pre : List Nat} : ∀ {s : State} {out : List Char},
    scan basic m pre s = some (out, t) → t.delta ≤ s.delta + pre.length := by
  induction pre with
  | nil =>
      intro s out eq
      cases eq
      exact Nat.le_refl _
  | cons c cs ih =>
      intro s out eq
      rw [List.length_cons]
      obtain ⟨-, -, scanned⟩ | ⟨-, more, -, scanned⟩ | ⟨-, scanned⟩ := scan_cons_eq_some eq
      · have counted : t.delta ≤ s.delta + 1 + cs.length := ih scanned
        omega
      · have reset : t.delta ≤ 0 + cs.length := ih scanned
        omega
      · have passed := ih scanned
        omega

/-- Each step sets the counter back, so that only what follows the last one counts. -/
theorem scan_delta_lt {basic : Nat} {whole : List Nat} : ∀ {s : State} {out : List Char},
    m ∈ whole → scan basic m whole s = some (out, t) → t.delta < whole.length := by
  induction whole with
  | nil => exact fun mem => absurd mem List.not_mem_nil
  | cons c cs ih =>
      intro s out mem eq
      rw [List.length_cons]
      obtain ⟨less, -, scanned⟩ | ⟨-, more, -, scanned⟩ | ⟨greater, scanned⟩ :=
        scan_cons_eq_some eq
      · have later : m ∈ cs := (List.mem_cons.1 mem).resolve_left (by omega)
        exact (ih later scanned).trans (Nat.lt_succ_self _)
      · have reset : t.delta ≤ 0 + cs.length := scan_delta_le scanned
        omega
      · have later : m ∈ cs := (List.mem_cons.1 mem).resolve_left (by omega)
        exact (ih later scanned).trans (Nat.lt_succ_self _)

theorem Head.delta_le (h : Head text n s) : s.delta ≤ text.length := by
  cases h with
  | start => exact Nat.zero_le _
  | turn _ _ turned =>
      obtain ⟨m, t, least, -, scanned, -, -, rfl⟩ := turn?_eq_some_iff.1 turned
      obtain ⟨⟨mem, -⟩, -⟩ := leastOpen?_eq_some_iff.1 least
      have last := scan_delta_lt mem scanned
      rwa [points, List.length_map] at last

theorem Head.jump_le (h : Head text n s) (more : s.done < text.length)
    (least : leastOpen? (points text) n = some m) :
    (s.jumpTo n m).delta ≤ 0x110000 * text.length := by
  obtain ⟨⟨mem, -⟩, -⟩ := leastOpen?_eq_some_iff.1 least
  obtain ⟨c, -, rfl⟩ := List.mem_map.1 mem
  have code : c.toNat - n ≤ 0x10ffff := by
    obtain low | ⟨-, high⟩ : c.toNat < 0xd800 ∨ 0xdfff < c.toNat ∧ c.toNat < 0x110000 := c.valid
    · omega
    · omega
  have wide : (c.toNat - n) * (s.done + 1) ≤ 0x10ffff * text.length := Nat.mul_le_mul code more
  have before := h.delta_le
  simp only [State.jumpTo]
  omega

/-- The counter is at most the length of the text times the number of code points, but for one more
for each character that a scan passes. -/
theorem Counts.le {v : Nat} (counted : Counts text v) : v ≤ 0x110001 * text.length := by
  cases counted with
  | jump h more least =>
      have := h.jump_le more least
      omega
  | @count n m s t pre suf out h more least whole scanned below =>
      have jumped := h.jump_le more least
      have added := scan_delta_le scanned
      have all : pre.length + suf.length = text.length := by
        rw [← List.length_append, ← whole, points, List.length_map]
      cases suf with
      | nil =>
          obtain ⟨⟨mem, -⟩, -⟩ := leastOpen?_eq_some_iff.1 least
          rw [List.append_nil] at whole
          have last := scan_delta_lt (whole ▸ mem) scanned
          simp only [List.length_nil] at all
          omega
      | cons c cs =>
          rw [List.length_cons] at all
          omega

/-- The counter of a text of 3855 characters at most does not leave 32 bits. -/
theorem encode?_ne_none_of_length_le (short : text.length ≤ 3855) : encode? text ≠ none := by
  intro failed
  obtain ⟨v, counted, big⟩ := encode?_eq_none_iff.1 failed
  have := counted.le
  omega

/-! ## Words -/

/-- The sum that a bias is computed from is no larger than the step, so it is a word if the step
is one. -/
theorem halved_le {delta halved : Nat} (half : halved ≤ delta / 2) (points : Nat) :
    halved + halved / points ≤ delta := by
  have := Nat.div_le_self halved points
  omega

theorem scaleDown_le (j : Nat) : ∀ {delta : Nat} (k : Nat), delta ≤ 455 * 35 ^ j →
    (scaleDown delta k).2 ≤ k + 36 * j := by
  induction j with
  | zero =>
      intro delta k small
      rw [scaleDown, if_neg (by omega)]
      exact Nat.le_refl k
  | succ j ih =>
      intro delta k small
      rw [scaleDown]
      split
      · have scaled : delta / 35 ≤ 455 * 35 ^ j := by
          rw [Nat.pow_succ, ← Nat.mul_assoc] at small
          exact Nat.div_le_of_le_mul (by omega)
        have := ih (k + 36) scaled
        omega
      · exact Nat.le_add_right k _

/-- After a step that is a word the bias is small, and so are the thresholds' positions. -/
theorem adapt_lt {delta : Nat} (word : delta < 0x100000000) (points : Nat) (first : Bool) :
    adapt delta points first < 216 := by
  generalize halving : (if first then delta / 700 else delta / 2) = halved
  have half : halved ≤ delta / 2 := by
    rw [← halving]
    split <;> omega
  have sum := halved_le half points
  have scaled := scaleDown_le 5 0 (show halved + halved / points ≤ 455 * 35 ^ 5 by omega)
  simp only [adapt, halving]
  have part : 36 * (scaleDown (halved + halved / points) 0).1 /
      ((scaleDown (halved + halved / points) 0).1 + 38) < 36 := by
    rw [Nat.div_lt_iff_lt_mul (Nat.succ_pos _)]
    omega
  omega

/-- The states in which the encoder looks at its text: at the head of the loop, and in a scan,
behind any part of the text. -/
inductive Stands (text : List Char) : State → Prop where
  | head {n : Nat} {s : State} : Head text n s → Stands text s
  | scan {n m : Nat} {s t : State} {pre suf : List Nat} {out : List Char} : Head text n s →
      leastOpen? (points text) n = some m → (s.jumpTo n m).delta < 0x100000000 →
      points text = pre ++ suf →
      scan (basicCount text) m pre (s.jumpTo n m) = some (out, t) → Stands text t

/-- The counter is a word, and the bias one whose thresholds have words for positions. -/
def State.Fits (s : State) : Prop := s.delta < 0x100000000 ∧ s.bias < 216

/-- What is added to the counter is tested, and the bias comes from a counter that was a word. -/
theorem scan_fits {basic : Nat} {pre : List Nat} : ∀ {s : State} {out : List Char}, s.Fits →
    scan basic m pre s = some (out, t) → t.Fits := by
  induction pre with
  | nil =>
      intro s out fits eq
      cases eq
      exact fits
  | cons c cs ih =>
      intro s out fits eq
      obtain ⟨-, counted, scanned⟩ | ⟨-, more, -, scanned⟩ | ⟨-, scanned⟩ := scan_cons_eq_some eq
      · have next : State.Fits { s with delta := s.delta + 1 } := ⟨counted, fits.2⟩
        exact ih next scanned
      · have reset : State.Fits ⟨0, adapt s.delta (s.done + 1) (s.done == basic), s.done + 1⟩ :=
          ⟨Nat.two_pow_pos 32, adapt_lt fits.1 _ _⟩
        exact ih reset scanned
      · exact ih fits scanned

theorem Head.fits (h : Head text n s) : s.Fits := by
  induction h with
  | start => exact ⟨Nat.two_pow_pos 32, show 72 < 216 by decide⟩
  | @turn n _ s _ _ _ _ turned ih =>
      obtain ⟨m, t, -, jumped, scanned, counted, -, rfl⟩ := turn?_eq_some_iff.1 turned
      have before : (s.jumpTo n m).Fits := ⟨jumped, ih.2⟩
      exact ⟨counted, (scan_fits before scanned).2⟩

theorem Stands.fits (h : Stands text s) : s.Fits := by
  cases h with
  | head h => exact h.fits
  | scan h _ jumped _ scanned => exact scan_fits ⟨jumped, h.fits.2⟩ scanned

/-! ## The encoder and its decoder -/

theorem encode?_injective {other out : List Char} (coded : encode? text = some out)
    (same : encode? other = some out) : text = other := by
  have decoded := (decode?_of_encode? coded).symm.trans (decode?_of_encode? same)
  exact (List.map_inj_right fun _ _ => Char.toNat_inj.1).1 (Option.some.inj decoded)

/-- An encoded text is decoded to itself, so no two texts are encoded alike. Each turn of the loop
does all occurrences of a code point that was open, and there is at least one. And there is no
encoding exactly if the counter comes to a value that is no 32-bit word: wherever the encoder
stands, the counter is one, and the bias too small for anything else to leave a word. -/
theorem encode?_decodes (text : List Char) :
    (∀ out, encode? text = some out → decode? out = some (points text)) ∧
    (∀ other out, encode? text = some out → encode? other = some out → text = other) ∧
    (∀ n s, Head text n s → s.done < text.length → ∃ m, leastOpen? (points text) n = some m ∧
      0 < (points text).count m ∧
      ∀ out n' s', turn? (points text) (basicCount text) n s = some (out, n', s') →
        s'.done = s.done + (points text).count m ∧ s'.done ≤ text.length) ∧
    (encode? text = none ↔ ∃ v, Counts text v ∧ 0x100000000 ≤ v) ∧
    (∀ s, Stands text s → s.delta < 0x100000000 ∧ s.bias < 216) :=
  ⟨fun _ => decode?_of_encode?, fun _ _ => encode?_injective, fun _ _ => head_progress,
    encode?_eq_none_iff, fun _ => Stands.fits⟩

-- Three steps, so that the second and the third are written with a bias that has been adapted.
example : encode? "日本語".toList = some "wgv71a119e".toList ∧
    decode? "wgv71a119e".toList = some (points "日本語".toList) := by decide +kernel

-- The decoder alone, on a sample of RFC 3492 with nine steps.
example : decode? "ihqwcrb4cv8a8dqg056pqjye".toList = some (points "他们为什么不说中文".toList) := by
  decide +kernel

end TraitEngine.Bootstring
