/-!
# Bootstring

Writes a text in ASCII letters, digits and one delimiter, with the parameters of
Punycode: the ASCII characters come first, then the others in ascending order, as
steps of a counter over code points and positions. Each step is a number in
variable-length digits of base 36, whose thresholds adapt to the steps before it.

Steps are 32-bit words, so `encode?` fails on a text whose steps grow too large.
`decode?` counts without a bound. It shares nothing with the encoder but the parameters: its
thresholds and its bias are written down after the prose of RFC 3492, the encoder's after its
loops, and that the two agree is proved.
-/

namespace TraitEngine.Bootstring

set_option autoImplicit false

def digitChar (d : Nat) : Char :=
  if d < 26 then Char.ofNat ('a'.toNat + d) else Char.ofNat ('0'.toNat + (d - 26))

def digitValue? (c : Char) : Option Nat :=
  if 'a' ≤ c && c ≤ 'z' then some (c.toNat - 'a'.toNat)
  else if 'A' ≤ c && c ≤ 'Z' then some (c.toNat - 'A'.toNat)
  else if '0' ≤ c && c ≤ '9' then some (c.toNat - '0'.toNat + 26)
  else none

/-- The threshold of the digit at weight position `k`. -/
def threshold (bias k : Nat) : Nat :=
  if k ≤ bias then 1 else if bias + 26 ≤ k then 26 else k - bias

theorem one_le_threshold (bias k : Nat) : 1 ≤ threshold bias k := by
  unfold threshold
  split
  · omega
  · split <;> omega

theorem threshold_le (bias k : Nat) : threshold bias k ≤ 26 := by
  unfold threshold
  split
  · omega
  · split <;> omega

/-- The digits of a step, the least significant first. -/
def stepDigits (bias k q : Nat) : List Char :=
  let t := threshold bias k
  if q < t then [digitChar q]
  else digitChar (t + (q - t) % (36 - t)) :: stepDigits bias (k + 36) ((q - t) / (36 - t))
termination_by q
decreasing_by
  have := one_le_threshold bias k
  have := Nat.div_le_self (q - threshold bias k) (36 - threshold bias k)
  omega

/-- Scales a step down by 35 as often as it exceeds 455; each time counts 36. -/
def scaleDown (delta k : Nat) : Nat × Nat :=
  if 455 < delta then scaleDown (delta / 35) (k + 36) else (delta, k)
termination_by delta
decreasing_by omega

/-- The bias after a step. If the step is a word then so is the sum that is scaled down, and the
bias is below 216, so that no position of a threshold leaves a word either (`halved_le`,
`adapt_lt`). -/
def adapt (delta points : Nat) (first : Bool) : Nat :=
  let halved := if first then delta / 700 else delta / 2
  let (rest, k) := scaleDown (halved + halved / points) 0
  k + 36 * rest / (rest + 38)

/-- The counter since the last step, the bias, and how many code points are done. -/
structure State where
  delta : Nat
  bias : Nat
  done : Nat

/-- A number that fits a 32-bit word. -/
def word? (n : Nat) : Option Nat := if n < 0x100000000 then some n else none

theorem word?_eq_some_iff {n w : Nat} : word? n = some w ↔ n < 0x100000000 ∧ n = w := by
  simp [word?]

/-- One scan of the text: a step for each occurrence of `m`. -/
def scan (basic m : Nat) : List Nat → State → Option (List Char × State)
  | [], s => some ([], s)
  | c :: cs, s =>
    if c < m then do
      let delta ← word? (s.delta + 1)
      scan basic m cs { s with delta }
    else if c = m then do
      let bias := adapt s.delta (s.done + 1) (s.done == basic)
      let (out, after) ← scan basic m cs { delta := 0, bias, done := s.done + 1 }
      return (stepDigits s.bias 36 s.delta ++ out, after)
    else scan basic m cs s

/-- The least code point that is not below `n`. -/
def leastOpen? (text : List Nat) (n : Nat) : Option Nat := (text.filter (n ≤ ·)).min?

/-- One turn of the loop: on to the least open code point, a scan for it, and past it. -/
def turn? (text : List Nat) (basic n : Nat) (s : State) : Option (List Char × Nat × State) := do
  let m ← leastOpen? text n
  let jump ← word? ((m - n) * (s.done + 1))
  let delta ← word? (s.delta + jump)
  let (out, s) ← scan basic m text { s with delta }
  let delta ← word? (s.delta + 1)
  return (out, m + 1, { s with delta })

theorem leastOpen?_eq_some_iff {text : List Nat} {n m : Nat} :
    leastOpen? text n = some m ↔ (m ∈ text ∧ n ≤ m) ∧ ∀ c ∈ text, n ≤ c → m ≤ c := by
  simp [leastOpen?, List.min?_eq_some_iff]

theorem turn?_eq_some_iff {text : List Nat} {basic n n' : Nat} {s s' : State} {out : List Char} :
    turn? text basic n s = some (out, n', s') ↔
      ∃ m t, leastOpen? text n = some m ∧ s.delta + (m - n) * (s.done + 1) < 0x100000000 ∧
        scan basic m text { s with delta := s.delta + (m - n) * (s.done + 1) } = some (out, t) ∧
        t.delta + 1 < 0x100000000 ∧ n' = m + 1 ∧ s' = { t with delta := t.delta + 1 } := by
  simp only [turn?, Option.bind_eq_bind, Option.bind_eq_some_iff, word?_eq_some_iff,
    Option.pure_def, Option.some.injEq, Prod.mk.injEq]
  constructor
  · rintro ⟨m, least, _, ⟨-, rfl⟩, _, ⟨jumped, rfl⟩, ⟨_, t⟩, scanned, _, ⟨counted, rfl⟩, rfl, rfl,
      rfl⟩
    exact ⟨m, t, least, jumped, scanned, counted, rfl, rfl⟩
  · rintro ⟨m, t, least, jumped, scanned, counted, rfl, rfl⟩
    exact ⟨m, least, _, ⟨by omega, rfl⟩, _, ⟨jumped, rfl⟩, (out, t), scanned, _, ⟨counted, rfl⟩,
      rfl, rfl, rfl⟩

theorem turn?_shortens {text : List Nat} {basic n n' : Nat} {s s' : State} {out : List Char}
    (eq : turn? text basic n s = some (out, n', s')) :
    (text.filter (n' ≤ ·)).length < (text.filter (n ≤ ·)).length := by
  obtain ⟨m, t, least, -, -, -, rfl, -⟩ := turn?_eq_some_iff.1 eq
  obtain ⟨⟨mem, above⟩, -⟩ := leastOpen?_eq_some_iff.1 least
  have further : text.filter (m + 1 ≤ ·) = (text.filter (n ≤ ·)).filter (m + 1 ≤ ·) := by
    rw [List.filter_filter]
    refine List.filter_congr fun c _ => ?_
    simp only [← Bool.decide_and]
    congr 1
    exact propext ⟨fun past => ⟨past, by omega⟩, And.left⟩
  rw [further, List.length_filter_lt_length_iff_exists]
  exact ⟨m, by simp [mem, above], by simp⟩

/-- Turns until every code point is done. -/
def turns? (text : List Nat) (basic n : Nat) (s : State) : Option (List Char) :=
  if s.done < text.length then
    match eq : turn? text basic n s with
    | none => none
    | some (out, n', s') =>
      have := turn?_shortens eq
      (turns? text basic n' s').map (out ++ ·)
  else some []
termination_by (text.filter (n ≤ ·)).length
decreasing_by exact this

def isBasic (c : Char) : Bool := c.toNat < 128

/-- The ASCII characters and a delimiter behind them, if there are any. -/
def delimited (delimiter : Char) (basic : List Char) : List Char :=
  if basic.isEmpty then [] else basic ++ [delimiter]

def encode? (text : List Char) : Option (List Char) := do
  let basic := text.filter isBasic
  let steps ← turns? (text.map Char.toNat) basic.length 128 ⟨0, 72, basic.length⟩
  return delimited '-' basic ++ steps

/-! ## The decoder -/

/-- The threshold of the digit at place `j`, counted from 0: 36 for each place up to it, less the
bias, and never outside of 1 to 26. -/
def placeThreshold (bias j : Nat) : Nat := max 1 (min 26 (36 * (j + 1) - bias))

/-- How often `delta` is divided by 35 until it is 455 at most. -/
def divisions (delta : Nat) : Nat :=
  if delta ≤ 455 then 0 else divisions (delta / 35) + 1
termination_by delta
decreasing_by omega

/-- The bias after a step of `delta` to one of `size` places. The first step is damped, and a step
counts for more in a short text. The divisions that are left to do predict the digits of the next
step, and what remains says how far the last of them is in use. -/
def nextBias (delta size : Nat) (first : Bool) : Nat :=
  let damped := delta / (if first then 700 else 2)
  let share := damped + damped / size
  let rest := share / Nat.pow 35 (divisions share)
  36 * divisions share + 36 * rest / (rest + 38)

/-- Reads one step from its digits, from place `j` on; the rest of the input comes second. -/
def readStep (bias : Nat) : Nat → Nat → List Char → Option (Nat × List Char)
  | _, _, [] => none
  | j, weight, c :: cs => do
    let d ← digitValue? c
    let t := placeThreshold bias j
    if d < t then return (d * weight, cs)
    let (more, rest) ← readStep bias (j + 1) (weight * (36 - t)) cs
    return (d * weight + more, rest)

theorem readStep_shortens {bias : Nat} {cs rest : List Char} : ∀ {j weight delta : Nat},
    readStep bias j weight cs = some (delta, rest) → rest.length < cs.length := by
  induction cs with
  | nil => exact fun eq => nomatch eq
  | cons c cs ih =>
      intro j weight delta eq
      simp only [readStep, Option.bind_eq_bind, Option.bind_eq_some_iff] at eq
      obtain ⟨d, -, eq⟩ := eq
      split at eq
      · cases eq
        exact Nat.lt_succ_self _
      · obtain ⟨⟨more, rest'⟩, read, last⟩ := Option.bind_eq_some_iff.1 eq
        cases last
        exact Nat.lt_succ_of_lt (ih read)

/-- A decoder's code point, the position after its last insertion, its bias, and what is decoded. -/
structure Reader where
  code : Nat
  place : Nat
  bias : Nat
  out : List Nat

/-- Goes on by a step and inserts a code point. -/
def Reader.insert (r : Reader) (delta : Nat) : Reader :=
  let size := r.out.length + 1
  let code := r.code + (r.place + delta) / size
  let place := (r.place + delta) % size
  { code, place := place + 1
    bias := nextBias delta size (r.place == 0)
    out := r.out.take place ++ code :: r.out.drop place }

/-- Reads steps to the end of the input, and inserts a code point for each. -/
def readSteps : List Char → Reader → Option (List Nat)
  | [], r => some r.out
  | c :: cs, r =>
    match eq : readStep r.bias 0 1 (c :: cs) with
    | none => none
    | some (delta, rest) =>
      have := readStep_shortens eq
      readSteps rest (r.insert delta)
termination_by cs => cs.length
decreasing_by exact this

/-- What stands before the last delimiter, and what follows it. A delimiter with nothing before it
is left to what follows. -/
def splitLast (cs : List Char) : List Char × List Char :=
  let tail := (cs.reverse.takeWhile (· != '-')).reverse
  let basic := cs.take (cs.length - tail.length - 1)
  if basic.isEmpty then ([], cs) else (basic, tail)

/-- The code points of the text that is written as `cs`. -/
def decode? (cs : List Char) : Option (List Nat) :=
  let (basic, steps) := splitLast cs
  if basic.all isBasic then readSteps steps ⟨128, 0, 72, basic.map Char.toNat⟩ else none

end TraitEngine.Bootstring
