import TraitEngine.Toml.Value
/-!
# Numbers, dates and words

A value that is neither quoted nor bracketed is a run of characters without
separators. `scalar?` reads such a run: a Boolean, an integer of 64 bits in one of
four bases, a float, or a date, a time or both.

A date or a time may also be given as a table. The first key of such a table is a
fixed marker, and the value of that key is the text of the date; the keys after it
do not count. A table that begins with the marker but holds no such text makes the
whole document malformed.
-/

namespace TraitEngine.Toml

set_option autoImplicit false

/-- Digits with single underscores between them; the underscores are dropped. -/
def digitGroups (isDigit : Char → Bool) : List Char → Option (List Char)
  | [] => none
  | [c] => if isDigit c then some [c] else none
  | c :: '_' :: rest =>
    if isDigit c then (digitGroups isDigit rest).map (c :: ·) else none
  | c :: rest => if isDigit c then (digitGroups isDigit rest).map (c :: ·) else none

def digitValue (c : Char) : Nat :=
  if c.isDigit then c.toNat - '0'.toNat
  else if c.isUpper then c.toNat - 'A'.toNat + 10
  else c.toNat - 'a'.toNat + 10

def ofDigits (base : Nat) (ds : List Char) : Nat :=
  ds.foldl (fun n c => n * base + digitValue c) 0

def isHexDigit (c : Char) : Bool :=
  c.isDigit || ('a' ≤ c && c ≤ 'f') || ('A' ≤ c && c ≤ 'F')

/-- An optional sign: whether it is negative, and what follows. -/
def splitSign : List Char → Bool × List Char
  | '-' :: rest => (true, rest)
  | '+' :: rest => (false, rest)
  | cs => (false, cs)

/-- A decimal whole number without leading zeros. -/
def wholeDigits? (cs : List Char) : Option (List Char) :=
  match cs with
  | ['0'] => some cs
  | '0' :: _ => none
  | _ => digitGroups Char.isDigit cs

def inRange? (n : Int) : Option Value :=
  if Int64.minValue.toInt ≤ n && n ≤ Int64.maxValue.toInt then some (.integer n) else none

def integer? (cs : List Char) : Option Value :=
  match cs with
  | '0' :: 'x' :: ds => do inRange? (ofDigits 16 (← digitGroups isHexDigit ds))
  | '0' :: 'o' :: ds => do
    inRange? (ofDigits 8 (← digitGroups (fun c => '0' ≤ c && c ≤ '7') ds))
  | '0' :: 'b' :: ds => do
    inRange? (ofDigits 2 (← digitGroups (fun c => c == '0' || c == '1') ds))
  | _ => do
    let (negative, cs) := splitSign cs
    let n : Int := ofDigits 10 (← wholeDigits? cs)
    inRange? (if negative then -n else n)

/-- Whether `digits` times ten to the power of `exponent` rounds to a finite double. -/
def isFinite (digits : Nat) (exponent : Int) : Bool :=
  let size : Int := (Nat.toDigits 10 digits).length
  if digits == 0 || size + exponent < 300 then true
  else if 310 < size + exponent then false
  else
    let limit := Nat.pow 2 1024 - Nat.pow 2 970
    digits * Nat.pow 10 exponent.toNat < limit * Nat.pow 10 (-exponent).toNat

/-- The digits and sign of an exponent. -/
def exponent? (cs : List Char) : Option Int := do
  let (negative, cs) := splitSign cs
  let n : Int := ofDigits 10 (← digitGroups Char.isDigit cs)
  return if negative then -n else n

def float? (text : List Char) : Option Value := do
  let (negative, cs) := splitSign text
  if cs == "inf".toList || cs == "nan".toList then return .float (String.ofList text)
  let isExponentMark (c : Char) : Bool := c == 'e' || c == 'E'
  let mantissa := cs.takeWhile fun c => !isExponentMark c
  let whole := mantissa.takeWhile (· != '.')
  let wholeDigits ← wholeDigits? whole
  let fraction ← match mantissa.drop whole.length with
    | '.' :: ds => digitGroups Char.isDigit ds
    | _ => some []
  let exponent ← match cs.drop mantissa.length with
    | _ :: ds => exponent? ds
    | [] => some 0
  if mantissa.length == cs.length && fraction.isEmpty then none
  if negative || isFinite (ofDigits 10 (wholeDigits ++ fraction)) (exponent - fraction.length) then
    return .float (String.ofList text)
  none

def twoDigits? (low high : Nat) (a b : Char) : Option Nat := do
  if a.isDigit && b.isDigit then
    let n := ofDigits 10 [a, b]
    if low ≤ n && n ≤ high then return n
  none

def monthLength (year month : Nat) : Nat :=
  if month == 2 then
    if year % 4 == 0 && (year % 100 != 0 || year % 400 == 0) then 29 else 28
  else if month == 4 || month == 6 || month == 9 || month == 11 then 30
  else 31

/-- A full date at the start; what follows it. -/
def date? : List Char → Option (List Char)
  | y₁ :: y₂ :: y₃ :: y₄ :: '-' :: m₁ :: m₂ :: '-' :: d₁ :: d₂ :: rest => do
    let century ← twoDigits? 0 99 y₁ y₂
    let year ← twoDigits? 0 99 y₃ y₄
    let month ← twoDigits? 1 12 m₁ m₂
    let _ ← twoDigits? 1 (monthLength (century * 100 + year) month) d₁ d₂
    return rest
  | _ => none

/-- A time of day at the start, with a fraction of a second if there is one. -/
def time? : List Char → Option (List Char)
  | h₁ :: h₂ :: ':' :: m₁ :: m₂ :: ':' :: s₁ :: s₂ :: rest => do
    let _ ← twoDigits? 0 23 h₁ h₂
    let _ ← twoDigits? 0 59 m₁ m₂
    let _ ← twoDigits? 0 60 s₁ s₂
    match rest with
    | '.' :: c :: more => if c.isDigit then return more.dropWhile Char.isDigit else none
    | '.' :: [] => none
    | _ => return rest
  | _ => none

def isOffset : List Char → Bool
  | ['Z'] | ['z'] => true
  | [sign, h₁, h₂, ':', m₁, m₂] =>
    (sign == '+' || sign == '-') && (twoDigits? 0 23 h₁ h₂).isSome &&
      (twoDigits? 0 59 m₁ m₂).isSome
  | _ => false

def isTimeMark (c : Char) : Bool := c == 'T' || c == 't' || c == ' '

def datetime? (text : List Char) : Option Value :=
  let valid : Bool := match date? text with
    | some [] => true
    | some (mark :: rest) =>
      isTimeMark mark && (time? rest).any fun rest => rest.isEmpty || isOffset rest
    | none => time? text == some []
  if valid then some (.datetime (String.ofList text)) else none

def word? (text : List Char) : Option Value :=
  if text == "true".toList then some (.boolean true)
  else if text == "false".toList then some (.boolean false)
  else none

def scalar? (text : List Char) : Option Value :=
  word? text <|> datetime? text <|> float? text <|> integer? text

namespace Value

def dateMarker : String := "$__toml_private_datetime"

/-- The date or time that a string spells out. -/
def spelledDate? : Value → Option Value
  | .string s => datetime? s.toList
  | _ => none

mutual

/-- Puts dates in the place of the tables that stand for them, at every depth. -/
def withDates? : Value → Option Value
  | .array elems => return .array (← elemsWithDates? elems)
  | .tables elems => return .tables (← elemsWithDates? elems)
  | .table origin ((key, v) :: entries) =>
    if key == dateMarker then v.spelledDate?
    else return .table origin ((key, ← withDates? v) :: (← entriesWithDates? entries))
  | v => some v

def elemsWithDates? : List Value → Option (List Value)
  | [] => some []
  | v :: elems => return (← withDates? v) :: (← elemsWithDates? elems)

def entriesWithDates? : List (String × Value) → Option (List (String × Value))
  | [] => some []
  | (key, v) :: entries => return (key, ← withDates? v) :: (← entriesWithDates? entries)

end

end Value

end TraitEngine.Toml
