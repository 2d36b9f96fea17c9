import TraitEngine.CanonicalPath
import TraitEngine.Symbol.Basic
/-!
# Legacy symbols

`_ZN`, the segments of the path from the crate on, a fingerprint of the item's
type, and `E`. Each segment is escaped to ASCII and preceded by the length of its
escaped form.
-/

namespace TraitEngine.Legacy

set_option autoImplicit false

/-- How a character other than a colon is written within a segment. -/
def escapeChar (c : Char) : List Char :=
  match c with
  | ' ' => "$u20$".toList
  | '&' => "$RF$".toList
  | '<' => "$LT$".toList
  | '>' => "$GT$".toList
  | '*' => "$BP$".toList
  | '[' => "$u5b$".toList
  | ']' => "$u5d$".toList
  | '\x7b' => "$u7b$".toList
  | '\x7d' => "$u7d$".toList
  | ',' => "$C$".toList
  | c => if c.toNat < 128 then [c] else "$u".toList ++ numeral 16 c.toNat ++ ['$']

/-- Colons come in pairs, which are written as two dots. -/
def escape? : List Char → Option (List Char)
  | [] => some []
  | ':' :: ':' :: rest => (escape? rest).map ("..".toList ++ ·)
  | ':' :: _ => none
  | c :: rest => (escape? rest).map (escapeChar c ++ ·)

/-- An angle bracket at the start is marked by an underscore. -/
def escapeSegment? (cs : List Char) : Option (List Char) :=
  match cs with
  | '<' :: _ => (escape? cs).map ('_' :: ·)
  | _ => escape? cs

def encodeSegment (name : String) : Except SymbolError (List Char) :=
  match escapeSegment? name.toList with
  | some cs => .ok (numeral 10 cs.length ++ cs)
  | none => .error (.unpairedColon name)

def offsetBasis : BitVec 128 := 0x6c62272e07bb014262b821756295c58d

def prime : BitVec 128 := 0x1000000000000000000013b

/-- The 128-bit FNV-1a sum of bytes. -/
def fnv (bytes : List UInt8) : BitVec 128 :=
  bytes.foldl (fun sum byte => (sum ^^^ byte.toBitVec.setWidth 128) * prime) offsetBasis

/-- A half of the sum in hexadecimal, in at least eight digits. -/
def halfDigits (half : BitVec 64) : List Char := paddedNumeral 16 8 half.toNat

/-- `h` and sixteen hexadecimal digits of the sum over a text, the low half of the
sum first. -/
def fingerprint (text : String) : String :=
  let sum := fnv text.toUTF8.toList
  let digits := halfDigits (sum.extractLsb' 0 64) ++ halfDigits (sum.extractLsb' 64 64)
  String.ofList ('h' :: digits.take 16)

/-- A segment with its generic arguments. -/
def segmentText (s : CanonicalSegment) : String :=
  if s.args.isEmpty then s.name
  else s.name ++ "<" ++ ",".intercalate (Ty.texts s.args) ++ ">"

/-- The texts of a path's segments, the crate's name first. -/
def segmentTexts (path : CanonicalPath) : List String :=
  path.crate :: path.segments.map segmentText

def symbol (ty : Ty) (path : CanonicalPath) : Except SymbolError String := do
  let segments ← (segmentTexts path).mapM encodeSegment
  let hash ← encodeSegment (fingerprint ty.text)
  return String.ofList ("_ZN".toList ++ segments.flatten ++ hash ++ ['E'])

end TraitEngine.Legacy
