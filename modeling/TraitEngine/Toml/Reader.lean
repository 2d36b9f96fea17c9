import TraitEngine.Toml.Number
/-!
# Reading TOML

`Toml.parse?` reads a document into its root, or fails on a document that is
malformed: there is no partial result. Loops are bounded by the number of
characters left, nesting and dotted keys by `depthLimit`.
-/

namespace TraitEngine.Toml

set_option autoImplicit false

/-- Values nest less deep than this, and keys have fewer parts. -/
def depthLimit : Nat := 80

/-- A reader takes characters off the front of the input or fails. -/
abbrev Reader := StateT (List Char) Option

namespace Reader

def peek : Reader (Option Char) := return (← get).head?

def next : Reader Char := do
  match ← get with
  | c :: rest => do
    set rest
    return c
  | [] => failure

def expect (c : Char) : Reader Unit := do
  if (← next) != c then failure

def takeWhile (test : Char → Bool) : Reader (List Char) :=
  modifyGet fun cs => (cs.takeWhile test, cs.dropWhile test)

def skipWhile (test : Char → Bool) : Reader Unit := modify (·.dropWhile test)

/-- Takes a text off the front if it is there. -/
def accept (text : String) : Reader Bool :=
  modifyGet fun cs =>
    if text.toList.isPrefixOf cs then (true, cs.drop text.length) else (false, cs)

end Reader

open Reader

def isSpace (c : Char) : Bool := c == ' ' || c == '\t'

def isNonAscii (c : Char) : Bool := 128 ≤ c.toNat

/-- The characters of a comment or of a text: no control characters but the tab. -/
def isPlain (c : Char) : Bool := c == '\t' || (32 ≤ c.toNat && c.toNat ≤ 126) || isNonAscii c

def spaces : Reader Unit := skipWhile isSpace

def newline : Reader Bool := do
  if ← accept "\n" then return true
  accept "\r\n"

/-- The rest of a line after its statement: blanks and perhaps a comment. -/
def lineEnd : Reader Unit := do
  spaces
  if ← accept "#" then skipWhile isPlain
  unless (← get).isEmpty do
    unless ← newline do failure

/-- Blanks, line breaks and comments between the elements of an array. -/
def gap : Nat → Reader Unit
  | 0 => failure
  | steps + 1 => do
    spaces
    if ← newline then gap steps
    else if ← accept "#" then
      skipWhile isPlain
      unless ← newline do failure
      gap steps

/-- The character of a Unicode escape; surrogates are not characters. -/
def escapedChar? (ds : List Char) : Option Char :=
  if ds.all isHexDigit then
    let n := ofDigits 16 ds
    if n.isValidChar then some (Char.ofNat n) else none
  else none

/-- What a backslash in a quoted text stands for. -/
def escape : Reader Char := do
  match ← next with
  | 'b' => return '\x08'
  | 't' => return '\t'
  | 'n' => return '\n'
  | 'f' => return '\x0c'
  | 'r' => return '\r'
  | '"' => return '"'
  | '\\' => return '\\'
  | 'u' => escapedChar? [← next, ← next, ← next, ← next]
  | 'U' =>
    escapedChar? [← next, ← next, ← next, ← next, ← next, ← next, ← next, ← next]
  | _ => failure

/-- The rest of a text between double quotes. -/
def basicText : Nat → Reader (List Char)
  | 0 => failure
  | steps + 1 => do
    match ← next with
    | '"' => return []
    | '\\' => return (← escape) :: (← basicText steps)
    | c => if isPlain c then return c :: (← basicText steps) else failure

/-- The rest of a text between single quotes, where nothing is escaped. -/
def literalText : Reader (List Char) := do
  let cs ← takeWhile fun c => isPlain c && c != '\''
  expect '\''
  return cs

/-- The end of a text in tripled quotes: up to two more quotes belong to the text. -/
def closing? (quote : Char) : Reader (Option (List Char)) := do
  let run := (← get).takeWhile (· == quote)
  if run.length < 3 then return none
  let taken := run.take 5
  modify (·.drop taken.length)
  return some (taken.drop 3)

def dropBlank : List Char → List Char
  | ' ' :: rest | '\t' :: rest | '\n' :: rest | '\r' :: '\n' :: rest => dropBlank rest
  | cs => cs

/-- A backslash at the end of a line joins it to the next text, blanks left out. -/
def lineJoin (rest : List Char) : Option (List Char) :=
  match rest.dropWhile isSpace with
  | '\n' :: after | '\r' :: '\n' :: after => some (dropBlank after)
  | _ => none

/-- The rest of a text in tripled double quotes. -/
def basicLines : Nat → Reader (List Char)
  | 0 => failure
  | steps + 1 => do
    match ← closing? '"' with
    | some quotes => return quotes
    | none =>
      if ← newline then return '\n' :: (← basicLines steps)
      match ← next with
      | '\\' =>
        match lineJoin (← get) with
        | some rest => do
          set rest
          basicLines steps
        | none => return (← escape) :: (← basicLines steps)
      | c => if isPlain c then return c :: (← basicLines steps) else failure

/-- The rest of a text in tripled single quotes. -/
def literalLines : Nat → Reader (List Char)
  | 0 => failure
  | steps + 1 => do
    match ← closing? '\'' with
    | some quotes => return quotes
    | none =>
      if ← newline then return '\n' :: (← literalLines steps)
      let c ← next
      if isPlain c then return c :: (← literalLines steps) else failure

/-- A quoted text on one line, or `none` if the input does not start with one. -/
def quotedLine? : Reader (Option String) := do
  if ← accept "\"" then return some (String.ofList (← basicText ((← get).length + 1)))
  if ← accept "'" then return some (String.ofList (← literalText))
  return none

/-- A quoted text; a line break right after tripled quotes is left out. -/
def quoted? : Reader (Option String) := do
  if ← accept "\"\"\"" then
    let _ ← newline
    return some (String.ofList (← basicLines ((← get).length + 1)))
  if ← accept "'''" then
    let _ ← newline
    return some (String.ofList (← literalLines ((← get).length + 1)))
  quotedLine?

def isBareKeyChar (c : Char) : Bool := c.isAlphanum || c == '-' || c == '_'

def simpleKey : Reader String := do
  match ← quotedLine? with
  | some key => return key
  | none =>
    let key ← takeWhile isBareKeyChar
    if key.isEmpty then failure
    return String.ofList key

/-- The parts of a dotted key. -/
def keyParts : Nat → Reader (List String)
  | 0 => failure
  | parts + 1 => do
    spaces
    let key ← simpleKey
    spaces
    if ← accept "." then return key :: (← keyParts parts) else return [key]

/-- A dotted key: the way to its table, and its last part. -/
def key : Reader (List String × String) := do
  let parts ← keyParts (depthLimit - 1)
  match parts.getLast? with
  | some last => return (parts.dropLast, last)
  | none => failure

def isScalarChar (c : Char) : Bool :=
  c.isAlphanum || c == '+' || c == '-' || c == '_' || c == '.' || c == ':'

/-- A scalar without quotes. One blank may stand between a date and a time. -/
def scalar : Reader Value := do
  let first ← takeWhile isScalarChar
  match date? first, ← get with
  | some [], ' ' :: c :: rest =>
    if c.isDigit then
      set (c :: rest)
      scalar? (first ++ ' ' :: (← takeWhile isScalarChar))
    else scalar? first
  | _, _ => scalar? first

/-- The pairs of an inline table, put together in order. -/
def inlineTable? (pairs : List ((List String × String) × Value)) : Option Value := do
  let root ← pairs.foldlM (fun root ((path, key), v) =>
    match root with
    | .table origin es => Entries.addKey path key v origin es
    | _ => none) (Value.table .header [])
  return .table .inline (root.entries?.getD [])

mutual

/-- A value, inside of `nested` brackets. -/
def value : Nat → Nat → Reader Value
  | 0, _ => failure
  | steps + 1, nested => do
    match ← quoted? with
    | some s => return .string s
    | none =>
      if ← accept "[" then
        if depthLimit ≤ nested + 1 then failure
        return .array (← elements steps (nested + 1))
      else if ← accept "\x7b" then
        if depthLimit ≤ nested + 1 then failure
        spaces
        let pairs ← if ← accept "\x7d" then pure [] else pairs steps (nested + 1)
        inlineTable? pairs
      else scalar

/-- The elements of an array up to its end. A comma may follow the last one. -/
def elements : Nat → Nat → Reader (List Value)
  | 0, _ => failure
  | steps + 1, nested => do
    gap (steps + 1)
    if ← accept "]" then return []
    let v ← value steps nested
    gap (steps + 1)
    if ← accept "," then return v :: (← elements steps nested)
    expect ']'
    return [v]

/-- The pairs of an inline table up to its end, at least one. -/
def pairs : Nat → Nat → Reader (List ((List String × String) × Value))
  | 0, _ => failure
  | steps + 1, nested => do
    let k ← key
    expect '='
    spaces
    let v ← value steps nested
    spaces
    if ← accept "," then return (k, v) :: (← pairs steps nested)
    expect '\x7d'
    return [(k, v)]

end

/-- The document so far, and the path of the table that lines add to. -/
structure Document where
  root : Value := .table .header []
  current : List String := []

namespace Document

/-- Changes the table at the end of a path of headers. -/
def alter (d : Document) (path : List String) (f : Origin → Entries → Option Value) :
    Option Value :=
  match d.root with
  | .table origin es => Entries.alter false f path origin es
  | _ => none

def addKey (d : Document) (path : List String) (key : String) (v : Value) : Option Document := do
  return { d with root := ← d.alter d.current (Entries.addKey path key v) }

def openHeader (path : List String) (key : String)
    (f : String → Origin → Entries → Option Value) (d : Document) : Option Document := do
  return { root := ← d.alter path (f key), current := path ++ [key] }

end Document

def header (d : Document) : Reader Document := do
  let array ← accept "[["
  unless array do expect '['
  let (path, key) ← key
  expect ']'
  if array then expect ']'
  lineEnd
  d.openHeader path key (if array then Entries.openElement else Entries.openTable)

def keyValue (d : Document) : Reader Document := do
  let (path, key) ← key
  expect '='
  spaces
  let v ← value (2 * (← get).length + 2) 0
  lineEnd
  d.addKey path key v

/-- The statements of a document, one or none on a line. -/
def statements : Nat → Document → Reader Document
  | 0, _ => failure
  | lines + 1, d => do
    spaces
    match ← peek with
    | none => return d
    | some '#' => do
      lineEnd
      statements lines d
    | some '[' => do statements lines (← header d)
    | some c =>
      if c == '\n' || c == '\r' then
        unless ← newline do failure
        statements lines d
      else statements lines (← keyValue d)

/-- The root of a document. A byte order mark in front is left out. -/
def parse? (text : String) : Option Value := do
  let cs := match text.toList with
    | '\ufeff' :: rest => rest
    | cs => cs
  let d ← (statements (cs.length + 1) {}).run' cs
  d.root.withDates?

end TraitEngine.Toml
