/-!
# TOML values

Tables remember how they came about, which decides whether a later line may add
to them: inline tables are closed; a header may define a table that earlier
headers only passed through; dotted keys may add to tables that dotted keys made.
-/

namespace TraitEngine.Toml

set_option autoImplicit false

inductive Origin where
  | header
  | passedThrough
  | dotted
  | inline
  deriving DecidableEq, Repr

/-- A value. Floats and dates are kept as they are written; `tables` is an array
whose elements are given under headers in double brackets. -/
inductive Value where
  | string (s : String)
  | integer (n : Int)
  | float (text : String)
  | boolean (b : Bool)
  | datetime (text : String)
  | array (elems : List Value)
  | tables (elems : List Value)
  | table (origin : Origin) (entries : List (String × Value))

namespace Value

def typeText : Value → String
  | .string _ => "string"
  | .integer _ => "integer"
  | .float _ => "float"
  | .boolean _ => "boolean"
  | .datetime _ => "datetime"
  | .array _ | .tables _ => "array"
  | .table .. => "table"

def entries? : Value → Option (List (String × Value))
  | .table _ entries => some entries
  | _ => none

def get? (v : Value) (key : String) : Option Value := v.entries?.bind (·.lookup key)

def string? : Value → Option String
  | .string s => some s
  | _ => none

def integer? : Value → Option Int
  | .integer n => some n
  | _ => none

def origin : Value → Origin
  | .table origin _ => origin
  | _ => .inline

end Value

abbrev Entries := List (String × Value)

namespace Entries

def set (es : Entries) (key : String) (v : Value) : Entries :=
  if (es.lookup key).isSome then es.map fun e => if e.1 == key then (key, v) else e
  else es ++ [(key, v)]

/-- Changes the table at the end of a path, tables on the way being made as
needed. With `dotted` the path is part of a dotted key, which may only pass
through tables without a header of their own; otherwise it is part of a header. -/
def alter (dotted : Bool) (f : Origin → Entries → Option Value) :
    List String → Origin → Entries → Option Value
  | [], origin, es => f origin es
  | key :: path, origin, es => do
    let child ← match es.lookup key with
      | none => alter dotted f path (if dotted then .dotted else .passedThrough) []
      | some (.table .inline _) => none
      | some (.table .header child) =>
        if dotted then none else alter dotted f path .header child
      | some (.table childOrigin child) => alter dotted f path childOrigin child
      | some (.tables elems) =>
        match elems.getLast? with
        | some (.table childOrigin child) =>
          (alter dotted f path childOrigin child).map fun last =>
            .tables (elems.dropLast ++ [last])
        | _ => none
      | some _ => none
    return .table origin (es.set key child)

/-- Adds the value of a key to a table. A dotted key ends in a table made by
dotted keys, a simple key in one that was not; no key is given twice. -/
def addKey (path : List String) (key : String) (v : Value) (origin : Origin) (es : Entries) :
    Option Value :=
  alter true (fun origin es =>
    if (origin == .dotted) == path.isEmpty || (es.lookup key).isSome then none
    else some (.table origin (es.set key v))) path origin es

/-- Opens the table of a header; it must not have been defined before. Keys stand
in the order in which they were defined, so a table that headers only passed
through before goes last now. -/
def openTable (key : String) (origin : Origin) (es : Entries) : Option Value :=
  match es.lookup key with
  | none => some (.table origin (es.set key (.table .header [])))
  | some (.table .passedThrough child) =>
    some (.table origin ((es.filter fun e => e.1 != key) ++ [(key, .table .header child)]))
  | some _ => none

/-- Adds a table to the array of a header in double brackets. -/
def openElement (key : String) (origin : Origin) (es : Entries) : Option Value :=
  match es.lookup key with
  | none => some (.table origin (es.set key (.tables [.table .header []])))
  | some (.tables elems) =>
    some (.table origin (es.set key (.tables (elems ++ [.table .header []]))))
  | some _ => none

end Entries

end TraitEngine.Toml
