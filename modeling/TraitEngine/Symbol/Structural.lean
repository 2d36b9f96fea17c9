import TraitEngine.Decl.Tree
import TraitEngine.Symbol.Basic
import TraitEngine.Text.Bootstring
/-!
# Structural symbols

The symbols of scheme `v0`: `_R` and the structure of the path in prefix form.
Paths and the types among their arguments nest; the type of the item itself does
not enter.
-/

namespace TraitEngine.Structural

set_option autoImplicit false

abbrev Encoded := Except SymbolError (List Char)

/-- Zero is `_`; any other number is one less in base 62, and `_`. -/
def integer (n : Nat) : List Char :=
  match n with
  | 0 => ['_']
  | n + 1 => numeral 62 n ++ ['_']

def disambiguator (n : Nat) : List Char := if n = 0 then [] else 's' :: integer n

def isIdentifierChar (c : Char) : Bool := c.isAlphanum || c == '_'

/-- The ASCII form of a name and whether it differs from the name. -/
def asciiName? (name : List Char) : Option (List Char × Bool) :=
  if name.all Bootstring.isBasic then some (name, false)
  else (Bootstring.encode? name).map fun cs =>
    (cs.map fun c => if c == '-' then '_' else c, true)

/-- An underscore keeps the length apart from a name that starts with a digit or
an underscore. -/
def separator (cs : List Char) : List Char :=
  if cs.head?.any fun c => c == '_' || c.isDigit then ['_'] else []

def identifier (name : String) : Encoded :=
  match asciiName? name.toList with
  | none => .error (.unencodable name)
  | some (cs, altered) =>
    if cs.isEmpty || !cs.all isIdentifierChar then .error (.invalidIdentifier name)
    else
      .ok ((if altered then ['u'] else []) ++ numeral 10 cs.length ++ separator cs ++ cs)

def namespaceChar : Namespace → Char
  | .type => 't'
  | .value => 'v'

def intChar : IntWidth → Char
  | .w8 => 'a'
  | .w16 => 's'
  | .w32 => 'l'
  | .w64 => 'x'
  | .w128 => 'n'
  | .size => 'i'

def uintChar : IntWidth → Char
  | .w8 => 'h'
  | .w16 => 't'
  | .w32 => 'm'
  | .w64 => 'y'
  | .w128 => 'o'
  | .size => 'j'

def primitiveChar : Primitive → Char
  | .bool => 'b'
  | .char => 'c'
  | .str => 'e'
  | .int w => intChar w
  | .uint w => uintChar w
  | .float .w32 => 'f'
  | .float .w64 => 'd'

def pointerChar : PointerKind → Mutability → Char
  | .reference, .shared => 'R'
  | .reference, .unique => 'Q'
  | .raw, .shared => 'P'
  | .raw, .unique => 'O'

def crateRoot (crate : String) (dis : Nat) : Encoded :=
  return 'C' :: disambiguator dis ++ (← identifier crate)

/-- A named segment below an encoded parent. -/
def nested (ns : Namespace) (parent : List Char) (dis : Nat) (name : String) : Encoded :=
  return 'N' :: namespaceChar ns :: parent ++ disambiguator dis ++ (← identifier name)

/-- Puts encoded arguments behind an encoded path, if there are any. -/
def instantiated (path : List Char) (hasArgs : Bool) (args : List Char) : List Char :=
  if hasArgs then 'I' :: path ++ args ++ ['E'] else path

/-- The path of a declared item, `name` being what its user calls it. -/
def definition (tree : ItemTree) (id : DefId) (name : String) : Encoded :=
  match tree.item? id with
  | none => .error (.unknownDefinition name)
  | some item => do
    (item.modules ++ [item.name]).foldlM (nested .type · 0 ·) (← crateRoot tree.crate 0)

section

variable (tree : ItemTree)

mutual

def encodeTy : Ty → Encoded
  | .prim p => return [primitiveChar p]
  | .never => return ['z']
  | .tuple [] => return ['u']
  | .tuple (t :: ts) => return 'T' :: (← encodeTys (t :: ts)) ++ ['E']
  | .adt id name args => do
    let path ← definition tree id name
    return instantiated path (!args.isEmpty) (← encodeTys args)
  | .pointer k m t => return pointerChar k m :: (← encodeTy t)
  | .array t length => return 'A' :: (← encodeTy t) ++ 'j' :: numeral 16 length ++ ['_']
  | .slice t => return 'S' :: (← encodeTy t)
  | .fn _ receiver params ret _ => do
    let receiver ← encodeReceiver receiver
    let params ← encodeTys params
    return 'F' :: receiver ++ params ++ 'E' :: (← encodeTy ret)
  | .dyn bounds => return 'D' :: (← encodeBounds bounds) ++ "EL_".toList
  | .param _ | .placeholder .. | .projection .. | .infer _ | .error => return ['p']

def encodeTys : List Ty → Encoded
  | [] => return []
  | t :: ts => do
    let head ← encodeTy t
    return head ++ (← encodeTys ts)

def encodeReceiver : Option Ty → Encoded
  | none => return []
  | some t => encodeTy t

def encodeBounds : List DynBound → Encoded
  | [] => return []
  | .mk id name args :: rest => do
    let path ← definition tree id name
    let head := instantiated path (!args.isEmpty) (← encodeTys args)
    return head ++ (← encodeBounds rest)

end

mutual

def encodePath : CanonicalPath → Encoded
  | .mk crate dis segments => do encodeSegments (← crateRoot crate dis) segments

/-- Puts segments below an encoded parent, one after the other. -/
def encodeSegments (parent : List Char) : List CanonicalSegment → Encoded
  | [] => return parent
  | segment :: rest => do encodeSegments (← encodeSegment parent segment) rest

def encodeSegment (parent : List Char) : CanonicalSegment → Encoded
  | .named name ns dis args => do
    let path ← nested ns parent dis name
    return instantiated path (!args.isEmpty) (← encodeTys tree args)
  | .traitImpl self trait dis _ => do
    let self ← encodeTy tree self
    return 'X' :: disambiguator dis ++ parent ++ self ++ (← encodePath trait)

end

end

def symbol (tree : ItemTree) (path : CanonicalPath) : Except SymbolError String :=
  return String.ofList ("_R".toList ++ (← encodePath tree path))

end TraitEngine.Structural
