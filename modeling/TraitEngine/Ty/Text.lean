import TraitEngine.Ty.Basic
/-!
# The surface form of types

`Ty.text` writes a type the way it is written in sources; `Primitive.ofName?`
reads the names of the primitive types back.
-/

namespace TraitEngine

set_option autoImplicit false

namespace IntWidth

def text : IntWidth → String
  | .w8 => "8"
  | .w16 => "16"
  | .w32 => "32"
  | .w64 => "64"
  | .w128 => "128"
  | .size => "size"

end IntWidth

namespace Primitive

def text : Primitive → String
  | .bool => "bool"
  | .char => "char"
  | .str => "str"
  | .int w => "i" ++ w.text
  | .uint w => "u" ++ w.text
  | .float .w32 => "f32"
  | .float .w64 => "f64"

def all : List Primitive :=
  let widths : List IntWidth := [.w8, .w16, .w32, .w64, .w128, .size]
  [.bool, .char, .str] ++ widths.map .int ++ widths.map .uint ++ [.float .w32, .float .w64]

def ofName? (name : String) : Option Primitive :=
  all.find? fun p => p.text == name

theorem ofName?_text (p : Primitive) : ofName? p.text = some p :=
  match p with
  | .bool | .char | .str => by decide
  | .int w | .uint w => by cases w <;> decide
  | .float w => by cases w <;> decide

end Primitive

namespace Ty

/-- The primitive type of that name. -/
def ofPrimitiveName? (name : String) : Option Ty :=
  (Primitive.ofName? name).map .prim

def bracketed (args : List String) : String :=
  if args.isEmpty then "" else "<" ++ ", ".intercalate args ++ ">"

def pointerText : PointerKind → Mutability → String
  | .reference, .shared => "&"
  | .reference, .unique => "&mut "
  | .raw, .shared => "*const "
  | .raw, .unique => "*mut "

mutual

def text : Ty → String
  | .prim p => p.text
  | .never => "!"
  | .tuple ts =>
    let trailing := if ts.length = 1 then "," else ""
    "(" ++ ", ".intercalate (texts ts) ++ trailing ++ ")"
  | .adt _ name args => name ++ bracketed (texts args)
  | .pointer k m t => pointerText k m ++ text t
  | .array t length => "[" ++ text t ++ "; " ++ toString length ++ "]"
  | .slice t => "[" ++ text t ++ "]"
  | .fn _ receiver params ret _ =>
    "fn(" ++ ", ".intercalate (receiverTexts receiver ++ texts params) ++ ") -> " ++ text ret
  | .param p => p.name
  | .placeholder _ name => name
  | .projection self _ traitName name =>
    "<" ++ text self ++ " as " ++ traitName ++ ">::" ++ name
  | .dyn bounds => "dyn " ++ " + ".intercalate (boundTexts bounds)
  | .infer .any => "_"
  | .infer .integer => "\x7binteger\x7d"
  | .infer .float => "\x7bfloat\x7d"
  | .error => "<error>"

def texts : List Ty → List String
  | [] => []
  | t :: ts => text t :: texts ts

def receiverTexts : Option Ty → List String
  | none => []
  | some t => [text t]

def boundTexts : List DynBound → List String
  | [] => []
  | b :: bs => boundText b :: boundTexts bs

def boundText : DynBound → String
  | .mk _ name args => name ++ bracketed (texts args)

end

instance : ToString Ty := ⟨text⟩

end Ty

end TraitEngine
