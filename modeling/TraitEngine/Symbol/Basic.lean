/-!
# Symbols

What the two schemes share: the reasons why an item has no symbol, and numerals in
bases up to 62, the most significant digit first, with the digits `0`–`9`, `a`–`z`
and `A`–`Z` in this order.
-/

namespace TraitEngine

set_option autoImplicit false

inductive SymbolError where
  | unpairedColon (segment : String)
  | errorType (path : String)
  | unknownDefinition (name : String)
  | unencodable (name : String)
  | invalidIdentifier (name : String)
  | unresolvedTrait (path : String)
  | unknownItem (traitName item : String)
  deriving DecidableEq, Repr

namespace SymbolError

def message : SymbolError → String
  | .unpairedColon segment => s!"unpaired `:` in path segment `{segment}`"
  | .errorType path => s!"cannot mangle `{path}`: its type contains errors"
  | .unknownDefinition name => s!"`{name}` has no canonical path"
  | .unencodable name => s!"identifier `{name}` cannot be punycode encoded"
  | .invalidIdentifier name => s!"`{name}` is not a valid symbol identifier"
  | .unresolvedTrait path => s!"trait `{path}` does not resolve"
  | .unknownItem traitName item => s!"trait `{traitName}` has no item `{item}`"

end SymbolError

def numeralDigit (d : Nat) : Char :=
  if d < 10 then Char.ofNat ('0'.toNat + d)
  else if d < 36 then Char.ofNat ('a'.toNat + (d - 10))
  else Char.ofNat ('A'.toNat + (d - 36))

/-- The digits of a number in a base of two or more. -/
def numeral (base n : Nat) : List Char :=
  if n < base ∨ base < 2 then [numeralDigit n]
  else numeral base (n / base) ++ [numeralDigit (n % base)]
termination_by n
decreasing_by exact Nat.div_lt_self (by omega) (by omega)

/-- A numeral with zeros in front up to a width. -/
def paddedNumeral (base width n : Nat) : List Char :=
  let digits := numeral base n
  List.replicate (width - digits.length) '0' ++ digits

end TraitEngine
