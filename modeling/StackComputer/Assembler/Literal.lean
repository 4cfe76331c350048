import StackComputer.Text.Blank
import StackComputer.Text.Numeral

/-!
# Literals and symbols

A literal is octal, decimal after `#` or hexadecimal after `$`, and fits in 64
bits. A symbol is a letter or underscore followed by letters, digits and
underscores.
-/

namespace StackComputer.Assembler

/-- The radix a literal announces, and its digits. -/
def radixOf : Text → Nat × Text
  | '#' :: digits => (10, digits)
  | '$' :: digits => (16, digits)
  | digits => (8, digits)

/-- Blanks around a literal are ignored. -/
def literal? (t : Text) : Option Nat :=
  let (radix, digits) := radixOf (Text.trim t)
  (Text.numeral? radix digits).filter (· < 0x10000000000000000)

/-- A literal or, after a minus sign, its negation. -/
def signedLiteral? (t : Text) : Option Int :=
  match Text.trim t with
  | '-' :: rest => (literal? rest).map fun n => -(n : Int)
  | rest => (literal? rest).map fun n => (n : Int)

def isSymbolStart (c : Char) : Bool := c.isAlpha || c == '_'

def isSymbolPart (c : Char) : Bool := c.isAlphanum || c == '_'

def isSymbol : Text → Bool
  | [] => false
  | c :: rest => isSymbolStart c && rest.all isSymbolPart

end StackComputer.Assembler
