import StackComputer.Text

/-!
# Numerals

Natural numbers in a given radix: writing them, with or without leading
zeros, and reading them back.
-/

namespace StackComputer.Text

/-- Value of a digit, letters of either case standing for ten and up. -/
def digitValue (c : Char) : Nat :=
  if '0' ≤ c ∧ c ≤ '9' then c.toNat - 0x30
  else if 'a' ≤ c ∧ c ≤ 'z' then c.toNat - 0x61 + 10
  else if 'A' ≤ c ∧ c ≤ 'Z' then c.toNat - 0x41 + 10
  else 36

def isDigitIn (radix : Nat) (c : Char) : Bool := digitValue c < radix

/-- The number whose digits are appended to those of `n`. -/
def ofDigits (radix n : Nat) (t : Text) : Nat :=
  t.foldl (fun n c => n * radix + digitValue c) n

def numeral? (radix : Nat) (t : Text) : Option Nat :=
  if !t.isEmpty && t.all (isDigitIn radix) then some (ofDigits radix 0 t) else none

def octal (n : Nat) : Text := Nat.toDigits 8 n

def decimal (n : Nat) : Text := Nat.toDigits 10 n

def hexadecimal (n : Nat) : Text := Nat.toDigits 16 n

/-- Octal with leading zeros up to `width` digits. -/
def octalPadded (width n : Nat) : Text :=
  List.replicate (width - (octal n).length) '0' ++ octal n

def decimalInt (n : Int) : Text :=
  if n < 0 then '-' :: decimal n.natAbs else decimal n.natAbs

end StackComputer.Text
