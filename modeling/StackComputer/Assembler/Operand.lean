import StackComputer.Assembler.Literal
import StackComputer.Instruction

/-!
# Operands

An operand is an address and at most one of each suffix:

* `.+n`, `.-n`, `P+n`, `P-n` or a lone `.`, relative to the instruction;
* `DB+v`, relative to the data base;
* `v` alone.

Here `n` is a literal and `v` a literal or a symbol. Letter case and blanks
do not matter.
-/

namespace StackComputer.Assembler

/-- A number, or a symbol that stands for one. -/
inductive Value where
  | number (n : Nat)
  | symbol (name : Text)
deriving DecidableEq, Repr

inductive Address where
  /-- A distance from the instruction itself. -/
  | own (back : Bool) (magnitude : Nat)
  | db (value : Value)
  | plain (value : Value)
deriving DecidableEq, Repr

structure Operand where
  address : Address
  suffixes : Suffixes := {}
deriving DecidableEq, Repr

def value? (t : Text) : Option Value :=
  match literal? t with
  | some n => some (.number n)
  | none => if isSymbol t then some (.symbol t) else none

/-- The direction of an address relative to the instruction, and the text of
its magnitude. -/
def direction? : Text → Option (Bool × Text)
  | base :: sign :: rest =>
    if base = '.' ∨ base.toUpper = 'P' then
      if sign = '+' then some (false, rest) else if sign = '-' then some (true, rest) else none
    else none
  | _ => none

/-- What follows `DB+`. -/
def afterDb? : Text → Option Text
  | d :: b :: plus :: rest =>
    if d.toUpper = 'D' ∧ b.toUpper = 'B' ∧ plus = '+' then some rest else none
  | _ => none

def address? (t : Text) : Option Address :=
  if t = ['.'] then some (.own false 0) else
  match direction? t with
  | some (back, rest) => (literal? rest).map (.own back)
  | none =>
    match afterDb? t with
    | some rest => (value? rest).map .db
    | none => (value? t).map .plain

/-- Adds the suffixes of a list, none of which may come twice. -/
def suffixes? (s : Suffixes) : List Text → Option Suffixes
  | [] => some s
  | [c] :: rest =>
    if c.toUpper = 'I' ∧ !s.indirect then suffixes? { s with indirect := true } rest
    else if c.toUpper = 'X' ∧ !s.indexed then suffixes? { s with indexed := true } rest
    else none
  | _ :: _ => none

def operand? (t : Text) : Option Operand :=
  match Text.splitAt (· == ',') (Text.squeeze t) with
  | [] => none
  | base :: rest => do
    let address ← address? base
    let suffixes ← suffixes? {} rest
    return { address, suffixes }

end StackComputer.Assembler
