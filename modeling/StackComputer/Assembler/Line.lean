import StackComputer.Assembler.Encoder

/-!
# One line of assembler text

A line holds a pair of stack opcodes, or a mnemonic and perhaps an operand.
In a pair, `DATA n` stands for a raw six-bit code.
-/

namespace StackComputer.Assembler

/-- One half of a pair. -/
def stackCode? (t : Text) : Option (BitVec 6) :=
  match StackOp.named? (Text.trim t) with
  | some op => some op.code
  | none =>
    let (name, rest) := Text.firstWord t
    if Text.sameLetters name dataName then
      ((literal? rest).filter (· ≤ 0x3F)).map (BitVec.ofNat 6)
    else none

/-- The word of two stack opcodes with a comma between them. -/
def pair? (t : Text) : Option Word := do
  let (first, second) ← Text.cutAt? (· == ',') t
  let a ← stackCode? first
  let b ← stackCode? second
  return a.setWidth 16 <<< 6 ||| b.setWidth 16

/-- The word of a mnemonic and its operand text, where blanks are no operand. -/
def encodeText (mnemonic operand : Text) : Encoding Word :=
  if (Text.trim operand).isEmpty then encodeOperand mnemonic none else
  match operand? operand with
  | some o => encodeOperand mnemonic (some o)
  | none => .error (.malformed operand)

/-- The word a line stands for. -/
def encodeLine (t : Text) : Encoding Word :=
  match pair? (Text.trim t) with
  | some w => .ok w
  | none => let (mnemonic, operand) := Text.firstWord t; encodeText mnemonic operand

end StackComputer.Assembler
