import StackComputer.Instruction.Encoding
import StackComputer.Instruction.Mnemonic
import StackComputer.Text.Numeral

/-!
# Instruction text

The canonical assembler text of an instruction, and of any word.
-/

namespace StackComputer

/-- `.+` or `.-`, and the magnitude in octal. -/
def Displacement.text (d : Displacement) : Text :=
  ['.', if d.back then '-' else '+'] ++ Text.octal d.magnitude.toNat

def Suffixes.text (s : Suffixes) : Text :=
  (if s.indirect then ",I".toList else []) ++ if s.indexed then ",X".toList else []

def StackOp.text (op : StackOp) : Text :=
  match op.mnemonic? with
  | some name => name
  | none => "DATA ".toList ++ Text.octalPadded 3 op.code.toNat

def LoadTarget.text : LoadTarget → Text
  | .db displacement => "DB+".toList ++ Text.octal displacement.toNat
  | .own displacement => displacement.text

namespace Instruction

def withOperand (m : Mnemonic) (operand : Text) : Text := m.name ++ ' ' :: operand

def withNumber (m : Mnemonic) (n : Byte) : Text := withOperand m (Text.octal n.toNat)

def text : Instruction → Text
  | .halt n => if n = 0 then Mnemonic.halt.name else withNumber .halt n
  | .rio device => withNumber .rio device
  | .wio device => withNumber .wio device
  | .scal n => withNumber .scal n
  | .sxit n => withNumber .sxit n
  | .shift op n indexed => withNumber (.shift op) n ++ Suffixes.text ⟨false, indexed⟩
  | .memory op displacement suffixes =>
    withOperand (.memory op) ((LoadTarget.db displacement).text ++ suffixes.text)
  | .load target suffixes => withOperand .load (target.text ++ suffixes.text)
  | .ldi value => withNumber .ldi value
  | .ldxi value => withNumber .ldxi value
  | .ddiv => Mnemonic.ddiv.name
  | .br displacement suffixes => withOperand .br (displacement.text ++ suffixes.text)
  | .bcc selector displacement indirect =>
    withOperand (.bcc (Fin.ofNat 8 selector.toNat))
      (displacement.text ++ Suffixes.text ⟨indirect, false⟩)
  | .count op displacement indirect =>
    withOperand (.count op) (displacement.text ++ Suffixes.text ⟨indirect, false⟩)
  | .flag op displacement indirect =>
    withOperand (.flag op) (displacement.text ++ Suffixes.text ⟨indirect, false⟩)
  | .bro displacement => withOperand .bro displacement.text
  | .pair first second => first.text ++ ", ".toList ++ second.text

/-- The text of a word, which is raw data unless it holds an instruction. -/
def disassemble (w : Word) : Text :=
  match decode? w with
  | some i => i.text
  | none => "DATA ".toList ++ Text.octalPadded 6 w.toNat

/-- A word at its address, as listings and traces show it. -/
def listingLine (a w : Word) : Text :=
  Text.octalPadded 5 a.toNat ++ ": ".toList ++ Text.octalPadded 6 w.toNat ++ "  ".toList ++
    disassemble w

end Instruction

end StackComputer
