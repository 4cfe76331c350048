import StackComputer.Instruction
import StackComputer.Text

/-!
# Mnemonics

Names of the instructions in assembler text. A mnemonic says what operand it
takes; those that measure a label from the instruction itself are relative.
-/

namespace StackComputer

/-- Name of a stack opcode. The undefined opcode has one only in tables. -/
def StackOp.name (op : StackOp) : Text :=
  ([
    "NOP", "DELB", "DDEL", "ZROX", "INCX", "DECX", "ZERO", "DZRO",
    "DCMP", "DADD", "DSUB", "MPYL", "DIVL", "DNEG", "DXCH", "CMP",
    "ADD", "SUB", "MPY", "DIV", "NEG", "TEST", "STBX", "DTST",
    "DFLT", "BTST", "XCH", "INCA", "DECA", "XAX", "ADAX", "ADXA",
    "DEL", "ZROB", "LDXB", "STAX", "LDXA", "DUP", "DDUP", "FLT",
    "FCMP", "FADD", "FSUB", "FMPY", "FDIV", "FNEG", "CAB", "LCMP",
    "LADD", "LSUB", "LMPY", "LDIV", "NOT", "OR", "XOR", "AND",
    "FIXR", "FIXT", "UNK", "INCB", "DECB", "XBX", "ADBX", "ADXB"].getD op.ctorIdx "").toList

def ShiftOp.name : ShiftOp → Text
  | .asl => "ASL".toList
  | .asr => "ASR".toList
  | .lsl => "LSL".toList
  | .lsr => "LSR".toList
  | .dasl => "DASL".toList
  | .dasr => "DASR".toList
  | .dlsl => "DLSL".toList
  | .dlsr => "DLSR".toList

def MemoryOp.name : MemoryOp → Text
  | .incm => "INCM".toList
  | .decm => "DECM".toList
  | .stor => "STOR".toList
  | .ldd => "LDD".toList
  | .std => "STD".toList

def CountOp.name : CountOp → Text
  | .iabz => "IABZ".toList
  | .ixbz => "IXBZ".toList
  | .dxbz => "DXBZ".toList

def FlagOp.name : FlagOp → Text
  | .bcy => "BCY".toList
  | .bncy => "BNCY".toList
  | .bov => "BOV".toList
  | .bnov => "BNOV".toList

inductive Mnemonic where
  | stack (op : StackOp)
  | halt
  | rio
  | wio
  | scal
  | sxit
  | ldi
  | ldxi
  | ddiv
  | br
  | bro
  | load
  | shift (op : ShiftOp)
  | memory (op : MemoryOp)
  | count (op : CountOp)
  | flag (op : FlagOp)
  /-- Bit 0 of the selector accepts less, bit 1 equal and bit 2 greater. -/
  | bcc (selector : Fin 8)
deriving DecidableEq, Repr

namespace Mnemonic

def all : List Mnemonic :=
  (StackOp.all.filter (· != .unk)).map stack ++
    [halt, rio, wio, scal, sxit, ldi, ldxi, ddiv, br, bro, load] ++
    ShiftOp.all.map shift ++ MemoryOp.all.map memory ++ CountOp.all.map count ++
    FlagOp.all.map flag ++ (List.finRange 8).map bcc

def name : Mnemonic → Text
  | stack op => op.name
  | halt => "HALT".toList
  | rio => "RIO".toList
  | wio => "WIO".toList
  | scal => "SCAL".toList
  | sxit => "SXIT".toList
  | ldi => "LDI".toList
  | ldxi => "LDXI".toList
  | ddiv => "DDIV".toList
  | br => "BR".toList
  | bro => "BRO".toList
  | load => "LOAD".toList
  | shift op => op.name
  | memory op => op.name
  | count op => op.name
  | flag op => op.name
  | bcc selector =>
    match selector with
    | 0 => "BN".toList
    | 1 => "BL".toList
    | 2 => "BE".toList
    | 3 => "BLE".toList
    | 4 => "BG".toList
    | 5 => "BNE".toList
    | 6 => "BGE".toList
    | 7 => "BA".toList

def named? (t : Text) : Option Mnemonic := all.find? fun m => m.name == t

/-- Whether a label operand is measured from the instruction's own address. -/
def isRelative : Mnemonic → Bool
  | br | bro | load | count _ | flag _ | bcc _ => true
  | _ => false

end Mnemonic

/-- The defined opcode of a name in any letter case. -/
def StackOp.named? (t : Text) : Option StackOp :=
  (StackOp.all.filter (· != .unk)).find? fun op => Text.sameLetters op.name t

def StackOp.mnemonic? (op : StackOp) : Option Text := if op = .unk then none else some op.name

end StackComputer
