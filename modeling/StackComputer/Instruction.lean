import StackComputer.Word.Shift

/-!
# Instructions

Operand fields are bytes and words, whatever the width of their slot in the
instruction word.
-/

namespace StackComputer

/-- A distance from an instruction's own address. The sign is kept apart from
the magnitude, so there are two zeros. -/
structure Displacement where
  back : Bool
  magnitude : Word
deriving DecidableEq, Repr

def Displacement.apply (d : Displacement) (origin : Word) : Word :=
  if d.back then origin - d.magnitude else origin + d.magnitude

/-- How an address is modified: by X, and by going through memory. -/
structure Suffixes where
  indirect : Bool := false
  indexed : Bool := false
deriving DecidableEq, Repr

inductive ShiftOp where
  | asl
  | asr
  | lsl
  | lsr
  | dasl
  | dasr
  | dlsl
  | dlsr
deriving DecidableEq, Repr

namespace ShiftOp

def all : List ShiftOp := [asl, asr, lsl, lsr, dasl, dasr, dlsl, dlsr]

/-- Whether the doubleword on top of the stack is shifted. -/
def isDouble : ShiftOp → Bool
  | dasl | dasr | dlsl | dlsr => true
  | _ => false

def acceptsIndex : ShiftOp → Bool
  | dlsl | dlsr => true
  | _ => false

def kind : ShiftOp → ShiftKind
  | asl | dasl => .arithmeticLeft
  | asr | dasr => .arithmeticRight
  | lsl | dlsl => .logicalLeft
  | lsr | dlsr => .logicalRight

end ShiftOp

/-- References to memory relative to the data base. -/
inductive MemoryOp where
  | incm
  | decm
  | stor
  | ldd
  | std
deriving DecidableEq, Repr

def MemoryOp.all : List MemoryOp := [.incm, .decm, .stor, .ldd, .std]

/-- Branches that change a counter and are taken when it becomes zero. -/
inductive CountOp where
  /-- Adds one to the top of the stack. -/
  | iabz
  /-- Adds one to X. -/
  | ixbz
  /-- Subtracts one from X. -/
  | dxbz
deriving DecidableEq, Repr

def CountOp.all : List CountOp := [.iabz, .ixbz, .dxbz]

/-- Branches on the carry and overflow flags. -/
inductive FlagOp where
  | bcy
  | bncy
  | bov
  | bnov
deriving DecidableEq, Repr

def FlagOp.all : List FlagOp := [.bcy, .bncy, .bov, .bnov]

inductive LoadTarget where
  /-- Relative to the data base. -/
  | db (displacement : Word)
  /-- Relative to the instruction itself. -/
  | own (displacement : Displacement)
deriving DecidableEq, Repr

/-- Stack opcodes, in the order of their six-bit codes. -/
inductive StackOp where
  | nop | delb | ddel | zrox | incx | decx | zero | dzro
  | dcmp | dadd | dsub | mpyl | divl | dneg | dxch | cmp
  | add | sub | mpy | div | neg | test | stbx | dtst
  | dflt | btst | xch | inca | deca | xax | adax | adxa
  | del | zrob | ldxb | stax | ldxa | dup | ddup | flt
  | fcmp | fadd | fsub | fmpy | fdiv | fneg | cab | lcmp
  | ladd | lsub | lmpy | ldiv | not | or | xor | and
  | fixr | fixt | unk | incb | decb | xbx | adbx | adxb
deriving DecidableEq, Repr

namespace StackOp

def all : List StackOp :=
  [nop, delb, ddel, zrox, incx, decx, zero, dzro,
    dcmp, dadd, dsub, mpyl, divl, dneg, dxch, cmp,
    add, sub, mpy, div, neg, test, stbx, dtst,
    dflt, btst, xch, inca, deca, xax, adax, adxa,
    del, zrob, ldxb, stax, ldxa, dup, ddup, flt,
    fcmp, fadd, fsub, fmpy, fdiv, fneg, cab, lcmp,
    ladd, lsub, lmpy, ldiv, not, or, xor, and,
    fixr, fixt, unk, incb, decb, xbx, adbx, adxb]

def code (op : StackOp) : BitVec 6 := BitVec.ofNat 6 op.ctorIdx

def ofCode (c : BitVec 6) : StackOp := all.getD c.toNat .unk

@[simp] theorem ofCode_code (op : StackOp) : ofCode op.code = op := by
  cases op <;> rfl

@[simp] theorem code_ofCode (c : BitVec 6) : (ofCode c).code = c := by
  revert c
  decide

end StackOp

inductive Instruction where
  | halt (code : Byte)
  /-- Takes a byte from a device. -/
  | rio (device : Byte)
  /-- Sends the top of the stack to a device. -/
  | wio (device : Byte)
  /-- Calls by the label at `n` words below the procedure limit, or on the
  stack when `n` is zero. -/
  | scal (n : Byte)
  /-- Returns, deleting `n` parameters. -/
  | sxit (n : Byte)
  | shift (op : ShiftOp) (count : Byte) (indexed : Bool)
  | memory (op : MemoryOp) (displacement : Word) (suffixes : Suffixes)
  | load (target : LoadTarget) (suffixes : Suffixes)
  | ldi (value : Byte)
  | ldxi (value : Byte)
  /-- Divides a doubleword by a doubleword. -/
  | ddiv
  | br (displacement : Displacement) (suffixes : Suffixes)
  /-- Branches on the condition codes that `selector` accepts. -/
  | bcc (selector : Byte) (displacement : Displacement) (indirect : Bool)
  | count (op : CountOp) (displacement : Displacement) (indirect : Bool)
  | flag (op : FlagOp) (displacement : Displacement) (indirect : Bool)
  /-- Pops, and branches on an odd word. -/
  | bro (displacement : Displacement)
  /-- Two stack opcodes in one word. -/
  | pair (first second : StackOp)
deriving DecidableEq, Repr

end StackComputer
