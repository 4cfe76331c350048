import StackComputer.Cells
import StackComputer.Instruction
import StackComputer.RealWord
import StackComputer.Status

/-!
# Effects of the stack opcodes

Each opcode is given by the number of cells it looks at and a function of
those cells, X and the status word. How cells are taken from the stack and
put back is the same for all of them.
-/

namespace StackComputer

/-- What a stack opcode may change besides the stack. -/
structure Latches where
  x : Word
  sta : Status
deriving DecidableEq, Repr

/-- What an opcode leaves: results to push in order, the latches, and the cause
if a real was out of range. -/
structure Outcome where
  pushed : List Word
  latches : Latches
  range : Option RealWord.RangeError := none

inductive Effect where
  /-- No operation has this code. -/
  | undefined
  /-- Changes the latches alone, whatever the stack holds. -/
  | latch (f : Latches → Latches)
  /-- Changes the top `n` cells, the topmost at index zero. -/
  | update (n : Nat) (f : Cells n → Latches → Cells n × Latches)
  /-- Looks at the top `n` cells and pushes the results above them. -/
  | extend (n : Nat) (f : Cells n → Latches → Outcome)
  /-- Takes the top `n` cells and pushes the results in their place. -/
  | replace (n : Nat) (f : Cells n → Latches → Outcome)
  /-- Takes the cell below the top. -/
  | dropSecond

namespace Latches

def sense {w : Nat} (l : Latches) (v : BitVec w) : Latches := { l with sta := l.sta.sense v }

def latch {w : Nat} (l : Latches) (result : BitVec w × Flags) : Latches :=
  { l with sta := l.sta.latch result }

/-- Sets carry alone and the condition code. -/
def latchCarry {w : Nat} (l : Latches) (result : BitVec w × Flags) : Latches :=
  { l with sta := { l.sta.sense result.1 with carry := result.2.carry } }

/-- Sets overflow and the condition code. -/
def latchOverflow {w : Nat} (l : Latches) (overflow : Bool) (v : BitVec w) : Latches :=
  { l with sta := { l.sta.sense v with overflow := overflow } }

def setX (l : Latches) (w : Word) : Latches := { l with x := w }

def setCode (l : Latches) (cc : ConditionCode) : Latches :=
  { l with sta := { l.sta with cc := cc } }

end Latches

namespace Outcome

def word (w : Word) (l : Latches) : Outcome := { pushed := [w], latches := l }

def double (d : Dword) (l : Latches) : Outcome := { pushed := [d.high, d.low], latches := l }

def nothing (l : Latches) : Outcome := { pushed := [], latches := l }

/-- A real result; one out of range is zero with overflow set. -/
def real (r : Except RealWord.RangeError Dword) (l : Latches) : Outcome :=
  match r with
  | .ok d => double d (l.latchOverflow false d)
  | .error cause => { double 0 (l.latchOverflow true (0 : Dword)) with range := some cause }

/-- An integer result in a doubleword; one out of range is zero with overflow set. -/
def integer (n : Int) (l : Latches) : Outcome :=
  match RealWord.toInteger? n with
  | some d => double d (l.latchOverflow false d)
  | none => double 0 (l.latchOverflow true (0 : Dword))

/-- A quotient below its remainder. The condition code is that of the quotient. -/
def quotient (q r : Word) (overflow : Bool) (l : Latches) : Outcome :=
  { pushed := [q, r], latches := l.latchOverflow overflow q }

end Outcome

namespace Effect

def top (f : Word → Latches → Word × Latches) : Effect :=
  update 1 fun cells l => let (a, l) := f cells.a l; (.one a, l)

def second (f : Word → Latches → Word × Latches) : Effect :=
  update 2 fun cells l => let (b, l) := f cells.b l; (.two cells.a b, l)

def topDouble (f : Dword → Latches → Dword × Latches) : Effect :=
  update 2 fun cells l => let (d, l) := f cells.double l; (.ofDouble d, l)

def testTop (f : Word → Latches → Latches) : Effect := top fun a l => (a, f a l)

def unary (f : Word → Latches → Outcome) : Effect := replace 1 fun cells => f cells.a

/-- Takes two cells, the deeper as the left operand. -/
def binary (f : Word → Word → Latches → Outcome) : Effect :=
  replace 2 fun cells => f cells.b cells.a

def unaryDouble (f : Dword → Latches → Outcome) : Effect :=
  replace 2 fun cells => f cells.double

/-- Takes two doublewords, the deeper as the left operand. -/
def binaryDouble (f : Dword → Dword → Latches → Outcome) : Effect :=
  replace 4 fun cells => f cells.lowerDouble cells.double

def doubleAndWord (f : Dword → Word → Latches → Outcome) : Effect :=
  replace 3 fun cells => f (.join cells.c cells.b) cells.a

/-- A change whose result and flags are latched. -/
def arithmetic {w : Nat} (f : BitVec w → BitVec w × Flags) (v : BitVec w) (l : Latches) :
    BitVec w × Latches :=
  ((f v).1, l.latch (f v))

def addToX (w : Word) (l : Latches) : Latches :=
  let sum := Word.add l.x w
  (l.latch sum).setX sum.1

end Effect

namespace ConditionCode

/-- Digits are equal, letters less, all other bytes greater. -/
def ofByte (b : Byte) : ConditionCode :=
  if 0x30 ≤ b ∧ b ≤ 0x39 then .equal
  else if 0x41 ≤ b ∧ b ≤ 0x5A ∨ 0x61 ≤ b ∧ b ≤ 0x7A then .less
  else .greater

def ofComparison (a b : Int) : ConditionCode := .ofOrdering (compare a b)

end ConditionCode

namespace Outcome

/-- Signed division of words; by zero, all zeros with overflow. -/
def divide (a b : Word) (l : Latches) : Outcome :=
  if b = 0 then quotient 0 0 true l else
  quotient (a.sdiv b) (a.srem b) (a == 0x8000 && b == 0xFFFF) l

def divideLong (a : Dword) (b : Word) (l : Latches) : Outcome :=
  if b = 0 then quotient 0 0 true l else
  let q := a.toInt.tdiv b.toInt
  quotient (BitVec.ofInt 16 q) (BitVec.ofInt 16 (a.toInt.tmod b.toInt))
    (decide (q < -32768 ∨ 65535 < q)) l

def divideLogical (a : Dword) (b : Word) (l : Latches) : Outcome :=
  if b = 0 then quotient 0 0 true l else
  let q := a.toNat / b.toNat
  quotient (BitVec.ofNat 16 q) (BitVec.ofNat 16 (a.toNat % b.toNat)) (decide (65535 < q)) l

/-- Signed division of doublewords; the instruction that does it stands
outside the stack opcodes. -/
def divideDouble (a b : Dword) (l : Latches) : Outcome :=
  let result (q r : Dword) (overflow : Bool) : Outcome :=
    { pushed := [q.high, q.low, r.high, r.low], latches := l.latchOverflow overflow q }
  if b = 0 then result 0 0 true
  else result (a.sdiv b) (a.srem b) (a == 0x80000000 && b == 0xFFFFFFFF)

end Outcome

open Effect in
def StackOp.effect : StackOp → Effect
  | unk => undefined
  | nop => latch id
  -- stack manipulation
  | del => unary fun _ => .nothing
  | delb => dropSecond
  | ddel => unaryDouble fun _ => .nothing
  | zero => replace 0 fun _ => .word 0
  | dzro => replace 0 fun _ => .double 0
  | dup => extend 1 fun cells l => .word cells.a (l.sense cells.a)
  | ddup => extend 2 fun cells l => .double cells.double (l.sense cells.double)
  | xch => update 2 fun cells l => (.two cells.b cells.a, l)
  | dxch => replace 4 fun cells l =>
    { pushed := [cells.b, cells.a, cells.d, cells.c], latches := l }
  | cab => update 3 fun cells l => (.three cells.c cells.a cells.b, l)
  | zrob => second fun _ l => (0, l.setCode .equal)
  -- index register
  | zrox => latch fun l => l.setX 0
  | incx => latch (addToX 1)
  | decx => latch fun l =>
    let difference := Word.sub l.x 1
    (l.latch difference).setX difference.1
  | stax => unary fun a l => .nothing (l.setX a)
  | ldxa => replace 0 fun _ l => .word l.x l
  | ldxb => second fun _ l => (l.x, l)
  | stbx => second fun b l => (b, l.setX b)
  | xax => top fun a l => (l.x, l.setX a)
  | xbx => second fun b l => (l.x, l.setX b)
  | adax => unary fun a l => .nothing (addToX a l)
  | adbx => second fun b l => (b, addToX b l)
  | adxa => top fun a l => arithmetic (Word.add · l.x) a l
  | adxb => second fun b l => arithmetic (Word.add · l.x) b l
  -- integer arithmetic
  | add => binary fun a b l => let r := Word.add a b; .word r.1 (l.latch r)
  | sub => binary fun a b l => let r := Word.sub a b; .word r.1 (l.latch r)
  | neg => top (arithmetic (Word.sub 0))
  | inca => top (arithmetic (Word.add · 1))
  | deca => top (arithmetic (Word.sub · 1))
  | incb => second (arithmetic (Word.add · 1))
  | decb => second (arithmetic (Word.sub · 1))
  | mpy => binary fun a b l =>
    let product := a.toInt * b.toInt
    let w : Word := .ofInt 16 product
    .word w (l.latchOverflow (product != w.toInt) w)
  | mpyl => binary fun a b l =>
    let product : Dword := .ofInt 32 (a.toInt * b.toInt)
    .double product (l.latchOverflow false product)
  | div => binary .divide
  | divl => doubleAndWord .divideLong
  | dadd => binaryDouble fun a b l => let r := Word.add a b; .double r.1 (l.latch r)
  | dsub => binaryDouble fun a b l => let r := Word.sub a b; .double r.1 (l.latch r)
  | dneg => topDouble (arithmetic (Word.sub 0))
  -- unsigned arithmetic and bits
  | ladd => binary fun a b l => let r := Word.add a b; .word r.1 (l.latchCarry r)
  | lsub => binary fun a b l => let r := Word.sub a b; .word r.1 (l.latchCarry r)
  | lmpy => binary fun a b l =>
    let product : Dword := .ofNat 32 (a.toNat * b.toNat)
    .double product (l.latchCarry (product.low, ⟨product.high != 0, false⟩))
  | ldiv => doubleAndWord .divideLogical
  | not => top fun a l => (~~~a, l.sense (~~~a))
  | or => binary fun a b l => .word (a ||| b) (l.sense (a ||| b))
  | xor => binary fun a b l => .word (a ^^^ b) (l.sense (a ^^^ b))
  | and => binary fun a b l => .word (a &&& b) (l.sense (a &&& b))
  -- tests
  | test => testTop fun a l => l.sense a
  | dtst => topDouble fun d l => (d, l.sense d)
  | btst => testTop fun a l => l.setCode (.ofByte (a.setWidth 8))
  | cmp => binary fun a b l => .nothing (l.setCode (.ofComparison a.toInt b.toInt))
  | lcmp => binary fun a b l => .nothing (l.setCode (.ofComparison a.toNat b.toNat))
  | dcmp => binaryDouble fun a b l => .nothing (l.setCode (.ofComparison a.toInt b.toInt))
  -- reals
  | flt => unary fun a => .real (RealWord.ofRat a.toInt)
  | dflt => unaryDouble fun d => .real (RealWord.ofRat d.toInt)
  | fadd => binaryDouble fun a b => .real (RealWord.add a b)
  | fsub => binaryDouble fun a b => .real (RealWord.sub a b)
  | fmpy => binaryDouble fun a b => .real (RealWord.mul a b)
  | fdiv => binaryDouble fun a b => .real (RealWord.div a b)
  | fneg => topDouble fun d l => (RealWord.neg d, l.sense (RealWord.neg d))
  | fcmp => binaryDouble fun a b l =>
    .nothing (l.setCode (.ofOrdering (RealWord.compare a b)))
  | fixr => unaryDouble fun d => .integer (RealWord.round (RealWord.value d))
  | fixt => unaryDouble fun d => .integer (RealWord.truncate (RealWord.value d))

end StackComputer
