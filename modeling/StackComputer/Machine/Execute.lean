import StackComputer.Bus
import StackComputer.Machine.Stack
import StackComputer.StackOp.Effect

/-!
# Execution

What one instruction does to the machine and its bus. An instruction word was
fetched from the word before P, and relative addresses start there.
-/

namespace StackComputer

namespace Machine

def latches (m : Machine) : Latches := ⟨m.regs.x, m.regs.sta⟩

def setLatches (m : Machine) (l : Latches) : Machine :=
  { m with regs := { m.regs with x := l.x, sta := l.sta } }

/-- Pushes the results of an outcome and takes over its latches. -/
def settle (m : Machine) (o : Outcome) : Machine :=
  let m := match o.range with
    | some cause => m.record (.outOfRange m.regs.pc cause)
    | none => m
  (m.pushCells o.pushed).setLatches o.latches

def apply : Effect → Action Unit
  | .undefined => throw (.unknownOpcode .unk)
  | .latch f => modify fun m => m.setLatches (f m.latches)
  | .update n f => do
    let cells ← peekCells n
    let (cells, l) := f cells (← get).latches
    modify fun m => { m with regs := m.regs.setTop cells }.setLatches l
  | .extend n f => do
    let cells ← peekCells n
    modify fun m => m.settle (f cells m.latches)
  | .replace n f => do
    let cells ← popCells n
    modify fun m => m.settle (f cells m.latches)
  | .dropSecond => dropSecond

def stackOp (op : StackOp) : Action Unit := apply op.effect

/-- The address of the instruction being executed. -/
def here (m : Machine) : Word := (m.regs.pc - 1).address

/-- An effective address: the base, plus X when indexed, then through memory
when indirect. -/
def resolve (m : Machine) (base : Word) (s : Suffixes) : Word :=
  let direct := (if s.indexed then base + m.regs.x else base).address
  if s.indirect then (m.memory.read direct).address else direct

def branch (m : Machine) (d : Displacement) (s : Suffixes) : Machine :=
  m.jump (m.resolve (d.apply m.here) s)

def latch (m : Machine) (result : Word × Flags) : Machine :=
  m.setStatus (m.regs.sta.latch result)

def sense {w : Nat} (m : Machine) (v : BitVec w) : Machine := m.setStatus (m.regs.sta.sense v)

/-- Pushes the return address and jumps to a label relative to the procedure
base. -/
def call (n : Byte) : Action Unit := do
  let m ← get
  let label ← if n = 0 then pop else pure (m.memory.read (m.regs.pl - n.setWidth 16))
  push m.regs.pc
  modify fun m => m.jump (m.regs.pb + label.address)

/-- Pops the return address and `n` parameters below it. -/
def exit (n : Byte) : Action Unit := do
  require (n.toNat + 1)
  modify fun m => (m.dropCells (n.toNat + 1)).jump m.regs.ra

/-- The count of a shift, extended by X within its six bits. -/
def shiftCount (m : Machine) (count : Byte) (indexed : Bool) : Nat :=
  if indexed then (count.toNat + m.regs.x.toNat) % 64 else count.toNat

def shift (op : ShiftOp) (count : Byte) (indexed : Bool) : Action Unit := do
  let n := (← get).shiftCount count indexed
  let shifted {w : Nat} (v : BitVec w) (l : Latches) : BitVec w × Latches :=
    let (v, carry) := Word.shift op.kind v n
    (v, l.latchCarry (v, ⟨carry, false⟩))
  apply (if op.isDouble then .topDouble shifted else .top shifted)

def memoryReference (op : MemoryOp) (displacement : Word) (s : Suffixes) : Action Unit := do
  let m ← get
  let a := m.resolve (m.regs.db + displacement) s
  let next := (a + 1).address
  match op with
  | .incm =>
    let sum := Word.add (m.memory.read a) 1
    modify fun m => (m.store a sum.1).latch sum
  | .decm =>
    let difference := Word.sub (m.memory.read a) 1
    modify fun m => (m.store a difference.1).latch difference
  | .stor =>
    let w ← pop
    modify fun m => m.store a w
  | .ldd =>
    let d := Dword.join (m.memory.read a) (m.memory.read next)
    pushDouble d
    modify fun m => m.sense d
  | .std =>
    let d ← popDouble
    modify fun m => (m.store a d.high).store next d.low

def load (w : Word) : Action Unit := do
  push w
  modify fun m => m.sense w

def loadFrom (target : LoadTarget) (s : Suffixes) : Action Unit := do
  let m ← get
  let base := match target with
    | .db displacement => m.regs.db + displacement
    | .own displacement => displacement.apply m.here
  load (m.memory.read (m.resolve base s))

def accepts (selector : Byte) (cc : ConditionCode) : Bool :=
  selector == 7 ||
  match cc with
  | .less => selector.getLsbD 0
  | .equal => selector.getLsbD 1
  | .greater => selector.getLsbD 2
  | .indeterminate => false

/-- Changes a counter and branches if it became zero. -/
def countBranch (op : CountOp) (d : Displacement) (s : Suffixes) : Action Unit := do
  let count ← match op with
    | .iabz => do
      let w := (← peek) + 1
      replaceTop w
      pure w
    | .ixbz => modifyGet fun m => (m.regs.x + 1, m.setLatches (m.latches.setX (m.regs.x + 1)))
    | .dxbz => modifyGet fun m => (m.regs.x - 1, m.setLatches (m.latches.setX (m.regs.x - 1)))
  if count = 0 then
    modify fun m => m.branch d s

/-- Branches on a flag, which is cleared either way. -/
def flagBranch (op : FlagOp) (d : Displacement) (s : Suffixes) (m : Machine) : Machine :=
  let sta := m.regs.sta
  let (taken, sta) := match op with
    | .bcy => (sta.carry, { sta with carry := false })
    | .bncy => (!sta.carry, { sta with carry := false })
    | .bov => (sta.overflow, { sta with overflow := false })
    | .bnov => (!sta.overflow, { sta with overflow := false })
  let m := m.setStatus sta
  if taken then m.branch d s else m

def oddBranch (d : Displacement) : Action Unit := do
  let w ← pop
  if w.getLsbD 0 then
    modify fun m => m.branch d {}

/-- Executes the second opcode unless the first stopped the machine. -/
def pair (first second : StackOp) : Action Unit := do
  stackOp first
  if (← get).isRunning then
    stackOp second

end Machine

/-- An exchange between the machine and its bus. -/
abbrev Exchange (β : Type) := ExceptT ExecError (StateM (Machine × β))

namespace Exchange

variable {β α : Type}

/-- The answer of an exchange, with the machine and the bus after it. -/
def perform (e : Exchange β α) (m : Machine) (b : β) : Except ExecError α × Machine × β :=
  (ExceptT.run e).run (m, b)

def machine (a : Action α) : Exchange β α := ExceptT.mk fun (m, b) =>
  let (answer, m) := a.perform m
  (answer, m, b)

def ask (question : β → Reply β α) : Exchange β α := ExceptT.mk fun (m, b) =>
  let reply := question b
  (.ok reply.answer, { m with journal := m.journal.addAll reply.events }, reply.bus)

variable [Bus β]

def deliver (w : Word) (cc : ConditionCode) : Action Unit := do
  Machine.push w
  modify fun m => m.setCode cc

/-- Pushes a byte of a ready device, or else the status of the device. -/
def receive (device : Byte) : Exchange β Unit := do
  match ← ask (Bus.readStatus · device) with
  | none => machine (modify fun m => m.setCode .less)
  | some status =>
    if Bus.isReady status then
      let byte ← ask (Bus.readByte · device)
      machine (deliver (byte.setWidth 16) .equal)
    else
      machine (deliver status .greater)

/-- Sends the top of the stack to a ready device, and pops it if the device
took it. The status of a device that is not ready is pushed. -/
def send (device : Byte) : Exchange β Unit := do
  match ← ask (Bus.readStatus · device) with
  | none => machine (modify fun m => m.setCode .less)
  | some status =>
    if Bus.isReady status then
      let w ← machine Machine.peek
      match ← ask (Bus.writeWord · device w) with
      | .ok () => machine do
        let _ ← Machine.pop
        modify fun m => m.setCode .equal
      | .error cause => machine do
        modify fun m => (m.record (.refused device m.here cause)).setCode .less
    else
      machine (deliver status .greater)

end Exchange

open Exchange in
/-- Executes an instruction whose word was just fetched. -/
def Instruction.execute {β : Type} [Bus β] : Instruction → Exchange β Unit
  | .rio device => receive device
  | .wio device => send device
  | .halt code => machine (modify fun m => m.halt ("HALT ".toList ++ Text.decimal code.toNat))
  | .scal n => machine (Machine.call n)
  | .sxit n => machine (Machine.exit n)
  | .shift op n indexed => machine (Machine.shift op n indexed)
  | .memory op displacement suffixes => machine (Machine.memoryReference op displacement suffixes)
  | .load target suffixes => machine (Machine.loadFrom target suffixes)
  | .ldi value => machine (Machine.load (value.setWidth 16))
  | .ldxi value => machine (modify fun m => m.setLatches (m.latches.setX (value.setWidth 16)))
  | .ddiv => machine (Machine.apply (.binaryDouble .divideDouble))
  | .br displacement suffixes => machine (modify fun m => m.branch displacement suffixes)
  | .bcc selector displacement indirect => machine do
    if Machine.accepts selector (← get).regs.sta.cc then
      modify fun m => m.branch displacement ⟨indirect, false⟩
  | .count op displacement indirect =>
    machine (Machine.countBranch op displacement ⟨indirect, false⟩)
  | .flag op displacement indirect =>
    machine (modify (Machine.flagBranch op displacement ⟨indirect, false⟩))
  | .bro displacement => machine (Machine.oddBranch displacement)
  | .pair first second => machine (Machine.pair first second)

end StackComputer
