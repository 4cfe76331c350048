import StackComputer.Machine.Run

/-!
# Fields of fixed width

The machine with its counters and intermediate results in fields of fixed width.
A number that does not fit traps, and so does a division by zero, an address past
the end of memory or a shift by the width of its field. A trap ends everything:
unlike an error it leaves no machine behind.
-/

namespace StackComputer

inductive Trap where
  /-- The number of occupied registers, in 8 bits. -/
  | occupied
  /-- The depth of the stack, in 32 bits. -/
  | depth
  /-- In 64 bits. -/
  | cycles
  /-- In 64 bits. -/
  | steps
  | address
  | sum
  | product
  | division
  | shift
deriving DecidableEq, Repr

abbrev Trapping := Except Trap

namespace FixedWidth

/-! ## Numbers -/

/-- A number that keeps its value in a field of `width` bits. -/
def natural (trap : Trap) (width n : Nat) : Trapping Nat :=
  if (BitVec.ofNat width n).toNat = n then .ok n else .error trap

/-- A signed number that keeps its value there. -/
def integer (trap : Trap) (width : Nat) (n : Int) : Trapping Int :=
  if (BitVec.ofInt width n).toInt = n then .ok n else .error trap

def difference (trap : Trap) (a b : Nat) : Trapping Nat :=
  if b ≤ a then .ok (a - b) else .error trap

def divisor {w : Nat} (b : BitVec w) : Trapping (BitVec w) :=
  if b = 0 then .error .division else .ok b

/-- The amount of a shift in a field of `width` bits. -/
def amount (width n : Nat) : Trapping Nat := if n < width then .ok n else .error .shift

/-! ## Memory -/

def index (a : Word) : Trapping (Fin 0x8000) :=
  if h : a.address.toNat < 0x8000 then .ok ⟨a.address.toNat, h⟩ else .error .address

def read (memory : Memory) (a : Word) : Trapping Word := do
  let i ← index a
  return memory.words[i]

def write (memory : Memory) (a w : Word) : Trapping Memory := do
  let i ← index a
  return ⟨memory.words.set i w⟩

/-! ## The stack -/

/-- Memory after a push, which spills RD at `sm` if the window is full. -/
def spill (m : Machine) (sm : Word) : Trapping Memory :=
  if m.regs.sr = 4 then write m.memory sm m.regs.rd else return m.memory

def pushCell (m : Machine) (w : Word) : Trapping Machine := do
  let r := m.regs
  let sm := if r.sr = 4 then (r.sm - 1).address else r.sm
  let memory ← spill m sm
  let sr ← natural .occupied 8 (r.sr + 1)
  let depth ← natural .depth 32 (r.depth + 1)
  return { m with
    regs := { r with ra := w, rb := r.ra, rc := r.rb, rd := r.rc, sr := min sr 4, depth, sm }
    memory }

def refill (m : Machine) : Trapping Machine := do
  let r := m.regs
  if r.sr = 4 ∧ 4 < r.depth then
    let rd ← read m.memory r.sm
    return { m with regs := { r with rd, sm := (r.sm + 1).address, depth := r.depth - 1 } }
  else
    let sr ← difference .occupied r.sr 1
    return { m with regs := { r with rd := 0, sr, depth := r.depth - 1 } }

def dropCell (m : Machine) : Trapping Machine :=
  refill { m with regs := { m.regs with ra := m.regs.rb, rb := m.regs.rc, rc := m.regs.rd } }

def dropSecondCell (m : Machine) : Trapping Machine :=
  refill { m with regs := { m.regs with rb := m.regs.rc, rc := m.regs.rd } }

def pushCells (m : Machine) (ws : List Word) : Trapping Machine := ws.foldlM pushCell m

def dropCells (m : Machine) : Nat → Trapping Machine
  | 0 => return m
  | n + 1 => do dropCells (← dropCell m) n

/-- An operation on the machine that may be refused. -/
abbrev Change := Machine → Trapping (Except ExecError Unit × Machine)

def always (f : Machine → Trapping Machine) : Change := fun m => do return (.ok (), ← f m)

/-- Does `f` if the machine runs and `n` cells can be popped. -/
def after (n : Nat) (f : Machine → Trapping Machine) : Change := fun m =>
  match (Machine.require n).perform m with
  | (.ok (), m) => always f m
  | (.error cause, m) => return (.error cause, m)

/-! ## Opcodes -/

def settle (m : Machine) (o : Outcome) : Trapping Machine := do
  let m := match o.range with
    | some cause => m.record (.outOfRange m.regs.pc cause)
    | none => m
  return (← pushCells m o.pushed).setLatches o.latches

def update (n : Nat) (f : Cells n → Latches → Trapping (Cells n × Latches)) : Change :=
  after n fun m => do
    let (cells, l) ← f (m.regs.top n) m.latches
    return { m with regs := m.regs.setTop cells }.setLatches l

def replace (n : Nat) (f : Cells n → Latches → Trapping Outcome) : Change :=
  after n fun m => do
    let rest ← dropCells m n
    settle rest (← f (m.regs.top n) rest.latches)

def apply : Effect → Change
  | .undefined => fun m => return (.error (.unknownOpcode .unk), m)
  | .latch f => always fun m => return m.setLatches (f m.latches)
  | .update n f => update n fun cells l => return f cells l
  | .extend n f => after n fun m => settle m (f (m.regs.top n) m.latches)
  | .replace n f => replace n fun cells l => return f cells l
  | .dropSecond => after 2 dropSecondCell

def multiply (a b : Word) (l : Latches) : Trapping Outcome := do
  let product ← integer .product 32 (a.toInt * b.toInt)
  let w : Word := .ofInt 16 product
  return .word w (l.latchOverflow (product != w.toInt) w)

def multiplyLong (a b : Word) (l : Latches) : Trapping Outcome := do
  let product : Dword := .ofInt 32 (← integer .product 32 (a.toInt * b.toInt))
  return .double product (l.latchOverflow false product)

def multiplyLogical (a b : Word) (l : Latches) : Trapping Outcome := do
  let product : Dword := .ofNat 32 (← natural .product 32 (a.toNat * b.toNat))
  return .double product (l.latchCarry (product.low, ⟨product.high != 0, false⟩))

def divide (a b : Word) (l : Latches) : Trapping Outcome := do
  if b = 0 then return .quotient 0 0 true l
  let b ← divisor b
  return .quotient (a.sdiv b) (a.srem b) (a == 0x8000 && b == 0xFFFF) l

def divideLong (a : Dword) (b : Word) (l : Latches) : Trapping Outcome := do
  if b = 0 then return .quotient 0 0 true l
  let b ← divisor b
  let q ← integer .division 64 (a.toInt.tdiv b.toInt)
  return .quotient (.ofInt 16 q) (.ofInt 16 (a.toInt.tmod b.toInt))
    (decide (q < -32768 ∨ 65535 < q)) l

def divideLogical (a : Dword) (b : Word) (l : Latches) : Trapping Outcome := do
  if b = 0 then return .quotient 0 0 true l
  let b ← divisor b
  let q := a.toNat / b.toNat
  return .quotient (.ofNat 16 q) (.ofNat 16 (a.toNat % b.toNat)) (decide (65535 < q)) l

def divideDouble (a b : Dword) (l : Latches) : Trapping Outcome := do
  if b = 0 then return .divideDouble a b l
  return .divideDouble a (← divisor b) l

/-- The value of a real. Its exponent goes from one excess to the other as a
signed number of 32 bits. -/
def value (r : Dword) : Trapping Rat := do
  if RealWord.isZero r then return 0
  let exponent ← integer .sum 32 (RealWord.exponent r - 256)
  let biased ← integer .sum 32 (exponent + 1023)
  return Binary64.rational (RealWord.negative r) (0x400000 + RealWord.fraction r) (biased - 1045)

def encode (b : Binary64) : Trapping (Except RealWord.RangeError Dword) := do
  if b.exponent = 0 ∧ b.fraction = 0 then return .ok 0
  if !b.isFinite then return .error .overflow
  if b.exponent = 0 then return .error .underflow
  let unbiased ← integer .sum 32 (b.exponent - 1023)
  let exponent ← integer .sum 32 (unbiased + 256)
  let rounded := (← natural .sum 64 (b.fraction + 0x20000000)) / 0x40000000
  let carried := 0x3FFFFF < rounded
  let exponent ← if carried then integer .sum 32 (exponent + 1) else pure exponent
  if 511 < exponent then return .error .overflow
  if exponent < 0 then return .error .underflow
  return .ok (RealWord.ofFields b.negative exponent.toNat (if carried then 0 else rounded))

def real (q : Rat) (l : Latches) : Trapping Outcome := do
  return .real (← encode (Binary64.ofRat q)) l

/-- An operation on the values of two reals. -/
def realBinary (f : Rat → Rat → Rat) (a b : Dword) (l : Latches) : Trapping Outcome := do
  real (f (← value a) (← value b)) l

def realDivide (a b : Dword) (l : Latches) : Trapping Outcome :=
  if RealWord.isZero b then return .real (.error .overflow) l else realBinary (· / ·) a b l

def realCompare (a b : Dword) (l : Latches) : Trapping Outcome := do
  let a ← value a
  let b ← value b
  return .nothing (l.setCode (.ofOrdering (if a < b then .lt else if b < a then .gt else .eq)))

def realFix (f : Rat → Int) (r : Dword) (l : Latches) : Trapping Outcome := do
  return .integer (f (← value r)) l

def stackOp : StackOp → Change
  | .mpy => replace 2 fun cells => multiply cells.b cells.a
  | .mpyl => replace 2 fun cells => multiplyLong cells.b cells.a
  | .lmpy => replace 2 fun cells => multiplyLogical cells.b cells.a
  | .div => replace 2 fun cells => divide cells.b cells.a
  | .divl => replace 3 fun cells => divideLong (.join cells.c cells.b) cells.a
  | .ldiv => replace 3 fun cells => divideLogical (.join cells.c cells.b) cells.a
  | .flt => replace 1 fun cells => real cells.a.toInt
  | .dflt => replace 2 fun cells => real cells.double.toInt
  | .fadd => replace 4 fun cells => realBinary (· + ·) cells.lowerDouble cells.double
  | .fsub => replace 4 fun cells => realBinary (· - ·) cells.lowerDouble cells.double
  | .fmpy => replace 4 fun cells => realBinary (· * ·) cells.lowerDouble cells.double
  | .fdiv => replace 4 fun cells => realDivide cells.lowerDouble cells.double
  | .fcmp => replace 4 fun cells => realCompare cells.lowerDouble cells.double
  | .fixr => replace 2 fun cells => realFix RealWord.round cells.double
  | .fixt => replace 2 fun cells => realFix RealWord.truncate cells.double
  | op => apply op.effect

/-! ## Instructions -/

/-- An effective address. -/
def resolve (m : Machine) (base : Word) (s : Suffixes) : Trapping Word := do
  let direct := (if s.indexed then base + m.regs.x else base).address
  if s.indirect then return (← read m.memory direct).address
  return direct

def branch (m : Machine) (d : Displacement) (s : Suffixes) : Trapping Machine := do
  return m.jump (← resolve m (d.apply m.here) s)

/-- The label a call goes to, and the machine without it on the stack. -/
def callLabel (n : Byte) (m : Machine) : Trapping (Word × Machine) :=
  if n = 0 then return (m.regs.ra, ← dropCell m)
  else return (← read m.memory (m.regs.pl - n.setWidth 16), m)

def call (n : Byte) : Change := after (if n = 0 then 1 else 0) fun m => do
  let (label, rest) ← callLabel n m
  return (← pushCell rest m.regs.pc).jump (m.regs.pb + label.address)

def exit (n : Byte) : Change := fun m => do
  let parameters ← natural .sum 32 (n.toNat + 1)
  after parameters (fun m => return (← dropCells m parameters).jump m.regs.ra) m

def shiftCount (m : Machine) (count : Byte) (indexed : Bool) : Trapping Nat := do
  if indexed then return (← natural .sum 32 (count.toNat + m.regs.x.toNat)) % 64
  return count.toNat

/-- The shifts of a field of 128 bits by which a shift of `width` bits is done. -/
def amounts (kind : ShiftKind) (width count : Nat) : Trapping Unit := do
  if count = 0 then return
  match kind with
  | .logicalLeft | .arithmeticLeft => discard (amount 128 (min count 96))
  | .logicalRight =>
    if count ≤ width then
      discard (amount 128 (← difference .sum count 1))
    if count < width then
      discard (amount 128 count)
  | .arithmeticRight =>
    discard (amount 128 (min (← difference .sum count 1) 100))
    discard (amount 128 (min count 100))

def shifted {w : Nat} (kind : ShiftKind) (n : Nat) (v : BitVec w) (l : Latches) :
    Trapping (BitVec w × Latches) := do
  amounts kind w n
  let (v, carry) := Word.shift kind v n
  return (v, l.latchCarry (v, ⟨carry, false⟩))

def shift (op : ShiftOp) (count : Byte) (indexed : Bool) : Change := fun m => do
  let n ← shiftCount m count indexed
  if op.isDouble then
    update 2 (fun cells l => do
      let (d, l) ← shifted op.kind n cells.double l
      return (.ofDouble d, l)) m
  else
    update 1 (fun cells l => do
      let (a, l) ← shifted op.kind n cells.a l
      return (.one a, l)) m

def store (m : Machine) (a w : Word) : Trapping Machine := do
  return { m with memory := ← write m.memory a w }

/-- Changes a word in memory by `f`. -/
def count (f : Word → Word × Flags) (a : Word) : Change := always fun m => do
  let result := f (← read m.memory a)
  return (← store m a result.1).latch result

def memoryReference (op : MemoryOp) (displacement : Word) (s : Suffixes) : Change := fun m => do
  let a ← resolve m (m.regs.db + displacement) s
  let next := (a + 1).address
  match op with
  | .incm => count (Word.add · 1) a m
  | .decm => count (Word.sub · 1) a m
  | .stor => after 1 (fun m => do store (← dropCell m) a m.regs.ra) m
  | .ldd =>
    let d : Dword := .join (← read m.memory a) (← read m.memory next)
    after 0 (fun m => return (← pushCells m [d.high, d.low]).sense d) m
  | .std =>
    after 2 (fun m => do
      let d : Dword := .join m.regs.rb m.regs.ra
      store (← store (← dropCells m 2) a d.high) next d.low) m

def load (w : Word) : Change := after 0 fun m => return (← pushCell m w).sense w

def loadFrom (target : LoadTarget) (s : Suffixes) : Change := fun m => do
  let base := match target with
    | .db displacement => m.regs.db + displacement
    | .own displacement => displacement.apply m.here
  load (← read m.memory (← resolve m base s)) m

/-- Branches if `taken`. -/
def branchIf (taken : Bool) (m : Machine) (d : Displacement) (s : Suffixes) : Trapping Machine :=
  if taken then branch m d s else return m

def countBranch (op : CountOp) (d : Displacement) (s : Suffixes) : Change :=
  match op with
  | .iabz => after 1 fun m =>
    let w := m.regs.ra + 1
    branchIf (w == 0) { m with regs := m.regs.setTop (.one w) } d s
  | .ixbz => always fun m =>
    let w := m.regs.x + 1
    branchIf (w == 0) (m.setLatches (m.latches.setX w)) d s
  | .dxbz => always fun m =>
    let w := m.regs.x - 1
    branchIf (w == 0) (m.setLatches (m.latches.setX w)) d s

def flagBranch (op : FlagOp) (d : Displacement) (s : Suffixes) : Change := always fun m =>
  let sta := m.regs.sta
  let (taken, sta) := match op with
    | .bcy => (sta.carry, { sta with carry := false })
    | .bncy => (!sta.carry, { sta with carry := false })
    | .bov => (sta.overflow, { sta with overflow := false })
    | .bnov => (!sta.overflow, { sta with overflow := false })
  branchIf taken (m.setStatus sta) d s

def pair (first second : StackOp) : Change := fun m => do
  match ← stackOp first m with
  | (.ok (), m) => if m.isRunning then stackOp second m else return (.ok (), m)
  | (.error cause, m) => return (.error cause, m)

/-! ## Exchanges -/

section

variable {β : Type}

def alone (change : Change) (m : Machine) (b : β) :
    Trapping (Except ExecError Unit × Machine × β) := do
  let (answer, m) ← change m
  return (answer, m, b)

def hear (m : Machine) (events : List Event) : Machine :=
  { m with journal := m.journal.addAll events }

def deliver (w : Word) (cc : ConditionCode) : Change :=
  after 0 fun m => return (← pushCell m w).setCode cc

variable [Bus β]

def receive (device : Byte) (m : Machine) (b : β) :
    Trapping (Except ExecError Unit × Machine × β) :=
  let status := Bus.readStatus b device
  let m := hear m status.events
  match status.answer with
  | none => alone (always fun m => return m.setCode .less) m status.bus
  | some w =>
    if Bus.isReady w then
      let byte := Bus.readByte status.bus device
      alone (deliver (byte.answer.setWidth 16) .equal) (hear m byte.events) byte.bus
    else
      alone (deliver w .greater) m status.bus

def send (device : Byte) (m : Machine) (b : β) :
    Trapping (Except ExecError Unit × Machine × β) :=
  let status := Bus.readStatus b device
  let m := hear m status.events
  match status.answer with
  | none => alone (always fun m => return m.setCode .less) m status.bus
  | some w =>
    if Bus.isReady w then
      match Machine.peek.perform m with
      | (.error cause, m) => return (.error cause, m, status.bus)
      | (.ok w, m) =>
        let reply := Bus.writeWord status.bus device w
        let m := hear m reply.events
        match reply.answer with
        | .ok () => alone (after 1 fun m => return (← dropCell m).setCode .equal) m reply.bus
        | .error cause =>
          return (.ok (), (m.record (.refused device m.here cause)).setCode .less, reply.bus)
    else
      alone (deliver w .greater) m status.bus

def execute (i : Instruction) : Machine → β → Trapping (Except ExecError Unit × Machine × β) :=
  match i with
  | .rio device => receive device
  | .wio device => send device
  | .halt code => alone (always fun m =>
    return m.halt ("HALT ".toList ++ Text.decimal code.toNat))
  | .scal n => alone (call n)
  | .sxit n => alone (exit n)
  | .shift op n indexed => alone (shift op n indexed)
  | .memory op displacement s => alone (memoryReference op displacement s)
  | .load target s => alone (loadFrom target s)
  | .ldi value => alone (load (value.setWidth 16))
  | .ldxi value => alone (always fun m => return m.setLatches (m.latches.setX (value.setWidth 16)))
  | .ddiv => alone (replace 4 fun cells => divideDouble cells.lowerDouble cells.double)
  | .br displacement s => alone (always fun m => branch m displacement s)
  | .bcc selector displacement indirect => alone (always fun m =>
    branchIf (Machine.accepts selector m.regs.sta.cc) m displacement ⟨indirect, false⟩)
  | .count op displacement indirect => alone (countBranch op displacement ⟨indirect, false⟩)
  | .flag op displacement indirect => alone (flagBranch op displacement ⟨indirect, false⟩)
  | .bro displacement => alone (after 1 fun m => do
    branchIf (m.regs.ra.getLsbD 0) (← dropCell m) displacement {})
  | .pair first second => alone (pair first second)

/-! ## Running a program -/

def step (m : Machine) (b : β) : Trapping (Machine × β) := do
  if !m.isRunning then return (m, b)
  let word ← read m.memory m.regs.pc
  let cycles ← natural .cycles 64 (m.cycles + 1)
  let fetched := { m with regs := m.regs.advance, cycles }.record (.fetched m.regs.pc word)
  match Instruction.decode? word with
  | none => return (fetched.fault (.unknownInstruction word), b)
  | some i =>
    match ← execute i { fetched with last := some i } b with
    | (.ok (), m, b) => return (m, b)
    | (.error cause, m, b) => return (m.fault cause, b)

def runFrom (count : Nat) (m : Machine) (b : β) : Nat → Trapping (Nat × Machine × β)
  | 0 => return (count, m, b)
  | budget + 1 => do
    let (m, b) ← step m b
    if m.isRunning then runFrom (← natural .steps 64 (count + 1)) m b budget
    else return (count, m, b)

def run (m : Machine) (b : β) (budget : Nat) : Trapping (Nat × Machine × β) :=
  runFrom 0 m b budget

end

end FixedWidth

end StackComputer
