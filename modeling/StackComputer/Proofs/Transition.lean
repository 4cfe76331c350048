import StackComputer.Proofs.CheckedAction
import StackComputer.Proofs.LogicalStack

/-!
# Transitions

What every effect and every instruction does, as a check and a function of the
machine. Packed pairs and the instructions that talk to devices are made of
such steps and have equations of their own.
-/

namespace StackComputer

namespace Machine

variable {α : Type}

/-- Does `f` after a check of the stack, or without one. -/
def guarded : Option Nat → (Machine → α × Machine) → Action α
  | none, f => modifyGet f
  | some n, f => checked n f

theorem perform_guarded {m : Machine} (hrun : m.isRunning = true) (g : Option Nat)
    (f : Machine → α × Machine) :
    (guarded g f).perform m =
      if m.regs.available < g.getD 0 then (.error .stackUnderflow, m.fault .stackUnderflow)
      else (.ok (f m).1, (f m).2) := by
  cases g with
  | none => rw [Option.getD_none, if_neg (Nat.not_lt_zero _), guarded, Action.perform_modifyGet]
  | some n => rw [Option.getD_some, guarded, perform_checked, hrun, if_neg (by decide)]

/-- The three ways a guarded change can end. -/
theorem perform_guarded_cases (g : Option Nat) (f : Machine → α × Machine) (m : Machine) :
    (guarded g f).perform m = (.error (.notRunning m.state.phase), m) ∨
      (guarded g f).perform m = (.error .stackUnderflow, m.fault .stackUnderflow) ∨
      g.getD 0 ≤ m.regs.available ∧ (guarded g f).perform m = (.ok (f m).1, (f m).2) := by
  rcases Bool.eq_false_or_eq_true m.isRunning with hrun | hstop
  · rw [perform_guarded hrun]
    by_cases hfew : m.regs.available < g.getD 0
    · exact .inr (.inl (if_pos hfew))
    · exact .inr (.inr ⟨Nat.le_of_not_lt hfew, if_neg hfew⟩)
  · cases g with
    | none => exact .inr (.inr ⟨Nat.zero_le _, rfl⟩)
    | some n => exact .inl (perform_checked_stopped hstop f)

theorem frame_setLatches (m : Machine) (l : Latches) :
    (m.setLatches l).frame = { m.frame with x := l.x, sta := l.sta } := rfl

theorem frame_settle (m : Machine) (o : Outcome) :
    (m.settle o).frame = { m.frame with x := o.latches.x, sta := o.latches.sta } := by
  rw [settle]
  cases o.range with
  | none => rw [frame_setLatches, frame_pushCells]
  | some cause =>
      rw [frame_setLatches, frame_pushCells]
      rfl

theorem frame_eq_of {m m' : Machine} {x : Word} {sta : Status}
    (h : m'.frame = { m.frame with x := x, sta := sta }) :
    m'.frame = { m.frame with x := m'.regs.x, sta := m'.regs.sta } := by
  have hx : m'.regs.x = x := congrArg Frame.x h
  have hsta : m'.regs.sta = sta := congrArg Frame.sta h
  rw [h, hx, hsta]

end Machine

namespace Effect

/-- The cells an effect makes sure of first; changing the latches takes none. -/
def guard : Effect → Option Nat
  | undefined | latch _ => none
  | update n _ | extend n _ | replace n _ => some n
  | dropSecond => some 2

/-- What an effect does to a machine with enough cells. -/
def act (m : Machine) : Effect → Machine
  | undefined => m
  | latch f => m.setLatches (f m.latches)
  | update n f =>
    let (cells, l) := f (m.regs.top n) m.latches
    { m with regs := m.regs.setTop cells }.setLatches l
  | extend n f => m.settle (f (m.regs.top n) m.latches)
  | replace n f => (m.dropCells n).settle (f (m.regs.top n) (m.dropCells n).latches)
  | dropSecond => m.dropSecondCell

theorem apply_eq {e : Effect} (he : e ≠ undefined) :
    Machine.apply e = Machine.guarded e.guard fun m => ((), e.act m) := by
  cases e with
  | undefined => exact absurd rfl he
  | latch f => rfl
  | update n f =>
      rw [Machine.apply, Machine.peekCells_eq]
      exact Machine.checked_bind_eq fun m _ _ => rfl
  | extend n f =>
      rw [Machine.apply, Machine.peekCells_eq]
      exact Machine.checked_bind_eq fun m _ _ => rfl
  | replace n f =>
      rw [Machine.apply, Machine.popCells_eq]
      exact Machine.checked_bind_eq fun m _ _ => rfl
  | dropSecond => exact Machine.dropSecond_eq

/-- Besides the stack an effect changes the latches alone. -/
theorem frame_act (e : Effect) (m : Machine) :
    (e.act m).frame = { m.frame with x := (e.act m).regs.x, sta := (e.act m).regs.sta } := by
  cases e with
  | undefined | latch f | update n f => rfl
  | extend n f => exact Machine.frame_eq_of (Machine.frame_settle m _)
  | replace n f =>
      apply Machine.frame_eq_of
      rw [act, Machine.frame_settle, Machine.frame_dropCells]
  | dropSecond => exact Machine.frame_eq_of (Machine.frame_dropSecondCell m)

theorem isRunning_act (e : Effect) (m : Machine) : (e.act m).isRunning = m.isRunning :=
  congrArg (fun frame : Machine.Frame => frame.state.isRunning) (frame_act e m)

/-- The effect of a shift by a known count. -/
def shift (op : ShiftOp) (n : Nat) : Effect :=
  let shifted {w : Nat} (v : BitVec w) (l : Latches) : BitVec w × Latches :=
    let (v, carry) := Word.shift op.kind v n
    (v, l.latchCarry (v, ⟨carry, false⟩))
  if op.isDouble then .topDouble shifted else .top shifted

theorem guard_shift (op : ShiftOp) (n : Nat) :
    (shift op n).guard = some (if op.isDouble then 2 else 1) := by
  cases op <;> rfl

theorem shift_ne_undefined (op : ShiftOp) (n : Nat) : shift op n ≠ undefined := by
  cases op <;> exact Effect.noConfusion

end Effect

namespace StackOp

/-- How many cells an opcode looks at or takes. -/
def operands : StackOp → Nat
  | nop | zrox | incx | decx | zero | dzro | ldxa | unk => 0
  | del | dup | stax | xax | adax | adxa | neg | inca | deca | not | test | btst | flt => 1
  | delb | ddel | ddup | xch | zrob | ldxb | stbx | xbx | adbx | adxb | add | sub | incb | decb
  | mpy | mpyl | div | dneg | ladd | lsub | lmpy | or | xor | and | dtst | cmp | lcmp | dflt
  | fneg | fixr | fixt => 2
  | cab | divl | ldiv => 3
  | dxch | dadd | dsub | dcmp | fadd | fsub | fmpy | fdiv | fcmp => 4

theorem effect_ne_undefined {op : StackOp} (hop : op ≠ unk) : op.effect ≠ .undefined := by
  cases op
  case unk => exact absurd rfl hop
  all_goals exact Effect.noConfusion

theorem getD_guard_effect (op : StackOp) : op.effect.guard.getD 0 = op.operands := by
  cases op <;> rfl

theorem perform_stackOp {m : Machine} (hrun : m.isRunning = true) {op : StackOp} (hop : op ≠ unk) :
    (Machine.stackOp op).perform m =
      if m.regs.available < op.operands then
        (.error .stackUnderflow, m.fault .stackUnderflow)
      else (.ok (), op.effect.act m) := by
  rw [Machine.stackOp, Effect.apply_eq (effect_ne_undefined hop), Machine.perform_guarded hrun,
    getD_guard_effect]

end StackOp

/-- The cells a memory reference makes sure of first. -/
def MemoryOp.guard : MemoryOp → Option Nat
  | incm | decm => none
  | stor => some 1
  | ldd => some 0
  | std => some 2

def CountOp.guard : CountOp → Option Nat
  | iabz => some 1
  | ixbz | dxbz => none

namespace Machine

/-- The label a call goes to: on the stack for zero, else in the table below
the procedure limit. -/
def callLabel (m : Machine) (n : Byte) : Word :=
  if n = 0 then m.regs.ra else m.memory.read (m.regs.pl - n.setWidth 16)

/-- The address a load reads from. -/
def loadAddress (m : Machine) (target : LoadTarget) (s : Suffixes) : Word :=
  m.resolve (match target with
    | .db displacement => m.regs.db + displacement
    | .own displacement => displacement.apply m.here) s

def memoryAct (m : Machine) (op : MemoryOp) (a : Word) : Machine :=
  let next := (a + 1).address
  match op with
  | .incm => (m.store a (Word.add (m.memory.read a) 1).1).latch (Word.add (m.memory.read a) 1)
  | .decm => (m.store a (Word.sub (m.memory.read a) 1).1).latch (Word.sub (m.memory.read a) 1)
  | .stor => m.dropCell.store a m.regs.ra
  | .ldd =>
    let d := Dword.join (m.memory.read a) (m.memory.read next)
    (m.pushCells [d.high, d.low]).sense d
  | .std =>
    let d := Dword.join m.regs.rb m.regs.ra
    ((m.dropCells 2).store a d.high).store next d.low

/-- The counter a count branch tests, and the machine with it stored. -/
def countAct (m : Machine) : CountOp → Word × Machine
  | .iabz => (m.regs.ra + 1, { m with regs := m.regs.setTop (.one (m.regs.ra + 1)) })
  | .ixbz => (m.regs.x + 1, m.setLatches (m.latches.setX (m.regs.x + 1)))
  | .dxbz => (m.regs.x - 1, m.setLatches (m.latches.setX (m.regs.x - 1)))

theorem isRunning_dropCell (m : Machine) : m.dropCell.isRunning = m.isRunning :=
  congrArg (fun frame : Frame => frame.state.isRunning) (frame_dropCell m)

theorem call_eq (n : Byte) :
    call n = checked (if n = 0 then 1 else 0) fun m =>
      ((), ((if n = 0 then m.dropCell else m).pushCell m.regs.pc).jump
        (m.regs.pb + (m.callLabel n).address)) := by
  apply Action.get_bind_eq
  intro m
  by_cases hn : n = 0
  · simp only [if_pos hn, pop_eq, callLabel]
    apply perform_checked_bind
    intro hrun _
    rw [Action.perform_bind_ok (perform_push ((isRunning_dropCell m).trans hrun) _)]
    have hpb : (m.dropCell.pushCell m.regs.pc).regs.pb = m.regs.pb :=
      congrArg Frame.pb (frame_dropCell m)
    rw [Action.perform_modify, hpb]
  · simp only [if_neg hn, callLabel]
    rw [Action.perform_bind_ok (Action.perform_pure _ _), push_eq]
    apply perform_checked_bind
    intro _ _
    rfl

theorem shift_eq (op : ShiftOp) (count : Byte) (indexed : Bool) :
    shift op count indexed = checked (if op.isDouble then 2 else 1) fun m =>
      ((), (Effect.shift op (m.shiftCount count indexed)).act m) := by
  apply Action.get_bind_eq
  intro m
  have happly : ∀ n, apply (Effect.shift op n) =
      checked (if op.isDouble then 2 else 1) fun m => ((), (Effect.shift op n).act m) := by
    intro n
    rw [Effect.apply_eq (Effect.shift_ne_undefined op n), Effect.guard_shift, guarded]
  change (apply (Effect.shift op (m.shiftCount count indexed))).perform m = _
  rw [happly, perform_checked, perform_checked]

theorem load_eq (w : Word) : load w = checked 0 fun m => ((), (m.pushCell w).sense w) := by
  rw [load, push_eq]
  exact checked_bind_eq fun m _ _ => rfl

theorem loadFrom_eq (target : LoadTarget) (s : Suffixes) :
    loadFrom target s = checked 0 fun m =>
      ((), (m.pushCell (m.memory.read (m.loadAddress target s))).sense
        (m.memory.read (m.loadAddress target s))) := by
  apply Action.get_bind_eq
  intro m
  change (load (m.memory.read (m.loadAddress target s))).perform m = _
  rw [load_eq, perform_checked, perform_checked]

theorem countBranch_eq (op : CountOp) (d : Displacement) (s : Suffixes) :
    countBranch op d s = guarded op.guard fun m =>
      ((), if (m.countAct op).1 = 0 then (m.countAct op).2.branch d s else (m.countAct op).2) := by
  cases op with
  | iabz =>
      have hreplace : ∀ w, replaceTop w =
          checked 1 fun m => ((), { m with regs := m.regs.setTop (.one w) }) :=
        fun w => replaceCells_eq (.one w)
      simp only [countBranch, peek_eq, hreplace]
      apply checked_bind_eq
      intro m hrun hn
      rw [Action.perform_bind_ok (perform_checked_ok hrun hn _), pure_bind,
        Action.perform_ite_modify]
      rfl
  | ixbz | dxbz => exact Action.ext fun m => Action.perform_ite_modify _ _ _

theorem memoryReference_eq (op : MemoryOp) (displacement : Word) (s : Suffixes) :
    memoryReference op displacement s = guarded op.guard fun m =>
      ((), m.memoryAct op (m.resolve (m.regs.db + displacement) s)) := by
  apply Action.get_bind_eq
  intro m
  cases op with
  | incm | decm =>
      simp only [MemoryOp.guard, guarded, Action.perform_modify, Action.perform_modifyGet,
        memoryAct]
  | stor =>
      simp only [pop_eq, guarded]
      exact perform_checked_bind fun _ _ => rfl
  | ldd =>
      simp only [pushDouble_eq, guarded]
      exact perform_checked_bind fun _ _ => rfl
  | std =>
      simp only [popDouble_eq, guarded]
      exact perform_checked_bind fun _ _ => rfl

theorem oddBranch_eq (d : Displacement) :
    oddBranch d = checked 1 fun m =>
      ((), if m.regs.ra.getLsbD 0 then m.dropCell.branch d {} else m.dropCell) := by
  rw [oddBranch, pop_eq]
  apply checked_bind_eq
  intro m _ _
  split <;> rfl

end Machine

namespace Instruction

/-- Whether an instruction acts on the machine alone and in one step. -/
def isSimple : Instruction → Bool
  | rio _ | wio _ | pair _ _ => false
  | _ => true

def guard : Instruction → Option Nat
  | halt _ | ldxi _ | br _ _ | bcc _ _ _ | flag _ _ _ => none
  | rio _ | wio _ | pair _ _ => none
  | scal n => some (if n = 0 then 1 else 0)
  | sxit n => some (n.toNat + 1)
  | shift op _ _ => some (if op.isDouble then 2 else 1)
  | memory op _ _ => op.guard
  | load _ _ | ldi _ => some 0
  | ddiv => some 4
  | count op _ _ => op.guard
  | bro _ => some 1

/-- What a simple instruction does to a machine with enough cells. -/
def act (m : Machine) : Instruction → Machine
  | rio _ | wio _ | pair _ _ => m
  | halt code => m.halt ("HALT ".toList ++ Text.decimal code.toNat)
  | scal n =>
    ((if n = 0 then m.dropCell else m).pushCell m.regs.pc).jump
      (m.regs.pb + (m.callLabel n).address)
  | sxit n => (m.dropCells (n.toNat + 1)).jump m.regs.ra
  | shift op n indexed => (Effect.shift op (m.shiftCount n indexed)).act m
  | memory op displacement s => m.memoryAct op (m.resolve (m.regs.db + displacement) s)
  | load target s =>
    (m.pushCell (m.memory.read (m.loadAddress target s))).sense
      (m.memory.read (m.loadAddress target s))
  | ldi value => (m.pushCell (value.setWidth 16)).sense (value.setWidth 16 : Word)
  | ldxi value => m.setLatches (m.latches.setX (value.setWidth 16))
  | ddiv => (Effect.binaryDouble .divideDouble).act m
  | br displacement s => m.branch displacement s
  | bcc selector displacement indirect =>
    if Machine.accepts selector m.regs.sta.cc then m.branch displacement ⟨indirect, false⟩ else m
  | count op displacement indirect =>
    let (n, m) := m.countAct op
    if n = 0 then m.branch displacement ⟨indirect, false⟩ else m
  | flag op displacement indirect => m.flagBranch op displacement ⟨indirect, false⟩
  | bro displacement =>
    if m.regs.ra.getLsbD 0 then m.dropCell.branch displacement {} else m.dropCell

theorem execute_eq {β : Type} [Bus β] {i : Instruction} (h : i.isSimple = true) :
    (i.execute : Exchange β Unit) =
      Exchange.machine (Machine.guarded i.guard fun m => ((), i.act m)) := by
  cases i with
  | rio device | wio device | pair first second => exact absurd h Bool.false_ne_true
  | halt code => rfl
  | scal n => exact congrArg Exchange.machine (Machine.call_eq n)
  | sxit n => rfl
  | shift op n indexed => exact congrArg Exchange.machine (Machine.shift_eq op n indexed)
  | memory op displacement s =>
      exact congrArg Exchange.machine (Machine.memoryReference_eq op displacement s)
  | load target s => exact congrArg Exchange.machine (Machine.loadFrom_eq target s)
  | ldi value => exact congrArg Exchange.machine (Machine.load_eq _)
  | ldxi value => rfl
  | ddiv =>
      have hdefined : Effect.binaryDouble .divideDouble ≠ .undefined := Effect.noConfusion
      exact congrArg Exchange.machine (Effect.apply_eq hdefined)
  | br displacement s => rfl
  | bcc selector displacement indirect =>
      have hbranch : (do
          if Machine.accepts selector (← get).regs.sta.cc then
            modify fun m => m.branch displacement ⟨indirect, false⟩ : Action Unit) =
          Machine.guarded none fun m => ((), act m (bcc selector displacement indirect)) :=
        Action.get_bind_eq fun m => Action.perform_ite_modify _ _ m
      exact congrArg Exchange.machine hbranch
  | count op displacement indirect =>
      exact congrArg Exchange.machine (Machine.countBranch_eq op displacement _)
  | flag op displacement indirect => rfl
  | bro displacement => exact congrArg Exchange.machine (Machine.oddBranch_eq displacement)

theorem perform_execute {β : Type} [Bus β] {i : Instruction} (h : i.isSimple = true)
    {m : Machine} (hrun : m.isRunning = true) (b : β) :
    i.execute.perform m b =
      if m.regs.available < i.guard.getD 0 then
        (.error .stackUnderflow, m.fault .stackUnderflow, b)
      else (.ok (), i.act m, b) := by
  have hmachine : ∀ a : Action Unit, (Exchange.machine a).perform m b =
      ((a.perform m).1, (a.perform m).2, b) := fun _ => rfl
  rw [execute_eq h, hmachine, Machine.perform_guarded hrun]
  split <;> rfl

end Instruction

end StackComputer
