import StackComputer.Machine

/-!
# The operand stack

The top four cells sit in RA to RD. A push onto a full window spills RD to
the word below the spill pointer; a pop from a full window with cells below
it brings one back. Every operation needs a running machine, and one that
finds too few cells stops it.
-/

namespace StackComputer

/-- An operation on the machine that may be refused. What it did before the
refusal stays done. -/
abbrev Action := ExceptT ExecError (StateM Machine)

/-- The answer of an action and the machine after it. -/
def Action.perform {α : Type} (a : Action α) (m : Machine) : Except ExecError α × Machine :=
  (ExceptT.run a).run m

namespace Machine

/-- The machine with `w` on top of its stack. -/
def pushCell (m : Machine) (w : Word) : Machine :=
  let r := m.regs
  let sm := if r.sr = 4 then (r.sm - 1).address else r.sm
  { m with
    regs := { r with
      ra := w, rb := r.ra, rc := r.rb, rd := r.rc
      sr := min (r.sr + 1) 4, depth := r.depth + 1, sm := sm }
    memory := if r.sr = 4 then m.memory.write sm r.rd else m.memory }

/-- Fills the hole in RD after a cell above it was taken. -/
def refill (m : Machine) : Machine :=
  let r := m.regs
  if r.sr = 4 ∧ 4 < r.depth then
    { m with regs := { r with
        rd := m.memory.read r.sm, sm := (r.sm + 1).address, depth := r.depth - 1 } }
  else
    { m with regs := { r with rd := 0, sr := r.sr - 1, depth := r.depth - 1 } }

def dropCell (m : Machine) : Machine :=
  refill { m with regs := { m.regs with ra := m.regs.rb, rb := m.regs.rc, rc := m.regs.rd } }

def dropSecondCell (m : Machine) : Machine :=
  refill { m with regs := { m.regs with rb := m.regs.rc, rc := m.regs.rd } }

/-- Pushes the words in turn, so that the last ends on top. -/
def pushCells (m : Machine) (ws : List Word) : Machine := ws.foldl pushCell m

def dropCells (m : Machine) : Nat → Machine
  | 0 => m
  | n + 1 => m.dropCell.dropCells n

/-- Refuses unless the machine runs and `n` cells can be popped. -/
def require (n : Nat) : Action Unit := ExceptT.mk fun m =>
  if !m.isRunning then (.error (.notRunning m.state.phase), m)
  else if m.regs.available < n then (.error .stackUnderflow, m.fault .stackUnderflow)
  else (.ok (), m)

/-- The top `n` cells, which stay where they are. -/
def peekCells (n : Nat) : Action (Cells n) := do
  require n
  return (← get).regs.top n

def popCells (n : Nat) : Action (Cells n) := do
  let cells ← peekCells n
  modify (·.dropCells n)
  return cells

def replaceCells {n : Nat} (cells : Cells n) : Action Unit := do
  require n
  modify fun m => { m with regs := m.regs.setTop cells }

def push (w : Word) : Action Unit := do
  require 0
  modify (·.pushCell w)

def pop : Action Word := do
  return (← popCells 1).a

def peek : Action Word := do
  return (← peekCells 1).a

def peekSecond : Action Word := do
  return (← peekCells 2).b

def dropSecond : Action Unit := do
  require 2
  modify (·.dropSecondCell)

def replaceTop (w : Word) : Action Unit := replaceCells (.one w)

def replaceSecond (w : Word) : Action Unit := do
  let cells ← peekCells 2
  replaceCells (.two cells.a w)

/-- Pushes a doubleword, its low half on top. -/
def pushDouble (d : Dword) : Action Unit := do
  require 0
  modify (·.pushCells [d.high, d.low])

def popDouble : Action Dword := do
  return (← popCells 2).double

def peekDouble : Action Dword := do
  return (← peekCells 2).double

def replaceDouble (d : Dword) : Action Unit := replaceCells (.ofDouble d)

end Machine

end StackComputer
