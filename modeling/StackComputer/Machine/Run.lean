import StackComputer.Instruction.Encoding
import StackComputer.Machine.Execute

/-!
# Running a program

A step fetches, decodes and executes one word. A run takes steps until the
machine stops or its budget is spent, and counts the steps after which the
machine still ran.
-/

namespace StackComputer

variable {β : Type} [Bus β]

namespace Machine

/-- Fetches the word at P, which moves on. -/
def fetch (m : Machine) : Machine :=
  record { m with regs := m.regs.advance, cycles := m.cycles + 1 }
    (.fetched m.regs.pc (m.memory.read m.regs.pc))

/-- One fetch cycle of a running machine. An error stops it. -/
def step (m : Machine) (b : β) : Machine × β :=
  if !m.isRunning then (m, b) else
  let word := m.memory.read m.regs.pc
  let m := m.fetch
  match Instruction.decode? word with
  | none => (m.fault (.unknownInstruction word), b)
  | some i =>
    match i.execute.perform { m with last := some i } b with
    | (.ok (), m, b) => (m, b)
    | (.error cause, m, b) => (m.fault cause, b)

/-- Runs for at most `budget` steps, adding the steps taken to `count`. -/
def runFrom (count : Nat) (m : Machine) (b : β) : Nat → Nat × Machine × β
  | 0 => (count, m, b)
  | budget + 1 =>
    match m.step b with
    | (m, b) => if m.isRunning then runFrom (count + 1) m b budget else (count, m, b)

def run (m : Machine) (b : β) (budget : Nat) : Nat × Machine × β := m.runFrom 0 b budget

end Machine

end StackComputer
