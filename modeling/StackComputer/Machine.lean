import StackComputer.Journal
import StackComputer.Memory
import StackComputer.Registers

/-!
# The machine

Registers, memory and run state. Once stopped, a machine stays as it stopped
until it is reset.
-/

namespace StackComputer

structure Machine where
  regs : Registers := {}
  memory : Memory := .zero
  state : RunState := .running
  /-- Fetches since the last reset. -/
  cycles : Nat := 0
  /-- The last instruction fetched. -/
  last : Option Instruction := none
  journal : Journal := {}

namespace Machine

def isRunning (m : Machine) : Bool := m.state.isRunning

def record (m : Machine) (e : Event) : Machine := { m with journal := m.journal.add e }

/-- Starts afresh at `a`, with memory as it is. -/
def reset (m : Machine) (a : Word) : Machine :=
  record { m with regs := .start a, state := .running, cycles := 0, last := none }
    (.reset a.address)

def halt (m : Machine) (reason : Text) : Machine :=
  if m.isRunning then
    record { m with state := .halted reason } (.halted m.regs.pc reason)
  else m

def fault (m : Machine) (cause : ExecError) : Machine :=
  if m.isRunning then
    record { m with state := .faulted cause } (.faulted m.regs.pc cause)
  else m

def jump (m : Machine) (a : Word) : Machine := { m with regs := m.regs.jump a }

def setStatus (m : Machine) (s : Status) : Machine := { m with regs := { m.regs with sta := s } }

def setCode (m : Machine) (cc : ConditionCode) : Machine :=
  m.setStatus { m.regs.sta with cc := cc }

def store (m : Machine) (a w : Word) : Machine := { m with memory := m.memory.write a w }

end Machine

end StackComputer
