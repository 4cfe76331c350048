import StackComputer.Instruction
import StackComputer.Text.Numeral

/-!
# Execution errors

Why the machine refused an operation. An underflow also stops the machine; so
does an undefined opcode or word that it fetched itself.
-/

namespace StackComputer

inductive Phase where
  | running
  | halted
  | error
deriving DecidableEq, Repr

def Phase.name : Phase → Text
  | running => "Running".toList
  | halted => "Halted".toList
  | error => "Error".toList

inductive ExecError where
  | notRunning (phase : Phase)
  | stackUnderflow
  | unknownOpcode (op : StackOp)
  | unknownInstruction (word : Word)
deriving DecidableEq, Repr

def ExecError.message : ExecError → Text
  | notRunning phase => "CPU not running: ".toList ++ phase.name
  | stackUnderflow => "stack underflow".toList
  | unknownOpcode op => "unknown opcode ".toList ++ Text.octalPadded 3 op.code.toNat
  | unknownInstruction word => "unknown instruction ".toList ++ Text.octalPadded 6 word.toNat

/-- Whether the machine runs, and if not, why. -/
inductive RunState where
  | running
  | halted (reason : Text)
  | faulted (cause : ExecError)
deriving DecidableEq, Repr

namespace RunState

def phase : RunState → Phase
  | running => .running
  | halted _ => .halted
  | faulted _ => .error

def reason? : RunState → Option Text
  | running => none
  | halted reason => some reason
  | faulted cause => some cause.message

def isRunning : RunState → Bool
  | running => true
  | _ => false

end RunState

end StackComputer
