import StackComputer.Device.Error
import StackComputer.Instruction.Text
import StackComputer.Machine.Error
import StackComputer.RealWord
import StackComputer.Text.Quoted

/-!
# Journal

What the machine and its devices have to tell about a session, in order. A
journal that does not record stays empty.
-/

namespace StackComputer

def RealWord.RangeError.message : RealWord.RangeError → Text
  | .overflow => "real overflow".toList
  | .underflow => "real underflow".toList

inductive Event where
  | fetched (address word : Word)
  | reset (pc : Word)
  | halted (pc : Word) (reason : Text)
  | faulted (pc : Word) (cause : ExecError)
  /-- A real operation at `pc` left the range of the reals. -/
  | outOfRange (pc : Word) (cause : RealWord.RangeError)
  /-- A device refused the word the instruction at `address` sent. -/
  | refused (device : Byte) (address : Word) (cause : DeviceError)
  /-- A device code was used for the first time without a device behind it. -/
  | missing (code : Byte)
deriving DecidableEq, Repr

inductive Level where
  | trace
  | debug
  | warn
deriving DecidableEq, Repr

def Level.name : Level → Text
  | trace => "TRACE".toList
  | debug => "DEBUG".toList
  | warn => "WARN".toList

namespace Event

def level : Event → Level
  | fetched _ _ => .trace
  | reset _ | halted _ _ | outOfRange _ _ => .debug
  | faulted _ _ | refused _ _ _ | missing _ => .warn

def text : Event → Text
  | fetched address word => Instruction.listingLine address word
  | reset pc => "reset, P=".toList ++ Text.octalPadded 5 pc.toNat
  | halted pc reason =>
    "halted at P=".toList ++ Text.octalPadded 5 pc.toNat ++ ": Some(".toList ++
      Text.quoted reason ++ ")".toList
  | faulted pc cause =>
    "fault at P=".toList ++ Text.octalPadded 5 pc.toNat ++ ": ".toList ++ cause.message
  | outOfRange pc cause => cause.message ++ " at P=".toList ++ Text.octalPadded 5 pc.toNat
  | refused device address cause =>
    "WIO ".toList ++ Text.decimal device.toNat ++ " at ".toList ++
      Text.octalPadded 5 address.toNat ++ " failed: ".toList ++ cause.message
  | missing code => "no device for code ".toList ++ Text.decimal code.toNat

def line (e : Event) : Text := e.level.name ++ ' ' :: e.text

end Event

structure Journal where
  recording : Bool := false
  /-- The newest event first. -/
  events : List Event := []

namespace Journal

def add (j : Journal) (e : Event) : Journal :=
  if j.recording then { j with events := e :: j.events } else j

def addAll (j : Journal) (es : List Event) : Journal := es.foldl add j

/-- The lines of the journal, the oldest first. -/
def lines (j : Journal) : List Text := j.events.reverse.map Event.line

end Journal

end StackComputer
