import StackComputer.Device.Printer

/-!
# Devices

A console passes bytes to and from the terminal, a line printer appends lines
to a file, and a plain device only has a name.
-/

namespace StackComputer

/-- What devices act on: the files, and the bytes sent to the terminal. -/
structure Host where
  files : FileTree := {}
  /-- The newest byte first. -/
  terminal : List Byte := []

namespace Host

def send (h : Host) (b : Byte) : Host := { h with terminal := b :: h.terminal }

def print (h : Host) (t : Text) : Host := (Text.toBytes t).foldl send h

/-- All that was sent to the terminal, in order. -/
def output (h : Host) : List Byte := h.terminal.reverse

end Host

inductive Device where
  /-- A console with bytes queued for reading. -/
  | console (input : List Byte)
  | printer (p : Printer)
  | plain (label : Text)
deriving DecidableEq, Repr

namespace Device

abbrev Operation := ExceptT DeviceError (StateM (Device × Host))

def Operation.perform {α : Type} (o : Operation α) (d : Device) (h : Host) :
    Except DeviceError α × Device × Host :=
  (ExceptT.run o).run (d, h)

def name : Device → Text
  | console _ => "Console TTY".toList
  | printer _ => Printer.name
  | plain label => label

def status : Device → Text
  | console _ => "ready".toList
  | printer p => p.status
  | plain label => "plain ".toList ++ label

def isOutput : Device → Bool
  | console _ | printer _ => true
  | plain _ => false

/-- The status word read by the machine, if the device has one. -/
def statusWord : Device → Option Word
  | console _ => some 2
  | printer p => some p.statusWord
  | plain _ => none

/-- Whether the device can be bound to a file. -/
def isAttachable : Device → Bool
  | printer _ => true
  | _ => false

/-- An operation of the printer that a device is. -/
def printing (p : Printer) (o : Printer.Operation Unit) : Operation Unit :=
  ExceptT.mk fun (_, h) =>
    let (answer, p, files) := o.perform p h.files
    (answer, printer p, { h with files })

/-- Sends a word. A console shows its low byte. -/
def write (w : Word) : Operation Unit := do
  match (← get).1 with
  | console _ => modify fun (d, h) => (d, h.send (w.setWidth 8))
  | printer p => printing p (Printer.write w)
  | plain label => throw (.notOutput label)

/-- The next byte, zero if there is none, and the device after it. -/
def readByte : Device → Byte × Device
  | console (b :: rest) => (b, console rest)
  | d => (0, d)

def flush : Operation Unit := do
  match (← get).1 with
  | printer p => printing p Printer.flush
  | _ => pure ()

def feed (bytes : List Byte) : Device → Device
  | console input => console (input ++ bytes)
  | d => d

end Device

end StackComputer
