import StackComputer.Journal

/-!
# Buses

What the machine sees of its devices: for each device code a status word, a
place to send words and a source of bytes. A bus may change with every
question put to it.
-/

namespace StackComputer

/-- An answer of a bus, the bus after it, and what there is to tell about it. -/
structure Reply (β α : Type) where
  answer : α
  bus : β
  events : List Event := []

class Bus (β : Type) where
  /-- The status word of a device, if there is one. -/
  readStatus : β → Byte → Reply β (Option Word)
  writeWord : β → Byte → Word → Reply β (Except DeviceError Unit)
  /-- The next byte of a device, zero if there is none. -/
  readByte : β → Byte → Reply β Byte

/-- The status bit of a device ready for a transfer. -/
def Bus.isReady (status : Word) : Bool := status.getLsbD 1

structure EmptyBus where

instance : Bus EmptyBus where
  readStatus b _ := ⟨none, b, []⟩
  writeWord b device _ := ⟨.error (.noDevice device), b, []⟩
  readByte b _ := ⟨0, b, []⟩

/-- A bus that answers from lists prepared beforehand and keeps the words sent
to it. -/
structure ScriptedBus where
  /-- Status words of each device; the last one stays. -/
  statuses : List (Byte × List (Option Word)) := []
  /-- Bytes read from any device. -/
  bytes : List Byte := []
  /-- Whether every word is refused. -/
  jammed : Bool := false
  /-- Accepted words with their devices, the newest first. -/
  accepted : List (Byte × Word) := []

namespace ScriptedBus

/-- The next status of a list and the list after it. -/
def nextStatus : List (Option Word) → Option Word × List (Option Word)
  | [] => (none, [])
  | [s] => (s, [s])
  | s :: rest => (s, rest)

instance : Bus ScriptedBus where
  readStatus b device :=
    let (status, rest) := nextStatus ((b.statuses.lookup device).getD [])
    ⟨status, { b with statuses := (device, rest) :: b.statuses.filter (·.1 != device) }, []⟩
  writeWord b device w :=
    if b.jammed then ⟨.error (.noDevice device), b, []⟩
    else ⟨.ok (), { b with accepted := (device, w) :: b.accepted }, []⟩
  readByte b _ := ⟨b.bytes.headD 0, { b with bytes := b.bytes.tail }, []⟩

end ScriptedBus

end StackComputer
