import StackComputer.Bus
import StackComputer.Device.Registry

/-!
# The bus of a registry

Device code 0 is the device named `tty` and code 1 the one named `lpt`. The
codes used in vain are kept, and each is told of once.
-/

namespace StackComputer

structure DeviceBus where
  registry : Registry := {}
  host : Host := {}
  /-- Codes used without a device behind them, in ascending order. -/
  missing : List Byte := []

namespace DeviceBus

def deviceName? (code : Byte) : Option Text :=
  if code = 0 then some "tty".toList else if code = 1 then some "lpt".toList else none

def insertCode (code : Byte) : List Byte → List Byte
  | [] => [code]
  | c :: rest => if code ≤ c then code :: c :: rest else c :: insertCode code rest

def device? (b : DeviceBus) (code : Byte) : Option (Text × Device) := do
  let name ← deviceName? code
  let d ← b.registry.get? name
  return (name, d)

/-- Notes a code without a device, which is told of only the first time. -/
def miss (b : DeviceBus) (code : Byte) : DeviceBus × List Event :=
  if b.missing.contains code then (b, [])
  else ({ b with missing := insertCode code b.missing }, [.missing code])

def perform {α : Type} (b : DeviceBus) (o : Registry.Operation α) :
    Except DeviceError α × DeviceBus :=
  let (answer, registry, host) := o.perform b.registry b.host
  (answer, { b with registry, host })

instance : Bus DeviceBus where
  readStatus b code :=
    match b.device? code with
    | some (_, d) => ⟨d.statusWord, b, []⟩
    | none => let (b, events) := b.miss code; ⟨none, b, events⟩
  writeWord b code w :=
    match b.device? code with
    | some (name, d) =>
      let (answer, b) := b.perform (Registry.onDevice name d (Device.write w))
      ⟨answer, b, []⟩
    | none => let (b, events) := b.miss code; ⟨.error (.noDevice code), b, events⟩
  readByte b code :=
    match b.device? code with
    | some (name, d) =>
      let (byte, d) := d.readByte
      ⟨byte, { b with registry := b.registry.put name d }, []⟩
    | none => let (b, events) := b.miss code; ⟨0, b, events⟩

end DeviceBus

end StackComputer
