import StackComputer.Device
import StackComputer.Text.Blank

/-!
# Device registries

Devices under names in which letter case and outer blanks do not matter, kept
in the order of their names.
-/

namespace StackComputer

structure Registry where
  devices : List (Text × Device) := []

namespace Registry

/-- The form in which a name is kept. -/
def key (name : Text) : Text := Text.lower (Text.trim name)

def get? (r : Registry) (name : Text) : Option Device := r.devices.lookup (key name)

def insertSorted (k : Text) (d : Device) : List (Text × Device) → List (Text × Device)
  | [] => [(k, d)]
  | (k', d') :: rest =>
    if k = k' then (k, d) :: rest
    else if k < k' then (k, d) :: (k', d') :: rest
    else (k', d') :: insertSorted k d rest

/-- Puts a device under a name, in place of any other there. -/
def put (r : Registry) (name : Text) (d : Device) : Registry :=
  ⟨insertSorted (key name) d r.devices⟩

/-- Registers a device under a name, which may not be blank. -/
def add (r : Registry) (name : Text) (d : Device) : Except DeviceError Registry :=
  if (Text.trim name).isEmpty then .error .emptyName else .ok (r.put name d)

abbrev Operation := ExceptT DeviceError (StateM (Registry × Host))

def Operation.perform {α : Type} (o : Operation α) (r : Registry) (h : Host) :
    Except DeviceError α × Registry × Host :=
  (ExceptT.run o).run (r, h)

def register (name : Text) (d : Device) : Operation Unit := ExceptT.mk fun (r, h) =>
  match r.add name d with
  | .ok r => (.ok (), r, h)
  | .error e => (.error e, r, h)

def onDevice (name : Text) (d : Device) (o : Device.Operation Unit) : Operation Unit :=
  ExceptT.mk fun (r, h) =>
    let (answer, d, h) := o.perform d h
    (answer, r.put name d, h)

def onPrinter (name : Text) (o : Printer.Operation Unit) : Operation Unit := do
  match (← get).1.get? name with
  | none => throw (.unknownDevice (Text.trim name))
  | some (.printer p) => onDevice name (.printer p) (Device.printing p o)
  | some _ => throw (.notAttachable (Text.trim name))

def attach (name path : Text) (createNew : Bool) : Operation Unit :=
  onPrinter name (Printer.attach path createNew)

/-- Flushes the named device and lets its file go. -/
def detach (name : Text) : Operation Unit := onPrinter name Printer.detach

def flushEach : List (Text × Device) → Operation Unit
  | [] => pure ()
  | (name, d) :: rest => do
    onDevice name d Device.flush
    flushEach rest

/-- Flushes the devices in the order of their names, up to the first refusal. -/
def flushAll : Operation Unit := do
  flushEach (← get).1.devices

end Registry

end StackComputer
