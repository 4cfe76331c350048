import StackComputer.Assembler.Source
import StackComputer.CommandLine.Arguments
import StackComputer.CommandLine.Report
import StackComputer.Device.Bus
import StackComputer.Image.File
import StackComputer.Listing

/-!
# Commands

Running, assembling and disassembling a file. A command works on the files and
the terminal of a host, complains in a text of its own, and ends with a number
for its success.
-/

namespace StackComputer.CommandLine

structure Session where
  host : Host
  complaints : Text := []

/-- A part of a command, which may end the command with an exit code. -/
abbrev Task := ExceptT Nat (StateM Session)

def complain (t : Text) : Task Unit :=
  modify fun s => { s with complaints := s.complaints ++ lineOf t }

/-- Ends the command with a complaint. -/
def fail {α : Type} (context : String) (cause : Text) : Task α := do
  complain ("❌ ".toList ++ context.toList ++ ": ".toList ++ cause)
  throw 1

/-- Ends the command unless there is a result. -/
def orFail {ε α : Type} (context : String) (message : ε → Text) : Except ε α → Task α
  | .ok a => pure a
  | .error e => fail context (message e)

def print (t : Text) : Task Unit := modify fun s => { s with host := s.host.print t }

def assembleFile (path : Text) : Task Program := do
  let source ← orFail "Failed to read file" FileError.message ((← get).host.files.read path)
  orFail "Assembly error" Assembler.AssemblyError.message (Assembler.assemble source)

def readImage (path : Text) : Task Program := do
  orFail "Failed to load image" Image.LoadError.message (Image.load (← get).host.files path)

/-- Assembles a file whose name ends in `.asm`; any other is an image. -/
def readProgram (path : Text) : Task Program :=
  if (FileTree.extension? path).any fun e => Text.sameLetters e "asm".toList then
    assembleFile path
  else readImage path

/-- A console as device 0 and, for a path, a line printer as device 1. -/
def attachDevices (printer : Option Text) : Task DeviceBus := do
  let bus : DeviceBus := { host := (← get).host }
  let (answer, bus) := bus.perform (Registry.register "tty".toList (.console []))
  orFail "Failed to attach console" DeviceError.message answer
  match printer with
  | none => return bus
  | some path =>
    let (answer, bus) := bus.perform do
      Registry.register "lpt".toList (.printer {})
      Registry.attach "lpt".toList path true
    modify fun s => { s with host := bus.host }
    orFail "Failed to attach line printer" DeviceError.message answer
    return bus

/-- Runs like `Machine.run`, with a line on the terminal after each step. -/
def runTraced (count : Nat) (m : Machine) (b : DeviceBus) : Nat → Nat × Machine × DeviceBus
  | 0 => (count, m, b)
  | budget + 1 =>
    let address := m.regs.pc
    let word := m.memory.read address
    match m.step b with
    | (m, b) =>
      let b := { b with host := b.host.print (traceLine address word m.regs) }
      if m.isRunning then runTraced (count + 1) m b budget else (count, m, b)

/-- A machine about to run a program. -/
def boot (p : Program) (start : Option Word) : Machine :=
  Machine.reset { memory := p.loadInto .zero } (start.getD p.origin)

/-- Flushes the devices and lets the printer's file go. -/
def shutDown (bus : DeviceBus) (printer : Option Text) : Task DeviceBus := do
  let (answer, bus) := bus.perform Registry.flushAll
  if let .error e := answer then
    complain ("⚠️  Device flush failed: ".toList ++ e.message)
  if printer.isSome then
    let (answer, bus) := bus.perform (Registry.detach "lpt".toList)
    if let .error e := answer then
      complain ("⚠️  Line printer detach failed: ".toList ++ e.message)
    return bus
  return bus

/-- Lets the devices go and reports the final state; a fault is a failure. -/
def conclude (o : RunOptions) : Nat × Machine × DeviceBus → Task Unit
  | (steps, m, bus) => do
    let bus ← shutDown bus o.printer
    modify fun s => { s with host := bus.host }
    if !bus.missing.isEmpty then
      complain ("⚠️  No device for code(s): ".toList ++
        Text.joinWith ", ".toList (bus.missing.map fun code => Text.decimal code.toNat))
    print (if o.json then lineOf (jsonReport m steps) else summary m steps o.maxSteps)
    if m.state.phase = .error then throw 1

def runProgram (o : RunOptions) : Task Unit := do
  let program ← readProgram o.program
  if program.words.isEmpty then fail "Nothing to run" o.program
  let bus ← attachDevices o.printer
  let m := boot program o.start
  conclude o (if o.trace then runTraced 0 m bus o.maxSteps else m.run bus o.maxSteps)

/-- Assembles a source to an image file or to the terminal. -/
def writeImage (source : Text) (output : Option Text) : Task Unit := do
  let program ← assembleFile source
  match output with
  | none => print (Image.render program)
  | some path =>
    let files ← orFail "Failed to write image" Image.LoadError.message
      (Image.save (← get).host.files path program)
    modify fun s => { s with host := { s.host with files } }
    complain ("✓ Assembled ".toList ++ Text.decimal program.words.length ++ " words to ".toList ++
      path)

def listImage (path : Text) : Task Unit := do
  print (Listing.ofProgram (← readImage path))

def Command.task : Command → Task Unit
  | run options => runProgram options
  | assemble source output => writeImage source output
  | disassemble image => listImage image

/-- Carries out a command on a host: the exit code and the session after it. -/
def Command.perform (c : Command) (h : Host) : Nat × Session :=
  match (ExceptT.run c.task).run { host := h } with
  | (.ok (), s) => (0, s)
  | (.error code, s) => (code, s)

end StackComputer.CommandLine
