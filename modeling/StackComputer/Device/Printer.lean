import StackComputer.Device.Error
import StackComputer.FileTree

/-!
# Line printers

A printer collects bytes into lines and appends each finished line to the
file it is attached to. A line that could not be printed is lost, and a line
begun under one file is printed to the file attached when it ends.
-/

namespace StackComputer

structure Printer where
  path : Option Text := none
  /-- Bytes of the line not yet printed. -/
  pending : List Byte := []
deriving DecidableEq, Repr

namespace Printer

/-- An operation of a printer on a file tree. What it did before a refusal
stays done. -/
abbrev Operation := ExceptT DeviceError (StateM (Printer × FileTree))

def Operation.perform {α : Type} (o : Operation α) (p : Printer) (t : FileTree) :
    Except DeviceError α × Printer × FileTree :=
  (ExceptT.run o).run (p, t)

def name : Text := "Line Printer".toList

/-- Lets the file tree change, or refuses with its error. -/
def onFiles (f : FileTree → Except FileError Unit × FileTree) : Operation Unit :=
  ExceptT.mk fun (p, t) =>
    let (answer, t) := f t
    (answer.mapError .file, p, t)

/-- A change of the file tree that leaves it as it is when refused. -/
def orKeep (f : FileTree → Except FileError FileTree) (t : FileTree) :
    Except FileError Unit × FileTree :=
  match f t with
  | .ok t => (.ok (), t)
  | .error e => (.error e, t)

def modifyPrinter (f : Printer → Printer) : Operation Unit := modify fun (p, t) => (f p, t)

def attachedPath : Operation Text := do
  match (← get).1.path with
  | some path => return path
  | none => throw (.notAttached name)

def printLine (line : Text) : Operation Unit := do
  let path ← attachedPath
  onFiles (orKeep (·.append path (line ++ ['\n'])))

/-- Prints the pending line, which is no longer pending even if that fails. -/
def endLine : Operation Unit := do
  let line := Text.ofBytes (← get).1.pending
  modifyPrinter fun p => { p with pending := [] }
  printLine line

/-- Takes the low byte of a word: a line feed ends the line, a carriage return
is dropped. -/
def write (w : Word) : Operation Unit := do
  let _ ← attachedPath
  let byte : Byte := w.setWidth 8
  if byte = 0x0A then endLine
  else if byte = 0x0D then pure ()
  else modifyPrinter fun p => { p with pending := p.pending ++ [byte] }

def flush : Operation Unit := do
  if (← get).1.pending.isEmpty then pure () else endLine

/-- Binds the printer to a file, which is first removed if it has to be new. -/
def attach (path : Text) (createNew : Bool) : Operation Unit := do
  if path.isEmpty then throw .emptyPath
  if createNew && (← get).2.contains path then
    onFiles (orKeep (·.remove path))
  onFiles (·.makeParents path)
  modifyPrinter fun p => { p with path := some path }

/-- Flushes an attached printer and lets its file go. -/
def detach : Operation Unit := do
  if (← get).1.path.isSome then flush
  modifyPrinter fun p => { p with path := none }

/-- Ready when attached. -/
def statusWord (p : Printer) : Word := if p.path.isSome then 2 else 0

def status (p : Printer) : Text :=
  match p.path with
  | some path => "output=".toList ++ path
  | none => "detached".toList

end Printer

end StackComputer
