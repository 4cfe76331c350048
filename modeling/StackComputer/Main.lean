import StackComputer.CommandLine

/-!
# The program

Reads the files that a command names, carries the command out, and brings the
host up to date.
-/

namespace StackComputer.CommandLine

def Command.paths : Command → List Text
  | run o => o.program :: o.printer.toList
  | assemble source output => source :: output.toList
  | disassemble image => [image]

def hostPath (names : List Text) : String := String.ofList (FileTree.joinParts names)

/-- What the host has at a path. -/
def observeNode (path : String) : IO (Option FileNode) := do
  try
    let real ← IO.FS.realPath path
    if ← real.isDir then return some .directory
    let bytes ← IO.FS.readBinFile real
    return some (.file (Text.ofBytes (bytes.toList.map UInt8.toBitVec)))
  catch _ => return none

/-- Adds what the host has at a path and above it. -/
def observe (t : FileTree) (path : Text) : IO FileTree := do
  let names := FileTree.parts path
  let mut t := t
  for n in List.range names.length do
    let part := FileTree.joinParts (names.take (n + 1))
    if let some node ← observeNode (String.ofList part) then
      if let .ok place := t.place part then
        t := t.put place.names node
  return t

/-- Makes the files of the host those of `new`, as far as `old` differs. -/
def commit (old new : FileTree) : IO Unit := do
  for (names, _) in old.entries do
    if (new.node? names).isNone then
      IO.FS.removeFile (hostPath names)
  for (names, node) in new.entries.reverse do
    if old.node? names != some node then
      match node with
      | .directory => IO.FS.createDirAll (hostPath names)
      | .file content => IO.FS.writeFile (hostPath names) (String.ofList content)

def usage : String := "usage: run PROGRAM | asm SOURCE [-o PATH] | disasm IMAGE"

end StackComputer.CommandLine

open StackComputer StackComputer.CommandLine in
def main (args : List String) : IO UInt32 := do
  match command? (args.map String.toList) with
  | none =>
    IO.eprintln usage
    return 2
  | some command =>
    let files ← command.paths.foldlM observe {}
    let (code, session) := command.perform { files }
    commit files session.host.files
    let bytes := session.host.output.map UInt8.ofBitVec
    (← IO.getStdout).write bytes.toByteArray
    IO.eprint (String.ofList session.complaints)
    return code.toUInt32
