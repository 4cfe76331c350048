import StackComputer.FileTree.Error
import StackComputer.Text.Bytes

/-!
# File trees

Files and directories below a working directory, and the refusals of the host
where a path does not lead to what an operation needs.
-/

namespace StackComputer

inductive FileNode where
  | file (content : Text)
  | directory
deriving DecidableEq, Repr

structure FileTree where
  /-- Names from the working directory down, or from a slash for the root. -/
  entries : List (List Text × FileNode) := []

namespace FileTree

def up : Text := ['.', '.']

def root : List Text := [['/']]

/-- The working directory, those above it and the root are always there. -/
def node? (t : FileTree) (names : List Text) : Option FileNode :=
  if names = root ∨ names.all (· == up) then some .directory else t.entries.lookup names

/-- Longest name the host takes, in bytes. -/
def nameMax : Nat := 255

/-- Looks up the last of some names, whose length counts only then. -/
def lookUp (t : FileTree) (names : List Text) : Except FileError (Option FileNode) :=
  if names.getLast?.any fun name => nameMax < (Text.toBytes name).length then .error .nameTooLong
  else .ok (t.node? names)

/-- The directory above one that was reached by names. -/
def above (names : List Text) : List Text :=
  if names = root then names else if names.all (· == up) then up :: names else names.dropLast

def put (t : FileTree) (names : List Text) (n : FileNode) : FileTree :=
  ⟨(names, n) :: t.entries.filter (·.1 != names)⟩

def erase (t : FileTree) (names : List Text) : FileTree :=
  ⟨t.entries.filter (·.1 != names)⟩

/-- Where a path leads, all directories on the way being there. The last name
has not been looked up. -/
structure Place where
  names : List Text
  /-- The path ends so that only a directory can be meant. -/
  asDirectory : Bool
deriving DecidableEq, Repr

/-- Longest path the host takes, in bytes. -/
def pathMax : Nat := 4095

/-- A piece of a path that leads nowhere. -/
def isIdle (piece : Text) : Bool := piece = [] ∨ piece = ['.']

def follow (t : FileTree) (current : List Text) : List Text → Except FileError Place
  | [] => .ok ⟨current, true⟩
  | name :: rest =>
    if isIdle name then follow t current rest
    else if name = up then follow t (above current) rest
    else if rest.isEmpty then .ok ⟨current ++ [name], false⟩
    else if rest.all (·.isEmpty) then .ok ⟨current ++ [name], true⟩
    else
      match t.lookUp (current ++ [name]) with
      | .error e => .error e
      | .ok (some .directory) => follow t (current ++ [name]) rest
      | .ok (some (.file _)) => .error .notDirectory
      | .ok none => .error .notFound

def place (t : FileTree) (path : Text) : Except FileError Place :=
  if path.contains '\x00' then .error .nulInPath else
  if path.isEmpty then .error .notFound else
  if pathMax < (Text.toBytes path).length then .error .nameTooLong else
  follow t (if path.head? = some '/' then root else []) (Text.splitAt (· == '/') path)

def find (t : FileTree) (path : Text) : Except FileError FileNode := do
  let p ← t.place path
  match ← t.lookUp p.names with
  | none => .error .notFound
  | some .directory => .ok .directory
  | some (.file content) => if p.asDirectory then .error .notDirectory else .ok (.file content)

def contains (t : FileTree) (path : Text) : Bool := (t.find path).toBool

def isDirectory (t : FileTree) (path : Text) : Bool :=
  match t.find path with
  | .ok .directory => true
  | _ => false

def read (t : FileTree) (path : Text) : Except FileError Text := do
  match ← t.find path with
  | .file content => .ok content
  | .directory => .error .isDirectory

/-- Changes the content of a file, which is created empty if need be. Where only a
directory can be meant, that is refused before the last name is looked up. -/
def change (t : FileTree) (path : Text) (f : Text → Text) : Except FileError FileTree := do
  let p ← t.place path
  if p.asDirectory then throw .isDirectory
  match ← t.lookUp p.names with
  | some .directory => throw .isDirectory
  | some (.file content) => return t.put p.names (.file (f content))
  | none => return t.put p.names (.file (f []))

def write (t : FileTree) (path content : Text) : Except FileError FileTree :=
  t.change path fun _ => content

def append (t : FileTree) (path content : Text) : Except FileError FileTree :=
  t.change path (· ++ content)

def remove (t : FileTree) (path : Text) : Except FileError FileTree := do
  match ← t.find path with
  | .file _ => return t.erase (← t.place path).names
  | .directory => .error .isDirectory

def makeDirectory (t : FileTree) (path : Text) : Except FileError FileTree := do
  let p ← t.place path
  if (← t.lookUp p.names).isSome then .error .alreadyExists
  else .ok (t.put p.names .directory)

/-- The parts of a path that count: a slash or a dot only at the front, and
empty parts never. -/
def parts (path : Text) : List Text :=
  match Text.splitAt (· == '/') path with
  | [] | [[]] => []
  | first :: rest =>
    (if first = [] then ['/'] else first) :: rest.filter (!isIdle ·)

def joinParts (names : List Text) : Text :=
  match names with
  | ['/'] :: rest => '/' :: Text.joinWith ['/'] rest
  | _ => Text.joinWith ['/'] names

/-- Drops idle pieces, given from the last to the first, down to the first. -/
def dropIdle : List Text → List Text
  | [] => []
  | [first] => [first]
  | piece :: above => if isIdle piece then dropIdle above else piece :: above

/-- The paths above one that is given by its pieces from the last to the first,
the nearest first. Each is spelled as that path spells it. -/
def pathsAbove : List Text → List Text
  | [] | [_] => []
  | piece :: above =>
    if isIdle piece then pathsAbove above else
    let path := Text.joinWith ['/'] (dropIdle above).reverse
    (if path.isEmpty then ['/'] else path) :: pathsAbove above

/-- Makes a directory and those above it, given by their paths, the nearest
first. Directories made before a refusal stay. -/
def makeDirectories (t : FileTree) : List Text → Except FileError Unit × FileTree
  | [] => (.ok (), t)
  | path :: above =>
    let settle (t : FileTree) (e : FileError) : Except FileError Unit × FileTree :=
      if t.isDirectory path then (.ok (), t) else (.error e, t)
    match t.makeDirectory path with
    | .ok t => (.ok (), t)
    | .error .notFound =>
      match makeDirectories t above with
      | (.error e, t) => (.error e, t)
      | (.ok (), t) =>
        match t.makeDirectory path with
        | .ok t => (.ok (), t)
        | .error e => settle t e
    | .error e => settle t e

def makeParents (t : FileTree) (path : Text) : Except FileError Unit × FileTree :=
  t.makeDirectories (pathsAbove (Text.splitAt (· == '/') path).reverse)

/-- A tree with the given files and the directories above them. -/
def ofFiles (files : List (Text × Text)) : FileTree :=
  files.foldl (fun t file =>
    let t := (t.makeParents file.1).2
    (t.write file.1 file.2).toOption.getD t) {}

def fileName? (path : Text) : Option Text :=
  match (parts path).getLast? with
  | some name => if name = ['/'] ∨ name = ['.'] ∨ name = up then none else some name
  | none => none

/-- What follows the last dot of the file name, unless that dot starts it. -/
def extension? (path : Text) : Option Text := do
  let name ← fileName? path
  let (after, before) ← Text.cutAt? (· == '.') name.reverse
  if before.isEmpty then none else some after.reverse

end FileTree

end StackComputer
