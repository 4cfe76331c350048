import StackComputer.FileTree
import StackComputer.Image

/-!
# Image files

Programs kept in files as image texts.
-/

namespace StackComputer.Image

inductive LoadError where
  | file (cause : FileError)
  | parse (cause : Error)
deriving DecidableEq, Repr

def LoadError.message : LoadError → Text
  | file cause => "I/O error: ".toList ++ cause.message
  | parse cause => cause.message

def load (t : FileTree) (path : Text) : Except LoadError Program :=
  match t.read path with
  | .error e => .error (.file e)
  | .ok text => (parse text).mapError .parse

/-- Writes an image file, in place of any file there. -/
def save (t : FileTree) (path : Text) (p : Program) : Except LoadError FileTree :=
  (t.write path (render p)).mapError .file

end StackComputer.Image
