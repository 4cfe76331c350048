import Mathlib.Data.List.Forall2
import StackComputer.Proofs.DirectoryTree
import StackComputer.Proofs.LossyDecoding
import StackComputer.Proofs.PrinterSession

/-!
# What a session of a line printer leaves

From attaching a file to letting it go, the lines that were written are appended
to it. Their bytes are the low ones of the words, without carriage returns; lines
are cut at line feeds, at flushes and at the end.
-/

namespace StackComputer.Printer

namespace Request

/-- Words and flushes, the requests between attaching a file and letting it go. -/
def isOutput : Request → Bool
  | write _ | flush => true
  | attach _ _ | detach => false

/-- The byte of a word, unless that is a carriage return. -/
def bytes : Request → List Byte
  | write w => if (w.setWidth 8 : Byte) = 0x0D then [] else [w.setWidth 8]
  | attach _ _ | flush | detach => []

end Request

/-- Cuts bytes at line feeds. After the last of them a line has only begun if there
is anything. -/
def cutLines (bs : List Byte) : List (List Byte) :=
  let pieces := bs.splitOn 0x0A
  if pieces.getLast? = some [] then pieces.dropLast else pieces

/-- The bytes of each line of a session. A line that has begun ends at a flush and
at the end of the session. -/
def lines (rs : List Request) : List (List Byte) :=
  (rs.splitOn .flush).flatMap fun part => cutLines (part.flatMap Request.bytes)

/-! ## Lines -/

/-- The bytes between the flushes. -/
def parts (rs : List Request) : List (List Byte) :=
  (rs.splitOn .flush).map fun part => part.flatMap Request.bytes

section

variable {p p' : Printer} {t t' : FileTree} {path : Text} {r : Request} {rs : List Request}

/-- The file holds these lines and nothing else. If there are none, the path leads to no
file, whether or not it ends in a slash or a dot, as that of a directory may. -/
def Holds (t : FileTree) (path : Text) (texts : List Text) : Prop :=
  if texts = [] then
    ∀ place, t.place path = .ok place → ∀ text, t.lookUp place.names ≠ .ok (some (.file text))
  else t.read path = .ok (texts.flatMap (· ++ ['\n']))

end

end StackComputer.Printer
