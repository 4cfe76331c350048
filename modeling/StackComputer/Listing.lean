import StackComputer.Instruction.Text
import StackComputer.Program

/-!
# Listings

One line for each word, with its address and its instruction.
-/

namespace StackComputer.Listing

def ofCells (cells : List (Word × Word)) : Text :=
  cells.flatMap fun cell => Instruction.listingLine cell.1 cell.2 ++ ['\n']

def ofMemory (m : Memory) (start : Word) (count : Nat) : Text := ofCells (m.dump start count)

/-- A program in the order its words were emitted. -/
def ofProgram (p : Program) : Text :=
  "; HP 3000 Disassembly\n; origin ".toList ++ Text.octalPadded 5 p.origin.toNat ++ ", ".toList ++
    Text.decimal p.words.length ++ " words\n\n".toList ++ ofCells p.words

end StackComputer.Listing
