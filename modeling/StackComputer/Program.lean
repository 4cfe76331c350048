import StackComputer.Memory

/-!
# Programs

Assembled words with their addresses, in the order they were emitted, and the
address where execution starts.
-/

namespace StackComputer

structure Program where
  origin : Word := 0
  words : List (Word × Word) := []
deriving DecidableEq, Repr

namespace Program

/-- Stores every word at its address; of two words at one address the later
stays. -/
def loadInto (p : Program) (m : Memory) : Memory := m.store p.words

end Program

end StackComputer
