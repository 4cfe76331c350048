import StackComputer.Word

/-!
# Addition and subtraction with flags

Carry is the unsigned carry out of the top bit, or the borrow of a
subtraction; overflow is read off the three sign bits.
-/

namespace StackComputer

structure Flags where
  carry : Bool
  overflow : Bool
deriving DecidableEq, Repr

namespace Word

variable {w : Nat}

def add (a b : BitVec w) : BitVec w × Flags :=
  let sum := a + b
  (sum, ⟨sum.ult a, a.msb == b.msb && sum.msb != a.msb⟩)

def sub (a b : BitVec w) : BitVec w × Flags :=
  let difference := a - b
  (difference, ⟨a.ult b, a.msb != b.msb && difference.msb != a.msb⟩)

@[simp] theorem add_fst (a b : BitVec w) : (add a b).1 = a + b := rfl

@[simp] theorem sub_fst (a b : BitVec w) : (sub a b).1 = a - b := rfl

end Word

end StackComputer
