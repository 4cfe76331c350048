import StackComputer.Word

/-!
# Shifts by any count

A shift returns the last bit that left the word, and no carry when the
count is zero. Counts past the width shift everything out.
-/

namespace StackComputer

/-- Direction and fill: an arithmetic left shift holds the sign bit in
place, an arithmetic right shift copies it. -/
inductive ShiftKind where
  | arithmeticLeft
  | arithmeticRight
  | logicalLeft
  | logicalRight
deriving DecidableEq, Repr

namespace Word

variable {w : Nat}

/-- All bits but the sign. -/
def magnitude (v : BitVec w) : BitVec w := v &&& ~~~BitVec.twoPow w (w - 1)

/-- The sign bit alone, in its place. -/
def signBit (v : BitVec w) : BitVec w := v &&& BitVec.twoPow w (w - 1)

/-- Shifts `v` by `count`, with the last bit that left. -/
def shift (kind : ShiftKind) (v : BitVec w) (count : Nat) : BitVec w × Bool :=
  if count = 0 then (v, false) else
  match kind with
  | .logicalLeft =>
    (v <<< min count w, decide (count ≤ w) && v.getLsbD (w - count))
  | .logicalRight =>
    (v >>> count, v.getLsbD (count - 1))
  | .arithmeticLeft =>
    (signBit v ||| magnitude (magnitude v <<< min count w),
      decide (count < w) && v.getLsbD (w - 1 - count))
  | .arithmeticRight =>
    (v.sshiftRight count, (v.sshiftRight (count - 1)).getLsbD 0)

@[simp] theorem shift_zero (kind : ShiftKind) (v : BitVec w) : shift kind v 0 = (v, false) := rfl

end Word

end StackComputer
