import StackComputer.Word.Shift

/-!
# Shifts bit by bit

A shift by any count is that many shifts by a single bit, and its carry is the
bit that left in the last of them. Counts past the width are no exception.
-/

namespace StackComputer.Word

variable {w n : Nat}

/-- Shifts by one bit, with the bit that left. In arithmetic shifts the sign
stands apart from the bits below it. -/
def shiftOnce (v : BitVec (n + 1)) : ShiftKind → BitVec (n + 1) × Bool
  | .logicalLeft => (v <<< 1, v.msb)
  | .logicalRight => (v >>> 1, v.getLsbD 0)
  | .arithmeticLeft => (.cons v.msb (v.setWidth n <<< 1), (v.setWidth n).msb)
  | .arithmeticRight => (.cons v.msb ((v >>> 1).setWidth n), v.getLsbD 0)

/-- Shifts by one bit as often as told. -/
def shiftTimes (kind : ShiftKind) (v : BitVec (n + 1)) : Nat → BitVec (n + 1) × Bool
  | 0 => (v, false)
  | count + 1 => shiftOnce (shiftTimes kind v count).1 kind

/-! ## Each kind of shift -/

theorem fst_logicalLeft (v : BitVec w) (count : Nat) :
    (shift .logicalLeft v count).1 = v <<< count := by
  rw [shift]
  split
  · next hzero => rw [hzero, BitVec.shiftLeft_zero]
  · dsimp only
    rcases Nat.le_total count w with hle | hge
    · rw [Nat.min_eq_left hle]
    · rw [Nat.min_eq_right hge, BitVec.shiftLeft_eq_zero hge,
        BitVec.shiftLeft_eq_zero (Nat.le_refl w)]

theorem fst_logicalRight (v : BitVec w) (count : Nat) :
    (shift .logicalRight v count).1 = v >>> count := by
  rw [shift]
  split
  · next hzero => rw [hzero, BitVec.ushiftRight_zero]
  · rfl

theorem fst_arithmeticRight (v : BitVec w) (count : Nat) :
    (shift .arithmeticRight v count).1 = v.sshiftRight count := by
  rw [shift]
  split
  · next hzero => rw [hzero, BitVec.sshiftRight_zero]
  · rfl

theorem logicalLeft_succ (v : BitVec w) (count : Nat) :
    shift .logicalLeft v (count + 1) = (v <<< count <<< 1, (v <<< count).msb) := by
  apply Prod.ext
  · rw [fst_logicalLeft, BitVec.shiftLeft_add]
  · have hposition : w - (count + 1) = w - 1 - count := by omega
    change (decide (count < w) && v.getLsbD (w - (count + 1))) = _
    rw [BitVec.msb_shiftLeft, BitVec.getMsbD, hposition]

/-- A sign over the lower bits of another word. -/
theorem signBit_or_magnitude (v u : BitVec (n + 1)) :
    signBit v ||| magnitude u = .cons v.msb (u.setWidth n) := by
  apply BitVec.eq_of_getLsbD_eq
  intro i hi
  rw [signBit, magnitude, BitVec.getLsbD_or, BitVec.getLsbD_and, BitVec.getLsbD_and,
    BitVec.getLsbD_not, BitVec.getLsbD_twoPow, BitVec.getLsbD_cons, BitVec.getLsbD_setWidth,
    BitVec.msb_eq_getLsbD_last]
  rcases Nat.lt_succ_iff_lt_or_eq.mp hi with hlt | rfl
  · simp [hlt, Nat.ne_of_lt hlt, Nat.ne_of_gt hlt, hi]
  · simp

theorem setWidth_magnitude_shiftLeft (v : BitVec (n + 1)) (count : Nat) :
    (magnitude v <<< count).setWidth n = v.setWidth n <<< count := by
  apply BitVec.eq_of_getLsbD_eq
  intro i hi
  have hbelow : i - count ≠ n := by omega
  have hsource : i - count < n := by omega
  simp only [magnitude, BitVec.getLsbD_setWidth, BitVec.getLsbD_shiftLeft, BitVec.getLsbD_and,
    BitVec.getLsbD_not, BitVec.getLsbD_twoPow]
  simp [hi, hbelow.symm, hsource, Nat.lt_succ_of_lt hi, Nat.lt_succ_of_lt hsource]

/-- An arithmetic left shift is a logical one of the bits below the sign. -/
theorem arithmeticLeft_eq (v : BitVec (n + 1)) (count : Nat) :
    shift .arithmeticLeft v count =
      (.cons v.msb (shift .logicalLeft (v.setWidth n) count).1,
        (shift .logicalLeft (v.setWidth n) count).2) := by
  cases count with
  | zero => simp
  | succ count =>
      have hclamped : magnitude v <<< min (count + 1) (n + 1) = magnitude v <<< (count + 1) :=
        fst_logicalLeft (magnitude v) (count + 1)
      have hvalue : (shift .arithmeticLeft v (count + 1)).1 =
          signBit v ||| magnitude (magnitude v <<< (count + 1)) := by
        rw [← hclamped]
        rfl
      apply Prod.ext
      · rw [hvalue, signBit_or_magnitude, setWidth_magnitude_shiftLeft, fst_logicalLeft]
      · change (decide (count + 1 < n + 1) && v.getLsbD (n - (count + 1))) =
          (decide (count + 1 ≤ n) && (v.setWidth n).getLsbD (n - (count + 1)))
        rw [BitVec.getLsbD_setWidth]
        by_cases hle : count + 1 ≤ n
        · have hsource : n - (count + 1) < n := by omega
          simp [hle, Nat.lt_succ_of_le hle, hsource]
        · simp [hle, mt Nat.le_of_lt_succ hle]

/-- An arithmetic right shift by one bit copies the sign. -/
theorem sshiftRight_one (v : BitVec (n + 1)) :
    v.sshiftRight 1 = .cons v.msb ((v >>> 1).setWidth n) := by
  apply BitVec.eq_of_getLsbD_eq
  intro i hi
  rw [BitVec.getLsbD_sshiftRight, BitVec.getLsbD_cons, BitVec.getLsbD_setWidth,
    BitVec.getLsbD_ushiftRight, decide_eq_false (Nat.not_le.mpr hi), Bool.not_false, Bool.true_and]
  rcases Nat.lt_succ_iff_lt_or_eq.mp hi with hlt | rfl
  · rw [if_pos (by omega), if_neg (Nat.ne_of_lt hlt), decide_eq_true hlt, Bool.true_and]
  · rw [if_neg (by omega), if_pos rfl]

/-! ## One bit more -/

theorem shift_succ (kind : ShiftKind) (v : BitVec (n + 1)) (count : Nat) :
    shift kind v (count + 1) = shiftOnce (shift kind v count).1 kind := by
  cases kind with
  | logicalLeft => rw [fst_logicalLeft, logicalLeft_succ, shiftOnce]
  | logicalRight =>
      rw [fst_logicalRight, shiftOnce, ← BitVec.shiftRight_add, BitVec.getLsbD_ushiftRight]
      rfl
  | arithmeticLeft =>
      rw [arithmeticLeft_eq, arithmeticLeft_eq, logicalLeft_succ, fst_logicalLeft, shiftOnce,
        BitVec.msb_cons, BitVec.setWidth_cons]
  | arithmeticRight =>
      rw [fst_arithmeticRight, shiftOnce, ← sshiftRight_one, ← BitVec.sshiftRight_add]
      rfl

theorem shift_eq_shiftTimes (kind : ShiftKind) (v : BitVec (n + 1)) (count : Nat) :
    shift kind v count = shiftTimes kind v count := by
  induction count with
  | zero => rfl
  | succ count ih => rw [shift_succ, ih, shiftTimes]

/-- The words of two shifts in a row are those of one by both counts. -/
theorem fst_shift_add (kind : ShiftKind) (v : BitVec (n + 1)) (i j : Nat) :
    (shift kind (shift kind v i).1 j).1 = (shift kind v (i + j)).1 := by
  induction j with
  | zero => rfl
  | succ j ih => rw [shift_succ, ih, ← shift_succ, Nat.add_assoc]

/-- The second of two shifts leaves the carry, unless it moves nothing. -/
theorem shift_add_succ (kind : ShiftKind) (v : BitVec (n + 1)) (i j : Nat) :
    shift kind (shift kind v i).1 (j + 1) = shift kind v (i + (j + 1)) := by
  rw [shift_succ, fst_shift_add, ← shift_succ, Nat.add_assoc]

/-- A shift of any kind is as many shifts by one bit as its count says, so that
two shifts in a row are one by the sum of their counts, with the carry of the
second if that one moves anything. -/
theorem shifts_go_bit_by_bit (kind : ShiftKind) (v : BitVec (n + 1)) :
    (∀ count, shift kind v count = shiftTimes kind v count) ∧
    ∀ i j, (shift kind (shift kind v i).1 j).1 = (shift kind v (i + j)).1 ∧
      (0 < j → (shift kind (shift kind v i).1 j).2 = (shift kind v (i + j)).2) := by
  refine ⟨shift_eq_shiftTimes kind v, fun i j => ⟨fst_shift_add kind v i j, fun hj => ?_⟩⟩
  obtain ⟨j, rfl⟩ := Nat.exists_eq_succ_of_ne_zero (Nat.ne_of_gt hj)
  rw [Nat.succ_eq_add_one, shift_add_succ]

/-- The sign of a negative word goes on leaving it past its width. -/
theorem shifts_go_bit_by_bit_past_width :
    (0 : Nat) < 200 ∧
    (shift .arithmeticRight (shift .arithmeticRight (0x8000 : Word) 55).1 200).2 =
      (shift .arithmeticRight (0x8000 : Word) (55 + 200)).2 ∧
    shift .arithmeticRight (0x8000 : Word) 255 = (0xFFFF, true) :=
  ⟨by decide, ((shifts_go_bit_by_bit .arithmeticRight (0x8000 : Word)).2 55 200).2 (by decide),
    by decide⟩

end StackComputer.Word
