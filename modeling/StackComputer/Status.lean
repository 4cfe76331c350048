import StackComputer.Text
import StackComputer.Word.Arithmetic

/-!
# Status

The status word holds four mode bits, overflow, carry, a two-bit condition
code and a low byte that no instruction touches.
-/

namespace StackComputer

/-- Outcome of the last operation that set it. Arithmetic never makes it
indeterminate. -/
inductive ConditionCode where
  | greater
  | less
  | equal
  | indeterminate
deriving DecidableEq, Repr

namespace ConditionCode

def ofResult {w : Nat} (v : BitVec w) : ConditionCode :=
  if v = 0 then .equal else if v.msb then .less else .greater

def ofOrdering : Ordering → ConditionCode
  | .lt => .less
  | .eq => .equal
  | .gt => .greater

def code : ConditionCode → BitVec 2
  | .greater => 0
  | .less => 1
  | .equal => 2
  | .indeterminate => 3

def ofCode (b : BitVec 2) : ConditionCode :=
  if b = 0 then .greater else if b = 1 then .less else if b = 2 then .equal else .indeterminate

@[simp] theorem ofCode_code (cc : ConditionCode) : ofCode cc.code = cc := by
  cases cc <;> rfl

@[simp] theorem code_ofCode (b : BitVec 2) : (ofCode b).code = b := by
  revert b
  decide

def name : ConditionCode → Text
  | .greater => "CCG".toList
  | .less => "CCL".toList
  | .equal => "CCE".toList
  | .indeterminate => "CCI".toList

end ConditionCode

structure Status where
  /-- Mode, interrupts, traps and right half, from the high bit down. -/
  mode : BitVec 4 := 0
  overflow : Bool := false
  carry : Bool := false
  cc : ConditionCode := .greater
  low : Byte := 0
deriving DecidableEq, Repr

namespace Status

def ofWord (w : Word) : Status where
  mode := BitVec.ofNat 4 (w.toNat / 0x1000)
  overflow := w.getLsbD 11
  carry := w.getLsbD 10
  cc := .ofCode (BitVec.ofNat 2 (w.toNat / 0x100))
  low := BitVec.ofNat 8 w.toNat

def toWord (s : Status) : Word :=
  BitVec.ofNat 16 (s.mode.toNat * 0x1000 + s.overflow.toNat * 0x800 + s.carry.toNat * 0x400 +
    s.cc.code.toNat * 0x100 + s.low.toNat)

def sense {w : Nat} (s : Status) (v : BitVec w) : Status := { s with cc := .ofResult v }

/-- Sets both flags, and the condition code from the result. -/
def latch {w : Nat} (s : Status) (result : BitVec w × Flags) : Status :=
  { s with carry := result.2.carry, overflow := result.2.overflow, cc := .ofResult result.1 }

/-- A letter for each flag, upper case when it is set, and the condition code. -/
def text (s : Status) : Text :=
  let flag (set : Bool) (letter : Char) : Text := [if set then letter else letter.toLower, ' ']
  flag (s.mode.getLsbD 3) 'M' ++ flag (s.mode.getLsbD 2) 'I' ++ flag (s.mode.getLsbD 1) 'T' ++
    flag (s.mode.getLsbD 0) 'R' ++ flag s.overflow 'O' ++ flag s.carry 'C' ++ s.cc.name

theorem ofWord_toWord (s : Status) : ofWord s.toWord = s := by
  obtain ⟨mode, overflow, carry, cc, low⟩ := s
  have hmode := mode.isLt
  have hcc := cc.code.isLt
  have hlow := low.isLt
  have ho := Bool.toNat_lt overflow
  have hc := Bool.toNat_lt carry
  simp only [ofWord, toWord, mk.injEq]
  refine ⟨?_, ?_, ?_, ?_, ?_⟩
  · apply BitVec.eq_of_toNat_eq
    simp only [BitVec.toNat_ofNat]
    omega
  · simp only [BitVec.getLsbD, BitVec.toNat_ofNat, Nat.testBit_eq_decide_div_mod_eq]
    cases overflow <;> simp only [Bool.toNat_true, Bool.toNat_false] at * <;>
      simp only [decide_eq_true_eq, decide_eq_false_iff_not] <;> omega
  · simp only [BitVec.getLsbD, BitVec.toNat_ofNat, Nat.testBit_eq_decide_div_mod_eq]
    cases carry <;> simp only [Bool.toNat_true, Bool.toNat_false] at * <;>
      simp only [decide_eq_true_eq, decide_eq_false_iff_not] <;> omega
  · rw [← ConditionCode.ofCode_code cc]
    congr 1
    apply BitVec.eq_of_toNat_eq
    simp only [BitVec.toNat_ofNat, ConditionCode.ofCode_code]
    omega
  · apply BitVec.eq_of_toNat_eq
    simp only [BitVec.toNat_ofNat]
    omega

end Status

end StackComputer
