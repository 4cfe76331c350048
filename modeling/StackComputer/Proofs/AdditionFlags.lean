import Mathlib
import StackComputer.Proofs.OperandReplacement

/-!
# Flags of sums and differences

Carry and overflow are read off single bits of the operands and the result. They
tell that the exact result is no unsigned word, or no signed one.
-/

namespace StackComputer

namespace Word

variable {w : Nat}

/-- Whether a number is no signed word. -/
def outOfRange (w : Nat) (n : Int) : Bool := decide (n < -2 ^ (w - 1) ∨ 2 ^ (w - 1) - 1 < n)

/-- The sum, cut to the width, with what is told of the exact one. -/
def exactSum (a b : BitVec w) : BitVec w × Flags where
  fst := BitVec.ofNat w (a.toNat + b.toNat)
  snd := { carry := decide (2 ^ w ≤ a.toNat + b.toNat)
           overflow := outOfRange w (a.toInt + b.toInt) }

/-- The difference, cut to the width, with what is told of the exact one. -/
def exactDifference (a b : BitVec w) : BitVec w × Flags where
  fst := BitVec.ofInt w (a.toInt - b.toInt)
  snd := { carry := decide (a.toNat < b.toNat)
           overflow := outOfRange w (a.toInt - b.toInt) }

theorem outOfRange_add (a b : BitVec w) : outOfRange w (a.toInt + b.toInt) = a.saddOverflow b := by
  rw [outOfRange, BitVec.saddOverflow, ← Bool.decide_or, decide_eq_decide]
  omega

theorem outOfRange_sub (a b : BitVec w) : outOfRange w (a.toInt - b.toInt) = a.ssubOverflow b := by
  rw [outOfRange, BitVec.ssubOverflow, ← Bool.decide_or, decide_eq_decide]
  omega

/-- A sum wraps just when it comes out below its operands. -/
theorem ult_add (a b : BitVec w) : (a + b).ult a = decide (2 ^ w ≤ a.toNat + b.toNat) := by
  have ha := a.isLt
  have hb := b.isLt
  rw [BitVec.ult_eq_decide, decide_eq_decide, BitVec.toNat_add]
  rcases Nat.lt_or_ge (a.toNat + b.toNat) (2 ^ w) with hlt | hge
  · rw [Nat.mod_eq_of_lt hlt]
    omega
  · rw [Nat.mod_eq_sub_mod hge, Nat.mod_eq_of_lt (by omega)]
    omega

theorem add_eq_exactSum (a b : BitVec w) : add a b = exactSum a b := by
  have hvalue : a + b = BitVec.ofNat w (a.toNat + b.toNat) := by
    rw [BitVec.ofNat_add, BitVec.ofNat_toNat, BitVec.ofNat_toNat, BitVec.setWidth_eq,
      BitVec.setWidth_eq]
  have hoverflow : (a.msb == b.msb && (a + b).msb != a.msb) = outOfRange w (a.toInt + b.toInt) := by
    rw [outOfRange_add, BitVec.saddOverflow_eq]
    rfl
  rw [add, exactSum, ← hvalue, ← ult_add, ← hoverflow]

theorem sub_eq_exactDifference (a b : BitVec w) : sub a b = exactDifference a b := by
  have hvalue : a - b = BitVec.ofInt w (a.toInt - b.toInt) := by
    apply BitVec.eq_of_toInt_eq
    rw [BitVec.toInt_sub, BitVec.toInt_ofInt]
  have hoverflow : (a.msb != b.msb && (a - b).msb != a.msb) = outOfRange w (a.toInt - b.toInt) := by
    rw [outOfRange_sub, BitVec.ssubOverflow_eq]
    cases a.msb <;> cases b.msb <;> cases (a - b).msb <;> rfl
  rw [sub, exactDifference, ← hvalue, ← hoverflow, BitVec.ult_eq_decide]

end Word

/-- The opcodes that add or subtract on the stack and latch both flags. -/
inductive Additive where
  | add
  | sub
  | dadd
  | dsub
  | neg
  | dneg
deriving DecidableEq, Repr

namespace Additive

def opcode : Additive → StackOp
  | add => .add
  | sub => .sub
  | dadd => .dadd
  | dsub => .dsub
  | neg => .neg
  | dneg => .dneg

def width : Additive → Nat
  | add | sub | neg => 16
  | dadd | dsub | dneg => 32

def subtracts : Additive → Bool
  | add | dadd => false
  | sub | dsub | neg | dneg => true

/-- The deeper operand; a negation subtracts from zero. -/
def left (r : Registers) : (op : Additive) → BitVec op.width
  | add | sub => r.rb
  | dadd | dsub => Dword.join r.rd r.rc
  | neg => (0 : Word)
  | dneg => (0 : Dword)

/-- The operand on top. -/
def right (r : Registers) : (op : Additive) → BitVec op.width
  | add | sub | neg => r.ra
  | dadd | dsub | dneg => Dword.join r.rb r.ra

/-- The result with its flags, from exact arithmetic. -/
def exact (r : Registers) (op : Additive) : BitVec op.width × Flags :=
  if op.subtracts then Word.exactDifference (op.left r) (op.right r)
  else Word.exactSum (op.left r) (op.right r)

/-- The cells a result is pushed as, the topmost first. -/
def cells : (op : Additive) → BitVec op.width → List Word
  | add | sub | neg => fun w => [w]
  | dadd | dsub | dneg => fun d => [Dword.low d, Dword.high d]

theorem exact_eq (r : Registers) (op : Additive) :
    op.exact r = if op.subtracts then Word.sub (op.left r) (op.right r)
      else Word.add (op.left r) (op.right r) := by
  rw [exact, Word.add_eq_exactSum, Word.sub_eq_exactDifference]

theorem opcode_ne_unk (op : Additive) : op.opcode ≠ .unk := by
  cases op <;> decide

theorem length_cells_le (op : Additive) (v : BitVec op.width) :
    (op.cells v).length ≤ op.opcode.operands := by
  cases op with
  | add | sub => exact Nat.le_succ 1
  | dadd | dsub => exact Nat.le_add_left 2 2
  | neg => exact Nat.le_refl 1
  | dneg => exact Nat.le_refl 2

theorem yields {m : Machine} (op : Additive) (hk : op.opcode.operands ≤ m.regs.available) :
    m.Yields op.opcode.operands (op.cells (op.exact m.regs).1)
      (m.latches.latch (op.exact m.regs)) (op.opcode.effect.act m) := by
  rw [exact_eq]
  cases op with
  | add | sub | dadd | dsub =>
      exact Machine.yields_replace rfl (by decide) hk rfl rfl (length_cells_le _ _)
  | neg | dneg => exact Machine.yields_update rfl (by decide) hk rfl rfl

end Additive

namespace Machine

/-- Sums and differences are those of exact arithmetic, cut to the width of the
word, and the flags tell where the exact result is out of range. Opcodes and
memory references latch them so, with the deeper operand on the left. -/
theorem flags_are_arithmetic :
    (∀ {w : Nat} (a b : BitVec w),
      Word.add a b = Word.exactSum a b ∧ Word.sub a b = Word.exactDifference a b) ∧
    ∀ m : Machine, m.isRunning = true →
      (∀ op : Additive, op.opcode.operands ≤ m.regs.available →
        ∃ m', (stackOp op.opcode).perform m = (.ok (), m') ∧
          m.Yields op.opcode.operands (op.cells (op.exact m.regs).1)
            (m.latches.latch (op.exact m.regs)) m') ∧
      ∀ {β : Type} [Bus β] (displacement : Word) (s : Suffixes) (b : β),
        let a := m.resolve (m.regs.db + displacement) s
        let sum := Word.exactSum (m.memory.read a) 1
        let difference := Word.exactDifference (m.memory.read a) 1
        (Instruction.memory .incm displacement s).execute.perform m b =
          (.ok (), (m.store a sum.1).latch sum, b) ∧
        (Instruction.memory .decm displacement s).execute.perform m b =
          (.ok (), (m.store a difference.1).latch difference, b) := by
  refine ⟨fun a b => ⟨Word.add_eq_exactSum a b, Word.sub_eq_exactDifference a b⟩, ?_⟩
  intro m hrun
  constructor
  · intro op hk
    refine ⟨op.opcode.effect.act m, ?_, op.yields hk⟩
    rw [StackOp.perform_stackOp hrun op.opcode_ne_unk, if_neg (Nat.not_lt.mpr hk)]
  · intro β _ displacement s b a sum difference
    have hguard : ∀ op : MemoryOp, op.guard = none →
        (Instruction.memory op displacement s).execute.perform m b =
          (.ok (), m.memoryAct op a, b) := by
      intro op hnone
      have hneeds : (Instruction.memory op displacement s).guard = none := hnone
      rw [Instruction.perform_execute rfl hrun, hneeds, Option.getD_none,
        if_neg (Nat.not_lt_zero _)]
      rfl
    rw [hguard .incm rfl, hguard .decm rfl, memoryAct, memoryAct, Word.add_eq_exactSum,
      Word.sub_eq_exactDifference]
    exact ⟨rfl, rfl⟩

/-- One from the least signed word. -/
theorem flags_are_arithmetic_least_word :
    let m := (StackRequest.answerAll Machine.answer [.push 7, .push 0x8000, .push 1] {}).2
    m.isRunning = true ∧ Additive.sub.opcode.operands ≤ m.regs.available ∧
    ∃ m', (stackOp .sub).perform m = (.ok (), m') ∧ m'.stack = [0x7FFF, 7] ∧
      m'.regs.sta.overflow = true ∧ m'.regs.sta.carry = false ∧ m'.regs.sta.cc = .greater := by
  intro m
  have hreach : m.Reachable := Reachable.answerAll (.fresh .new) _
  obtain ⟨m', hm', hyields⟩ := (flags_are_arithmetic.2 m (by decide)).1 .sub (by decide)
  have hstack := hyields.stack_eq hreach.wellFormed
  have hsta := congrArg Frame.sta hyields.frame_eq
  refine ⟨by decide, by decide, m', hm', hstack.trans (by decide), ?_, ?_, ?_⟩
  · exact (congrArg Status.overflow hsta).trans (by decide)
  · exact (congrArg Status.carry hsta).trans (by decide)
  · exact (congrArg Status.cc hsta).trans (by decide)

end Machine

end StackComputer
