import Mathlib
import StackComputer.Proofs.OperandReplacement

/-!
# Division

The four divisions take a dividend and a divisor from the stack and leave a
quotient below a remainder. All of them truncate toward zero; they differ in
where the operands lie, how wide they are and whether they have signs.
-/

namespace StackComputer

/-- The opcodes that divide words, and the instruction that divides doublewords. -/
inductive Division where
  | div
  | divl
  | ldiv
  | ddiv
deriving DecidableEq, Repr

namespace Division

def effect : Division → Effect
  | div => StackOp.div.effect
  | divl => StackOp.divl.effect
  | ldiv => StackOp.ldiv.effect
  | ddiv => .binaryDouble .divideDouble

def execute {β : Type} [Bus β] : Division → Exchange β Unit
  | div => Exchange.machine (Machine.stackOp .div)
  | divl => Exchange.machine (Machine.stackOp .divl)
  | ldiv => Exchange.machine (Machine.stackOp .ldiv)
  | ddiv => Instruction.ddiv.execute

/-- How many cells hold the operands. -/
def operands : Division → Nat
  | div => 2
  | divl | ldiv => 3
  | ddiv => 4

/-- Width of either result. -/
def width : Division → Nat
  | div | divl | ldiv => 16
  | ddiv => 32

/-- The number on top of a stack, as the division reads its divisor. -/
def number (s : List Word) : Division → Int
  | div | divl => (s.getD 0 0).toInt
  | ldiv => (s.getD 0 0).toNat
  | ddiv => (Dword.join (s.getD 1 0) (s.getD 0 0)).toInt

def divisor (op : Division) (s : List Word) : Int := op.number s

/-- The dividend, below the divisor. -/
def dividend (s : List Word) : Division → Int
  | div => (s.getD 1 0).toInt
  | divl => (Dword.join (s.getD 2 0) (s.getD 1 0)).toInt
  | ldiv => (Dword.join (s.getD 2 0) (s.getD 1 0)).toNat
  | ddiv => (Dword.join (s.getD 3 0) (s.getD 2 0)).toInt

/-- The quotients that do not overflow start here. -/
def least : Division → Int
  | div | divl => -0x8000
  | ldiv => 0
  | ddiv => -0x80000000

/-- The quotients that do not overflow end here. -/
def greatest : Division → Int
  | div => 0x7FFF
  | divl | ldiv => 0xFFFF
  | ddiv => 0x7FFFFFFF

/-- The cells a result is pushed as, the topmost first, whatever of it fits. -/
def cells (v : Int) : Division → List Word
  | div | divl | ldiv => [BitVec.ofInt 16 v]
  | ddiv => [Dword.low (BitVec.ofInt 32 v), Dword.high (BitVec.ofInt 32 v)]

/-- Leaves a quotient and a remainder. The condition code is that of the quotient. -/
def leave (op : Division) (q r : Int) (overflow : Bool) (l : Latches) : Outcome :=
  { pushed := (op.cells r ++ op.cells q).reverse
    latches := l.latchOverflow overflow (BitVec.ofInt op.width q) }

/-- Truncated division; by zero, zeros with overflow. -/
def outcome (op : Division) (n d : Int) (l : Latches) : Outcome :=
  if d = 0 then op.leave 0 0 true l
  else op.leave (n.tdiv d) (n.tmod d) (decide (n.tdiv d < op.least ∨ op.greatest < n.tdiv d)) l

end Division

/-! ## Signed words -/

section

variable {w : Nat}

theorem toInt_eq_zero_iff (b : BitVec w) : b.toInt = 0 ↔ b = 0 := by
  rw [← BitVec.toInt_inj]
  exact iff_of_eq (congrArg (b.toInt = ·) BitVec.toInt_zero.symm)

theorem sdiv_eq_ofInt (a b : BitVec w) : a.sdiv b = BitVec.ofInt w (a.toInt.tdiv b.toInt) := by
  apply BitVec.eq_of_toInt_eq
  rw [BitVec.toInt_sdiv, BitVec.toInt_ofInt]

theorem srem_eq_ofInt (a b : BitVec w) : a.srem b = BitVec.ofInt w (a.toInt.tmod b.toInt) := by
  rw [← BitVec.toInt_srem, BitVec.ofInt_toInt]

end

/-- Of the quotients of numbers in `-k ≤ x < k`, one is out of range. -/
theorem tdiv_out_of_range {x y k : Int} (hx : -k ≤ x) (hk : x < k) (hy : y ≠ 0) :
    (x.tdiv y < -k ∨ k - 1 < x.tdiv y) ↔ x = -k ∧ y = -1 := by
  have habs := Int.natAbs_tdiv x y
  constructor
  · intro hout
    have hone : y.natAbs = 1 := by
      by_contra hne
      have hhalf : x.natAbs / y.natAbs ≤ x.natAbs / 2 :=
        Nat.div_le_div_left (by omega) (by decide)
      change _ = x.natAbs / y.natAbs at habs
      omega
    rcases (show y = 1 ∨ y = -1 by omega) with rfl | rfl
    · rw [Int.tdiv_one] at hout
      omega
    · rw [Int.tdiv_neg, Int.tdiv_one] at hout
      omega
  · rintro ⟨rfl, rfl⟩
    rw [Int.tdiv_neg, Int.tdiv_one]
    omega

/-- The quotient of the least word by minus one is the only one out of range. -/
theorem overflows_eq {w : Nat} {a b least ones : BitVec w} {k : Int} (hleast : least.toInt = -k)
    (hones : ones.toInt = -1) (ha : -k ≤ a.toInt) (hk : a.toInt < k) (hb : b.toInt ≠ 0) :
    (a == least && b == ones) =
      decide (a.toInt.tdiv b.toInt < -k ∨ k - 1 < a.toInt.tdiv b.toInt) := by
  rw [Bool.eq_iff_iff, Bool.and_eq_true, beq_iff_eq, beq_iff_eq, decide_eq_true_iff,
    tdiv_out_of_range ha hk hb, ← hleast, ← hones, BitVec.toInt_inj, BitVec.toInt_inj]

theorem tmod_bounds (n : Int) {d : Int} (hd : d ≠ 0) :
    |n.tmod d| < |d| ∧ (n.tmod d = 0 ∨ (n.tmod d).sign = n.sign) := by
  constructor
  · rw [Int.abs_eq_natAbs, Int.abs_eq_natAbs, Int.natAbs_tmod]
    exact_mod_cast Nat.mod_lt _ (Int.natAbs_pos.mpr hd)
  · by_cases hdvd : d ∣ n
    · exact .inl (Int.tmod_eq_zero_of_dvd hdvd)
    · right
      rw [Int.sign_tmod, if_neg hdvd]

/-! ## Each division -/

namespace Division

theorem divide_eq (a b : Word) (l : Latches) :
    Outcome.divide a b l = div.outcome a.toInt b.toInt l := by
  rw [Outcome.divide, outcome]
  by_cases hb : b = 0
  · rw [if_pos hb, if_pos ((toInt_eq_zero_iff b).mpr hb)]
    rfl
  · have hzero : b.toInt ≠ 0 := mt (toInt_eq_zero_iff b).mp hb
    have hleast : (0x8000 : Word).toInt = -0x8000 := by decide
    have hones : (0xFFFF : Word).toInt = -1 := by decide
    have hflag := overflows_eq hleast hones a.le_toInt a.toInt_lt hzero
    rw [if_neg hb, if_neg hzero, hflag, sdiv_eq_ofInt, srem_eq_ofInt]
    rfl

theorem divideLong_eq (a : Dword) (b : Word) (l : Latches) :
    Outcome.divideLong a b l = divl.outcome a.toInt b.toInt l := by
  rw [Outcome.divideLong, outcome]
  by_cases hb : b = 0
  · rw [if_pos hb, if_pos ((toInt_eq_zero_iff b).mpr hb)]
    rfl
  · rw [if_neg hb, if_neg (mt (toInt_eq_zero_iff b).mp hb)]
    rfl

theorem divideLogical_eq (a : Dword) (b : Word) (l : Latches) :
    Outcome.divideLogical a b l = ldiv.outcome a.toNat b.toNat l := by
  rw [Outcome.divideLogical, outcome]
  by_cases hb : b = 0
  · rw [hb]
    rfl
  · have hzero : (b.toNat : Int) ≠ 0 := by
      rw [Ne, Int.natCast_eq_zero]
      exact fun hnat => hb (BitVec.eq_of_toNat_eq hnat)
    have hflag : ∀ q : Nat, decide (65535 < q) = decide ((q : Int) < 0 ∨ 0xFFFF < (q : Int)) :=
      fun q => decide_eq_decide.mpr (by omega)
    rw [if_neg hb, if_neg hzero, ← Int.ofNat_tdiv, ← Int.ofNat_tmod, Outcome.quotient, hflag,
      ← BitVec.ofInt_natCast, ← BitVec.ofInt_natCast]
    rfl

theorem divideDouble_eq (a b : Dword) (l : Latches) :
    Outcome.divideDouble a b l = ddiv.outcome a.toInt b.toInt l := by
  rw [Outcome.divideDouble, outcome]
  by_cases hb : b = 0
  · rw [if_pos hb, if_pos ((toInt_eq_zero_iff b).mpr hb)]
    rfl
  · have hzero : b.toInt ≠ 0 := mt (toInt_eq_zero_iff b).mp hb
    have hleast : (0x80000000 : Dword).toInt = -0x80000000 := by decide
    have hones : (0xFFFFFFFF : Dword).toInt = -1 := by decide
    have hflag := overflows_eq hleast hones a.le_toInt a.toInt_lt hzero
    rw [if_neg hb, if_neg hzero, hflag, sdiv_eq_ofInt, srem_eq_ofInt]
    rfl

theorem operands_le (op : Division) : op.operands ≤ 4 := by
  cases op <;> decide

theorem length_pushed_leave (op : Division) (q r : Int) (overflow : Bool) (l : Latches) :
    (op.leave q r overflow l).pushed.length ≤ op.operands := by
  cases op with
  | div | divl | ldiv => exact show 2 ≤ _ by decide
  | ddiv => exact Nat.le_refl 4

/-- A remainder fits the cells it is pushed as. -/
theorem number_cells (op : Division) (s : List Word) (hd : op.divisor s ≠ 0) :
    op.number (op.cells ((op.dividend s).tmod (op.divisor s))) =
      (op.dividend s).tmod (op.divisor s) := by
  have hless := (tmod_bounds (op.dividend s) hd).1
  rw [abs_lt] at hless
  -- A signed word is read back if it lies below some signed divisor of its width.
  have hsigned : ∀ {w : Nat} (d : BitVec w) (r : Int), 0 < w → -|d.toInt| < r → r < |d.toInt| →
      (BitVec.ofInt w r).toInt = r := by
    intro w d r hw hlow hhigh
    have hle := abs_le'.mpr ⟨d.toInt_lt.le, neg_le.mp d.le_toInt⟩
    exact BitVec.toInt_ofInt_eq_self hw (by omega) (by omega)
  cases op with
  | div => exact hsigned _ _ (by decide) hless.1 hless.2
  | divl => exact hsigned _ _ (by decide) hless.1 hless.2
  | ldiv =>
      have hpos : 0 < (s.getD 0 0).toNat := by
        rw [divisor, number] at hd
        omega
      have hlt : (Dword.join (s.getD 2 0) (s.getD 1 0)).toNat % (s.getD 0 0).toNat < 2 ^ 16 :=
        (Nat.mod_lt _ hpos).trans (s.getD 0 0).isLt
      rw [dividend, divisor, number, number, ← Int.ofNat_tmod, cells, List.getD_cons_zero,
        BitVec.ofInt_natCast, BitVec.toNat_ofNat, Nat.mod_eq_of_lt hlt]
  | ddiv =>
      exact (congrArg BitVec.toInt (Dword.join_high_low _)).trans
        (hsigned _ _ (by decide) hless.1 hless.2)

end Division

namespace Machine

variable {m : Machine}

theorem getD_stack (h : m.regs.WellFormed) {i : Nat} (hi : i < 4) (hd : i < m.regs.depth) :
    m.stack.getD i 0 = m.regs.cell i := by
  have htake := take_stack h (Nat.succ_le_of_lt hi) (Nat.succ_le_of_lt hd)
  have hcell : (m.regs.window.take (i + 1)).getD i 0 = m.regs.cell i := by
    match i, hi with
    | 0, _ | 1, _ | 2, _ | 3, _ => rfl
  rw [← hcell, ← htake, List.getD_eq_getElem?_getD, List.getD_eq_getElem?_getD,
    List.getElem?_take_of_lt (Nat.lt_succ_self i)]

/-- A division settles the truncated quotient and remainder of its operands. -/
theorem act_division (h : m.regs.WellFormed) {op : Division} (hk : op.operands ≤ m.regs.depth) :
    op.effect.act m = (m.dropCells op.operands).settle
      (op.outcome (op.dividend m.stack) (op.divisor m.stack) m.latches) := by
  have hcell : ∀ i, i < op.operands → m.stack.getD i 0 = m.regs.cell i := fun i hi =>
    getD_stack h (Nat.lt_of_lt_of_le hi op.operands_le) (Nat.lt_of_lt_of_le hi hk)
  rw [← latches_eq_of_frame (frame_dropCells m op.operands)]
  cases op with
  | div =>
      simp only [Division.dividend, Division.divisor, Division.number, hcell 0 (by decide),
        hcell 1 (by decide), ← Division.divide_eq]
      rfl
  | divl =>
      simp only [Division.dividend, Division.divisor, Division.number, hcell 0 (by decide),
        hcell 1 (by decide), hcell 2 (by decide), ← Division.divideLong_eq]
      rfl
  | ldiv =>
      simp only [Division.dividend, Division.divisor, Division.number, hcell 0 (by decide),
        hcell 1 (by decide), hcell 2 (by decide), ← Division.divideLogical_eq]
      rfl
  | ddiv =>
      simp only [Division.dividend, Division.divisor, Division.number, hcell 0 (by decide),
        hcell 1 (by decide), hcell 2 (by decide), hcell 3 (by decide), ← Division.divideDouble_eq]
      rfl

theorem perform_division {β : Type} [Bus β] (h : m.regs.WellFormed) (hrun : m.isRunning = true)
    {op : Division} (hk : op.operands ≤ m.regs.depth) (b : β) :
    op.execute.perform m b = (.ok (), op.effect.act m, b) := by
  have hopcode : ∀ o : StackOp, o ≠ .unk → o.operands ≤ m.regs.depth →
      (Exchange.machine (Machine.stackOp o)).perform m b = (.ok (), o.effect.act m, b) := by
    intro o ho hle
    rw [Exchange.perform_machine, StackOp.perform_stackOp hrun ho, h.available_eq,
      if_neg (Nat.not_lt.mpr hle)]
  cases op with
  | div => exact hopcode .div (by decide) hk
  | divl => exact hopcode .divl (by decide) hk
  | ldiv => exact hopcode .ldiv (by decide) hk
  | ddiv =>
      have hguard : Instruction.ddiv.guard.getD 0 ≤ m.regs.depth := hk
      rw [Division.execute, Instruction.perform_execute rfl hrun, h.available_eq,
        if_neg (Nat.not_lt.mpr hguard)]
      rfl

/-- The second machine is the first one with a quotient and, above it, a
remainder in place of the operands, and with the flags of a division. -/
structure Divided (op : Division) (before : Machine) (q r : Int) (overflow : Bool)
    (after : Machine) : Prop where
  stack_eq : after.stack = op.cells r ++ op.cells q ++ before.stack.drop op.operands
  memory_eq : after.memory = before.memory
  frame_eq : after.frame = { before.frame with sta := { before.regs.sta with
    overflow := overflow, cc := .ofResult (BitVec.ofInt op.width q) } }

theorem divided_leave (h : m.regs.WellFormed) {op : Division} (hk : op.operands ≤ m.regs.depth)
    (q r : Int) (overflow : Bool) : m.Divided op q r overflow
      ((m.dropCells op.operands).settle (op.leave q r overflow m.latches)) := by
  obtain ⟨hstack, hmemory⟩ := pushCells_dropCells h op.operands_le hk
    (op.length_pushed_leave q r overflow m.latches)
  refine ⟨?_, hmemory, ?_⟩
  · rw [← List.reverse_reverse (op.cells r ++ op.cells q)]
    exact hstack
  · rw [frame_settle, frame_dropCells]
    rfl

/-- Whatever the depth of the stack, a division leaves the truncated quotient,
cut to the width of the result, below the exact remainder. It overflows where
the quotient is out of range and where there is none. -/
theorem division_laws {β : Type} [Bus β] (h : m.Reachable) (hrun : m.isRunning = true)
    (op : Division) (hk : op.operands ≤ m.regs.depth) (b : β) :
    ∃ m', op.execute.perform m b = (.ok (), m', b) ∧
      (op.divisor m.stack = 0 → m.Divided op 0 0 true m') ∧
      (op.divisor m.stack ≠ 0 → ∃ q r,
        q = (op.dividend m.stack).tdiv (op.divisor m.stack) ∧
        op.dividend m.stack = q * op.divisor m.stack + r ∧
        |r| < |op.divisor m.stack| ∧ (r = 0 ∨ r.sign = (op.dividend m.stack).sign) ∧
        op.number (op.cells r) = r ∧
        m.Divided op q r (decide (q < op.least ∨ op.greatest < q)) m') := by
  have hact := act_division h.wellFormed hk
  refine ⟨op.effect.act m, perform_division h.wellFormed hrun hk b, fun hzero => ?_, fun hd => ?_⟩
  · rw [hact, Division.outcome, if_pos hzero]
    exact divided_leave h.wellFormed hk 0 0 true
  · obtain ⟨habs, hsign⟩ := tmod_bounds (op.dividend m.stack) hd
    refine ⟨_, _, rfl, (Int.tdiv_mul_add_tmod _ _).symm, habs, hsign,
      op.number_cells (m.stack) hd, ?_⟩
    rw [hact, Division.outcome, if_neg hd]
    exact divided_leave h.wellFormed hk _ _ _

/-- The least doubleword by minus one, with two cells below that are spilled. -/
theorem division_laws_least_by_minus_one :
    let m := (StackRequest.answerAll Machine.answer
      [.push 1, .push 2, .push 0x8000, .push 0, .push 0xFFFF, .push 0xFFFF] {}).2
    m.Reachable ∧ m.isRunning = true ∧ Division.ddiv.operands ≤ m.regs.depth ∧
    Division.ddiv.divisor m.stack = -1 ∧
    ∃ m', Division.ddiv.execute.perform m EmptyBus.mk = (.ok (), m', EmptyBus.mk) ∧
      m'.stack = [0, 0, 0, 0x8000, 2, 1] ∧ m'.regs.sta.overflow = true ∧
      m'.regs.sta.cc = .less := by
  intro m
  have hreach : m.Reachable := Reachable.answerAll (.fresh .new) _
  have hpushed : m = ({} : Machine).pushCells [1, 2, 0x8000, 0, 0xFFFF, 0xFFFF] := rfl
  have hstack : m.stack = [0xFFFF, 0xFFFF, 0, 0x8000, 2, 1] := by
    rw [hpushed]
    exact stack_pushCells (Registers.wellFormed_start 0) (show 0 + 6 ≤ 0x8004 by decide)
  have hdivisor : Division.ddiv.divisor m.stack = -1 := by rw [hstack]; decide
  have hdividend : Division.ddiv.dividend m.stack = -0x80000000 := by rw [hstack]; decide
  obtain ⟨m', hm', -, hlaws⟩ := division_laws hreach (by decide) .ddiv (by decide) EmptyBus.mk
  obtain ⟨q, r, hq, hlaw, -, -, -, hdivided⟩ := hlaws (by rw [hdivisor]; decide)
  rw [hdivisor, hdividend] at hq hlaw
  obtain rfl : q = 0x80000000 := hq.trans (by decide)
  obtain rfl : r = 0 := by omega
  have hafter := hdivided.stack_eq
  rw [hstack] at hafter
  have hsta := congrArg Frame.sta hdivided.frame_eq
  refine ⟨hreach, by decide, by decide, hdivisor, m', hm', hafter.trans (by decide), ?_, ?_⟩
  · exact (congrArg Status.overflow hsta).trans (by decide)
  · exact (congrArg Status.cc hsta).trans (by decide)

end Machine

end StackComputer
