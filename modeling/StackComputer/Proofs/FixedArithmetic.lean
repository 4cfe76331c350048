import StackComputer.Machine.FixedWidth
import StackComputer.Proofs.RealValue

/-!
# Arithmetic in fields of fixed width

The fields are wide enough for what the opcodes compute from words, and every
division and shift they do is one that can be done. So is every access to memory.
-/

namespace StackComputer.FixedWidth

/-! ## Numbers -/

section

variable {trap : Trap} {width n : Nat}

theorem natural_eq_ite :
    natural trap width n = if n < 2 ^ width then .ok n else .error trap := by
  have hfits : (BitVec.ofNat width n).toNat = n ↔ n < 2 ^ width := by
    rw [BitVec.toNat_ofNat]
    exact Nat.mod_eq_iff_lt (Nat.two_pow_pos width).ne'
  rw [natural]
  simp only [hfits]

theorem natural_eq (h : n < 2 ^ width) : natural trap width n = .ok n := by
  rw [natural_eq_ite, if_pos h]

theorem integer_eq {k : Int} (hwidth : 0 < width)
    (h : -2 ^ (width - 1) ≤ k ∧ k < 2 ^ (width - 1)) : integer trap width k = .ok k :=
  if_pos (BitVec.toInt_ofInt_eq_self hwidth h.1 h.2)

theorem difference_eq {a b : Nat} (h : b ≤ a) : difference trap a b = .ok (a - b) := if_pos h

theorem divisor_eq {w : Nat} {b : BitVec w} (h : b ≠ 0) : divisor b = .ok b := if_neg h

theorem amount_eq (h : n < width) : amount width n = .ok n := if_pos h

end

/-! ## Memory -/

/-- The address bits select a cell without a remainder being taken. -/
theorem index_eq (a : Word) : index a = .ok (Memory.cell a) := by
  have haddress := Word.toNat_address a
  have hlt : a.address.toNat < 0x8000 := haddress ▸ Nat.mod_lt _ (by decide)
  rw [index, dif_pos hlt]
  exact congrArg Except.ok (Fin.ext haddress)

theorem read_eq (memory : Memory) (a : Word) : read memory a = .ok (memory.read a) := by
  rw [read, index_eq]
  rfl

theorem write_eq (memory : Memory) (a w : Word) : write memory a w = .ok (memory.write a w) := by
  rw [write, index_eq]
  rfl

/-! ## Products and quotients -/

theorem abs_toInt_le {w : Nat} (v : BitVec w) : |v.toInt| ≤ 2 ^ (w - 1) :=
  abs_le.mpr ⟨BitVec.le_toInt v, BitVec.toInt_lt.le⟩

theorem integer_product (a b : Word) :
    integer .product 32 (a.toInt * b.toInt) = .ok (a.toInt * b.toInt) := by
  have hproduct : |a.toInt * b.toInt| ≤ 2 ^ 15 * 2 ^ 15 := by
    rw [abs_mul]
    exact mul_le_mul (abs_toInt_le a) (abs_toInt_le b) (abs_nonneg _) (by decide)
  obtain ⟨hleast, hgreatest⟩ := abs_le.mp hproduct
  apply integer_eq (by decide)
  constructor
  · omega
  · omega

theorem natural_product (a b : Word) :
    natural .product 32 (a.toNat * b.toNat) = .ok (a.toNat * b.toNat) := by
  have hproduct : a.toNat * b.toNat < 2 ^ 16 * 2 ^ 16 := Nat.mul_lt_mul'' a.isLt b.isLt
  exact natural_eq hproduct

/-- A quotient is no larger than what is divided. -/
theorem integer_quotient (a : Dword) (b : Word) :
    integer .division 64 (a.toInt.tdiv b.toInt) = .ok (a.toInt.tdiv b.toInt) := by
  have hsmaller := Int.natAbs_tdiv_le_natAbs a.toInt b.toInt
  have hquotient := abs_toInt_le a
  rw [Int.abs_eq_natAbs] at hquotient
  apply integer_eq (by decide)
  constructor
  · omega
  · omega

variable (l : Latches)

theorem multiply_eq (a b : Word) :
    multiply a b l =
      .ok (let product := a.toInt * b.toInt
        let w : Word := .ofInt 16 product
        .word w (l.latchOverflow (product != w.toInt) w)) := by
  rw [multiply, integer_product]
  rfl

theorem multiplyLong_eq (a b : Word) :
    multiplyLong a b l =
      .ok (let product : Dword := .ofInt 32 (a.toInt * b.toInt)
        .double product (l.latchOverflow false product)) := by
  rw [multiplyLong, integer_product]
  rfl

theorem multiplyLogical_eq (a b : Word) :
    multiplyLogical a b l =
      .ok (let product : Dword := .ofNat 32 (a.toNat * b.toNat)
        .double product (l.latchCarry (product.low, ⟨product.high != 0, false⟩))) := by
  rw [multiplyLogical, natural_product]
  rfl

theorem divide_eq (a b : Word) : divide a b l = .ok (.divide a b l) := by
  rw [divide, Outcome.divide]
  split
  · rfl
  · next hb =>
      rw [divisor_eq hb]
      rfl

theorem divideDouble_eq (a b : Dword) : divideDouble a b l = .ok (.divideDouble a b l) := by
  rw [divideDouble]
  split
  · rfl
  · next hb =>
      rw [divisor_eq hb]
      rfl

theorem divideLong_eq (a : Dword) (b : Word) : divideLong a b l = .ok (.divideLong a b l) := by
  rw [divideLong, Outcome.divideLong]
  split
  · rfl
  · next hb =>
      rw [divisor_eq hb, ok_bind, integer_quotient]
      rfl

theorem divideLogical_eq (a : Dword) (b : Word) :
    divideLogical a b l = .ok (.divideLogical a b l) := by
  rw [divideLogical, Outcome.divideLogical]
  split
  · rfl
  · next hb =>
      rw [divisor_eq hb]
      rfl

/-! ## Reals -/

theorem value_eq (r : Dword) : value r = .ok (RealWord.value r) := by
  have hexponent := @RealWord.exponent_lt r
  rw [value, RealWord.value]
  split
  · rfl
  · have hunbiased : integer .sum 32 ((RealWord.exponent r : Int) - 256) =
        .ok ((RealWord.exponent r : Int) - 256) := integer_eq (by decide) (by omega)
    have hbiased : integer .sum 32 ((RealWord.exponent r : Int) - 256 + 1023) =
        .ok ((RealWord.exponent r : Int) - 256 + 1023) := integer_eq (by decide) (by omega)
    have hvalue : (RealWord.exponent r : Int) - 256 + 1023 - 1045 = RealWord.exponent r - 278 := by
      omega
    rw [hunbiased, ok_bind, hbiased, ok_bind, hvalue]
    rfl

/-- The two excesses differ by 767. -/
theorem encode_fields (negative : Bool) (exponent fraction : Nat) :
    (if 511 < (exponent : Int) - 767 then pure (.error .overflow)
      else if (exponent : Int) - 767 < 0 then pure (.error .underflow)
      else pure (.ok (RealWord.ofFields negative ((exponent : Int) - 767).toNat fraction)) :
        Trapping (Except RealWord.RangeError Dword)) =
      .ok (if 1278 < exponent then .error .overflow
        else if exponent < 767 then .error .underflow
        else .ok (RealWord.ofFields negative (exponent - 767) fraction)) := by
  have hoverflow : 511 < (exponent : Int) - 767 ↔ 1278 < exponent := by omega
  have hunderflow : (exponent : Int) - 767 < 0 ↔ exponent < 767 := by omega
  have hexponent : ((exponent : Int) - 767).toNat = exponent - 767 := by omega
  simp only [hoverflow, hunderflow, hexponent]
  split_ifs <;> rfl

theorem encode_eq (b : Binary64) : encode b = .ok (RealWord.ofBinary64 b) := by
  have hfraction := b.fraction_lt
  have hexponent : b.exponent < 0x800 := Nat.mod_lt _ (by decide)
  rw [encode, RealWord.ofBinary64]
  split
  · rfl
  · split
    · rfl
    · split
      · rfl
      · have hunbiased : integer .sum 32 ((b.exponent : Int) - 1023) =
            .ok ((b.exponent : Int) - 1023) := integer_eq (by decide) (by omega)
        have hbiased : integer .sum 32 ((b.exponent : Int) - 1023 + 256) =
            .ok ((b.exponent : Int) - 1023 + 256) := integer_eq (by decide) (by omega)
        have hsum : natural .sum 64 (b.fraction + 0x20000000) = .ok (b.fraction + 0x20000000) :=
          natural_eq (by omega)
        rw [hunbiased, ok_bind, hbiased, ok_bind, hsum, ok_bind]
        have hrounded : (b.fraction + 0x20000000) / 0x40000000 ≤ 0x400000 := by omega
        generalize (b.fraction + 0x20000000) / 0x40000000 = rounded at hrounded
        dsimp only
        by_cases hcarried : 0x3FFFFF < rounded
        · obtain rfl : rounded = 0x400000 := by omega
          have hnext : (b.exponent : Int) - 1023 + 256 + 1 = (b.exponent + 1 : Nat) - 767 := by
            omega
          have hcarry : integer .sum 32 (((b.exponent + 1 : Nat) : Int) - 767) =
              .ok (((b.exponent + 1 : Nat) : Int) - 767) := integer_eq (by decide) (by omega)
          have hquotient : 0x400000 / 0x400000 = 1 := rfl
          have hremainder : 0x400000 % 0x400000 = 0 := rfl
          simp only [if_pos hcarried, hnext, hcarry, hquotient, hremainder, ok_bind]
          exact encode_fields b.negative (b.exponent + 1) 0
        · have hsame : (b.exponent : Int) - 1023 + 256 = (b.exponent : Nat) - 767 := by omega
          have hquotient : rounded / 0x400000 = 0 := by omega
          have hremainder : rounded % 0x400000 = rounded := by omega
          rw [if_neg hcarried, if_neg hcarried, hsame, hquotient, hremainder]
          exact encode_fields b.negative b.exponent rounded

theorem real_eq (q : Rat) : real q l = .ok (.real (RealWord.ofRat q) l) := by
  rw [real, encode_eq]
  rfl

theorem realBinary_eq (f : Rat → Rat → Rat) (a b : Dword) :
    realBinary f a b l =
      .ok (.real (RealWord.ofRat (f (RealWord.value a) (RealWord.value b))) l) := by
  rw [realBinary, value_eq, ok_bind, value_eq, ok_bind, real_eq]

theorem realDivide_eq (a b : Dword) : realDivide a b l = .ok (.real (RealWord.div a b) l) := by
  rw [realDivide, RealWord.div, realBinary_eq]
  split <;> rfl

theorem realCompare_eq (a b : Dword) :
    realCompare a b l =
      .ok (.nothing (l.setCode (.ofOrdering (RealWord.compare a b)))) := by
  rw [realCompare, value_eq, ok_bind, value_eq]
  rfl

theorem realFix_eq (f : Rat → Int) (r : Dword) :
    realFix f r l = .ok (.integer (f (RealWord.value r)) l) := by
  rw [realFix, value_eq]
  rfl

/-! ## Shifts -/

/-- Shifts of words and doublewords stay within 128 bits. -/
theorem amounts_eq (kind : ShiftKind) {width : Nat} (hwidth : width ≤ 32) (count : Nat) :
    amounts kind width count = .ok () := by
  unfold amounts
  split
  · rfl
  · next hcount =>
      have hpred : difference .sum count 1 = .ok (count - 1) := difference_eq (by omega)
      cases kind with
      | logicalLeft | arithmeticLeft =>
          dsimp only
          rw [amount_eq (by omega)]
          rfl
      | logicalRight =>
          dsimp only
          rw [hpred, ok_bind]
          by_cases hinside : count ≤ width
          · rw [if_pos hinside, amount_eq (by omega)]
            by_cases hless : count < width
            · rw [if_pos hless, amount_eq (by omega)]
              rfl
            · rw [if_neg hless]
              rfl
          · rw [if_neg hinside, if_neg (by omega)]
            rfl
      | arithmeticRight =>
          dsimp only
          rw [hpred, ok_bind, amount_eq (by omega), amount_eq (by omega)]
          rfl

theorem shifted_eq {w : Nat} (kind : ShiftKind) (hw : w ≤ 32) (n : Nat) (v : BitVec w) :
    shifted kind n v l =
      .ok ((Word.shift kind v n).1,
        l.latchCarry ((Word.shift kind v n).1, ⟨(Word.shift kind v n).2, false⟩)) := by
  rw [shifted, amounts_eq kind hw]
  rfl

theorem shiftCount_eq (m : Machine) (count : Byte) (indexed : Bool) :
    shiftCount m count indexed = .ok (m.shiftCount count indexed) := by
  have hsum : natural .sum 32 (count.toNat + m.regs.x.toNat) =
      .ok (count.toNat + m.regs.x.toNat) := natural_eq (by omega)
  rw [shiftCount, Machine.shiftCount, hsum]
  split <;> rfl

end StackComputer.FixedWidth
