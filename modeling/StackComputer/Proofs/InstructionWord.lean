import StackComputer.Instruction.Encoding

/-!
# Instruction words read back

The fields of a decoded instruction are the bits its format leaves open, each
within the range of its slot, so encoding it gives the word again.
-/

namespace StackComputer

namespace Instruction

/-! ## Slots -/

theorem bit_hasBit {w mask : Word} {k : Nat} (hmask : mask = BitVec.twoPow 16 k) :
    bit (hasBit w mask) mask = w &&& mask := by
  have hcases : w &&& mask = mask ∨ w &&& mask = 0 := by
    rw [hmask, BitVec.and_twoPow]
    split
    · exact .inl rfl
    · exact .inr rfl
  rw [bit, hasBit]
  by_cases hzero : w &&& mask = 0
  · rw [hzero, if_neg (by decide)]
  · rw [if_pos (bne_iff_ne.mpr hzero), hcases.resolve_right hzero]

theorem setWidth_byte (w : Word) : ((w.setWidth 8 : Byte).setWidth 16 : Word) = w &&& 0xFF := by
  apply BitVec.eq_of_toNat_eq
  have hmask := Nat.and_two_pow_sub_one_eq_mod w.toNat 8
  have hlt := w.isLt
  simp only [BitVec.toNat_setWidth, BitVec.toNat_and]
  exact (Nat.mod_eq_of_lt (by omega)).trans hmask.symm

theorem setWidth_code (w : Word) :
    ((w.setWidth 6 : BitVec 6).setWidth 16 : Word) = w &&& 0x3F := by
  apply BitVec.eq_of_toNat_eq
  have hmask := Nat.and_two_pow_sub_one_eq_mod w.toNat 6
  have hlt := w.isLt
  simp only [BitVec.toNat_setWidth, BitVec.toNat_and]
  exact (Nat.mod_eq_of_lt (by omega)).trans hmask.symm

theorem shifted_slot (w mask : Word) (k : Nat) :
    (w >>> k &&& mask) <<< k = w &&& mask <<< k := by
  apply BitVec.eq_of_getLsbD_eq
  intro i hi
  simp only [BitVec.getLsbD_and, BitVec.getLsbD_shiftLeft, BitVec.getLsbD_ushiftRight, hi,
    decide_true, Bool.true_and]
  by_cases hk : i < k
  · simp only [hk, decide_true, Bool.not_true, Bool.false_and, Bool.and_false]
  · have hadd : k + (i - k) = i := Nat.add_sub_cancel' (Nat.le_of_not_lt hk)
    simp only [hk, decide_false, Bool.not_false, Bool.true_and, hadd]

theorem shortField_shortOf (w : Word) : shortField (shortOf w) = w &&& 0x3F := by
  have hsign : bit (hasBit w 0x20) 0x20 = w &&& 0x20 := bit_hasBit (k := 5) (by decide)
  rw [shortField, shortOf, hsign, BitVec.and_assoc, ← BitVec.and_or_distrib_left]
  rfl

theorem longField_longOf (w : Word) : longField (longOf w) = w &&& 0x1FF := by
  have hsign : bit (hasBit w 0x100) 0x100 = w &&& 0x100 := bit_hasBit (k := 8) (by decide)
  rw [longField, longOf, hsign, BitVec.and_assoc, ← BitVec.and_or_distrib_left]
  rfl

theorem suffixField_suffixesOf (w : Word) : suffixField (suffixesOf w) = w &&& 0xC00 := by
  have hindexed : bit (hasBit w 0x800) 0x800 = w &&& 0x800 := bit_hasBit (k := 11) (by decide)
  have hindirect : bit (hasBit w 0x400) 0x400 = w &&& 0x400 := bit_hasBit (k := 10) (by decide)
  rw [suffixField, suffixesOf, hindexed, hindirect, ← BitVec.and_or_distrib_left]
  rfl

/-- A decoded instruction has the bits its format leaves open. -/
theorem fields_ofFormat (w : Word) (f : Format) : (ofFormat w f).fields = w &&& ~~~f.mask := by
  cases f with
  | halt | rio | wio =>
      simp only [ofFormat, fields, BitVec.setWidth_and, setWidth_byte, BitVec.and_assoc]
      rfl
  | scal | sxit | ldi | ldxi => exact setWidth_byte w
  | shift op =>
      have hcount : ((w.setWidth 8 &&& 0x3F : Byte).setWidth 16 : Word) &&& 0x3F = w &&& 0x3F := by
        simp only [BitVec.setWidth_and, setWidth_byte, BitVec.and_assoc]
        rfl
      have hindexed : bit (hasBit w 0x200) 0x200 = w &&& 0x200 := bit_hasBit (k := 9) (by decide)
      rw [ofFormat, fields, hcount, Format.mask]
      cases op.acceptsIndex with
      | false => exact BitVec.zero_or
      | true =>
          rw [Bool.true_and, Bool.and_true, hindexed, ← BitVec.and_or_distrib_left]
          rfl
  | memory op =>
      rw [ofFormat, fields, suffixField_suffixesOf, BitVec.and_assoc, ← BitVec.and_or_distrib_left,
        Format.mask]
      rfl
  | ddiv => exact BitVec.and_zero.symm
  | count op | flag op =>
      have hindirect : bit (hasBit w 0x800) 0x800 = w &&& 0x800 := bit_hasBit (k := 11) (by decide)
      rw [ofFormat, fields, shortField_shortOf, hindirect, ← BitVec.and_or_distrib_left,
        Format.mask]
      rfl
  | bcc =>
      have hindirect : bit (hasBit w 0x400) 0x400 = w &&& 0x400 := bit_hasBit (k := 10) (by decide)
      have hselector :
          ((w >>> 6).setWidth 8 &&& 7 : Byte).setWidth 16 &&& (7 : Word) = w >>> 6 &&& 7 := by
        simp only [BitVec.setWidth_and, setWidth_byte, BitVec.and_assoc]
        rfl
      rw [ofFormat, fields, shortField_shortOf, hindirect, hselector, shifted_slot,
        ← BitVec.and_or_distrib_left, ← BitVec.and_or_distrib_left]
      rfl
  | bro => exact shortField_shortOf w
  | br =>
      rw [ofFormat, fields, suffixField_suffixesOf, longField_longOf, ← BitVec.and_or_distrib_left]
      rfl
  | load =>
      have htarget : ∀ suffixes, (load (if hasBit w 0x200 then .db (w &&& 0x1FF)
          else .own (longOf w)) suffixes).fields = suffixField suffixes ||| w &&& 0x3FF := by
        intro suffixes
        have hown : bit (hasBit w 0x200) 0x200 = w &&& 0x200 := bit_hasBit (k := 9) (by decide)
        have hsplit : w &&& 0x3FF = w &&& 0x200 ||| w &&& 0x1FF := by
          rw [← BitVec.and_or_distrib_left]
          rfl
        rw [hsplit, ← hown]
        cases hasBit w 0x200 with
        | false =>
            rw [if_neg Bool.false_ne_true, fields, longField_longOf]
            exact congrArg (suffixField suffixes ||| ·) BitVec.zero_or.symm
        | true =>
            rw [if_pos rfl, fields, BitVec.and_assoc]
            rfl
      rw [ofFormat, htarget, suffixField_suffixesOf, ← BitVec.and_or_distrib_left]
      rfl
  | pair =>
      rw [ofFormat, fields, StackOp.code_ofCode, StackOp.code_ofCode, setWidth_code, setWidth_code,
        shifted_slot, ← BitVec.and_or_distrib_left]
      rfl

theorem format_ofFormat (w : Word) (f : Format) : (ofFormat w f).format = f := by
  cases f <;> rfl

theorem encode_ofFormat {w : Word} {f : Format} (h : f.admits w = true) :
    (ofFormat w f).encode = w := by
  rw [encode, format_ofFormat, fields_ofFormat, ← beq_iff_eq.mp h, ← BitVec.and_or_distrib_left,
    BitVec.or_not_self, BitVec.and_allOnes]

theorem exists_format_of_decode? {w : Word} {i : Instruction} (h : decode? w = some i) :
    ∃ f : Format, f.admits w = true ∧ ofFormat w f = i := by
  obtain ⟨f, hf, hi⟩ := Option.map_eq_some_iff.mp h
  exact ⟨f, List.find?_some (p := fun f => Format.admits f w) hf, hi⟩

theorem encode_of_decode? {w : Word} {i : Instruction} (h : decode? w = some i) :
    i.encode = w := by
  obtain ⟨f, hf, rfl⟩ := exists_format_of_decode? h
  exact encode_ofFormat hf

/-! ## Ranges -/

/-- Every field fits in its slot. The selector of a branch may be any, since
all but three of its bits are ignored. -/
def InRange : Instruction → Prop
  | halt n | rio n | wio n => n.toNat ≤ deviceMax
  | shift op n indexed => n.toNat ≤ shiftMax ∧ (indexed = true → op.acceptsIndex = true)
  | memory _ displacement _ | load (.db displacement) _ => displacement.toNat ≤ dbMax
  | load (.own displacement) _ | br displacement _ => displacement.magnitude.toNat ≤ longMax
  | bcc _ displacement _ | count _ displacement _ | flag _ displacement _ | bro displacement =>
    displacement.magnitude.toNat ≤ shortMax
  | scal _ | sxit _ | ldi _ | ldxi _ | ddiv | pair _ _ => True

theorem inRange_ofFormat (w : Word) (f : Format) : (ofFormat w f).InRange := by
  cases f with
  | halt | rio | wio => exact Nat.and_le_right
  | shift op => exact ⟨Nat.and_le_right, fun h => (Bool.and_eq_true_iff.mp h).1⟩
  | memory op => exact Nat.and_le_right
  | bcc | count op | flag op | bro | br => exact Nat.and_le_right
  | load =>
      rw [ofFormat]
      split <;> exact Nat.and_le_right
  | scal | sxit | ldi | ldxi | ddiv | pair => trivial

theorem inRange_of_decode? {w : Word} {i : Instruction} (h : decode? w = some i) : i.InRange := by
  obtain ⟨f, -, rfl⟩ := exists_format_of_decode? h
  exact inRange_ofFormat w f

end Instruction

end StackComputer
