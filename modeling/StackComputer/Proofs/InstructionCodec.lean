import StackComputer.Proofs.InstructionDecoding

/-!
# Instructions and their words

Encoding and decoding undo each other: on words without loss, and on
instructions up to the remainder that fits in the slot of each field.
-/

namespace StackComputer

/-- The magnitude wraps and the sign stays, also that of a zero. -/
def Displacement.wrapped (d : Displacement) (size : Word) : Displacement :=
  { d with magnitude := d.magnitude % size }

namespace Instruction

/-- Every field modulo the size of its slot. Only logical double shifts have a
place for the index bit. -/
def wrapped : Instruction → Instruction
  | halt code => halt (code % 16)
  | rio device => rio (device % 16)
  | wio device => wio (device % 16)
  | shift op n indexed => shift op (n % 64) (indexed && op.acceptsIndex)
  | memory op displacement s => memory op (displacement % 512) s
  | load (.db displacement) s => load (.db (displacement % 512)) s
  | load (.own displacement) s => load (.own (displacement.wrapped 256)) s
  | br displacement s => br (displacement.wrapped 256) s
  | bcc selector displacement indirect => bcc (selector % 8) (displacement.wrapped 32) indirect
  | count op displacement indirect => count op (displacement.wrapped 32) indirect
  | flag op displacement indirect => flag op (displacement.wrapped 32) indirect
  | bro displacement => bro (displacement.wrapped 32)
  | scal n => scal n
  | sxit n => sxit n
  | ldi value => ldi value
  | ldxi value => ldxi value
  | ddiv => ddiv
  | pair first second => pair first second

/-- A mask of low bits leaves the remainder. -/
theorem and_eq_umod {w k : Nat} (v : BitVec w) {mask size : BitVec w}
    (hmask : mask.toNat = 2 ^ k - 1) (hsize : size.toNat = 2 ^ k) : v &&& mask = v % size := by
  apply BitVec.eq_of_toNat_eq
  rw [BitVec.toNat_and, BitVec.toNat_umod, hmask, hsize, Nat.and_two_pow_sub_one_eq_mod]

theorem reduced_eq_wrapped (i : Instruction) : i.reduced = i.wrapped := by
  have hcode : ∀ n : Byte, n &&& 0xF = n % 16 := fun n => and_eq_umod (k := 4) n rfl rfl
  have hcount : ∀ n : Byte, n &&& 0x3F = n % 64 := fun n => and_eq_umod (k := 6) n rfl rfl
  have hselector : ∀ n : Byte, n &&& 7 = n % 8 := fun n => and_eq_umod (k := 3) n rfl rfl
  have hshort : ∀ n : Word, n &&& 0x1F = n % 32 := fun n => and_eq_umod (k := 5) n rfl rfl
  have hlong : ∀ n : Word, n &&& 0xFF = n % 256 := fun n => and_eq_umod (k := 8) n rfl rfl
  have hdb : ∀ n : Word, n &&& 0x1FF = n % 512 := fun n => and_eq_umod (k := 9) n rfl rfl
  cases i with
  | load target s => cases target <;> simp only [reduced, wrapped, Displacement.wrapped, hdb, hlong]
  | shift op n indexed => simp only [reduced, wrapped, hcount, Bool.and_comm]
  | _ => simp only [reduced, wrapped, Displacement.wrapped, hcode, hselector, hshort, hlong, hdb]

/-- Every field fits in its slot, the selector of a branch too. -/
def Fits (i : Instruction) : Prop :=
  i.InRange ∧ ∀ selector d indirect, i = bcc selector d indirect → selector.toNat ≤ 7

theorem Fits.wrapped_eq {i : Instruction} (h : i.Fits) : i.wrapped = i := by
  rw [← reduced_eq_wrapped, reduced_eq_self h.1 h.2]

theorem decode?_encode_eq_wrapped (i : Instruction) : decode? i.encode = some i.wrapped := by
  rw [decode?_encode, reduced_eq_wrapped]

/-- An encoded instruction decodes to what of it fits in a word, and a word that
decodes is what its instruction is encoded as. -/
theorem encode_decode_inverse :
    (∀ i : Instruction, decode? i.encode = some i.wrapped) ∧
    (∀ i j : Instruction, i.Fits → j.Fits → i.encode = j.encode → i = j) ∧
    ∀ (w : Word) (i : Instruction), decode? w = some i → i.encode = w := by
  refine ⟨decode?_encode_eq_wrapped, ?_, fun w i => encode_of_decode?⟩
  intro i j hi hj hword
  have hdecode : some i.wrapped = some j.wrapped := by
    rw [← decode?_encode_eq_wrapped, hword, decode?_encode_eq_wrapped]
  rw [hi.wrapped_eq, hj.wrapped_eq] at hdecode
  exact Option.some.inj hdecode

/-- The two zero displacements of a branch whose fields are too wide. -/
theorem encode_decode_inverse_zero_displacements :
    decode? (bcc 0xFF ⟨true, 0xFFE0⟩ true).encode = some (bcc 7 ⟨true, 0⟩ true) ∧
    (bcc 7 ⟨true, 0⟩ true).encode ≠ (bcc 7 ⟨false, 0⟩ true).encode ∧
    (bcc 7 ⟨true, 0⟩ true).encode = 0xC7E0 := by
  obtain ⟨hdecode, hinj, hencode⟩ := encode_decode_inverse
  have hfits : ∀ back, (bcc 7 ⟨back, 0⟩ true).Fits := by
    intro back
    refine ⟨Nat.zero_le _, ?_⟩
    rintro selector d indirect ⟨⟩
    exact Nat.le_refl 7
  refine ⟨hdecode _, ?_, hencode _ _ (by decide +kernel)⟩
  intro hword
  cases hinj _ _ (hfits true) (hfits false) hword

end Instruction

end StackComputer
