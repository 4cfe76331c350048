import StackComputer.Proofs.InstructionWord
import StackComputer.Proofs.OperandText
import StackComputer.Proofs.Outcome

/-!
# Canonical operands

Instruction text as a mnemonic with an operand. While the fields are in range,
the assembler makes the same instruction word of these two.
-/

namespace StackComputer

open Assembler

/-- A name with the operand after it. -/
def Assembler.statementText (name : Text) : Option Operand → Text
  | none => name
  | some o => name ++ ' ' :: o.source

/-- The operand of a distance. -/
def Displacement.operand (d : Displacement) (s : Suffixes) : Operand :=
  ⟨.own d.back d.magnitude.toNat, s⟩

/-- The operand of a number. -/
def Assembler.Operand.ofByte (n : Byte) (s : Suffixes) : Operand := ⟨.plain (.number n.toNat), s⟩

namespace Instruction

/-- The mnemonic on the line of an instruction, a packed pair apart. -/
def mnemonic : Instruction → Mnemonic
  | halt _ => .halt
  | rio _ => .rio
  | wio _ => .wio
  | scal _ => .scal
  | sxit _ => .sxit
  | shift op _ _ => .shift op
  | memory op _ _ => .memory op
  | load _ _ => .load
  | ldi _ => .ldi
  | ldxi _ => .ldxi
  | ddiv => .ddiv
  | br _ _ => .br
  | bcc selector _ _ => .bcc ⟨selector.toNat % 8, Nat.mod_lt _ (by decide)⟩
  | count op _ _ => .count op
  | flag op _ _ => .flag op
  | bro _ => .bro
  | pair _ second => .stack second

/-- The operand on the line of an instruction. -/
def operand : Instruction → Option Operand
  | halt n => if n = 0 then none else some (.ofByte n {})
  | rio n | wio n | scal n | sxit n | ldi n | ldxi n => some (.ofByte n {})
  | shift _ n indexed => some (.ofByte n ⟨false, indexed⟩)
  | memory _ displacement s => some ⟨.db (.number displacement.toNat), s⟩
  | load (.db displacement) s => some ⟨.db (.number displacement.toNat), s⟩
  | load (.own displacement) s | br displacement s => some (displacement.operand s)
  | bcc _ displacement indirect | count _ displacement indirect | flag _ displacement indirect =>
    some (displacement.operand ⟨indirect, false⟩)
  | bro displacement => some (displacement.operand {})
  | ddiv | pair _ _ => none

theorem withNumber_eq (m : Mnemonic) (n : Byte) :
    withNumber m n = statementText m.name (some (.ofByte n {})) := by
  rw [withNumber, withOperand, statementText, Operand.source]
  exact congrArg (fun t => m.name ++ ' ' :: t) (List.append_nil _).symm

theorem text_eq {i : Instruction} (h : i.format ≠ .pair) :
    i.text = statementText i.mnemonic.name i.operand := by
  cases i with
  | halt n =>
      rw [text, mnemonic, operand]
      split
      · rfl
      · exact withNumber_eq _ n
  | rio n | wio n | scal n | sxit n | ldi n | ldxi n => exact withNumber_eq _ n
  | shift op n indexed => exact List.append_assoc _ _ _
  | memory op displacement s => rfl
  | load target s => cases target <;> rfl
  | ddiv => rfl
  | br displacement s => rfl
  | bcc selector displacement indirect => rfl
  | count op displacement indirect | flag op displacement indirect => rfl
  | bro displacement =>
      exact congrArg (fun t => Mnemonic.bro.name ++ ' ' :: t) (List.append_nil _).symm
  | pair first second => exact absurd rfl h

theorem isNumeric_operand {i : Instruction} {o : Operand} (h : i.operand = some o) :
    o.address.IsNumeric := by
  have hbyte : ∀ (n : Byte) s, (Operand.ofByte n s).address.IsNumeric := fun n _ =>
    Nat.lt_of_lt_of_le n.isLt (by decide)
  have hword : ∀ n : Word, n.toNat < 0x10000000000000000 := fun n =>
    Nat.lt_of_lt_of_le n.isLt (by decide)
  cases i with
  | halt n =>
      rw [operand] at h
      split at h
      · cases h
      · cases h
        exact hbyte _ _
  | ddiv | pair first second => cases h
  | load target s => cases target <;> cases h <;> exact hword _
  | rio n | wio n | scal n | sxit n | ldi n | ldxi n | shift op n indexed =>
      cases h
      exact hbyte _ _
  | memory op displacement s | br displacement s | bcc selector displacement indirect
  | count op displacement indirect | flag op displacement indirect | bro displacement =>
      cases h
      exact hword _

end Instruction

/-! ## Encoding -/

namespace Assembler

theorem ofNat_toNat_self {w : Nat} (v : BitVec w) : BitVec.ofNat w v.toNat = v := by
  rw [BitVec.ofNat_toNat, BitVec.setWidth_eq]

theorem byteOperand_ofByte (name : Text) {n : Byte} {max : Nat} (hn : n.toNat ≤ max) :
    byteOperand name (some (.ofByte n {})) max = .ok n := by
  have hnumber : numberOperand name (some (.ofByte n {})) max = .ok n.toNat := if_pos hn
  rw [byteOperand, hnumber, Except.map, ofNat_toNat_self]

theorem displacement_operand {d : Displacement} (s : Suffixes) {max : Nat}
    (hd : d.magnitude.toNat ≤ max) : displacement (d.operand s) max = .ok d := by
  have hmagnitude : BitVec.ofNat 16 d.magnitude.toNat = d.magnitude := by
    rw [BitVec.ofNat_toNat, BitVec.setWidth_eq]
  rw [displacement, Displacement.operand]
  dsimp only
  rw [if_pos hd, hmagnitude]

theorem shortBranch_operand {name : Text} {d : Displacement} {s : Suffixes} {indirect : Bool}
    (hallow : allow name (d.operand s) indirect false = .ok ())
    (hd : d.magnitude.toNat ≤ Instruction.shortMax) :
    shortBranch name (some (d.operand s)) indirect = .ok (d, s.indirect) := by
  change (do
    allow name (d.operand s) indirect false
    return (← displacement (d.operand s) Instruction.shortMax, s.indirect)) = _
  rw [hallow, displacement_operand s hd]
  rfl

theorem allow_indirect (name : Text) (d : Displacement) (indirect : Bool) :
    allow name (d.operand ⟨indirect, false⟩) true false = .ok () := by
  cases indirect <;> rfl

/-! ## Accepted operands -/

section

variable {name : Text} {indirect indexed : Bool} {n max : Nat}

theorem number_eq_ok {k : Nat} (h : number max (.number n) = .ok k) : n ≤ max ∧ k = n := by
  rw [number] at h
  split at h
  · next hn => exact ⟨hn, (Except.ok.inj h).symm⟩
  · cases h

theorem allow_eq_ok {o : Operand} (h : allow name o indirect indexed = .ok ()) :
    (o.suffixes.indirect = true → indirect = true) ∧
      (o.suffixes.indexed = true → indexed = true) := by
  rw [allow] at h
  split at h
  · cases h
  · next hindirect =>
      split at h
      · cases h
      · next hindexed =>
          constructor
          · intro hs
            rw [hs, Bool.true_and, Bool.not_eq_true', Bool.not_eq_false] at hindirect
            exact hindirect
          · intro hs
            rw [hs, Bool.true_and, Bool.not_eq_true', Bool.not_eq_false] at hindexed
            exact hindexed

end

/-- Three bits of a selector matter. -/
theorem selector_mod (selector : Byte) :
    (BitVec.ofNat 8 (Fin.ofNat 8 selector.toNat) : Byte).setWidth 16 &&& (7 : Word) =
      selector.setWidth 16 &&& 7 := by
  have hlt := selector.isLt
  have hmask := fun n => Nat.and_two_pow_sub_one_eq_mod n 3
  apply BitVec.eq_of_toNat_eq
  simp only [Fin.val_ofNat, BitVec.toNat_and, BitVec.toNat_setWidth, BitVec.toNat_ofNat]
  refine (hmask _).trans (Eq.trans ?_ (hmask _).symm)
  omega

open Instruction in
/-- The operand of an instruction in range makes the instruction itself, but for
the bits of a selector that are ignored. -/
theorem instruction_operand {i : Instruction} (hi : i.InRange) (hpair : i.format ≠ .pair) :
    ∃ j, instruction i.mnemonic i.operand = .ok j ∧ j.encode = i.encode := by
  have hbyte : ∀ n : Byte, n.toNat ≤ byteMax := fun n => Nat.le_of_lt_succ n.isLt
  cases i with
  | halt n =>
      refine ⟨halt n, ?_, rfl⟩
      by_cases hn : n = 0
      · rw [hn]
        rfl
      · rw [operand, if_neg hn]
        exact congrArg (halt <$> ·) (byteOperand_ofByte _ hi)
  | rio n => exact ⟨rio n, congrArg (rio <$> ·) (byteOperand_ofByte _ hi), rfl⟩
  | wio n => exact ⟨wio n, congrArg (wio <$> ·) (byteOperand_ofByte _ hi), rfl⟩
  | scal n => exact ⟨scal n, congrArg (scal <$> ·) (byteOperand_ofByte _ (hbyte n)), rfl⟩
  | sxit n => exact ⟨sxit n, congrArg (sxit <$> ·) (byteOperand_ofByte _ (hbyte n)), rfl⟩
  | ldi n => exact ⟨ldi n, congrArg (ldi <$> ·) (byteOperand_ofByte _ (hbyte n)), rfl⟩
  | ldxi n => exact ⟨ldxi n, congrArg (ldxi <$> ·) (byteOperand_ofByte _ (hbyte n)), rfl⟩
  | shift op n indexed =>
      have hallow : allow (Mnemonic.shift op).name (.ofByte n ⟨false, indexed⟩) false
          op.acceptsIndex = .ok () := by
        cases indexed with
        | false => rfl
        | true =>
            rw [hi.2 rfl]
            rfl
      have hnumber : plainNumber (.ofByte n ⟨false, indexed⟩) shiftMax = .ok n.toNat := if_pos hi.1
      refine ⟨shift op n indexed, ?_, rfl⟩
      simp only [mnemonic, operand, instruction, required, ok_bind, hallow, hnumber,
        ofNat_toNat_self]
      rfl
  | memory op n s =>
      have hnumber : number dbMax (.number n.toNat) = .ok n.toNat := if_pos hi
      refine ⟨memory op n s, ?_, rfl⟩
      simp only [mnemonic, operand, instruction, required, ok_bind, hnumber, ofNat_toNat_self]
      rfl
  | load target s =>
      refine ⟨load target s, ?_, rfl⟩
      cases target with
      | db n =>
          have hnumber : number dbMax (.number n.toNat) = .ok n.toNat := if_pos hi
          simp only [mnemonic, operand, instruction, required, ok_bind, hnumber]
          exact congrArg (fun n => Except.ok (load (.db n) s)) (ofNat_toNat_self n)
      | own d =>
          have hown := displacement_operand s hi
          rw [Displacement.operand] at hown
          simp only [mnemonic, operand, instruction, required, ok_bind, Displacement.operand]
          rw [hown]
          rfl
  | ddiv => exact ⟨ddiv, rfl, rfl⟩
  | br d s =>
      refine ⟨br d s, ?_, rfl⟩
      simp only [mnemonic, operand, instruction, required, ok_bind, displacement_operand s hi]
      rfl
  | bcc selector d indirect =>
      refine ⟨bcc (BitVec.ofNat 8 (Fin.ofNat 8 selector.toNat)) d indirect, ?_, ?_⟩
      · simp only [mnemonic, operand, instruction,
          shortBranch_operand (allow_indirect _ d indirect) hi, ok_bind]
        rfl
      · rw [encode, encode, fields, fields, selector_mod]
        rfl
  | count op d indirect =>
      refine ⟨count op d indirect, ?_, rfl⟩
      simp only [mnemonic, operand, instruction,
        shortBranch_operand (allow_indirect _ d indirect) hi, ok_bind]
      rfl
  | flag op d indirect =>
      refine ⟨flag op d indirect, ?_, rfl⟩
      simp only [mnemonic, operand, instruction,
        shortBranch_operand (allow_indirect _ d indirect) hi, ok_bind]
      rfl
  | bro d =>
      have hallow : allow Mnemonic.bro.name (d.operand {}) false false = .ok () := rfl
      refine ⟨bro d, ?_, rfl⟩
      simp only [mnemonic, operand, instruction, shortBranch_operand hallow hi, ok_bind]
      rfl
  | pair first second => exact absurd rfl hpair

end Assembler

end StackComputer
