import StackComputer.Proofs.ListingAssembly
import StackComputer.Proofs.OperandEncoding

/-!
# Instruction text and the line assembler

The text of an instruction is assembled to its word or refused, and it is
refused just when some field does not fit in its slot.
-/

namespace StackComputer

open Assembler Text

instance Instruction.decidableInRange : DecidablePred Instruction.InRange
  | halt n | rio n | wio n => inferInstanceAs (Decidable (n.toNat ≤ deviceMax))
  | shift op n indexed =>
    inferInstanceAs (Decidable (n.toNat ≤ shiftMax ∧ (indexed = true → op.acceptsIndex = true)))
  | memory _ n _ | load (.db n) _ => inferInstanceAs (Decidable (n.toNat ≤ dbMax))
  | load (.own d) _ | br d _ => inferInstanceAs (Decidable (d.magnitude.toNat ≤ longMax))
  | bcc _ d _ | count _ d _ | flag _ d _ | bro d =>
    inferInstanceAs (Decidable (d.magnitude.toNat ≤ shortMax))
  | scal _ | sxit _ | ldi _ | ldxi _ | ddiv | pair _ _ => inferInstanceAs (Decidable True)

namespace Assembler

open Instruction in
/-- No field is cut down, so what is accepted was in range. -/
theorem inRange_of_instruction {i j : Instruction} (hpair : i.format ≠ .pair)
    (h : instruction i.mnemonic i.operand = .ok j) : i.InRange := by
  cases i with
  | halt n =>
      by_cases hn : n = 0
      · rw [hn]
        exact Nat.zero_le deviceMax
      · rw [operand, if_neg hn] at h
        obtain ⟨_, _, ⟨⟨⟩, -, -⟩, ⟨⟩, hle, -⟩ := takes_of_instruction h
        exact hle
  | scal n | sxit n | ldi n | ldxi n | ddiv => trivial
  | shift op n indexed =>
      obtain ⟨_, _, ⟨⟨⟩, -, hindexed⟩, ⟨⟩, hle, -⟩ := takes_of_instruction h
      exact ⟨hle, hindexed⟩
  | rio n | wio n | memory op n s | br d s | bcc selector d indirect | count op d indirect
  | flag op d indirect | bro d =>
      obtain ⟨_, _, ⟨⟨⟩, -, -⟩, ⟨⟩, hle, -⟩ := takes_of_instruction h
      exact hle
  | load target s =>
      cases target with
      | db n | own d =>
          obtain ⟨_, _, ⟨⟨⟩, -, -⟩, ⟨⟩, hle, -⟩ := takes_of_instruction h
          exact hle
  | pair first second => exact absurd rfl hpair

/-! ## Lines -/

theorem pair?_spaced (m : Mnemonic) {o : Option Operand} (h : ∀ o' ∈ o, o'.address.IsNumeric) :
    pair? (spaced m.name (operandText o)) = none := by
  cases o with
  | none => exact pair?_eq_none_of_noComma fun c hc => ne_comma_of_isInner (m.name_spec.2.1 c hc)
  | some o =>
      rw [operandText, spaced_of_ne_nil m.name (operandSource_ne_nil (h o rfl))]
      exact pair?_mnemonic m h

theorem encodeText_operandText (mnemonic : Text) {o : Option Operand}
    (h : ∀ o' ∈ o, o'.address.IsNumeric) :
    encodeText mnemonic (operandText o) = encodeOperand mnemonic o := by
  cases o with
  | none => rfl
  | some o =>
      have htight : Tight o.source := tight_of_solid (solid_source (h o rfl))
      rw [encodeText, operandText, htight.trim_eq,
        if_neg (mt List.isEmpty_iff.mp (operandSource_ne_nil (h o rfl))),
        operand?_source (h o rfl)]

theorem encodeLine_spaced (m : Mnemonic) {o : Option Operand}
    (h : ∀ o' ∈ o, o'.address.IsNumeric) :
    encodeLine (spaced m.name (operandText o)) = encodeOperand m.name o := by
  have hrest : Tight (operandText o) := (isStatement_mnemonic m h).tight_rest
  rw [encodeLine, (tight_spaced m.solid_name m.name_spec.1 hrest).trim_eq, pair?_spaced m h,
    firstWord_spaced m.solid_name m.name_spec.1 hrest]
  exact encodeText_operandText m.name h

theorem encodeLine_pair (first second : StackOp) :
    encodeLine (Instruction.pair first second).text =
      .ok (Instruction.pair first second).encode := by
  obtain ⟨name, rest, hstatement, hrest, htext⟩ := exists_statement_pair first second
  have htight : Tight (Instruction.pair first second).text := by
    rw [htext]
    exact tight_append_blank (fun c hc => isBlank_of_isSolid (hstatement.solid_name c hc))
      hstatement.name_ne_nil hstatement.tight_rest hrest
  rw [encodeLine, htight.trim_eq, pair?_text]

theorem encodeLine_of_format {i : Instruction} (hpair : i.format ≠ .pair) :
    encodeLine i.text = encodeOperand i.mnemonic.name i.operand := by
  have hnumeric : ∀ o ∈ i.operand, o.address.IsNumeric := fun o ho =>
    Instruction.isNumeric_operand ho
  rw [Instruction.text_eq hpair, ← spaced_operandText hnumeric, encodeLine_spaced _ hnumeric]

/-- The text of an instruction whose fields all fit assembles to its word, and
any other text of an instruction to nothing. -/
theorem toOption_encodeLine_text (i : Instruction) :
    (encodeLine i.text).toOption = if i.InRange then some i.encode else none := by
  by_cases hpair : i.format = .pair
  · obtain ⟨first, second, rfl⟩ := eq_pair_of_format hpair
    have hrange : (Instruction.pair first second).InRange := trivial
    rw [encodeLine_pair, if_pos hrange]
    rfl
  · rw [encodeLine_of_format hpair]
    split
    · next hrange =>
        rw [encodeOperand_operand hrange hpair]
        rfl
    · next hrange =>
        rw [encodeOperand_mnemonic (mnemonic_ne_unk hpair)]
        cases hj : instruction i.mnemonic i.operand with
        | error e => rfl
        | ok j => exact absurd (inRange_of_instruction hpair hj) hrange

/-- An indexed shift to the left by 63, which only a logical double one may be. -/
example : (encodeLine (Instruction.shift .dlsl 63 true).text).toOption = some 0x16BF ∧
    (encodeLine (Instruction.shift .dasl 63 true).text).toOption = none := by
  decide +kernel

end Assembler

end StackComputer
