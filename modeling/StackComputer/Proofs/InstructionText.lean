import StackComputer.Proofs.CanonicalOperand

/-!
# Instruction text read back

The text of any word is a statement of the assembler, a name and perhaps an
operand, that stands for this word again, wherever it is placed.
-/

namespace StackComputer

open Assembler Text

/-! ## Names -/

theorem StackOp.mem_all (op : StackOp) : op ∈ all := by
  cases op <;> decide

/-- Names of the statements that hold no instruction. -/
def Assembler.directives : List Text :=
  ["ORG".toList, "DW".toList, "DD".toList, "DQ".toList, "TXT".toList]

namespace Mnemonic

theorem mem_all {m : Mnemonic} (hm : m ≠ stack .unk) : m ∈ all := by
  cases m with
  | stack op =>
      have hop : op ≠ .unk := fun heq => hm (heq ▸ rfl)
      have hmem : stack op ∈ (StackOp.all.filter (· != .unk)).map stack :=
        List.mem_map_of_mem (List.mem_filter.mpr ⟨op.mem_all, bne_iff_ne.mpr hop⟩)
      simp only [all, List.mem_append, hmem, true_or]
  | shift op | memory op | count op | flag op => cases op <;> decide
  | bcc selector =>
      revert selector
      decide
  | _ => decide

theorem name_spec (m : Mnemonic) :
    m.name ≠ [] ∧ (∀ c ∈ m.name, isInner c = true) ∧ m.name ∉ dataName :: directives := by
  have hall : ∀ m ∈ stack .unk :: all, m.name ≠ [] ∧ m.name.all isInner = true ∧
      m.name ∉ dataName :: directives := by decide +kernel
  have hmem : m ∈ stack .unk :: all := by
    by_cases hm : m = stack .unk
    · exact hm ▸ List.mem_cons_self
    · exact List.mem_cons_of_mem _ (mem_all hm)
  obtain ⟨hne, hinner, hfree⟩ := hall m hmem
  exact ⟨hne, List.all_eq_true.mp hinner, hfree⟩

theorem isSolid_name (m : Mnemonic) : ∀ c ∈ m.name, isSolid c = true :=
  fun c hc => isSolid_of_isInner (m.name_spec.2.1 c hc)

theorem solid_name (m : Mnemonic) : ∀ c ∈ m.name, isBlank c = false :=
  fun c hc => isBlank_of_isSolid (m.isSolid_name c hc)

theorem upper_name (m : Mnemonic) : upper m.name = m.name :=
  upper_eq_self fun c hc => isPlain_of_isSolid (m.isSolid_name c hc)

theorem name_ne_dataName (m : Mnemonic) : m.name ≠ dataName :=
  fun heq => m.name_spec.2.2 (heq ▸ List.mem_cons_self)

theorem named?_name {m : Mnemonic} (hm : m ≠ stack .unk) : named? m.name = some m := by
  have hall : ∀ m ∈ all, named? m.name = some m := by decide +kernel
  exact hall m (mem_all hm)

theorem of_named? {m : Mnemonic} {t : Text} (h : named? t = some m) :
    m.name = t ∧ m ≠ stack .unk := by
  have hunk : stack .unk ∉ all := by decide
  refine ⟨by simpa using List.find?_some h, ?_⟩
  rintro rfl
  exact hunk (List.mem_of_find?_eq_some h)

end Mnemonic

namespace StackOp

theorem named?_name {op : StackOp} (hop : op ≠ unk) : named? op.name = some op := by
  have hall : ∀ op ∈ all, op ≠ unk → named? op.name = some op := by decide +kernel
  exact hall op op.mem_all hop

/-- A text with a blank inside is no name. -/
theorem named?_eq_none {t : Text} (h : ' ' ∈ t) : named? t = none := by
  rw [named?, List.find?_eq_none]
  intro op _ hsame
  have hupper : upper op.name = op.name := (Mnemonic.stack op).upper_name
  have hblank : ' ' ∈ op.name := hupper ▸ beq_iff_eq.mp hsame ▸ List.mem_map_of_mem h
  exact absurd ((Mnemonic.stack op).solid_name ' ' hblank) (by decide)

theorem text_eq_name {op : StackOp} (hop : op ≠ unk) : op.text = op.name := by
  rw [text, mnemonic?, if_neg hop]

end StackOp

namespace Assembler

/-! ## Pairs -/

theorem stackCode?_text (op : StackOp) : stackCode? op.text = some op.code := by
  by_cases hop : op = .unk
  · rw [hop]
    decide +kernel
  · have htight : Tight op.name := tight_of_solid (Mnemonic.stack op).solid_name
    rw [StackOp.text_eq_name hop, stackCode?, htight.trim_eq, StackOp.named?_name hop]

theorem stackCode?_cons_blank (t : Text) : stackCode? (' ' :: t) = stackCode? t := rfl

/-- A mnemonic with its operand is no half of a pair. -/
theorem stackCode?_eq_none {name t : Text} (hname : ∀ c ∈ name, isBlank c = false)
    (hne : name ≠ []) (ht : Tight t) (htne : t ≠ []) (hdata : sameLetters name dataName = false) :
    stackCode? (name ++ ' ' :: t) = none := by
  have htight : Tight (name ++ ' ' :: t) := tight_append_blank hname hne ht htne
  have hblank : ' ' ∈ name ++ ' ' :: t := List.mem_append_right name List.mem_cons_self
  rw [stackCode?, htight.trim_eq, StackOp.named?_eq_none hblank, firstWord_append hname hne ht htne]
  dsimp only
  rw [hdata]
  rfl

theorem pair?_eq_none_of_noComma {t : Text} (h : ∀ c ∈ t, (c == ',') = false) : pair? t = none := by
  rw [pair?, cutAt?_eq_none h]
  rfl

theorem pair?_eq_none_of_first {s t : Text} (hs : ∀ c ∈ s, (c == ',') = false)
    (hcode : stackCode? s = none) : pair? (s ++ ',' :: t) = none := by
  rw [pair?, cutAt?_append hs rfl]
  simp only [Option.bind_eq_bind, Option.bind_some, hcode, Option.bind_none]

theorem noComma_text (op : StackOp) : ∀ c ∈ op.text, (c == ',') = false := by
  by_cases hop : op = .unk
  · have hcomma : ',' ∉ StackOp.unk.text := by decide
    rw [hop]
    exact beq_eq_false_of_notMem hcomma
  · rw [StackOp.text_eq_name hop]
    exact fun c hc => ne_comma_of_isInner ((Mnemonic.stack op).name_spec.2.1 c hc)

theorem pair?_text (first second : StackOp) :
    pair? (Instruction.pair first second).text = some (Instruction.pair first second).encode := by
  have htext : (Instruction.pair first second).text = first.text ++ ',' :: ' ' :: second.text :=
    List.append_assoc _ _ _
  rw [htext, pair?, cutAt?_append (noComma_text first) rfl]
  simp only [Option.bind_eq_bind, Option.bind_some, stackCode?_cons_blank, stackCode?_text]
  exact congrArg some BitVec.zero_or.symm

/-! ## Statements -/

/-- The text after the name. -/
def operandText : Option Operand → Text
  | none => []
  | some o => o.source

/-- A name with the rest of the statement after a blank. -/
def spaced (name rest : Text) : Text := if rest.isEmpty then name else name ++ ' ' :: rest

theorem spaced_of_ne_nil (name : Text) {rest : Text} (h : rest ≠ []) :
    spaced name rest = name ++ ' ' :: rest :=
  if_neg (mt List.isEmpty_iff.mp h)

theorem spaced_operandText {name : Text} {o : Option Operand}
    (h : ∀ o' ∈ o, o'.address.IsNumeric) : spaced name (operandText o) = statementText name o := by
  cases o with
  | none => rfl
  | some o => exact spaced_of_ne_nil name (operandSource_ne_nil (h o rfl))

theorem pair?_mnemonic (m : Mnemonic) {o : Option Operand} (h : ∀ o' ∈ o, o'.address.IsNumeric) :
    pair? (m.name ++ ' ' :: operandText o) = none := by
  have hname : ∀ c ∈ m.name ++ [' '], (c == ',') = false := by
    intro c hc
    rcases List.mem_append.mp hc with hc | hc
    · exact ne_comma_of_isInner (m.name_spec.2.1 c hc)
    · rw [List.mem_singleton.mp hc]
      rfl
  cases o with
  | none => exact pair?_eq_none_of_noComma hname
  | some o =>
      have haddress := isInner_of_source (h o rfl)
      have hfirst : ∀ c ∈ m.name ++ ' ' :: o.address.source, (c == ',') = false := by
        intro c hc
        rw [List.append_cons] at hc
        exact (List.mem_append.mp hc).elim (hname c) fun hc => ne_comma_of_isInner (haddress c hc)
      have hcode : stackCode? (m.name ++ ' ' :: o.address.source) = none := by
        apply stackCode?_eq_none m.solid_name m.name_spec.1
          (tight_of_solid fun c hc => isBlank_of_isInner (haddress c hc)) (source_ne_nil (h o rfl))
        rw [sameLetters, m.upper_name]
        exact beq_eq_false_iff_ne.mpr m.name_ne_dataName
      have hsuffixes : o.suffixes.text = [] ∨ ∃ t, o.suffixes.text = ',' :: t := by
        rcases o.suffixes with ⟨_ | _, _ | _⟩
        · exact .inl rfl
        · exact .inr ⟨_, rfl⟩
        · exact .inr ⟨_, rfl⟩
        · exact .inr ⟨_, rfl⟩
      rw [operandText, Operand.source, ← List.cons_append, ← List.append_assoc]
      rcases hsuffixes with hnone | ⟨t, ht⟩
      · rw [hnone, List.append_nil]
        exact pair?_eq_none_of_noComma hfirst
      · rw [ht]
        exact pair?_eq_none_of_first hfirst hcode

theorem encodeOperand_of_name {m : Mnemonic} (hm : m ≠ .stack .unk) {t : Text}
    (ht : m.name = upper (trim t)) (o : Option Operand) :
    encodeOperand t o = Instruction.encode <$> instruction m o := by
  rw [encodeOperand, ← ht, if_neg m.name_ne_dataName, Mnemonic.named?_name hm]

theorem encodeOperand_mnemonic {m : Mnemonic} (hm : m ≠ .stack .unk) (o : Option Operand) :
    encodeOperand m.name o = Instruction.encode <$> instruction m o := by
  apply encodeOperand_of_name hm
  rw [(tight_of_solid m.solid_name).trim_eq, m.upper_name]

theorem encodeInstruction_operandText {name : Text} {o : Option Operand} {w : Word}
    (h : ∀ o' ∈ o, o'.address.IsNumeric) (hpair : pair? (name ++ ' ' :: operandText o) = none)
    (hw : encodeOperand name o = .ok w) (s : Symbols) (here : Word) :
    encodeInstruction s here name (operandText o) = .ok w := by
  rw [encodeInstruction, hpair]
  dsimp only
  cases o with
  | none =>
      have hempty : (operandText none).isEmpty = true := rfl
      rw [if_pos hempty, hw]
      rfl
  | some o =>
      rw [operandText, if_neg (mt List.isEmpty_iff.mp (operandSource_ne_nil (h o rfl))),
        operand?_source (h o rfl)]
      dsimp only
      rw [resolveOperand_of_isNumeric (h o rfl)]
      exact congrArg (Except.mapError SourceError.ofEncodeError) hw

/-- A name and the rest of a statement on one line, which is not a directive. -/
structure IsStatement (name rest : Text) : Prop where
  solid_name : ∀ c ∈ name, isSolid c = true
  name_ne_nil : name ≠ []
  no_directive : name ∉ directives
  plain_rest : ∀ c ∈ rest, isPlain c = true
  tight_rest : Tight rest

theorem isStatement_mnemonic (m : Mnemonic) {o : Option Operand}
    (h : ∀ o' ∈ o, o'.address.IsNumeric) : IsStatement m.name (operandText o) where
  solid_name := m.isSolid_name
  name_ne_nil := m.name_spec.1
  no_directive hmem := m.name_spec.2.2 (List.mem_cons_of_mem _ hmem)
  plain_rest := by
    cases o with
    | none => exact List.forall_mem_nil _
    | some o => exact fun c hc => isPlain_of_isSolid (isSolid_of_source (h o rfl) c hc)
  tight_rest := by
    apply tight_of_solid
    cases o with
    | none => exact List.forall_mem_nil _
    | some o => exact solid_source (h o rfl)

theorem isSolid_dataName : ∀ c ∈ dataName, isSolid c = true := List.all_eq_true.mp (by decide)

theorem isStatement_data {t : Text} (hplain : ∀ c ∈ t, isPlain c = true) (ht : Tight t) :
    IsStatement dataName t where
  solid_name := isSolid_dataName
  name_ne_nil := by decide
  no_directive := by decide
  plain_rest := hplain
  tight_rest := ht

theorem isPlain_text (op : StackOp) : ∀ c ∈ op.text, isPlain c = true := by
  by_cases hop : op = .unk
  · rw [hop]
    exact List.all_eq_true.mp (by decide)
  · rw [StackOp.text_eq_name hop]
    exact fun c hc => isPlain_of_isSolid ((Mnemonic.stack op).isSolid_name c hc)

theorem text_ne_nil (op : StackOp) : op.text ≠ [] := by
  by_cases hop : op = .unk
  · rw [hop]
    decide
  · rw [StackOp.text_eq_name hop]
    exact (Mnemonic.stack op).name_spec.1

theorem tight_text (op : StackOp) : Tight op.text := by
  by_cases hop : op = .unk
  · rw [hop]
    exact tight_append_blank (t := octalPadded 3 0x3A)
      (fun c hc => isBlank_of_isSolid (isSolid_dataName c hc)) (by decide)
      (tight_of_solid solid_octalPadded) (octalPadded_ne_nil 3 _)
  · rw [StackOp.text_eq_name hop]
    exact tight_of_solid (Mnemonic.stack op).solid_name

/-- The first blank on the line of a pair stands before the second opcode, or
inside the first one if that is undefined. -/
theorem exists_statement_pair (first second : StackOp) :
    ∃ name rest, IsStatement name rest ∧ rest ≠ [] ∧
      (Instruction.pair first second).text = name ++ ' ' :: rest := by
  by_cases hop : first = .unk
  · have hcode : ∀ c ∈ "072,".toList, isSolid c = true := List.all_eq_true.mp (by decide)
    have hplain : ∀ c ∈ "072,".toList ++ ' ' :: second.text, isPlain c = true := by
      intro c hc
      rcases List.mem_append.mp hc with hc | hc
      · exact isPlain_of_isSolid (hcode c hc)
      · rcases List.mem_cons.mp hc with rfl | hc
        · rfl
        · exact isPlain_text second c hc
    have htight : Tight ("072,".toList ++ ' ' :: second.text) :=
      tight_append_blank (fun c hc => isBlank_of_isSolid (hcode c hc)) (by decide)
        (tight_text second) (text_ne_nil second)
    refine ⟨dataName, _, isStatement_data hplain htight, List.cons_ne_nil _ _, ?_⟩
    rw [hop]
    rfl
  · have hname : ∀ c ∈ first.name ++ [','], isSolid c = true := by
      intro c hc
      rcases List.mem_append.mp hc with hc | hc
      · exact (Mnemonic.stack first).isSolid_name c hc
      · rw [List.mem_singleton.mp hc]
        rfl
    have hcomma : ∀ name ∈ directives, ',' ∉ name := by decide
    refine ⟨first.name ++ [','], second.text, ⟨hname,
      List.append_ne_nil_of_right_ne_nil _ (List.cons_ne_nil _ _),
      fun hmem => hcomma _ hmem (List.mem_append_right _ List.mem_cons_self), isPlain_text second,
      tight_text second⟩, text_ne_nil second, ?_⟩
    rw [Instruction.text, StackOp.text_eq_name hop, List.append_assoc, List.append_assoc]
    rfl

theorem encodeInstruction_of_pair? {name rest : Text} {w : Word}
    (h : pair? (name ++ ' ' :: rest) = some w) (s : Symbols) (here : Word) :
    encodeInstruction s here name rest = .ok w := by
  rw [encodeInstruction, h]

/-- A raw word in octal with any number of leading zeros. -/
theorem encodeInstruction_data (width : Nat) (w : Word) (s : Symbols) (here : Word) :
    encodeInstruction s here dataName (octalPadded width w.toNat) = .ok w := by
  have hsmall : w.toNat < 0x10000000000000000 := Nat.lt_of_lt_of_le w.isLt (by decide)
  have hpair : pair? (dataName ++ ' ' :: octalPadded width w.toNat) = none := by
    have hname : ',' ∉ dataName ++ [' '] := by decide
    apply pair?_eq_none_of_noComma
    intro c hc
    rw [List.append_cons] at hc
    rcases List.mem_append.mp hc with hc | hc
    · exact beq_eq_false_of_notMem hname c hc
    · exact ne_comma_of_isInner (isInner_of_octalPadded c hc)
  have hword : encodeOperand dataName (some ⟨.plain (.number w.toNat), {}⟩) = .ok w := by
    have hname : upper (trim dataName) = dataName := by decide
    have hnumber : numberOperand dataName (some ⟨.plain (.number w.toNat), {}⟩) 0xFFFF =
        .ok w.toNat := if_pos (Nat.le_of_lt_succ w.isLt)
    rw [encodeOperand, hname, if_pos rfl, hnumber]
    exact congrArg Except.ok (ofNat_toNat_self w)
  rw [encodeInstruction, hpair]
  dsimp only
  rw [if_neg (mt List.isEmpty_iff.mp (octalPadded_ne_nil width _)),
    operand?_octalPadded width hsmall]
  exact congrArg (Except.mapError SourceError.ofEncodeError) hword

theorem eq_pair_of_format {i : Instruction} (h : i.format = .pair) :
    ∃ first second, i = .pair first second := by
  cases i with
  | pair first second => exact ⟨first, second, rfl⟩
  | _ => cases h

theorem mnemonic_ne_unk {i : Instruction} (h : i.format ≠ .pair) : i.mnemonic ≠ .stack .unk := by
  cases i with
  | pair first second => exact absurd rfl h
  | _ => exact Mnemonic.noConfusion

theorem encodeOperand_operand {i : Instruction} (hi : i.InRange) (hpair : i.format ≠ .pair) :
    encodeOperand i.mnemonic.name i.operand = .ok i.encode := by
  obtain ⟨j, hj, hji⟩ := instruction_operand hi hpair
  rw [encodeOperand_mnemonic (mnemonic_ne_unk hpair), hj, ← hji]
  rfl

/-- The text of an instruction in range is a statement that stands for its word
everywhere. -/
theorem exists_statement_text {i : Instruction} (hi : i.InRange) :
    ∃ name rest, IsStatement name rest ∧ i.text = spaced name rest ∧
      ∀ s here, encodeInstruction s here name rest = .ok i.encode := by
  by_cases hpair : i.format = .pair
  · obtain ⟨first, second, rfl⟩ := eq_pair_of_format hpair
    obtain ⟨name, rest, hstatement, hrest, htext⟩ := exists_statement_pair first second
    have hcode := pair?_text first second
    rw [htext] at hcode
    refine ⟨name, rest, hstatement, ?_, encodeInstruction_of_pair? hcode⟩
    rw [htext, spaced_of_ne_nil name hrest]
  · have hnumeric : ∀ o ∈ i.operand, o.address.IsNumeric :=
      fun o ho => Instruction.isNumeric_operand ho
    refine ⟨i.mnemonic.name, operandText i.operand, isStatement_mnemonic _ hnumeric, ?_,
      encodeInstruction_operandText hnumeric (pair?_mnemonic _ hnumeric)
        (encodeOperand_operand hi hpair)⟩
    rw [Instruction.text_eq hpair, spaced_operandText hnumeric]

/-- So is the text of any word, which is raw data if no format admits it. -/
theorem exists_statement (w : Word) :
    ∃ name rest, IsStatement name rest ∧ Instruction.disassemble w = spaced name rest ∧
      ∀ s here, encodeInstruction s here name rest = .ok w := by
  rw [Instruction.disassemble]
  cases hdecode : Instruction.decode? w with
  | none =>
      refine ⟨dataName, octalPadded 6 w.toNat, isStatement_data
        (fun c hc => isPlain_of_isInner (isInner_of_octalPadded c hc))
        (tight_of_solid solid_octalPadded), ?_, encodeInstruction_data 6 w⟩
      rw [spaced_of_ne_nil dataName (octalPadded_ne_nil 6 _)]
      rfl
  | some i =>
      have hstatement := exists_statement_text (Instruction.inRange_of_decode? hdecode)
      rw [Instruction.encode_of_decode? hdecode] at hstatement
      exact hstatement

end Assembler

end StackComputer
