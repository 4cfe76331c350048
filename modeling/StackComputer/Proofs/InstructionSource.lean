import StackComputer.Proofs.InstructionLine
import StackComputer.Proofs.LabelOperand

/-!
# Sources of one instruction

A line without label, comment or directive can be assembled as a source of its
own or as the text of an instruction. A source takes the line apart first, puts
its mnemonic into capitals and resolves its operand; both ways come to the same
word, or both refuse the line.
-/

namespace StackComputer

open Text

/-! ## Halves of a pair -/

theorem StackOp.named?_upper (name : Text) : named? (upper name) = named? name := by
  simp only [named?, sameLetters, upper_upper]

theorem StackOp.solid_of_named? {op : StackOp} {t : Text} (h : named? t = some op) :
    ∀ c ∈ t, isBlank c = false := by
  have hname : upper op.name = op.name := (Mnemonic.stack op).upper_name
  have hupper : op.name = upper t := by
    simpa [sameLetters, hname] using List.find?_some h
  intro c hc
  have hmem : c.toUpper ∈ op.name := by
    rw [hupper]
    exact List.mem_map_of_mem hc
  rw [← isBlank_toUpper]
  exact (Mnemonic.stack op).solid_name c.toUpper hmem

namespace Assembler

/-- Half of a pair is the name of an opcode alone, or a number after a word that
announces it. -/
def halfCode? (word rest : Text) : Option (BitVec 6) :=
  if rest.isEmpty then (StackOp.named? word).map StackOp.code
  else if sameLetters word dataName then
    ((literal? rest).filter (· ≤ 0x3F)).map (BitVec.ofNat 6)
  else none

theorem halfCode?_upper (word rest : Text) : halfCode? (upper word) rest = halfCode? word rest := by
  rw [halfCode?, halfCode?, StackOp.named?_upper, sameLetters_upper]

theorem stackCode?_eq (t : Text) : stackCode? t = halfCode? (firstWord t).1 (firstWord t).2 := by
  have htrim := trim_eq_append t
  have hword : firstWord t = (firstToken t, trim (afterToken (trim t))) := by
    rw [← firstWord_trim, firstWord_eq, firstToken_trim]
  rw [stackCode?, hword, halfCode?]
  rcases startsBlank_afterToken (trim t) with hnil | ⟨b, rest, hrest, hb⟩
  · rw [hnil, List.append_nil] at htrim
    rw [hnil, htrim]
    cases StackOp.named? (firstToken t) with
    | some op => rfl
    | none => exact ite_self _
  · have hname : StackOp.named? (trim t) = none := by
      refine Option.eq_none_iff_forall_ne_some.mpr fun op hop => ?_
      have hsolid := StackOp.solid_of_named? hop b (by rw [htrim, hrest]; simp)
      simp [hb] at hsolid
    have hne := trim_afterToken_ne_nil (t := t) (by simp [hrest])
    rw [hname, if_neg (mt List.isEmpty_iff.mp hne)]

theorem stackCode?_congr {s t : Text} (h : firstWord s = (upper (firstWord t).1, (firstWord t).2)) :
    stackCode? s = stackCode? t := by
  rw [stackCode?_eq, stackCode?_eq, h, halfCode?_upper]

theorem stackCode?_trim {s t : Text} (h : trim s = trim t) : stackCode? s = stackCode? t := by
  rw [stackCode?_eq, stackCode?_eq, firstWord_congr h]

/-! ## Pairs -/

theorem pair?_congr {x x' y y' : Text} (hx : ∀ c ∈ x, (c == ',') = false)
    (hx' : ∀ c ∈ x', (c == ',') = false) (hfirst : stackCode? x' = stackCode? x)
    (hsecond : stackCode? y' = stackCode? y) : pair? (x' ++ ',' :: y') = pair? (x ++ ',' :: y) := by
  rw [pair?, pair?, cutAt?_append hx rfl, cutAt?_append hx' rfl]
  simp only [Option.bind_eq_bind, Option.bind_some, hfirst, hsecond]

theorem noComma_upper {t : Text} (h : ∀ c ∈ t, (c == ',') = false) :
    ∀ c ∈ upper t, (c == ',') = false := by
  simpa only [upper, List.forall_mem_map, isComma_toUpper] using h

variable {word tail : Text}

/-- A word in capitals and the trimmed text after it are the same half of a
pair. -/
theorem stackCode?_joined (hword : ∀ c ∈ word, isBlank c = false) (htail : StartsBlank tail) :
    stackCode? (upper word ++ ' ' :: trim tail) = stackCode? (word ++ tail) := by
  by_cases hne : word = []
  · have hblank : trim (' ' :: trim tail) = trim tail := (trim_cons rfl _).trans (trim_trim tail)
    simpa [hne, upper] using stackCode?_trim hblank
  · have hupper : upper word ≠ [] := by simpa [upper] using hne
    apply stackCode?_congr
    rw [firstWord_append_tail (solid_upper hword) hupper (startsBlank_cons rfl _),
      firstWord_append_tail hword hne htail, trim_cons rfl, trim_trim]

/-- A comma in the first word ends the first half there. -/
theorem pair?_joined_of_word {x y : Text} (hx : ∀ c ∈ x, (c == ',') = false)
    (hword : ∀ c ∈ x ++ ',' :: y, isBlank c = false) (htail : StartsBlank tail) :
    pair? (upper (x ++ ',' :: y) ++ ' ' :: trim tail) = pair? (x ++ ',' :: y ++ tail) := by
  obtain ⟨hfirst, hsecond⟩ := List.forall_mem_append.mp hword
  have hupper : upper (x ++ ',' :: y) = upper x ++ ',' :: upper y := upper_append x (',' :: y)
  rw [hupper, List.append_assoc, List.append_assoc]
  refine pair?_congr hx (noComma_upper hx) ?_
    (stackCode?_joined (List.forall_mem_cons.mp hsecond).2 htail)
  apply stackCode?_congr
  rw [firstWord_eq_self hfirst, firstWord_eq_self (solid_upper hfirst)]

/-- A comma after the first word leaves a first half of two words. -/
theorem pair?_joined_of_tail {x y : Text} (hword : ∀ c ∈ word, isBlank c = false)
    (hne : word ≠ []) (hcomma : ∀ c ∈ word, (c == ',') = false)
    (hx : ∀ c ∈ x, (c == ',') = false) (htail : StartsBlank (x ++ ',' :: y)) :
    pair? (upper word ++ ' ' :: trim (x ++ ',' :: y)) = pair? (word ++ (x ++ ',' :: y)) := by
  have hblank : StartsBlank x := by
    rcases htail with hnil | ⟨b, rest, heq, hb⟩
    · simp at hnil
    · cases x with
      | nil => exact .inl rfl
      | cons a x =>
          cases heq
          exact startsBlank_cons hb x
  have hupper : upper word ≠ [] := by simpa [upper] using hne
  have hleft : ∀ c ∈ upper word ++ ' ' :: trimLeft x, (c == ',') = false :=
    List.forall_mem_append.mpr ⟨noComma_upper hcomma, List.forall_mem_cons.mpr
      ⟨rfl, fun c hc => hx c ((List.dropWhile_sublist isBlank).subset hc)⟩⟩
  rw [trim_append_cons rfl, ← List.append_assoc, ← List.cons_append, ← List.append_assoc]
  refine pair?_congr (List.forall_mem_append.mpr ⟨hcomma, hx⟩) hleft ?_
    (stackCode?_trim (trim_trimRight y))
  apply stackCode?_congr
  rw [firstWord_append_tail (solid_upper hword) hupper (startsBlank_cons rfl _),
    firstWord_append_tail hword hne hblank, trim_cons rfl, trim_trimLeft]

theorem pair?_joined (hword : ∀ c ∈ word, isBlank c = false) (hne : word ≠ [])
    (htail : StartsBlank tail) :
    pair? (upper word ++ ' ' :: trim tail) = pair? (word ++ tail) := by
  rcases exists_first_or (· == ',') word with hcomma | ⟨x, c, y, rfl, hc, hx⟩
  · rcases exists_first_or (· == ',') tail with hnone | ⟨x, c, y, rfl, hc, hx⟩
    · have hjoined : ∀ c ∈ upper word ++ ' ' :: trim tail, (c == ',') = false :=
        List.forall_mem_append.mpr ⟨noComma_upper hcomma, List.forall_mem_cons.mpr
          ⟨rfl, fun c hc => hnone c (mem_of_mem_trim hc)⟩⟩
      rw [pair?_eq_none_of_noComma hjoined,
        pair?_eq_none_of_noComma (List.forall_mem_append.mpr ⟨hcomma, hnone⟩)]
    · obtain rfl : c = ',' := beq_iff_eq.mp hc
      exact pair?_joined_of_tail hword hne hcomma hx htail
  · obtain rfl : c = ',' := beq_iff_eq.mp hc
    exact pair?_joined_of_word hx hword htail

/-! ## Operands -/

theorem encodeOperand_upper (hword : ∀ c ∈ word, isBlank c = false) (o : Option Operand) :
    encodeOperand (upper word) o = encodeOperand word o := by
  rw [encodeOperand, encodeOperand, (tight_of_solid hword).trim_eq,
    (tight_of_solid (solid_upper hword)).trim_eq, upper_upper]

variable {o : Operand} {name symbol : Text} {max : Nat}

theorem resolveOperand_nil (h : o.address.symbol? = some symbol) (here : Word) (relative : Bool) :
    resolveOperand [] here relative o = .error (.undefinedLabel symbol) := by
  obtain ⟨address, suffixes⟩ := o
  match address, h with
  | .db (.symbol _), h | .plain (.symbol _), h =>
      cases h
      rfl

theorem number?_of_symbol? (h : o.address.symbol? = some symbol) : o.address.number? = none := by
  obtain ⟨address, suffixes⟩ := o
  match address, h with
  | .db (.symbol _), _ | .plain (.symbol _), _ => rfl

theorem numberOperand_ne_ok (h : o.address.symbol? = some symbol) (n : Nat) :
    numberOperand name (some o) max ≠ .ok n := by
  intro hn
  obtain ⟨_, ⟨⟩, hn⟩ := bind_eq_ok.mp hn
  obtain ⟨⟨⟩, -, hn⟩ := bind_eq_ok.mp hn
  obtain ⟨address, suffixes⟩ := o
  match address, h with
  | .db (.symbol _), _ | .plain (.symbol _), _ => cases hn

/-- No mnemonic takes a symbol that was not resolved. -/
theorem instruction_ne_ok (h : o.address.symbol? = some symbol) (m : Mnemonic) (i : Instruction) :
    instruction m (some o) ≠ .ok i := by
  intro hi
  obtain ⟨k, n, -, hn, -⟩ := takes_of_instruction hi
  rw [number?_of_symbol? h] at hn
  cases hn

theorem encodeOperand_ne_ok (h : o.address.symbol? = some symbol) (mnemonic : Text) (w : Word) :
    encodeOperand mnemonic (some o) ≠ .ok w := by
  intro hw
  rw [encodeOperand] at hw
  split at hw
  · obtain ⟨n, hn, -⟩ := map_eq_ok.mp hw
    exact numberOperand_ne_ok h n hn
  · split at hw
    · obtain ⟨i, hi, -⟩ := map_eq_ok.mp hw
      exact instruction_ne_ok h _ i hi
    · cases hw

/-! ## Lines -/

/-- Without labels a statement is encoded as a line of instruction text. -/
theorem encodeInstruction_eq_ok {t : Text} (hne : firstToken t ≠ []) (here w : Word) :
    encodeInstruction [] here (upper (firstWord t).1) (firstWord t).2 = .ok w ↔
      encodeLine t = .ok w := by
  have hpair : pair? (upper (firstWord t).1 ++ ' ' :: (firstWord t).2) = pair? (trim t) := by
    rw [trim_eq_append, ← firstWord_trim, firstWord_eq, firstToken_trim]
    exact pair?_joined solid_firstToken hne (startsBlank_afterToken (trim t))
  rw [encodeInstruction, encodeLine, hpair]
  cases pair? (trim t) with
  | some w' => simp
  | none =>
      rw [firstWord_eq]
      dsimp only
      rw [encodeText, trim_trim]
      split
      · rw [mapError_eq_ok, encodeOperand_upper solid_firstToken]
      · cases operand? (trim (afterToken t)) with
        | none => simp
        | some o =>
            dsimp only
            rw [← encodeOperand_upper solid_firstToken]
            cases hsymbol : o.address.symbol? with
            | none => rw [resolveOperand_eq_self hsymbol, ok_bind, mapError_eq_ok]
            | some symbol =>
                -- The one refuses the label, the other the operand it is left in.
                rw [resolveOperand_nil hsymbol]
                exact iff_of_false (by rintro ⟨⟩) (encodeOperand_ne_ok hsymbol _ w)

theorem scanLine_instruction {t : Text} {c : Char} (hc : isBlank c = false) (hmem : c ∈ t)
    (hsemicolon : ';' ∉ t) (hcolon : ':' ∉ t) (hname : upper (firstToken t) ∉ directives)
    (l : Layout) (n : Nat) :
    l.scanLine n t = .ok (l.place n (.instruction (upper (firstWord t).1) (firstWord t).2)) := by
  have hword : upper (firstWord t).1 ∉ directives := by simpa [firstWord_eq] using hname
  have horg : upper (firstWord t).1 ≠ "ORG".toList := fun heq => hword (by simp [heq, directives])
  rw [Layout.scanLine, withoutComment_eq_self hsemicolon,
    splitLabel_eq_none fun hmem => hcolon (mem_of_mem_trim hmem)]
  dsimp only
  rw [Layout.scanStatement, if_neg (mt List.isEmpty_iff.mp (trim_ne_nil hc hmem)), firstWord_trim]
  dsimp only
  rw [if_neg horg, content_of_no_directive hword]
  rfl

theorem emit_instruction (s : Symbols) (n : Nat) (a : Word) (mnemonic operand : Text) :
    emit s [⟨n, a, .instruction mnemonic operand⟩] =
      match encodeInstruction s a mnemonic operand with
      | .ok w => .ok [(a.address, w)]
      | .error cause => .error ⟨n, cause⟩ := by
  rw [emit, Content.encode]
  cases encodeInstruction s a mnemonic operand <;> rfl

end Assembler

open Assembler in
/-- A source of one line without label, comment or directive assembles just when
the line is an instruction, and then to the word of it at the start of memory. -/
theorem assemble_instruction_line {t : Text} (hsolid : ∃ c ∈ t, isBlank c = false)
    (hfeed : '\n' ∉ t) (hsemicolon : ';' ∉ t) (hcolon : ':' ∉ t)
    (hname : upper (firstToken t) ∉ directives) (p : Program) :
    assemble t = .ok p ↔
      ∃ w, (encodeLine t).toOption = some w ∧ p = { origin := 0, words := [(0, w)] } := by
  obtain ⟨c, hmem, hc⟩ := hsolid
  have hscan : Layout.scanLines {} 1 (lines t) =
      .ok (Layout.place {} 1 (.instruction (upper (firstWord t).1) (firstWord t).2)) := by
    rw [lines_eq_singleton (List.ne_nil_of_mem hmem) hfeed, Layout.scanLines,
      scanLine_instruction hc hmem hsemicolon hcolon hname]
    rfl
  simp only [toOption_eq_some, ← encodeInstruction_eq_ok (firstToken_ne_nil hc hmem) 0]
  have haddress : (0 : Word).address = 0 := by decide
  rw [assemble, hscan, ok_bind]
  change (emit [] [⟨1, 0, .instruction _ _⟩] >>= _) = _ ↔ _
  rw [emit_instruction, haddress]
  cases encodeInstruction [] 0 (upper (firstWord t).1) (firstWord t).2 with
  | error cause => simp
  | ok w =>
      constructor
      · rintro ⟨⟩
        exact ⟨w, rfl, rfl⟩
      · rintro ⟨_, ⟨⟩, rfl⟩
        rfl

open Assembler in
/-- A pair in small letters with a number for its first half, and blanks of
several kinds around both. -/
theorem assemble_instruction_line_data :
    (encodeLine "data\u2003 5 ,\tinca".toList).toOption = some 0x15B ∧
      assemble "data\u2003 5 ,\tinca".toList = .ok { origin := 0, words := [(0, 0x15B)] } := by
  have hsolid : ∃ c ∈ "data\u2003 5 ,\tinca".toList, isBlank c = false := ⟨'d', by decide⟩
  have hline : (encodeLine "data\u2003 5 ,\tinca".toList).toOption = some 0x15B := by
    decide +kernel
  have hassemble := assemble_instruction_line hsolid (by decide) (by decide) (by decide)
    (by decide) { origin := 0, words := [(0, 0x15B)] }
  exact ⟨hline, hassemble.mpr ⟨0x15B, hline, rfl⟩⟩

end StackComputer
