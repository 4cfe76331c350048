import StackComputer.CommandLine
import StackComputer.Proofs.LabelOperand
import StackComputer.Proofs.OperandEncoding

/-!
# References to labels

A label means the same to the assembler and to the machine: the word of a
statement that refers to it decodes to an instruction that starts from the
address of the label, when it is executed where the statement was placed.
-/

namespace StackComputer

namespace Displacement

def between (a t : Word) : Displacement :=
  ⟨decide ((t.toNat : Int) - a.toNat < 0), BitVec.ofNat 16 ((t.toNat : Int) - a.toNat).natAbs⟩

theorem apply_between (a t : Word) : (between a t).apply a = t := by
  have ha := a.isLt
  have ht := t.isLt
  rw [apply, between]
  dsimp only
  by_cases hback : (t.toNat : Int) - a.toNat < 0
  · rw [if_pos (decide_eq_true hback)]
    apply BitVec.eq_of_toNat_eq
    rw [BitVec.toNat_sub, BitVec.toNat_ofNat]
    omega
  · rw [if_neg (mt of_decide_eq_true hback)]
    apply BitVec.eq_of_toNat_eq
    rw [BitVec.toNat_add, BitVec.toNat_ofNat]
    omega

end Displacement

namespace Assembler

open Text Instruction

theorem isSymbol_of_labelOf {line name : Text} (h : labelOf line = some name) :
    isSymbol name = true := by
  rw [labelOf, splitLabel] at h
  split at h
  · split at h
    · next hsymbol => exact Option.some.inj h ▸ hsymbol
    · cases h
  · cases h

/-! ## Resolved operands -/

/-- The address of a label once it is resolved. -/
def resolvedAddress (relative viaDb : Bool) (here t : Word) : Address :=
  if viaDb then .db (.number t.toNat)
  else if relative then
    .own (decide ((t.toNat : Int) - here.toNat < 0)) ((t.toNat : Int) - here.toNat).natAbs
  else .plain (.number t.toNat)

theorem resolveOperand_labelAddress {symbols : Symbols} {name : Text} {t : Word}
    (hname : symbols.lookup (upper name) = some t) (here : Word) (relative viaDb : Bool)
    (s : Suffixes) :
    resolveOperand symbols here relative ⟨labelAddress viaDb name, s⟩ =
      .ok ⟨resolvedAddress relative viaDb here t, s⟩ := by
  have hfind : symbols.find name = .ok t := by rw [Symbols.find, hname]
  cases viaDb with
  | true =>
      change (symbols.find name >>= fun target => _) = _
      rw [hfind]
      rfl
  | false =>
      change (symbols.find name >>= fun target => _) = _
      rw [hfind]
      cases relative <;> rfl

theorem isRelativeName_name {m : Mnemonic} (hm : m ≠ .stack .unk) :
    isRelativeName m.name = m.isRelative := by
  rw [isRelativeName, Mnemonic.named?_name hm, Option.any_some]

theorem encodeInstruction_operand {m : Mnemonic} (hm : m ≠ .stack .unk) {t : Text} {o : Operand}
    (ht : operand? t = some o) (symbols : Symbols) (here : Word) :
    encodeInstruction symbols here m.name t = (do
      let o ← resolveOperand symbols here m.isRelative o
      (encodeOperand m.name (some o)).mapError .ofEncodeError) := by
  have hne : ¬ t.isEmpty = true := by
    intro hempty
    rw [List.isEmpty_iff.mp hempty] at ht
    cases ht
  rw [encodeInstruction, pair?_operand m ht]
  dsimp only
  rw [if_neg hne, ht, isRelativeName_name hm]

theorem encodeInstruction_label {m : Mnemonic} (hm : m ≠ .stack .unk) {symbols : Symbols}
    {here t w : Word} {operand label : Text} {viaDb : Bool} {s : Suffixes}
    (hoperand : IsLabelOperand operand viaDb label s) (hlabel : isSymbol label = true)
    (hlookup : symbols.lookup (upper label) = some t)
    (hw : encodeInstruction symbols here m.name operand = .ok w) :
    ∃ i, instruction m (some ⟨resolvedAddress m.isRelative viaDb here t, s⟩) = .ok i ∧
      i.encode = w := by
  obtain ⟨name, hname, hread⟩ := hoperand.operand? hlabel
  rw [encodeInstruction_operand hm hread, resolveOperand_labelAddress (hname ▸ hlookup), ok_bind,
    encodeOperand_mnemonic hm] at hw
  exact map_eq_ok.mp (mapError_eq_ok.mp hw)

/-! ## Encoded references -/

/-- An encoded instruction is read back as it was written. -/
structure Written (i : Instruction) (m : Mnemonic) (s : Suffixes) : Prop where
  decode : decode? i.encode = some i
  mnemonic : i.mnemonic = m
  suffixes : i.suffixes = s

theorem written_filled {m : Mnemonic} {o : Operand} {k n : Nat} (h : m.Takes o k)
    (hn : n ≤ 2 ^ k - 1) : Written (m.filled o.address n o.suffixes) m o.suffixes := by
  refine ⟨?_, mnemonic_filled (ne_unk_of_takes h) _ _ _, suffixes_filled h n⟩
  rw [decode?_encode_eq_wrapped, (fits_filled h hn).wrapped_eq]

theorem written_own {m : Mnemonic} (hm : m.isRelative = true) {back : Bool} {n : Nat} {s : Suffixes}
    {i : Instruction} (h : instruction m (some ⟨.own back n, s⟩) = .ok i) :
    Written i m s ∧ i.distance? = some ⟨back, BitVec.ofNat 16 n⟩ := by
  obtain ⟨k, n, htakes, ⟨⟩, hle, rfl⟩ := takes_of_instruction h
  refine ⟨written_filled htakes hle, ?_⟩
  cases m with
  | br | bro | load | count op | flag op | bcc selector => cases back <;> rfl
  | _ => cases hm

/-- References relative to the data base take a label as it stands. -/
theorem written_data {m : Mnemonic} {viaDb : Bool} {here t : Word} {s : Suffixes} {i : Instruction}
    (hm : (∃ op, m = .memory op) ∨ m = .load ∧ viaDb = true)
    (h : instruction m (some ⟨resolvedAddress m.isRelative viaDb here t, s⟩) = .ok i) :
    Written i m s ∧ i.dataDisplacement? = some t := by
  obtain ⟨k, n, htakes, hn, hle, rfl⟩ := takes_of_instruction h
  refine ⟨written_filled htakes hle, ?_⟩
  rcases hm with ⟨op, rfl⟩ | ⟨rfl, rfl⟩
  · cases viaDb <;> cases hn <;> exact congrArg some (ofNat_toNat_self t)
  · cases hn
    exact congrArg some (ofNat_toNat_self t)

theorem Written.isBranch {i : Instruction} {m : Mnemonic} {s : Suffixes} (h : Written i m s)
    (hm : m.isRelative = true) (hload : m ≠ .load) : i.isBranch = true := by
  rw [← h.mnemonic] at hm hload
  cases i with
  | br d s | bcc selector d indirect | count op d indirect | flag op d indirect | bro d => rfl
  | load target s => exact absurd rfl hload
  | _ => cases hm

theorem Written.exists_load {i : Instruction} {s : Suffixes} (h : Written i .load s) :
    ∃ target, i = .load target s := by
  obtain ⟨-, hm, hs⟩ := h
  cases i with
  | load target s' => exact ⟨target, congrArg (Instruction.load target) hs⟩
  | _ => cases hm

/-! ## Statements -/

/-- The statement is a mnemonic and a label with suffixes. -/
structure IsReference (t : Text) (m : Mnemonic) (viaDb : Bool) (label : Text) (s : Suffixes) :
    Prop where
  mnemonic : upper (firstWord t).1 = m.name
  operand : IsLabelOperand (firstWord t).2 viaDb label s

theorem content_name (m : Mnemonic) (operand : Text) :
    content m.name operand = .ok (.instruction m.name operand) :=
  content_of_no_directive (fun hmem => m.name_spec.2.2 (List.mem_cons_of_mem _ hmem)) operand

theorem exists_instruction {source line labelLine label : Text} {p : Program} {k k' : Nat}
    {a t : Word} {m : Mnemonic} {viaDb : Bool} {s : Suffixes} (hp : assemble source = .ok p)
    (hm : m ≠ .stack .unk) (hline : LineAt source line k a)
    (hlabelLine : LineAt source labelLine k' t) (hlabel : labelOf labelLine = some label)
    (href : IsReference (statementOf line) m viaDb label s) :
    ∃ i, p.words[k]? = some (a, i.encode) ∧
      instruction m (some ⟨resolvedAddress m.isRelative viaDb a t, s⟩) = .ok i := by
  obtain ⟨l, hl, -, -⟩ := exists_layout_of_assemble hp
  have hne : statementOf line ≠ [] := by
    intro hempty
    have hnil := href.mnemonic
    rw [hempty] at hnil
    exact m.name_spec.1 hnil.symm
  have horg : upper (firstWord (statementOf line)).1 ≠ orgName := by
    rw [href.mnemonic]
    exact fun heq => m.name_spec.2.2 (heq ▸ by decide)
  obtain ⟨c, front, ws, back, hc, hws, hwords, hfront⟩ := hline.exists_words hp hl hne horg
  rw [href.mnemonic, content_name] at hc
  cases hc
  obtain ⟨w, hw, hws⟩ := bind_eq_ok.mp hws
  cases hws
  obtain ⟨i, hi, rfl⟩ := encodeInstruction_label hm href.operand (isSymbol_of_labelOf hlabel)
    (hlabelLine.lookup_label hl hlabel) hw
  refine ⟨i, ?_, hi⟩
  rw [hwords, List.append_assoc, List.getElem?_append_right (Nat.le_of_eq hfront), hfront,
    Nat.sub_self, placeWords, hline.address_eq]
  rfl

end Assembler

open Assembler Instruction in
/-- The word of a reference to a label decodes to what was written. Where it was
placed, it starts from the address of the label: a relative one always, and one
to the data base while that is zero. -/
theorem label_reference {source line labelLine label : Text} {p : Program} {k k' : Nat}
    {a t : Word} {m : Mnemonic} {viaDb : Bool} {s : Suffixes} (hp : assemble source = .ok p)
    (hline : LineAt source line k a) (hlabelLine : LineAt source labelLine k' t)
    (hlabel : labelOf labelLine = some label)
    (href : IsReference (statementOf line) m viaDb label s) :
    (m.isRelative = true → viaDb = false → ∃ i d,
      p.words[k]? = some (a, i.encode) ∧ Written i m s ∧ i.distance? = some d ∧ d.apply a = t ∧
      ∀ machine : Machine, machine.ReadyFor a i → i.UsesBase machine t ∧
        ∀ (β : Type) [Bus β] (b : β),
          (m ≠ .load → (machine.step b).1.regs.pc =
            if i.isTaken machine then machine.resolve t s else (a + 1).address) ∧
          (m = .load → (machine.step b).1.regs.ra = machine.memory.read (machine.resolve t s) ∧
            (machine.step b).1.regs.depth = machine.regs.depth + 1) ∧
          (s = {} → machine.resolve t s = t)) ∧
    ((∃ op, m = .memory op) ∨ m = .load ∧ viaDb = true → ∃ i,
      p.words[k]? = some (a, i.encode) ∧ Written i m s ∧ i.dataDisplacement? = some t ∧
      ∀ machine : Machine, machine.ReadyFor a i → machine.regs.db = 0 →
        i.UsesBase machine t) := by
  constructor
  · rintro hrelative rfl
    have hm : m ≠ .stack .unk := by
      rintro rfl
      cases hrelative
    obtain ⟨i, hword, hi⟩ := exists_instruction hp hm hline hlabelLine hlabel href
    rw [hrelative] at hi
    obtain ⟨hwritten, hdistance⟩ := written_own hrelative hi
    have hbase : (Displacement.between a t).apply a = t := Displacement.apply_between a t
    refine ⟨i, Displacement.between a t, hword, hwritten, hdistance, hbase, ?_⟩
    intro machine hready
    have huses : i.UsesBase machine t :=
      hbase ▸ usesBase_of_distance hready hwritten.decode hline.address_eq hdistance
    refine ⟨huses, ?_⟩
    intro β _ b
    refine ⟨?_, ?_, ?_⟩
    · intro hload
      rw [huses.pc_step (hwritten.isBranch hrelative hload), hwritten.suffixes, hready.pc_eq]
    · rintro rfl
      obtain ⟨target, rfl⟩ := hwritten.exists_load
      exact huses.ra_step b
    · rintro rfl
      exact machine.resolve_plain hlabelLine.address_eq
  · intro hdata
    have hm : m ≠ .stack .unk := by
      rcases hdata with ⟨op, rfl⟩ | ⟨rfl, -⟩
      · exact Mnemonic.noConfusion
      · exact Mnemonic.noConfusion
    obtain ⟨i, hword, hi⟩ := exists_instruction hp hm hline hlabelLine hlabel href
    obtain ⟨hwritten, hdisplacement⟩ := written_data hdata hi
    refine ⟨i, hword, hwritten, hdisplacement, ?_⟩
    intro machine hready hdb
    exact usesBase_of_dataDisplacement hready hwritten.decode hdisplacement hdb

/-- A branch ahead and a reference to data, in small letters. -/
def labelledSource : Text := "ORG 100\nBR end\nLDD x,i\nX: DW 7\nEND: HALT\n".toList

def labelledProgram : Program :=
  { origin := 0x40, words := [(0x40, 0xC003), (0x41, 0xD642), (0x42, 7), (0x43, 0x30F0)] }

open Assembler Instruction CommandLine in
theorem label_reference_labelledSource :
    assemble labelledSource = .ok labelledProgram ∧
    (∃ i, labelledProgram.words[0]? = some (0x40, i.encode) ∧ Written i .br {} ∧
      (boot labelledProgram none).ReadyFor 0x40 i ∧
      i.UsesBase (boot labelledProgram none) 0x43 ∧
      ((boot labelledProgram none).step EmptyBus.mk).1.regs.pc = 0x43) ∧
    ∃ i, labelledProgram.words[1]? = some (0x41, i.encode) ∧
      Written i (.memory .ldd) ⟨true, false⟩ ∧ i.dataDisplacement? = some 0x42 := by
  have hp : assemble labelledSource = .ok labelledProgram := rfl
  have hlines : Text.lines labelledSource =
      ["ORG 100".toList, "BR end".toList, "LDD x,i".toList, "X: DW 7".toList,
        "END: HALT".toList] := by decide +kernel
  have hbranch : LineAt labelledSource "BR end".toList 0 0x40 :=
    ⟨["ORG 100".toList], _, _, hlines, rfl, rfl, rfl⟩
  have hdouble : LineAt labelledSource "LDD x,i".toList 1 0x41 :=
    ⟨["ORG 100".toList, "BR end".toList], _, _, hlines, rfl, rfl, rfl⟩
  have hdata : LineAt labelledSource "X: DW 7".toList 2 0x42 :=
    ⟨["ORG 100".toList, "BR end".toList, "LDD x,i".toList], _, _, hlines, rfl, rfl, rfl⟩
  have hend : LineAt labelledSource "END: HALT".toList 3 0x43 :=
    ⟨["ORG 100".toList, "BR end".toList, "LDD x,i".toList, "X: DW 7".toList], _, _, hlines, rfl,
      rfl, rfl⟩
  have hbranchText : IsReference (statementOf "BR end".toList) .br false "END".toList {} :=
    ⟨rfl, rfl⟩
  have hdoubleText : IsReference (statementOf "LDD x,i".toList) (.memory .ldd) false "X".toList
      ⟨true, false⟩ := ⟨rfl, rfl⟩
  obtain ⟨hrelative, -⟩ := label_reference hp hbranch hend rfl hbranchText
  obtain ⟨-, hdirect⟩ := label_reference hp hdouble hdata rfl hdoubleText
  obtain ⟨i, d, hword, hwritten, -, -, hrun⟩ := hrelative rfl rfl
  obtain ⟨j, hword', hwritten', hj, -⟩ := hdirect (.inl ⟨_, rfl⟩)
  have hencode : i.encode = 0xC003 := (Prod.mk.inj (Option.some.inj hword)).2.symm
  obtain rfl : i = .br ⟨false, 3⟩ {} := by
    have hdecode := hwritten.decode
    rw [hencode] at hdecode
    exact (Option.some.inj hdecode).symm
  have hready : (boot labelledProgram none).ReadyFor 0x40 (.br ⟨false, 3⟩ {}) := by
    refine ⟨rfl, rfl, ?_, Nat.zero_le _⟩
    change ((((Memory.zero.write 0x40 0xC003).write 0x41 0xD642).write 0x42 7).write 0x43
      0x30F0).read 0x40 = _
    simp only [Memory.read_write]
    decide
  obtain ⟨huses, hstep⟩ := hrun _ hready
  obtain ⟨hpc, -, hplain⟩ := hstep EmptyBus EmptyBus.mk
  refine ⟨hp, ⟨_, hword, hwritten, hready, huses, ?_⟩, j, hword', hwritten', hj⟩
  rw [hpc Mnemonic.noConfusion, hplain rfl]
  rfl

end StackComputer
