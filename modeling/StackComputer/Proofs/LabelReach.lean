import StackComputer.Proofs.LabelReference

/-!
# Labels in reach

The distance to a label is the plain difference of two addresses. A label that
is as near as the field of the mnemonic allows can be referred to, unless the
short way leads round the end of memory: counted the other way, it is always
too far.
-/

namespace StackComputer.Assembler

open Text

/-! ## One statement among others -/

/-- All statements but those of a line can be encoded. -/
def SoundExcept (l : Layout) (line : Nat) : Prop :=
  ∀ s ∈ l.statements, s.line ≠ line → ∃ ws, s.content.encode l.symbols s.address = .ok ws

section

variable {symbols : Symbols} {front back : List Statement} {statement : Statement}

theorem exists_emit {statements : List Statement}
    (h : ∀ s ∈ statements, ∃ ws, s.content.encode symbols s.address = .ok ws) :
    ∃ cells, emit symbols statements = .ok cells := by
  induction statements with
  | nil => exact ⟨[], rfl⟩
  | cons s rest ih =>
      obtain ⟨⟨ws, hws⟩, hrest⟩ := List.forall_mem_cons.mp h
      obtain ⟨cells, hcells⟩ := ih hrest
      exact ⟨placeWords s.address ws ++ cells, by rw [emit, hws, hcells]; rfl⟩

/-- The first statement that cannot be encoded is the one that is reported. -/
theorem emit_eq_error (hfront : ∀ s ∈ front, ∃ ws, s.content.encode symbols s.address = .ok ws)
    {cause : SourceError} (h : statement.content.encode symbols statement.address = .error cause) :
    emit symbols (front ++ statement :: back) = .error ⟨statement.line, cause⟩ := by
  induction front with
  | nil => rw [List.nil_append, emit, h]
  | cons s rest ih =>
      obtain ⟨⟨ws, hws⟩, hrest⟩ := List.forall_mem_cons.mp hfront
      rw [List.cons_append, emit, hws, ih hrest]
      rfl

end

theorem assemble_eq {source : Text} {l : Layout}
    (hl : Layout.scanLines {} 1 (lines source) = .ok l) :
    assemble source =
      (fun words => { origin := l.origin.getD 0, words }) <$>
        emit l.symbols l.statements.reverse := by
  rw [assemble, hl, ok_bind]
  cases emit l.symbols l.statements.reverse <;> rfl

section

variable {source line : Text} {before after : List Text} {l₀ l : Layout} {c : Content}

/-- The statement of a line is the only one with the number of the line. -/
theorem exists_statement_of_line (hlines : lines source = before ++ line :: after)
    (hbefore : Layout.scanLines {} 1 before = .ok l₀)
    (hl : Layout.scanLines {} 1 (lines source) = .ok l) (hne : statementOf line ≠ [])
    (horg : ¬ IsOrg line)
    (hc : content (upper (firstWord (statementOf line)).1) (firstWord (statementOf line)).2 =
      .ok c) :
    ∃ newer older,
      l.statements = newer ++ ⟨before.length + 1, l₀.counter, c⟩ :: older ∧
      ∀ s, s ∈ newer ∨ s ∈ older → s.line ≠ before.length + 1 := by
  rw [hlines] at hl
  obtain ⟨_, hsame, hrest⟩ := Layout.scanLines_append.mp hl
  cases hbefore.symm.trans hsame
  obtain ⟨l₂, hline, hafter⟩ := Layout.scanLines_cons _ _ _ _ hrest
  obtain ⟨older, holder, hbelow⟩ := Layout.statements_scanLines hbefore
  obtain ⟨newer, hnewer, habove⟩ := Layout.statements_scanLines hafter
  rw [Layout.scanLine_eq] at hline
  obtain ⟨l₁, hlabel, hstatement⟩ := bind_eq_ok.mp hline
  obtain ⟨hcounter, hstatements⟩ := Layout.label_keeps hlabel
  rcases Layout.scanStatement_cases hstatement with ⟨hempty, -⟩ | ⟨_, hmove, -⟩ |
    ⟨c', -, -, hc', rfl⟩
  · exact absurd hempty hne
  · exact absurd hmove horg
  · cases hc.symm.trans hc'
    refine ⟨newer, older, ?_, ?_⟩
    · rw [hnewer, Layout.place, hcounter, hstatements, holder, List.append_nil, Nat.add_comm]
    · intro s hs
      rcases hs with hs | hs
      · have hs := habove s hs
        omega
      · have hs := hbelow s hs
        omega

/-- If all others can be encoded, a statement decides whether the source can be
assembled. -/
theorem assemble_of_soundExcept (hlines : lines source = before ++ line :: after)
    (hbefore : Layout.scanLines {} 1 before = .ok l₀)
    (hl : Layout.scanLines {} 1 (lines source) = .ok l)
    (hothers : SoundExcept l (before.length + 1)) (hne : statementOf line ≠ [])
    (horg : ¬ IsOrg line)
    (hc : content (upper (firstWord (statementOf line)).1) (firstWord (statementOf line)).2 =
      .ok c) :
    (∀ ws, c.encode l.symbols l₀.counter = .ok ws → ∃ p, assemble source = .ok p) ∧
    ∀ cause, c.encode l.symbols l₀.counter = .error cause →
      assemble source = .error ⟨before.length + 1, cause⟩ := by
  obtain ⟨newer, older, hstatements, hnumber⟩ :=
    exists_statement_of_line hlines hbefore hl hne horg hc
  have hreverse : l.statements.reverse =
      older.reverse ++ ⟨before.length + 1, l₀.counter, c⟩ :: newer.reverse := by
    rw [hstatements, List.reverse_append, List.reverse_cons, List.append_assoc,
      List.singleton_append]
  have hsound : ∀ s, s ∈ newer ∨ s ∈ older →
      ∃ ws, s.content.encode l.symbols s.address = .ok ws := by
    intro s hs
    refine hothers s ?_ (hnumber s hs)
    rw [hstatements, List.mem_append, List.mem_cons]
    exact hs.imp_right .inr
  have hassemble := assemble_eq hl
  rw [hreverse] at hassemble
  constructor
  · intro ws hws
    have hall : ∀ s ∈ older.reverse ++ ⟨before.length + 1, l₀.counter, c⟩ :: newer.reverse,
        ∃ ws, s.content.encode l.symbols s.address = .ok ws := by
      intro s hs
      rcases List.mem_append.mp hs with hs | hs
      · exact hsound s (.inr (List.mem_reverse.mp hs))
      · rcases List.mem_cons.mp hs with rfl | hs
        · exact ⟨ws, hws⟩
        · exact hsound s (.inl (List.mem_reverse.mp hs))
    obtain ⟨cells, hcells⟩ := exists_emit hall
    rw [hcells] at hassemble
    exact ⟨_, hassemble⟩
  · intro cause hcause
    rw [hassemble, emit_eq_error (fun s hs => hsound s (.inr (List.mem_reverse.mp hs))) hcause]
    rfl

end

/-! ## Distances -/

/-- The statement is a mnemonic and a label with suffixes, in any order. -/
structure RefersTo (t : Text) (m : Mnemonic) (name : Text) (s : Suffixes) : Prop where
  mnemonic : upper (firstWord t).1 = m.name
  operand : operand? (firstWord t).2 = some ⟨.plain (.symbol name), s⟩

/-- A mnemonic that takes one distance takes all that fit. -/
theorem takes_distance {m : Mnemonic} {back back' : Bool} {n n' k : Nat} {s : Suffixes}
    (h : m.Takes ⟨.own back n, s⟩ k) : m.Takes ⟨.own back' n', s⟩ k :=
  ⟨by rw [← h.form]; cases m <;> rfl, h.indirect, h.indexed⟩

theorem isRelative_of_takes {m : Mnemonic} {back : Bool} {n k : Nat} {s : Suffixes}
    (h : m.Takes ⟨.own back n, s⟩ k) : m.isRelative = true := by
  cases m with
  | br | bro | load | count op | flag op | bcc selector => rfl
  | _ => cases h.form

/-- Long distances have eight bits, short ones five. -/
theorem width_of_takes {m : Mnemonic} {back : Bool} {n k : Nat} {s : Suffixes}
    (h : m.Takes ⟨.own back n, s⟩ k) : 2 ^ k - 1 ≤ 0xFF := by
  cases m with
  | br | bro | load | count op | flag op | bcc selector =>
      cases h.form
      decide
  | _ => cases h.form

theorem encodeInstruction_distance {m : Mnemonic} {back : Bool} {d k : Nat} {s : Suffixes}
    (htakes : m.Takes ⟨.own back d, s⟩ k) {t name : Text}
    (ht : operand? t = some ⟨.plain (.symbol name), s⟩) {symbols : Symbols} {target : Word}
    (hname : symbols.lookup (upper name) = some target) (here : Word) {n : Nat}
    (hn : ((target.toNat : Int) - here.toNat).natAbs = n) :
    (n ≤ 2 ^ k - 1 → ∃ w, encodeInstruction symbols here m.name t = .ok w) ∧
    (2 ^ k - 1 < n → encodeInstruction symbols here m.name t = .error (.fieldOverflow n)) := by
  have hm := ne_unk_of_takes htakes
  have hupper : m.name = upper (trim m.name) := by
    rw [(tight_of_solid m.solid_name).trim_eq, m.upper_name]
  have hresolve : resolveOperand symbols here true ⟨.plain (.symbol name), s⟩ =
      .ok ⟨.own (decide ((target.toNat : Int) - here.toNat < 0)) n, s⟩ := by
    rw [← hn]
    exact resolveOperand_labelAddress hname here true false s
  rw [encodeInstruction_operand hm ht, isRelative_of_takes htakes, hresolve, ok_bind,
    encodeOperand_of_takes hupper (takes_distance htakes) rfl]
  constructor
  · intro hle
    rw [if_pos hle]
    exact ⟨_, rfl⟩
  · intro hlt
    rw [if_neg (Nat.not_le_of_lt hlt)]
    rfl

/-- A line of a source refers to a label with the value `t`, and all the other
lines are free of errors. -/
structure LabelUse (source line : Text) (before after : List Text) (l₀ l : Layout)
    (m : Mnemonic) (name : Text) (s : Suffixes) (t : Word) : Prop where
  lines : Text.lines source = before ++ line :: after
  scanned : Layout.scanLines {} 1 before = .ok l₀
  layout : Layout.scanLines {} 1 (Text.lines source) = .ok l
  others : SoundExcept l (before.length + 1)
  statement : RefersTo (statementOf line) m name s
  label : ∃ labelLine label k, LineAt source labelLine k t ∧ labelOf labelLine = some label ∧
    upper label = upper name

namespace LabelUse

variable {source line name : Text} {before after : List Text} {l₀ l : Layout} {m : Mnemonic}
  {s : Suffixes} {t : Word}

theorem statement_ne_nil (h : LabelUse source line before after l₀ l m name s t) :
    statementOf line ≠ [] := by
  intro hempty
  have hnil := h.statement.mnemonic
  rw [hempty] at hnil
  exact m.name_spec.1 hnil.symm

theorem not_isOrg (h : LabelUse source line before after l₀ l m name s t) : ¬ IsOrg line := by
  rw [IsOrg, h.statement.mnemonic]
  exact fun heq => m.name_spec.2.2 (heq ▸ by decide)

theorem lookup (h : LabelUse source line before after l₀ l m name s t) :
    l.symbols.lookup (upper name) = some t := by
  obtain ⟨labelLine, label, k, hline, hlabel, hname⟩ := h.label
  exact hname ▸ hline.lookup_label h.layout hlabel

/-- Addresses are below the end of memory. -/
theorem addresses_lt (h : LabelUse source line before after l₀ l m name s t) :
    l₀.counter.toNat < 0x8000 ∧ t.toNat < 0x8000 := by
  obtain ⟨labelLine, label, k, hline, -, -⟩ := h.label
  exact ⟨Word.toNat_lt_of_address (Layout.addressed_empty.scanLines h.scanned).counter,
    Word.toNat_lt_of_address hline.address_eq⟩

theorem assemble_cases (h : LabelUse source line before after l₀ l m name s t)
    {operand : Text} (hoperand : (firstWord (statementOf line)).2 = operand) :
    (∀ w, encodeInstruction l.symbols l₀.counter m.name operand = .ok w →
      ∃ p, assemble source = .ok p) ∧
    ∀ cause, encodeInstruction l.symbols l₀.counter m.name operand = .error cause →
      assemble source = .error ⟨before.length + 1, cause⟩ := by
  have hc : content (upper (firstWord (statementOf line)).1) (firstWord (statementOf line)).2 =
      .ok (.instruction m.name operand) := by
    rw [h.statement.mnemonic, content_name, hoperand]
  obtain ⟨hok, herror⟩ := assemble_of_soundExcept h.lines h.scanned h.layout h.others
    h.statement_ne_nil h.not_isOrg hc
  constructor
  · intro w hw
    exact hok [w] (by rw [Content.encode, hw]; rfl)
  · intro cause hcause
    exact herror cause (by rw [Content.encode, hcause]; rfl)

end LabelUse

/-- A label at a distance of `d`, counted round the end of memory, can be
referred to if the end of memory is not between. Otherwise the statement is
refused with the distance the other way. -/
theorem label_in_reach {source line name : Text} {before after : List Text} {l₀ l : Layout}
    {m : Mnemonic} {s : Suffixes} {t : Word} {d width : Nat}
    (h : LabelUse source line before after l₀ l m name s t)
    (htakes : m.Takes ⟨.own false d, s⟩ width) (hd : d ≤ 2 ^ width - 1)
    (ht : (t.toNat : Int) = (l₀.counter.toNat + d) % 0x8000 ∨
      (t.toNat : Int) = (l₀.counter.toNat - d) % 0x8000) :
    (t.toNat = l₀.counter.toNat + d ∨ l₀.counter.toNat = t.toNat + d →
      ∃ p, assemble source = .ok p) ∧
    (¬ (t.toNat = l₀.counter.toNat + d ∨ l₀.counter.toNat = t.toNat + d) →
      assemble source = .error ⟨before.length + 1, .fieldOverflow (0x8000 - d)⟩) := by
  obtain ⟨hok, herror⟩ := h.assemble_cases rfl
  have hencode := fun n => encodeInstruction_distance (n := n) htakes h.statement.operand h.lookup
    l₀.counter
  have hwidth := width_of_takes htakes
  obtain ⟨hhere, htarget⟩ := h.addresses_lt
  constructor
  · intro hplain
    obtain ⟨w, hw⟩ := (hencode d (by omega)).1 hd
    exact hok w hw
  -- The plain difference is the way through all of memory.
  · intro hacross
    exact herror _ ((hencode (0x8000 - d) (by omega)).2 (by omega))

/-- A loop of two instructions behind an ORG. -/
def loopSource (org : Text) : Text := org ++ "\nL: NOP\nBR L\n".toList

/-- The layout of the loop before its first instruction. -/
def loopStart (a : Word) : Layout := { counter := a, origin := some a }

def nopPlaced (a : Word) : Layout :=
  { counter := (a + 1).address
    origin := some a
    symbols := [("L".toList, a)]
    statements := [⟨2, a, .instruction "NOP".toList []⟩] }

def brPlaced (a : Word) : Layout :=
  (nopPlaced a).place 3 (.instruction "BR".toList "L".toList)

theorem loop_use (org : Text) (a : Word)
    (hlines : lines (loopSource org) = [org, "L: NOP".toList, "BR L".toList])
    (horg : Layout.scanLines {} 1 [org] = .ok (loopStart a)) :
    LabelUse (loopSource org) "BR L".toList [org, "L: NOP".toList] [] (nopPlaced a) (brPlaced a)
      .br "L".toList {} a := by
  have hnop : (loopStart a).scanLines 2 ["L: NOP".toList] = .ok (nopPlaced a) := rfl
  have hbr : (nopPlaced a).scanLines 3 ["BR L".toList] = .ok (brPlaced a) := rfl
  have hscanned : Layout.scanLines {} 1 ([org] ++ ["L: NOP".toList]) = .ok (nopPlaced a) :=
    Layout.scanLines_append.mpr ⟨_, horg, hnop⟩
  have hlayout : Layout.scanLines {} 1 ([org, "L: NOP".toList] ++ ["BR L".toList]) =
      .ok (brPlaced a) := Layout.scanLines_append.mpr ⟨_, hscanned, hbr⟩
  refine ⟨hlines, hscanned, hlines ▸ hlayout, ?_, ⟨rfl, rfl⟩, ?_⟩
  · intro s hs hline
    rcases List.mem_cons.mp hs with rfl | hs
    · exact absurd rfl hline
    · cases List.mem_singleton.mp hs
      exact ⟨_, rfl⟩
  · exact ⟨"L: NOP".toList, "L".toList, 0,
      ⟨[org], ["BR L".toList], loopStart a, hlines, horg, rfl, rfl⟩, rfl, rfl⟩

theorem loop_takes : Mnemonic.br.Takes ⟨.own false 1, {}⟩ 8 := ⟨rfl, nofun, nofun⟩

/-- A loop in the middle of memory, and one with its branch at address zero. -/
theorem label_in_reach_loop :
    (∃ p, assemble (loopSource "ORG 100".toList) = .ok p) ∧
    assemble (loopSource "ORG 77777".toList) = .error ⟨3, .fieldOverflow 0x7FFF⟩ := by
  have hmiddle := loop_use "ORG 100".toList 0x40 (by decide +kernel) rfl
  have hborder := loop_use "ORG 77777".toList 0x7FFF (by decide +kernel) rfl
  exact ⟨(label_in_reach hmiddle loop_takes (by decide) (.inr (by decide))).1 (.inr (by decide)),
    (label_in_reach hborder loop_takes (by decide) (.inr (by decide))).2 (by decide)⟩

/-- So being in reach round the end of memory is not enough. -/
theorem reach_round_end_not_enough :
    ¬ ∀ {source line name : Text} {before after : List Text} {l₀ l : Layout} {m : Mnemonic}
      {s : Suffixes} {t : Word} {d width : Nat},
      LabelUse source line before after l₀ l m name s t → m.Takes ⟨.own false d, s⟩ width →
      d ≤ 2 ^ width - 1 →
      (t.toNat : Int) = (l₀.counter.toNat + d) % 0x8000 ∨
        (t.toNat : Int) = (l₀.counter.toNat - d) % 0x8000 →
      ∃ p, assemble source = .ok p := by
  intro hreach
  have hborder := loop_use "ORG 77777".toList 0x7FFF (by decide +kernel) rfl
  obtain ⟨p, hp⟩ := hreach hborder loop_takes (by decide) (.inr (by decide))
  have herror : assemble (loopSource "ORG 77777".toList) =
      .error ⟨3, .fieldOverflow 0x7FFF⟩ := by rfl
  rw [herror] at hp
  cases hp

end StackComputer.Assembler
