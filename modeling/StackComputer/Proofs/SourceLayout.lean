import Mathlib.Algebra.Ring.Nat
import StackComputer.Proofs.ListingAssembly

/-!
# Layout of a source

What the first pass does with one line, and what of it is still there after all
the lines: statements and labels are only ever added.
-/

namespace StackComputer.Assembler

open Text

/-! ## Lines -/

/-- The label a line defines. -/
def labelOf (t : Text) : Option Text := (splitLabel (trim (withoutComment false t))).1

/-- The statement of a line, without its label and comment. -/
def statementOf (t : Text) : Text := (splitLabel (trim (withoutComment false t))).2

def orgName : Text := "ORG".toList

def IsOrg (t : Text) : Prop := upper (firstWord (statementOf t)).1 = orgName

instance : DecidablePred IsOrg := fun t =>
  inferInstanceAs (Decidable (upper (firstWord (statementOf t)).1 = orgName))

/-- Where an ORG with this operand moves the location counter. -/
def orgAddress (s : Symbols) (here : Word) (operand : Text) : Scan Word := do
  narrow 16 0 0x7FFF (← evaluate s here operand)

namespace Layout

variable {l l₁ l₂ : Layout} {line : Nat} {name t : Text}

def label (l : Layout) : Option Text → Scan Layout
  | none => .ok l
  | some name => l.define name

theorem scanLine_eq (l : Layout) (line : Nat) (t : Text) :
    l.scanLine line t = l.label (labelOf t) >>= fun l => l.scanStatement line (statementOf t) := by
  rw [scanLine, labelOf, statementOf]
  rcases splitLabel (trim (withoutComment false t)) with ⟨_ | name, statement⟩ <;> rfl

theorem define_cases (h : l.define name = .ok l₁) :
    l.symbols.lookup (upper name) = none ∧
      l₁ = { l with symbols := (upper name, l.counter) :: l.symbols } := by
  rw [define] at h
  split at h
  · cases h
  · next hfree => exact ⟨Option.not_isSome_iff_eq_none.mp hfree, (Except.ok.inj h).symm⟩

theorem label_cases {o : Option Text} (h : l.label o = .ok l₁) :
    (o = none ∧ l₁ = l) ∨
      ∃ name, o = some name ∧ l.symbols.lookup (upper name) = none ∧
        l₁ = { l with symbols := (upper name, l.counter) :: l.symbols } := by
  cases o with
  | none => exact .inl ⟨rfl, (Except.ok.inj h).symm⟩
  | some name => exact .inr ⟨name, rfl, define_cases h⟩

theorem label_keeps {o : Option Text} (h : l.label o = .ok l₁) :
    l₁.counter = l.counter ∧ l₁.statements = l.statements := by
  rcases label_cases h with ⟨-, rfl⟩ | ⟨name, -, -, rfl⟩
  · exact ⟨rfl, rfl⟩
  · exact ⟨rfl, rfl⟩

theorem address_narrow {n : Int} {a : Word} (h : (narrow 16 0 0x7FFF n : Scan Word) = .ok a) :
    a.address = a := by
  rw [narrow] at h
  split at h
  · next hrange =>
      cases h
      obtain ⟨k, rfl⟩ := Int.eq_ofNat_of_zero_le hrange.1
      apply BitVec.eq_of_toNat_eq
      rw [Word.toNat_address, BitVec.ofInt_natCast, BitVec.toNat_ofNat]
      omega
  · cases h

theorem address_orgAddress {s : Symbols} {here a : Word} {operand : Text}
    (h : orgAddress s here operand = .ok a) : a.address = a := by
  obtain ⟨n, -, h⟩ := bind_eq_ok.mp h
  exact address_narrow h

/-- A statement is empty, moves the location counter or is placed at it. -/
theorem scanStatement_cases (h : l.scanStatement line t = .ok l₁) :
    (t = [] ∧ l₁ = l) ∨
    (∃ a, upper (firstWord t).1 = orgName ∧
      orgAddress l.symbols l.counter (firstWord t).2 = .ok a ∧ l₁ = l.moveTo a) ∨
    ∃ c, t ≠ [] ∧ upper (firstWord t).1 ≠ orgName ∧
      content (upper (firstWord t).1) (firstWord t).2 = .ok c ∧ l₁ = l.place line c := by
  rw [scanStatement] at h
  split at h
  · next hempty => exact .inl ⟨List.isEmpty_iff.mp hempty, (Except.ok.inj h).symm⟩
  · next hempty =>
      dsimp only at h
      split at h
      · next horg =>
          obtain ⟨n, hn, h⟩ := bind_eq_ok.mp h
          obtain ⟨a, ha, h⟩ := bind_eq_ok.mp h
          exact .inr (.inl ⟨a, horg, bind_eq_ok.mpr ⟨n, hn, ha⟩, (Except.ok.inj h).symm⟩)
      · next horg =>
          obtain ⟨c, hc, h⟩ := bind_eq_ok.mp h
          exact .inr (.inr ⟨c, mt List.isEmpty_iff.mpr hempty, horg, hc,
            (Except.ok.inj h).symm⟩)

theorem scanLines_cons (l : Layout) (n : Nat) (t : Text) (ts : List Text)
    (h : l.scanLines n (t :: ts) = .ok l₂) :
    ∃ l₁, l.scanLine n t = .ok l₁ ∧ l₁.scanLines (n + 1) ts = .ok l₂ := by
  rw [scanLines] at h
  split at h
  · next l₁ hline => exact ⟨l₁, hline, h⟩
  · cases h

theorem scanLines_append {n : Nat} {before after : List Text} :
    l.scanLines n (before ++ after) = .ok l₂ ↔
      ∃ l₁, l.scanLines n before = .ok l₁ ∧ l₁.scanLines (n + before.length) after = .ok l₂ := by
  induction before generalizing l n with
  | nil =>
      refine ⟨fun h => ⟨l, rfl, h⟩, ?_⟩
      rintro ⟨_, ⟨⟩, h⟩
      exact h
  | cons t ts ih =>
      have hlength : n + (t :: ts).length = n + 1 + ts.length := by
        rw [List.length_cons]
        omega
      rw [List.cons_append, scanLines, scanLines, hlength]
      split
      · exact ih
      · simp

/-! ## Growth -/

/-- Everything laid out before is still there. -/
structure Extends (l l' : Layout) : Prop where
  statements : l.statements <:+ l'.statements
  symbols : ∀ name a, l.symbols.lookup name = some a → l'.symbols.lookup name = some a

theorem Extends.refl (l : Layout) : l.Extends l := ⟨List.suffix_refl _, fun _ _ h => h⟩

theorem Extends.trans {l l' l'' : Layout} (h : l.Extends l') (h' : l'.Extends l'') :
    l.Extends l'' :=
  ⟨h.statements.trans h'.statements, fun name a ha => h'.symbols name a (h.symbols name a ha)⟩

theorem extends_label {o : Option Text} (h : l.label o = .ok l₁) : l.Extends l₁ := by
  rcases label_cases h with ⟨-, rfl⟩ | ⟨name, -, hfree, rfl⟩
  · exact .refl _
  · refine ⟨List.suffix_refl _, ?_⟩
    intro key a ha
    rw [List.lookup_cons]
    -- A label that has a value already is not defined again.
    split
    · next hkey =>
        rw [beq_iff_eq.mp hkey, hfree] at ha
        cases ha
    · exact ha

theorem extends_place (l : Layout) (line : Nat) (c : Content) : l.Extends (l.place line c) :=
  ⟨List.suffix_cons _ _, fun _ _ h => h⟩

theorem extends_scanStatement (h : l.scanStatement line t = .ok l₁) : l.Extends l₁ := by
  rcases scanStatement_cases h with ⟨-, rfl⟩ | ⟨a, -, -, rfl⟩ | ⟨c, -, -, -, rfl⟩
  · exact .refl _
  · exact ⟨List.suffix_refl _, fun _ _ h => h⟩
  · exact l.extends_place line c

theorem extends_scanLine (h : l.scanLine line t = .ok l₂) : l.Extends l₂ := by
  rw [scanLine_eq] at h
  obtain ⟨l₁, hlabel, h⟩ := bind_eq_ok.mp h
  exact (extends_label hlabel).trans (extends_scanStatement h)

theorem extends_scanLines {n : Nat} {ts : List Text} (h : l.scanLines n ts = .ok l₂) :
    l.Extends l₂ := by
  induction ts generalizing l n with
  | nil => exact Except.ok.inj h ▸ .refl _
  | cons t ts ih =>
      obtain ⟨l₁, hline, h⟩ := scanLines_cons l n t ts h
      exact (extends_scanLine hline).trans (ih h)

/-- A line adds statements of its own number only. -/
theorem statements_scanLine (h : l.scanLine line t = .ok l₂) :
    ∃ newer, l₂.statements = newer ++ l.statements ∧ ∀ s ∈ newer, s.line = line := by
  rw [scanLine_eq] at h
  obtain ⟨l₁, hlabel, h⟩ := bind_eq_ok.mp h
  obtain ⟨-, hstatements⟩ := label_keeps hlabel
  rcases scanStatement_cases h with ⟨-, rfl⟩ | ⟨a, -, -, rfl⟩ | ⟨c, -, -, -, rfl⟩
  · exact ⟨[], hstatements, List.forall_mem_nil _⟩
  · exact ⟨[], hstatements, List.forall_mem_nil _⟩
  · refine ⟨[⟨line, l₁.counter, c⟩], ?_, List.forall_mem_singleton.mpr rfl⟩
    rw [place, hstatements, List.singleton_append]

theorem statements_scanLines {n : Nat} {ts : List Text} (h : l.scanLines n ts = .ok l₂) :
    ∃ newer, l₂.statements = newer ++ l.statements ∧
      ∀ s ∈ newer, n ≤ s.line ∧ s.line < n + ts.length := by
  induction ts generalizing l n with
  | nil => exact ⟨[], Except.ok.inj h ▸ rfl, List.forall_mem_nil _⟩
  | cons t ts ih =>
      obtain ⟨l₁, hline, hrest⟩ := scanLines_cons l n t ts h
      obtain ⟨first, hfirst, hnumber⟩ := statements_scanLine hline
      obtain ⟨later, hlater, hrange⟩ := ih hrest
      refine ⟨later ++ first, by rw [hlater, hfirst, List.append_assoc], ?_⟩
      intro s hs
      rw [List.length_cons]
      rcases List.mem_append.mp hs with hs | hs
      · have hs := hrange s hs
        omega
      · have hs := hnumber s hs
        omega

/-! ## Addresses -/

/-- The location counter is an address and so is that of every statement. -/
structure Addressed (l : Layout) : Prop where
  counter : l.counter.address = l.counter
  statements : ∀ s ∈ l.statements, s.address.address = s.address

theorem addressed_empty : Addressed {} := ⟨rfl, List.forall_mem_nil _⟩

theorem Addressed.label (hl : l.Addressed) {o : Option Text} (h : l.label o = .ok l₁) :
    l₁.Addressed := by
  rcases label_cases h with ⟨-, rfl⟩ | ⟨name, -, -, rfl⟩
  · exact hl
  · exact ⟨hl.counter, hl.statements⟩

theorem Addressed.place (hl : l.Addressed) (line : Nat) (c : Content) :
    (l.place line c).Addressed :=
  ⟨Word.address_address _, List.forall_mem_cons.mpr ⟨hl.counter, hl.statements⟩⟩

theorem Addressed.scanLine (hl : l.Addressed) (h : l.scanLine line t = .ok l₂) :
    l₂.Addressed := by
  rw [scanLine_eq] at h
  obtain ⟨l₁, hlabel, h⟩ := bind_eq_ok.mp h
  have hl₁ := hl.label hlabel
  rcases scanStatement_cases h with ⟨-, rfl⟩ | ⟨a, -, ha, rfl⟩ | ⟨c, -, -, -, rfl⟩
  · exact hl₁
  · exact ⟨address_orgAddress ha, hl₁.statements⟩
  · exact hl₁.place line c

theorem Addressed.scanLines (hl : l.Addressed) {n : Nat} {ts : List Text}
    (h : l.scanLines n ts = .ok l₂) : l₂.Addressed := by
  induction ts generalizing l n with
  | nil => exact Except.ok.inj h ▸ hl
  | cons t ts ih =>
      obtain ⟨l₁, hline, h⟩ := scanLines_cons l n t ts h
      exact ih (hl.scanLine hline) h

end Layout

/-! ## Emission -/

theorem emit_cons {s : Symbols} {statement : Statement} {rest : List Statement}
    {cells : List (Word × Word)} (h : emit s (statement :: rest) = .ok cells) :
    ∃ ws tail, statement.content.encode s statement.address = .ok ws ∧
      emit s rest = .ok tail ∧ cells = placeWords statement.address ws ++ tail := by
  rw [emit] at h
  split at h
  · cases h
  · next ws hws =>
      obtain ⟨tail, htail, h⟩ := bind_eq_ok.mp h
      exact ⟨ws, tail, hws, htail, (Except.ok.inj h).symm⟩

theorem length_encodeValues {s : Symbols} {here : Word} {values : List Text} {ws : List Word}
    (h : encodeValues s here values = .ok ws) : ws.length = values.length := by
  induction values generalizing here ws with
  | nil =>
      cases h
      rfl
  | cons t values ih =>
      obtain ⟨w, -, h⟩ := bind_eq_ok.mp h
      obtain ⟨rest, hrest, h⟩ := bind_eq_ok.mp h
      cases h
      rw [List.length_cons, List.length_cons, ih hrest]

theorem length_packBytes (bytes : List Byte) :
    (packBytes bytes).length = (bytes.length + 1) / 2 := by
  induction bytes using packBytes.induct with
  | case1 => rfl
  | case2 a => rw [packBytes, List.length_singleton, List.length_singleton]
  | case3 a b rest ih =>
      rw [packBytes, List.length_cons, ih, List.length_cons, List.length_cons]
      omega

/-- The second pass emits as many words as the first made room for. -/
theorem length_encode {s : Symbols} {here : Word} {c : Content} {ws : List Word}
    (h : c.encode s here = .ok ws) : ws.length = c.size := by
  cases c with
  | words values => exact length_encodeValues h
  | double value =>
      obtain ⟨d, -, h⟩ := bind_eq_ok.mp h
      cases h
      rfl
  | quad value =>
      obtain ⟨q, -, h⟩ := bind_eq_ok.mp h
      cases h
      rfl
  | text bytes =>
      cases h
      exact length_packBytes bytes
  | instruction mnemonic operand =>
      obtain ⟨w, -, h⟩ := bind_eq_ok.mp h
      cases h
      rfl

theorem length_placeWords (a : Word) (ws : List Word) : (placeWords a ws).length = ws.length := by
  induction ws generalizing a with
  | nil => rfl
  | cons w ws ih => rw [placeWords, List.length_cons, List.length_cons, ih]

theorem address_of_mem_placeWords {a : Word} {ws : List Word} {cell : Word × Word}
    (h : cell ∈ placeWords a ws) : cell.1.address = cell.1 := by
  induction ws generalizing a with
  | nil => cases h
  | cons w ws ih =>
      rcases List.mem_cons.mp h with rfl | h
      · exact Word.address_address a
      · exact ih h

theorem address_of_mem_emit {s : Symbols} {statements : List Statement}
    {cells : List (Word × Word)} (h : emit s statements = .ok cells) {cell : Word × Word}
    (hcell : cell ∈ cells) : cell.1.address = cell.1 := by
  induction statements generalizing cells with
  | nil =>
      cases h
      cases hcell
  | cons first rest ih =>
      obtain ⟨ws, tail, -, htail, rfl⟩ := emit_cons h
      rcases List.mem_append.mp hcell with hcell | hcell
      · exact address_of_mem_placeWords hcell
      · exact ih htail hcell

def sizeOf (statements : List Statement) : Nat := (statements.map (·.content.size)).sum

/-- A statement is encoded with the labels of the whole source, and its words
come after those of the statements before it. -/
theorem emit_append_cons {s : Symbols} {before after : List Statement} {statement : Statement}
    {cells : List (Word × Word)} (h : emit s (before ++ statement :: after) = .ok cells) :
    ∃ front ws back, statement.content.encode s statement.address = .ok ws ∧
      cells = front ++ placeWords statement.address ws ++ back ∧ front.length = sizeOf before := by
  induction before generalizing cells with
  | nil =>
      obtain ⟨ws, back, hws, -, rfl⟩ := emit_cons h
      exact ⟨[], ws, back, hws, rfl, rfl⟩
  | cons first rest ih =>
      obtain ⟨ws₁, tail, hws₁, htail, rfl⟩ := emit_cons h
      obtain ⟨front, ws, back, hws, rfl, hfront⟩ := ih htail
      refine ⟨placeWords first.address ws₁ ++ front, ws, back, hws, ?_, ?_⟩
      · rw [List.append_assoc, List.append_assoc, List.append_assoc]
      · rw [List.length_append, length_placeWords, length_encode hws₁, hfront, sizeOf, sizeOf,
          List.map_cons, List.sum_cons]

theorem exists_layout_of_assemble {source : Text} {p : Program} (h : assemble source = .ok p) :
    ∃ l, Layout.scanLines {} 1 (lines source) = .ok l ∧
      emit l.symbols l.statements.reverse = .ok p.words ∧ p.origin = l.origin.getD 0 := by
  obtain ⟨l, hl, h⟩ := bind_eq_ok.mp h
  obtain ⟨cells, hcells, h⟩ := bind_eq_ok.mp h
  cases h
  exact ⟨l, hl, hcells, rfl⟩

/-! ## Lines in place -/

/-- The source has the line where `k` words were laid out and the location
counter is `a`. -/
def LineAt (source line : Text) (k : Nat) (a : Word) : Prop :=
  ∃ before after l, lines source = before ++ line :: after ∧
    Layout.scanLines {} 1 before = .ok l ∧ sizeOf l.statements = k ∧ l.counter = a

namespace LineAt

variable {source line : Text} {k : Nat} {a : Word} {l : Layout}

theorem address_eq (h : LineAt source line k a) : a.address = a := by
  obtain ⟨before, after, l, -, hbefore, -, rfl⟩ := h
  exact (Layout.addressed_empty.scanLines hbefore).counter

theorem exists_layouts (h : LineAt source line k a)
    (hl : Layout.scanLines {} 1 (lines source) = .ok l) :
    ∃ (n : Nat) (l₁ l₂ l₃ : Layout), sizeOf l₁.statements = k ∧ l₁.counter = a ∧
      l₁.label (labelOf line) = .ok l₂ ∧ l₂.scanStatement n (statementOf line) = .ok l₃ ∧
      l₂.Extends l ∧ l₃.Extends l := by
  obtain ⟨before, after, l₁, hlines, hbefore, rfl, rfl⟩ := h
  rw [hlines] at hl
  obtain ⟨_, hsame, hrest⟩ := Layout.scanLines_append.mp hl
  cases hbefore.symm.trans hsame
  obtain ⟨l₃, hline, hafter⟩ := Layout.scanLines_cons _ _ _ _ hrest
  rw [Layout.scanLine_eq] at hline
  obtain ⟨l₂, hlabel, hstatement⟩ := bind_eq_ok.mp hline
  have hrest := Layout.extends_scanLines hafter
  exact ⟨_, l₁, l₂, l₃, rfl, rfl, hlabel, hstatement,
    (Layout.extends_scanStatement hstatement).trans hrest, hrest⟩

/-- A label stands for the address of its line, before it and after it. -/
theorem lookup_label (h : LineAt source line k a)
    (hl : Layout.scanLines {} 1 (lines source) = .ok l) {name : Text}
    (hname : labelOf line = some name) : l.symbols.lookup (upper name) = some a := by
  obtain ⟨n, l₁, l₂, l₃, -, rfl, hlabel, -, hextends, -⟩ := h.exists_layouts hl
  rw [hname] at hlabel
  obtain ⟨-, rfl⟩ := Layout.define_cases hlabel
  exact hextends.symbols _ _ List.lookup_cons_self

theorem exists_statement (h : LineAt source line k a)
    (hl : Layout.scanLines {} 1 (lines source) = .ok l) (hne : statementOf line ≠ [])
    (horg : upper (firstWord (statementOf line)).1 ≠ orgName) :
    ∃ n c newer older, l.statements = newer ++ ⟨n, a, c⟩ :: older ∧ sizeOf older = k ∧
      content (upper (firstWord (statementOf line)).1) (firstWord (statementOf line)).2 =
        .ok c := by
  obtain ⟨n, l₁, l₂, l₃, hsize, rfl, hlabel, hstatement, -, hextends⟩ := h.exists_layouts hl
  have hbefore := Layout.label_keeps hlabel
  rcases Layout.scanStatement_cases hstatement with ⟨hempty, -⟩ | ⟨_, hmove, -⟩ |
    ⟨c, -, -, hc, rfl⟩
  · exact absurd hempty hne
  · exact absurd hmove horg
  · obtain ⟨newer, hnewer⟩ := hextends.statements
    refine ⟨n, c, newer, l₁.statements, ?_, hsize, hc⟩
    rw [← hnewer, Layout.place, hbefore.1, hbefore.2]

/-- The words of a line, in the place the first pass kept for them. -/
theorem exists_words {p : Program} (h : LineAt source line k a) (hp : assemble source = .ok p)
    (hl : Layout.scanLines {} 1 (lines source) = .ok l) (hne : statementOf line ≠ [])
    (horg : upper (firstWord (statementOf line)).1 ≠ orgName) :
    ∃ c front ws back,
      content (upper (firstWord (statementOf line)).1) (firstWord (statementOf line)).2 = .ok c ∧
      c.encode l.symbols a = .ok ws ∧ p.words = front ++ placeWords a ws ++ back ∧
      front.length = k := by
  obtain ⟨l', hl', hemit, -⟩ := exists_layout_of_assemble hp
  cases hl.symm.trans hl'
  obtain ⟨n, c, newer, older, hstatements, hsize, hc⟩ := h.exists_statement hl hne horg
  rw [hstatements, List.reverse_append, List.reverse_cons, List.append_assoc,
    List.singleton_append] at hemit
  obtain ⟨front, ws, back, hws, hwords, hfront⟩ := emit_append_cons hemit
  refine ⟨c, front, ws, back, hc, hws, hwords, ?_⟩
  rw [hfront, ← hsize, sizeOf, sizeOf, List.map_reverse, List.sum_reverse]

end LineAt

end StackComputer.Assembler
