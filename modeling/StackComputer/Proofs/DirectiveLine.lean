import StackComputer.Proofs.LabelReach
import StackComputer.Proofs.OperandGrammar
import StackComputer.Proofs.SourceSegments

/-!
# Lines of directives

A directive and its operand may stand after a label and before a comment, with
blanks around all of them. Scanning the line gives the operand as it was
written, as long as a quote, a semicolon or a colon in it stands inside quotes.
-/

namespace StackComputer

namespace Assembler

open Text

inductive LabelPart : Option Text → Text → Prop
  | none : LabelPart none []
  | label {name blanks : Text} (hname : SymbolText name)
      (hblanks : ∀ c ∈ blanks, isBlank c = true) :
      LabelPart (some name) (name ++ blanks ++ [':'])

inductive CommentPart : Text → Prop
  | none : CommentPart []
  | comment (t : Text) : CommentPart (';' :: t)

/-- A line with the directive in letters of either case. -/
inductive DirectiveLine (name operand : Text) (label : Option Text) : Text → Prop
  | mk {x head y word rest comment : Text} (hx : ∀ c ∈ x, isBlank c = true)
      (hlabel : LabelPart label head) (hy : ∀ c ∈ y, isBlank c = true) (hword : upper word = name)
      (hstart : StartsBlank rest) (hrest : IsTrimmed rest operand) (hcomment : CommentPart comment) :
      DirectiveLine name operand label (x ++ head ++ y ++ word ++ rest ++ comment)

/-- Neither a quotation nor a comment nor the end of a label. -/
def isQuiet (c : Char) : Bool := c != '"' && c != ';' && c != ':'

inductive Shielded : Text → Prop
  | quiet {t : Text} (h : ∀ c ∈ t, isQuiet c = true) : Shielded t
  | quoted {t : Text} (h : '"' ∉ t) : Shielded ('"' :: t ++ ['"'])

variable {s t : Text} {label : Option Text}

theorem isQuiet_iff {c : Char} : isQuiet c = true ↔ c ≠ '"' ∧ c ≠ ';' ∧ c ≠ ':' := by
  simp [isQuiet, and_assoc]

theorem isQuiet_of_isBlank {c : Char} (h : isBlank c = true) : isQuiet c = true := by
  rw [isQuiet_iff]
  exact ⟨ne_of_class h rfl, ne_of_class h rfl, ne_of_class h rfl⟩

theorem isQuiet_of_isSymbolPart {c : Char} (h : isSymbolPart c = true) : isQuiet c = true := by
  rw [isQuiet_iff]
  exact ⟨ne_of_class h (by decide), ne_of_class h (by decide), ne_of_class h (by decide)⟩

/-! ## Comments -/

theorem withoutComment_append (hs : ∀ c ∈ s, c ≠ '"' ∧ c ≠ ';') (t : Text) :
    withoutComment false (s ++ t) = s ++ withoutComment false t := by
  induction s with
  | nil => rfl
  | cons c s ih =>
      obtain ⟨⟨hquote, hsemicolon⟩, hs⟩ := List.forall_mem_cons.mp hs
      have hstays : (c == '"') = false := beq_eq_false_iff_ne.mpr hquote
      simp [withoutComment, hstays, hsemicolon, ih hs]

theorem withoutComment_quiet (hs : ∀ c ∈ s, isQuiet c = true) (t : Text) :
    withoutComment false (s ++ t) = s ++ withoutComment false t := by
  refine withoutComment_append (fun c hc => ?_) t
  obtain ⟨hquote, hsemicolon, -⟩ := isQuiet_iff.mp (hs c hc)
  exact ⟨hquote, hsemicolon⟩

theorem withoutComment_inQuotes (hs : '"' ∉ s) (t : Text) :
    withoutComment true (s ++ '"' :: t) = s ++ '"' :: withoutComment false t := by
  induction s with
  | nil => simp [withoutComment]
  | cons c s ih =>
      rw [List.mem_cons, not_or] at hs
      have hstays : (c == '"') = false := beq_eq_false_iff_ne.mpr (Ne.symm hs.1)
      simp [withoutComment, hstays, ih hs.2]

theorem Shielded.withoutComment (h : Shielded s) (t : Text) :
    Assembler.withoutComment false (s ++ t) = s ++ Assembler.withoutComment false t := by
  cases h with
  | quiet h => exact withoutComment_quiet h t
  | @quoted u h => simp [Assembler.withoutComment, withoutComment_inQuotes h]

theorem CommentPart.withoutComment (h : CommentPart t) :
    Assembler.withoutComment false t = [] := by
  cases h <;> simp [Assembler.withoutComment]

theorem LabelPart.withoutComment (h : LabelPart label s) (t : Text) :
    Assembler.withoutComment false (s ++ t) = s ++ Assembler.withoutComment false t := by
  cases h with
  | none => rfl
  | label hname hblanks =>
      obtain ⟨-, -, -, -, hparts⟩ := isSymbol_cons (isSymbol_iff.mpr hname)
      refine withoutComment_append (fun c hc => ?_) t
      rcases List.mem_append.mp hc with hc | hc
      · have hquiet : isQuiet c = true := (List.mem_append.mp hc).elim
          (fun hc => isQuiet_of_isSymbolPart (hparts c hc))
          (fun hc => isQuiet_of_isBlank (hblanks c hc))
        exact ⟨(isQuiet_iff.mp hquiet).1, (isQuiet_iff.mp hquiet).2.1⟩
      · rw [List.mem_singleton.mp hc]
        decide

/-! ## Labels -/

theorem splitLabel_label {name blanks : Text} (hname : SymbolText name)
    (hblanks : ∀ c ∈ blanks, isBlank c = true) (t : Text) :
    splitLabel (trim (name ++ blanks ++ [':'] ++ t)) = (some name, trim t) := by
  have hsymbol := isSymbol_iff.mpr hname
  obtain ⟨c, rest, rfl, hc, hparts⟩ := isSymbol_cons hsymbol
  have hsolid : ∀ d ∈ c :: rest, isBlank d = false := fun d hd =>
    isBlank_of_isSymbolPart (hparts d hd)
  have hleft : trimLeft (c :: rest ++ blanks) = c :: rest ++ blanks :=
    trimLeft_eq_self fun d hd => hsolid d (by simpa using Or.inl hd.symm)
  have hcolon : ∀ d ∈ c :: rest ++ blanks, (d == ':') = false := by
    intro d hd
    rw [beq_eq_false_iff_ne]
    rcases List.mem_append.mp hd with hd | hd
    · exact ne_of_class (hparts d hd) (by decide)
    · exact ne_of_class (hblanks d hd) rfl
  rw [List.append_assoc, List.singleton_append, trim_append_cons rfl, hleft, splitLabel,
    cutAt?_append hcolon (beq_self_eq_true ':')]
  dsimp only
  rw [trim_append_right hblanks, (tight_of_solid hsolid).trim_eq, if_pos hsymbol, trim_trimRight]

theorem isSymbol_trim_eq_false {c : Char} (hc : c ∈ t) (hblank : isBlank c = false)
    (hpart : isSymbolPart c = false) : isSymbol (trim t) = false := by
  rw [Bool.eq_false_iff]
  intro hsymbol
  obtain ⟨-, -, -, -, hparts⟩ := isSymbol_cons hsymbol
  rw [hparts c (mem_trim hblank hc)] at hpart
  cases hpart

/-- Before a colon there is no label if there is something no label can hold. -/
theorem splitLabel_of_mem {c : Char} (hs : ':' ∉ s) (hc : c ∈ s) (hblank : isBlank c = false)
    (hpart : isSymbolPart c = false) (t : Text) : splitLabel (s ++ t) = (none, s ++ t) := by
  rw [splitLabel]
  cases hcut : cutAt? (· == ':') (s ++ t) with
  | none => rfl
  | some parts =>
      obtain ⟨a, b⟩ := parts
      obtain ⟨d, heq, hd, -⟩ := exists_of_cutAt? hcut
      obtain rfl : d = ':' := beq_iff_eq.mp hd
      have hmem : c ∈ a := by
        rcases List.append_eq_append_iff.mp heq with ⟨u, rfl, -⟩ | ⟨u, rfl, hu⟩
        · exact List.mem_append_left u hc
        · cases u with
          | nil => simpa using hc
          | cons d u =>
              cases hu
              exact absurd (by simp) hs
      dsimp only
      rw [if_neg (by simp [isSymbol_trim_eq_false hmem hblank hpart])]

theorem splitLabel_shielded {word rest operand : Text} (hword : isSymbol word = true)
    (hrest : IsTrimmed rest operand) (h : Shielded operand) :
    splitLabel (trim (word ++ rest)) = (none, trim (word ++ rest)) := by
  obtain ⟨x, y, rfl, hx, hy, -⟩ := hrest
  obtain ⟨-, -, -, -, hparts⟩ := isSymbol_cons hword
  have hfront : ∀ c ∈ word ++ x, isQuiet c = true := List.forall_mem_append.mpr
    ⟨fun c hc => isQuiet_of_isSymbolPart (hparts c hc), fun c hc => isQuiet_of_isBlank (hx c hc)⟩
  cases h with
  | quiet h =>
      have hall : ∀ c ∈ word ++ x ++ operand ++ y, isQuiet c = true := List.forall_mem_append.mpr
        ⟨List.forall_mem_append.mpr ⟨hfront, h⟩, fun c hc => isQuiet_of_isBlank (hy c hc)⟩
      refine splitLabel_eq_none fun hmem => ?_
      have hquiet := hall ':' (by simpa using mem_of_mem_trim hmem)
      exact absurd hquiet (by decide)
  | @quoted u h =>
      have hsplit : word ++ (x ++ ('"' :: u ++ ['"']) ++ y) =
          word ++ x ++ '"' :: (u ++ ['"'] ++ y) := by simp
      have hcolon : ':' ∉ trimLeft (word ++ x) ++ ['"'] := by
        rw [List.mem_append, not_or]
        refine ⟨fun hmem => ?_, by decide⟩
        have hquiet := hfront ':' ((List.dropWhile_sublist isBlank).subset hmem)
        exact absurd hquiet (by decide)
      have hquote : '"' ∈ trimLeft (word ++ x) ++ ['"'] := by simp
      rw [hsplit, trim_append_cons rfl, ← List.singleton_append, ← List.append_assoc]
      exact splitLabel_of_mem hcolon hquote rfl (by decide) _

/-! ## Directives -/

section

variable {x head y word rest comment operand : Text}

theorem withoutComment_line (hx : ∀ c ∈ x, isBlank c = true) (hlabel : LabelPart label head)
    (hy : ∀ c ∈ y, isBlank c = true) (hword : isSymbol word = true)
    (hrest : IsTrimmed rest operand) (h : Shielded operand) (hcomment : CommentPart comment) :
    withoutComment false (x ++ head ++ y ++ word ++ rest ++ comment) =
      x ++ (head ++ (y ++ (word ++ rest))) := by
  have hblank : ∀ {s t : Text}, (∀ c ∈ s, isBlank c = true) →
      withoutComment false (s ++ t) = s ++ withoutComment false t := fun hs =>
    withoutComment_quiet (fun c hc => isQuiet_of_isBlank (hs c hc)) _
  obtain ⟨-, -, -, -, hparts⟩ := isSymbol_cons hword
  obtain ⟨u, v, rfl, hu, hv, -⟩ := hrest
  simp only [List.append_assoc]
  rw [hblank hx, hlabel.withoutComment, hblank hy,
    withoutComment_quiet fun c hc => isQuiet_of_isSymbolPart (hparts c hc), hblank hu,
    h.withoutComment, hblank hv, hcomment.withoutComment, List.append_nil]

theorem splitLabel_line (hx : ∀ c ∈ x, isBlank c = true) (hlabel : LabelPart label head)
    (hy : ∀ c ∈ y, isBlank c = true) (hword : isSymbol word = true)
    (hrest : IsTrimmed rest operand) (h : Shielded operand) :
    splitLabel (trim (x ++ (head ++ (y ++ (word ++ rest))))) = (label, trim (word ++ rest)) := by
  rw [trim_append_left hx]
  cases hlabel with
  | none => rw [List.nil_append, trim_append_left hy, splitLabel_shielded hword hrest h]
  | label hname hblanks => rw [splitLabel_label hname hblanks, trim_append_left hy]

end

/-- A line of a directive is taken apart where it was put together. -/
theorem DirectiveLine.statement {name operand line : Text}
    (h : DirectiveLine name operand label line) (hname : isSymbol name = true)
    (hoperand : Shielded operand) :
    labelOf line = label ∧ statementOf line ≠ [] ∧
      upper (firstWord (statementOf line)).1 = name ∧
      (firstWord (statementOf line)).2 = operand := by
  cases h with
  | @mk x head y word rest comment hx hlabel hy hupper hstart hrest hcomment =>
      have hword : isSymbol word = true := by rwa [← isSymbol_upper, hupper]
      have hsplit : splitLabel (trim (withoutComment false
          (x ++ head ++ y ++ word ++ rest ++ comment))) = (label, trim (word ++ rest)) := by
        rw [withoutComment_line hx hlabel hy hword hrest hoperand hcomment,
          splitLabel_line hx hlabel hy hword hrest hoperand]
      obtain ⟨c, tail, hcons, -, hparts⟩ := isSymbol_cons hword
      have hsolid : ∀ d ∈ word, isBlank d = false := fun d hd =>
        isBlank_of_isSymbolPart (hparts d hd)
      have hmem : c ∈ word := by simp [hcons]
      have hfirst : firstWord (trim (word ++ rest)) = (word, operand) := by
        rw [firstWord_trim, firstWord_append_tail hsolid (List.ne_nil_of_mem hmem) hstart,
          trim_eq_iff.mpr hrest]
      rw [labelOf, statementOf, hsplit, hfirst]
      exact ⟨rfl, trim_ne_nil (hsolid c hmem) (List.mem_append_left rest hmem), hupper, rfl⟩

theorem DirectiveLine.bare {name word operand : Text} (hword : upper word = name)
    (h : Tight operand) : DirectiveLine name operand none (word ++ ' ' :: operand) := by
  have hrest : IsTrimmed (' ' :: operand) operand :=
    ⟨[' '], [], by simp, List.forall_mem_singleton.mpr rfl, List.forall_mem_nil _, h⟩
  simpa using DirectiveLine.mk (List.forall_mem_nil _) .none (List.forall_mem_nil _) hword
    (startsBlank_cons rfl _) hrest .none

/-! ## One line among others -/

/-- A source with a line between others that are free of errors. Nothing is
said about the line itself: only if it can be laid out there has to be a layout
of the lines after it. -/
structure LineAmong (source line : Text) (before after : List Text) (l₀ l : Layout) : Prop where
  lines : Text.lines source = before ++ line :: after
  scanned : Layout.scanLines {} 1 before = .ok l₀
  rest : ∀ l₁, l₀.scanLine (before.length + 1) line = .ok l₁ →
    l₁.scanLines (before.length + 2) after = .ok l
  others : SoundExcept l (before.length + 1)

/-- The source is assembled, and the words of the line are one after the other
in the program, from the location counter on and behind the words of the lines
before. -/
def Emits (source line : Text) (l₀ l : Layout) (ws : List Word) : Prop :=
  lineWords l.symbols l₀.counter line = .ok ws ∧
    ∃ p front back, assemble source = .ok p ∧ front.length = sizeOf l₀.statements ∧
      p.words = front ++ (ws.mapIdx fun i w => (location l₀.counter i, w)) ++ back

/-- The label has no value yet. -/
def Layout.IsNew (l : Layout) (label : Option Text) : Prop :=
  ∀ name ∈ label, l.symbols.lookup (upper name) = none

section

variable {source line : Text} {before after : List Text} {l₀ l : Layout} {c : Content}

theorem LineAmong.of_scanLine {l₁ : Layout} (hlines : Text.lines source = before ++ line :: after)
    (hscanned : Layout.scanLines {} 1 before = .ok l₀)
    (hline : l₀.scanLine (before.length + 1) line = .ok l₁)
    (hrest : l₁.scanLines (before.length + 2) after = .ok l)
    (hothers : SoundExcept l (before.length + 1)) : LineAmong source line before after l₀ l := by
  refine ⟨hlines, hscanned, ?_, hothers⟩
  intro l' hl'
  cases hline.symm.trans hl'
  exact hrest

theorem LineAmong.alone (hlines : Text.lines source = [line])
    (hline : Layout.scanLine {} 1 line = .ok l) : LineAmong source line [] [] {} l := by
  refine .of_scanLine hlines rfl hline rfl ?_
  intro s hs hother
  obtain ⟨newer, hnewer, hnumber⟩ := Layout.statements_scanLine hline
  exact absurd (hnumber s (by simpa [hnewer] using hs)) hother

theorem Layout.exists_label (h : l.IsNew label) : ∃ l₁, l.label label = .ok l₁ := by
  cases label with
  | none => exact ⟨l, rfl⟩
  | some name => exact ⟨_, by rw [Layout.label, define, h name rfl]; rfl⟩

theorem Layout.exists_scanLine (hnew : l.IsNew (labelOf line)) (hne : statementOf line ≠ [])
    (horg : ¬ IsOrg line)
    (hc : content (upper (firstWord (statementOf line)).1) (firstWord (statementOf line)).2 =
      .ok c) (n : Nat) : ∃ l₁, l.scanLine n line = .ok l₁ := by
  obtain ⟨l₁, hlabel⟩ := exists_label hnew
  have horg : upper (firstWord (statementOf line)).1 ≠ "ORG".toList := horg
  refine ⟨l₁.place n c, ?_⟩
  rw [scanLine_eq, hlabel, ok_bind, scanStatement, if_neg (mt List.isEmpty_iff.mp hne)]
  dsimp only
  rw [if_neg horg, hc]
  rfl

theorem LineAmong.layout (h : LineAmong source line before after l₀ l) {l₁ : Layout}
    (hline : l₀.scanLine (before.length + 1) line = .ok l₁) :
    Layout.scanLines {} 1 (Text.lines source) = .ok l := by
  rw [h.lines, Layout.scanLines_append]
  refine ⟨l₀, h.scanned, ?_⟩
  rw [Nat.add_comm, Layout.scanLines, hline]
  exact h.rest l₁ hline

/-- The statement of a line that is free of errors but for its operands decides
what becomes of the source. -/
theorem LineAmong.assemble (h : LineAmong source line before after l₀ l)
    (hnew : l₀.IsNew (labelOf line)) (hne : statementOf line ≠ []) (horg : ¬ IsOrg line)
    (hc : content (upper (firstWord (statementOf line)).1) (firstWord (statementOf line)).2 =
      .ok c) :
    (∀ ws, c.encode l.symbols l₀.counter = .ok ws → Emits source line l₀ l ws) ∧
    ∀ cause, c.encode l.symbols l₀.counter = .error cause →
      Assembler.assemble source = .error ⟨before.length + 1, cause⟩ := by
  obtain ⟨l₁, hline⟩ := Layout.exists_scanLine hnew hne horg hc (before.length + 1)
  have hlayout := h.layout hline
  obtain ⟨hok, herror⟩ :=
    assemble_of_soundExcept h.lines h.scanned hlayout h.others hne horg hc
  refine ⟨fun ws hws => ?_, herror⟩
  obtain ⟨p, hp⟩ := hok ws hws
  have hat : LineAt source line (sizeOf l₀.statements) l₀.counter :=
    ⟨before, after, l₀, h.lines, h.scanned, rfl, rfl⟩
  obtain ⟨c', front, ws', back, hc', hws', hwords, hfront⟩ := hat.exists_words hp hlayout hne horg
  cases hc.symm.trans hc'
  cases hws.symm.trans hws'
  refine ⟨?_, p, front, back, hp, hfront, placeWords_eq _ _ ▸ hwords⟩
  rw [lineWords, if_neg (not_or.mpr ⟨hne, horg⟩)]
  exact bind_eq_ok.mpr ⟨c, hc, hws⟩

theorem LineAmong.assemble_directive (h : LineAmong source line before after l₀ l)
    (hnew : l₀.IsNew label) {name operand : Text} (hline : DirectiveLine name operand label line)
    (hname : isSymbol name = true) (horg : name ≠ orgName) (hoperand : Shielded operand)
    (hc : content name operand = .ok c) :
    (∀ ws, c.encode l.symbols l₀.counter = .ok ws → Emits source line l₀ l ws) ∧
    ∀ cause, c.encode l.symbols l₀.counter = .error cause →
      Assembler.assemble source = .error ⟨before.length + 1, cause⟩ := by
  obtain ⟨hlabel, hne, hword, hrest⟩ := hline.statement hname hoperand
  refine h.assemble (hlabel ▸ hnew) hne ?_ (hword ▸ hrest ▸ hc)
  rw [IsOrg, hword]
  exact horg

end

end Assembler

end StackComputer
