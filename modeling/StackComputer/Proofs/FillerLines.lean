import StackComputer.Proofs.DirectiveLine

/-!
# Blank and comment lines

A line with nothing but blanks and perhaps a comment says nothing to the
assembler. Such lines may stand anywhere in a source: they only move the lines
after them, and with those the line an error is reported on.
-/

namespace StackComputer.Assembler

open Text

/-- A line of blanks, perhaps with a comment after them. -/
inductive IsFiller : Text → Prop
  | blank {x : Text} (hx : ∀ c ∈ x, isBlank c = true) : IsFiller x
  | comment {x : Text} (hx : ∀ c ∈ x, isBlank c = true) (t : Text) : IsFiller (x ++ ';' :: t)

theorem IsFiller.uncommented {t : Text} (h : IsFiller t) : trim (withoutComment false t) = [] := by
  have hquiet : ∀ {x : Text}, (∀ c ∈ x, isBlank c = true) → ∀ c ∈ x, isQuiet c = true :=
    fun hx c hc => isQuiet_of_isBlank (hx c hc)
  cases h with
  | blank hx =>
      have hsame := withoutComment_quiet (hquiet hx) []
      rw [List.append_nil] at hsame
      rw [hsame]
      exact trim_eq_nil (by simpa [withoutComment] using hx)
  | comment hx t =>
      have hcut : withoutComment false (';' :: t) = [] := if_pos (by decide)
      rw [withoutComment_quiet (hquiet hx), hcut, List.append_nil]
      exact trim_eq_nil hx

theorem IsFiller.cons {c : Char} {t : Text} (hc : isBlank c = true) (h : IsFiller t) :
    IsFiller (c :: t) := by
  cases h with
  | blank hx => exact .blank (List.forall_mem_cons.mpr ⟨hc, hx⟩)
  | comment hx t => exact .comment (List.forall_mem_cons.mpr ⟨hc, hx⟩) t

/-- The fillers are the lines of which nothing is left without the comment. -/
theorem isFiller_iff {t : Text} : IsFiller t ↔ trim (withoutComment false t) = [] := by
  refine ⟨IsFiller.uncommented, fun h => ?_⟩
  induction t with
  | nil => exact .blank (List.forall_mem_nil _)
  | cons c t ih =>
      by_cases hc : c = ';'
      · exact hc ▸ .comment (List.forall_mem_nil _) t
      · have hblanks := of_trim_eq_nil h
        rw [withoutComment, if_neg (by simp [hc]), List.forall_mem_cons] at hblanks
        have hquote : (c == '"') = false := beq_eq_false_iff_ne.mpr (ne_of_class hblanks.1 rfl)
        have hrest : trim (withoutComment false t) = [] := by
          simpa [hquote] using trim_eq_nil hblanks.2
        exact (ih hrest).cons hblanks.1

instance : DecidablePred IsFiller := fun _ => decidable_of_iff _ isFiller_iff.symm

/-! ## Lines under other numbers -/

def Statement.renumber (f : Nat → Nat) (s : Statement) : Statement := { s with line := f s.line }

def AssemblyError.renumber (f : Nat → Nat) (e : AssemblyError) : AssemblyError :=
  { e with line := f e.line }

/-- The statements are still to be encoded, and errors in them to be reported, on
the lines they have moved to. -/
theorem emit_renumber (f : Nat → Nat) (s : Symbols) (statements : List Statement) :
    emit s (statements.map (Statement.renumber f)) =
      (emit s statements).mapError (AssemblyError.renumber f) := by
  induction statements with
  | nil => rfl
  | cons statement rest ih =>
      have hcontent : (statement.renumber f).content = statement.content := rfl
      have haddress : (statement.renumber f).address = statement.address := rfl
      rw [List.map_cons, emit, emit, hcontent, haddress, ih]
      cases statement.content.encode s statement.address with
      | error cause => rfl
      | ok words => cases emit s rest <;> rfl

namespace Layout

def renumber (f : Nat → Nat) (l : Layout) : Layout :=
  { l with statements := l.statements.map (Statement.renumber f) }

variable {f : Nat → Nat} {l : Layout} {n : Nat} {t : Text}

theorem label_renumber (f : Nat → Nat) (l : Layout) (o : Option Text) :
    (l.renumber f).label o = renumber f <$> l.label o := by
  cases o with
  | none => rfl
  | some name =>
      rw [label, label, define, define]
      have hsymbols : (l.renumber f).symbols = l.symbols := rfl
      rw [hsymbols]
      split <;> rfl

theorem scanStatement_renumber (f : Nat → Nat) (l : Layout) (n : Nat) (t : Text) :
    (l.renumber f).scanStatement (f n) t = renumber f <$> l.scanStatement n t := by
  have hsymbols : (l.renumber f).symbols = l.symbols := rfl
  have hcounter : (l.renumber f).counter = l.counter := rfl
  rw [scanStatement, scanStatement, hsymbols, hcounter]
  split
  · rfl
  · dsimp only
    split
    · rcases evaluate l.symbols l.counter (firstWord t).2 with e | v
      · rfl
      · rw [ok_bind, ok_bind]
        cases narrow 16 0 0x7FFF v <;> rfl
    · cases content (upper (firstWord t).1) (firstWord t).2 <;> rfl

/-- One line. What it does depends on its number only for the statement it adds. -/
theorem scanLine_renumber (f : Nat → Nat) (l : Layout) (n : Nat) (t : Text) :
    (l.renumber f).scanLine (f n) t = renumber f <$> l.scanLine n t := by
  rw [scanLine_eq, scanLine_eq, label_renumber]
  cases l.label (labelOf t) with
  | error cause => rfl
  | ok l₁ => exact scanStatement_renumber f l₁ n (statementOf t)

theorem scanLine_filler (h : IsFiller t) (l : Layout) (n : Nat) : l.scanLine n t = .ok l := by
  rw [scanLine, h.uncommented]
  rfl

theorem scanLines_fillers {fillers : List Text} (h : ∀ t ∈ fillers, IsFiller t) (l : Layout)
    (n : Nat) (ts : List Text) :
    l.scanLines n (fillers ++ ts) = l.scanLines (n + fillers.length) ts := by
  induction fillers generalizing n with
  | nil => rfl
  | cons t fillers ih =>
      obtain ⟨ht, hrest⟩ := List.forall_mem_cons.mp h
      have hlength : n + 1 + fillers.length = n + (t :: fillers).length := by
        rw [List.length_cons]
        omega
      rw [List.cons_append, scanLines, scanLine_filler ht]
      dsimp only
      rw [ih hrest, hlength]

end Layout

/-! ## Padded sources -/

/-- A line of a source with the lines put in before it. -/
structure PaddedLine where
  before : List Text
  line : Text

namespace PaddedLine

def lines (p : PaddedLine) : List Text := p.before ++ [p.line]

/-- How many lines were put in at or before line `n`. -/
def inserted (ps : List PaddedLine) (n : Nat) : Nat :=
  ((ps.take n).map fun p => p.before.length).sum

/-- The number of a line of the source among the lines of the padded source. -/
def moved (ps : List PaddedLine) (n : Nat) : Nat := n + inserted ps n

end PaddedLine

open PaddedLine in
/-- The scan of a padded source, by induction on the lines of the source. After
each of them the two layouts differ in the numbers of the statements alone. -/
theorem Layout.scanLines_padded {f : Nat → Nat} {tail : List Text}
    (htail : ∀ t ∈ tail, IsFiller t) {ps : List PaddedLine}
    (hps : ∀ p ∈ ps, ∀ t ∈ p.before, IsFiller t) (l : Layout) (n start : Nat)
    (hf : ∀ k < ps.length, f (n + k) = start + k + inserted ps (k + 1)) :
    (l.renumber f).scanLines start (ps.flatMap PaddedLine.lines ++ tail) =
      (Layout.renumber f <$> l.scanLines n (ps.map PaddedLine.line)).mapError
        (AssemblyError.renumber f) := by
  induction ps generalizing l n start with
  | nil =>
      have hfillers := (l.renumber f).scanLines_fillers htail start []
      rw [List.append_nil] at hfillers
      rw [List.flatMap_nil, List.nil_append, hfillers]
      rfl
  | cons p ps ih =>
      obtain ⟨hp, hrest⟩ := List.forall_mem_cons.mp hps
      have hline : f n = start + p.before.length := by
        simpa [inserted] using hf 0 (Nat.succ_pos _)
      have hlater : ∀ k < ps.length, f (n + 1 + k) =
          start + p.before.length + 1 + k + inserted ps (k + 1) := by
        intro k hk
        have hnext := hf (k + 1) (Nat.succ_lt_succ hk)
        have hsum : inserted (p :: ps) (k + 1 + 1) = p.before.length + inserted ps (k + 1) := rfl
        have hnumber : n + 1 + k = n + (k + 1) := by omega
        rw [hnumber, hnext, hsum]
        omega
      rw [List.flatMap_cons, PaddedLine.lines, List.append_assoc, List.append_assoc,
        scanLines_fillers hp, List.singleton_append, scanLines, ← hline, scanLine_renumber,
        List.map_cons, scanLines]
      cases l.scanLine n p.line with
      | error cause => rfl
      | ok l₁ =>
          rw [hline]
          exact ih hrest l₁ (n + 1) (start + p.before.length + 1) hlater

open PaddedLine in
/-- Blank lines and comments that are put between the lines of a source leave its
program as it is. An error stays the same as well, on the line that has moved on
by the lines put in before it. -/
theorem fillers_only_move_lines {source padded : Text} {ps : List PaddedLine} {tail : List Text}
    (hsource : Text.lines source = ps.map PaddedLine.line)
    (hpadded : Text.lines padded = ps.flatMap PaddedLine.lines ++ tail)
    (hps : ∀ p ∈ ps, ∀ t ∈ p.before, IsFiller t) (htail : ∀ t ∈ tail, IsFiller t) :
    assemble padded = (assemble source).mapError fun e =>
      { e with line := e.line + inserted ps e.line } := by
  have hmoved : ∀ k < ps.length, moved ps (1 + k) = 1 + k + inserted ps (k + 1) := by
    intro k _
    rw [moved, Nat.add_comm 1 k]
  have hscan := Layout.scanLines_padded htail hps {} 1 1 hmoved
  rw [← hpadded, ← hsource] at hscan
  have hempty : Layout.renumber (moved ps) {} = {} := rfl
  rw [hempty] at hscan
  rw [assemble, assemble, hscan]
  cases Layout.scanLines {} 1 (Text.lines source) with
  | error e => rfl
  | ok l =>
      have hemit := emit_renumber (moved ps) l.symbols l.statements.reverse
      rw [List.map_reverse] at hemit
      have hlayout : (Layout.renumber (moved ps) <$> (.ok l : Except AssemblyError Layout)).mapError
          (AssemblyError.renumber (moved ps)) = .ok (l.renumber (moved ps)) := rfl
      rw [hlayout, ok_bind, ok_bind]
      change emit l.symbols (l.statements.map (Statement.renumber (moved ps))).reverse >>= _ = _
      rw [hemit]
      cases emit l.symbols l.statements.reverse <;> rfl

/-- A branch to a label that is missing, and the same among fillers, one of them a
comment that looks like a label before a string. -/
theorem fillers_only_move_lines_missing_label :
    assemble "NOP\nBR X\n".toList = .error ⟨2, .undefinedLabel "X".toList⟩ ∧
    assemble "; X: \"\nNOP\n\n  \nBR X\n\t;end".toList =
      .error ⟨5, .undefinedLabel "X".toList⟩ := by
  have hshort : assemble "NOP\nBR X\n".toList = .error ⟨2, .undefinedLabel "X".toList⟩ := by rfl
  have hpadded := @fillers_only_move_lines "NOP\nBR X\n".toList
    "; X: \"\nNOP\n\n  \nBR X\n\t;end".toList
    [⟨["; X: \"".toList], "NOP".toList⟩, ⟨[[], "  ".toList], "BR X".toList⟩] ["\t;end".toList]
    rfl rfl (by decide +kernel) (by decide +kernel)
  rw [hshort] at hpadded
  exact ⟨hshort, hpadded⟩

end StackComputer.Assembler
