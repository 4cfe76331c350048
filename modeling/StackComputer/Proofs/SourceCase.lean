import StackComputer.Proofs.LetterCase
import StackComputer.Proofs.SourceLayout
import StackComputer.Proofs.TextLines

/-!
# Letter case in sources

Two sources that differ in the case of letters alone, and not in the texts of TXT,
have the same program, or errors of one kind on the same line.
-/

namespace StackComputer.Assembler

open Text SourceError

/-! ## Results alike -/

section

variable {ε κ α β : Type} {kind : ε → κ} {x y z : Except ε α}

/-- The same result, or two errors of one kind. What else they say may quote the
source in different letters. -/
def Alike (kind : ε → κ) (x y : Except ε α) : Prop := x.mapError kind = y.mapError kind

theorem Alike.refl (x : Except ε α) : Alike kind x x := rfl

theorem Alike.symm (h : Alike kind x y) : Alike kind y x := Eq.symm h

theorem Alike.trans (h : Alike kind x y) (h' : Alike kind y z) : Alike kind x z := Eq.trans h h'

theorem Alike.of_eq (h : x = y) : Alike kind x y := h ▸ .refl x

theorem Alike.cases (h : Alike kind x y) :
    (∃ a, x = .ok a ∧ y = .ok a) ∨
      ∃ e e', x = .error e ∧ y = .error e' ∧ kind e = kind e' := by
  cases x with
  | error e =>
      cases y with
      | error e' => exact .inr ⟨e, e', rfl, rfl, Except.error.inj h⟩
      | ok b => exact nomatch h
  | ok a =>
      cases y with
      | error e' => exact nomatch h
      | ok b => exact .inl ⟨a, rfl, congrArg Except.ok (Except.ok.inj h).symm⟩

theorem Alike.bind {f g : α → Except ε β} (h : Alike kind x y)
    (hfg : ∀ a, Alike kind (f a) (g a)) : Alike kind (x >>= f) (y >>= g) := by
  rcases h.cases with ⟨a, rfl, rfl⟩ | ⟨e, e', rfl, rfl, hkind⟩
  · exact hfg a
  · exact congrArg Except.error hkind

theorem Alike.map (h : Alike kind x y) (f : α → β) : Alike kind (f <$> x) (f <$> y) := by
  rcases h.cases with ⟨a, rfl, rfl⟩ | ⟨e, e', rfl, rfl, hkind⟩
  · exact .refl _
  · exact congrArg Except.error hkind

theorem Alike.map_cases {f : α → β} (h : Alike kind (f <$> x) (f <$> y)) :
    (∃ a b, x = .ok a ∧ y = .ok b ∧ f a = f b) ∨
      ∃ e e', x = .error e ∧ y = .error e' ∧ kind e = kind e' := by
  rcases h.cases with ⟨c, hx, hy⟩ | ⟨e, e', hx, hy, hkind⟩
  · obtain ⟨a, hxa, ha⟩ := map_eq_ok.mp hx
    obtain ⟨b, hyb, hb⟩ := map_eq_ok.mp hy
    exact .inl ⟨a, b, hxa, hyb, ha.trans hb.symm⟩
  · cases x <;> cases hx
    cases y <;> cases hy
    exact .inr ⟨e, e', rfl, rfl, hkind⟩

end

/-! ## Parts of a line -/

theorem withoutComment_upper (inQuotes : Bool) (t : Text) :
    withoutComment inQuotes (upper t) = upper (withoutComment inQuotes t) := by
  rw [upper]
  induction t generalizing inQuotes with
  | nil => rfl
  | cons c t ih =>
      have hcomment : c.toUpper = ';' ↔ c = ';' := toUpper_eq_iff (by decide)
      rw [List.map_cons, withoutComment, withoutComment, toUpper_beq (by decide), ih]
      simp only [hcomment]
      split <;> rfl

theorem splitLabel_upper (t : Text) :
    splitLabel (upper t) = ((splitLabel t).1.map upper, upper (splitLabel t).2) := by
  rw [splitLabel, splitLabel, cutAt?_upper (toUpper_beq (by decide))]
  rcases cutAt? (· == ':') t with _ | ⟨head, rest⟩
  · rfl
  · simp only [Option.map_some, trim_upper, isSymbol_upper]
    split <;> rfl

theorem labelOf_upper (t : Text) : labelOf (upper t) = (labelOf t).map upper := by
  rw [labelOf, labelOf, withoutComment_upper, trim_upper, splitLabel_upper]

theorem statementOf_upper (t : Text) : statementOf (upper t) = upper (statementOf t) := by
  rw [statementOf, statementOf, withoutComment_upper, trim_upper, splitLabel_upper]

theorem dropReturn_upper (t : Text) : dropReturn (upper t) = upper (dropReturn t) := by
  have hreturn : ∀ c : Char, c.toUpper = '\r' ↔ c = '\r' := fun c => toUpper_eq_iff (by decide)
  rw [upper]
  induction t with
  | nil => rfl
  | cons c t ih =>
      cases t with
      | nil =>
          by_cases hc : c = '\r'
          · rw [hc]
            rfl
          · rw [dropReturn_of_getLast? (by simpa [hreturn] using hc),
              dropReturn_of_getLast? (by simpa using hc)]
            rfl
      | cons d t =>
          have hlonger : ∀ (c d : Char) (t : Text),
              dropReturn (c :: d :: t) = c :: dropReturn (d :: t) := by
            intro c d t
            rw [dropReturn]
            exact fun _ hnil => List.cons_ne_nil d t hnil
          rw [List.map_cons, List.map_cons, hlonger, hlonger, ← List.map_cons, ih]
          rfl

theorem linesOfPieces_upper (pieces : List Text) :
    linesOfPieces (pieces.map upper) = (linesOfPieces pieces).map upper := by
  induction pieces with
  | nil => rfl
  | cons piece rest ih =>
      cases rest with
      | nil =>
          rw [List.map_singleton, linesOfPieces, linesOfPieces, isEmpty_upper]
          split <;> rfl
      | cons next rest => exact congrArg₂ List.cons (dropReturn_upper piece) ih

theorem lines_upper (t : Text) : lines (upper t) = (lines t).map upper := by
  rw [lines, lines, upper, splitAt_map (toUpper_beq (by decide))]
  exact linesOfPieces_upper _

/-! ## Values -/

theorem find_upper (s : Symbols) (name : Text) :
    Alike title (s.find (upper name)) (s.find name) := by
  rw [Symbols.find, Symbols.find, upper_upper]
  cases s.lookup (upper name) <;> rfl

theorem evaluate_upper (s : Symbols) (here : Word) (t : Text) :
    Alike title (evaluate s here (upper t)) (evaluate s here t) := by
  rw [evaluate, evaluate, trim_upper]
  simp only [upper_eq_dot, signedLiteral?_upper, isSymbol_upper]
  split
  · exact .refl _
  · split
    · exact .refl _
    · split
      · exact (find_upper s (trim t)).map _
      · rfl

theorem evaluateIn_upper (width : Nat) (s : Symbols) (here : Word) (t : Text) :
    Alike title (evaluateIn width s here (upper t)) (evaluateIn width s here t) :=
  (evaluate_upper s here t).bind fun _ => .refl _

theorem listValues_upper (t : Text) : listValues (upper t) = (listValues t).map upper := by
  have htrim : (splitAt (· == ',') (upper t)).map trim =
      ((splitAt (· == ',') t).map trim).map upper := by
    rw [upper, splitAt_map isComma_toUpper, List.map_map, List.map_map]
    exact List.map_congr_left fun item _ => trim_upper item
  have hempty : (fun item : Text => !item.isEmpty) ∘ upper = fun item => !item.isEmpty :=
    funext fun item => congrArg _ (isEmpty_upper item)
  rw [listValues, htrim, List.filter_map, hempty, listValues]

theorem encodeValues_upper (s : Symbols) (here : Word) (values : List Text) :
    Alike title (encodeValues s here (values.map upper)) (encodeValues s here values) := by
  induction values generalizing here with
  | nil => exact .refl _
  | cons t values ih =>
      exact (evaluateIn_upper 16 s here t).bind fun _ => (ih _).bind fun _ => .refl _

/-! ## Instructions -/

theorem resolveOperand_upper (s : Symbols) (here : Word) (relative : Bool) (o : Operand) :
    Alike title (resolveOperand s here relative o.upper) (resolveOperand s here relative o) := by
  rcases o with ⟨_ | (n | name) | (n | name), suffixes⟩
  · exact .refl _
  · exact .refl _
  · exact (find_upper s name).bind fun _ => .refl _
  · exact .refl _
  · exact (find_upper s name).bind fun _ => .refl _

theorem encodeInstruction_upper (s : Symbols) (here : Word) (mnemonic operand : Text) :
    Alike title (encodeInstruction s here mnemonic (upper operand))
      (encodeInstruction s here mnemonic operand) := by
  have hpair : pair? (mnemonic ++ ' ' :: upper operand) = pair? (mnemonic ++ ' ' :: operand) := by
    rw [← pair?_upper, ← pair?_upper (mnemonic ++ ' ' :: operand), upper_append, upper_append]
    exact congrArg (fun t => pair? (upper mnemonic ++ ' ' :: t)) (upper_upper operand)
  rw [encodeInstruction, encodeInstruction, hpair, isEmpty_upper, operand?_upper]
  split
  · exact .refl _
  · split
    · exact .refl _
    · cases operand? operand with
      | none => rfl
      | some o => exact (resolveOperand_upper s here _ o).bind fun _ => .refl _

/-! ## Statements -/

def Content.upper : Content → Content
  | words values => words (values.map Text.upper)
  | double value => double (Text.upper value)
  | quad value => quad (Text.upper value)
  | text bytes => text bytes
  | instruction mnemonic operand => instruction mnemonic (Text.upper operand)

theorem size_upper (c : Content) : c.upper.size = c.size := by
  cases c with
  | words values => exact List.length_map _
  | double | quad | text | instruction => rfl

theorem encode_upper (s : Symbols) (here : Word) (c : Content) :
    Alike title (c.upper.encode s here) (c.encode s here) := by
  cases c with
  | words values => exact encodeValues_upper s here values
  | double value => exact (evaluateIn_upper 32 s here value).bind fun _ => .refl _
  | quad value => exact (evaluateIn_upper 64 s here value).bind fun _ => .refl _
  | text bytes => exact .refl _
  | instruction mnemonic operand =>
      exact (encodeInstruction_upper s here mnemonic operand).bind fun _ => .refl _

def textName : Text := "TXT".toList

/-- The operand of a line with a TXT. -/
def textOperand? (t : Text) : Option Text :=
  if upper (firstWord (statementOf t)).1 = textName then some (firstWord (statementOf t)).2
  else none

/-- Only the text of a TXT is looked at in its own letters. -/
theorem content_upper {mnemonic operand operand' : Text} (hupper : upper operand = upper operand')
    (htext : mnemonic = textName → operand = operand') :
    Alike title (Content.upper <$> content mnemonic operand)
      (Content.upper <$> content mnemonic operand') := by
  by_cases hname : mnemonic = textName
  · rw [htext hname]
    exact .refl _
  · rw [content, content, if_neg (c := mnemonic = "TXT".toList) hname,
      if_neg (c := mnemonic = "TXT".toList) hname]
    have hvalues : (listValues operand).map upper = (listValues operand').map upper := by
      rw [← listValues_upper, hupper, listValues_upper]
    split_ifs
    · exact congrArg (fun values => Except.ok (Content.words values)) hvalues
    · exact congrArg (fun value => Except.ok (Content.double value)) hupper
    · exact congrArg (fun value => Except.ok (Content.quad value)) hupper
    · exact congrArg (fun t => Except.ok (Content.instruction mnemonic t)) hupper

/-! ## Layouts -/

def Statement.upper (statement : Statement) : Statement :=
  { statement with content := statement.content.upper }

namespace Layout

def upper (l : Layout) : Layout := { l with statements := l.statements.map Statement.upper }

variable {l l' : Layout} {t t' : Text}

theorem upper_place (l : Layout) (n : Nat) (c : Content) :
    (l.place n c).upper = l.upper.place n c.upper := by
  rw [place, place, size_upper]
  rfl

theorem label_upper (l : Layout) (o : Option Text) :
    Alike title (upper <$> l.label o) (l.upper.label (o.map Text.upper)) := by
  cases o with
  | none => exact .refl _
  | some name =>
      have hsymbols : l.upper.symbols = l.symbols := rfl
      rw [label, Option.map_some, label, define, define, upper_upper, hsymbols]
      split <;> rfl

theorem scanStatement_alike (hl : l.upper = l'.upper) (n : Nat)
    (ht : Text.upper t = Text.upper t')
    (htext : Text.upper (firstWord t).1 = textName → (firstWord t).2 = (firstWord t').2) :
    Alike title (upper <$> l.scanStatement n t) (upper <$> l'.scanStatement n t') := by
  have hsymbols : l.upper.symbols = l'.upper.symbols := congrArg symbols hl
  have hcounter : l.upper.counter = l'.upper.counter := congrArg counter hl
  have hempty : t.isEmpty = t'.isEmpty := by rw [← isEmpty_upper, ht, isEmpty_upper]
  have hwords := (firstWord_upper t).symm.trans ((congrArg firstWord ht).trans (firstWord_upper t'))
  obtain ⟨hname, hoperand⟩ := Prod.mk.inj hwords
  rw [scanStatement, scanStatement, ← hempty]
  split
  · exact .of_eq (congrArg Except.ok hl)
  · dsimp only
    rw [← hname]
    split
    · have hvalue : Alike title (evaluate l.symbols l.counter (firstWord t).2)
          (evaluate l'.symbols l'.counter (firstWord t').2) := by
        refine (evaluate_upper _ _ _).symm.trans ?_
        change Alike title (evaluate l.upper.symbols l.upper.counter _) _
        rw [hsymbols, hcounter, hoperand]
        exact evaluate_upper _ _ _
      have hmove : ∀ a, (l.moveTo a).upper = (l'.moveTo a).upper := fun a =>
        congrArg (moveTo · a) hl
      rw [map_bind, map_bind]
      refine hvalue.bind fun v => ?_
      rw [map_bind, map_bind]
      exact (Alike.refl _).bind fun a => .of_eq (congrArg Except.ok (hmove a))
    · have hplace : ∀ (l : Layout) (x : Scan Content),
          upper <$> (x >>= fun c => pure (l.place n c)) =
            Content.upper <$> x >>= fun c => pure (l.upper.place n c) := by
        intro l x
        cases x with
        | error e => rfl
        | ok c => exact congrArg Except.ok (l.upper_place n c)
      rw [hplace, hplace, hl]
      exact (content_upper hoperand htext).bind fun _ => .refl _

end Layout

/-- Two lines that differ in the case of letters alone, and not in the text of a TXT. -/
def SameLine (t t' : Text) : Prop := upper t = upper t' ∧ textOperand? t = textOperand? t'

theorem SameLine.text {t t' : Text} (h : SameLine t t')
    (hname : upper (firstWord (statementOf t)).1 = textName) :
    (firstWord (statementOf t)).2 = (firstWord (statementOf t')).2 := by
  have htext := h.2
  rw [textOperand?, if_pos hname, textOperand?] at htext
  split at htext
  · exact Option.some.inj htext
  · exact nomatch htext

namespace Layout

variable {l l' : Layout} {t t' : Text}

/-- One line. Its label is entered in capital letters, and its statement is added as
it stands. -/
theorem scanLine_alike (hl : l.upper = l'.upper) (n : Nat) (h : SameLine t t') :
    Alike title (upper <$> l.scanLine n t) (upper <$> l'.scanLine n t') := by
  have hlabel : (labelOf t).map Text.upper = (labelOf t').map Text.upper := by
    rw [← labelOf_upper, h.1, labelOf_upper]
  have hstatement : Text.upper (statementOf t) = Text.upper (statementOf t') := by
    rw [← statementOf_upper, h.1, statementOf_upper]
  have hlabels : Alike title (upper <$> l.label (labelOf t)) (upper <$> l'.label (labelOf t')) := by
    refine (label_upper _ _).trans ?_
    rw [hl, hlabel]
    exact (label_upper _ _).symm
  rw [scanLine_eq, scanLine_eq]
  rcases hlabels.map_cases with ⟨l₁, l₂, h₁, h₂, hsame⟩ | ⟨e, e', he, he', htitle⟩
  · rw [h₁, h₂]
    exact scanStatement_alike hsame n hstatement h.text
  · rw [he, he']
    exact congrArg Except.error htitle

end Layout

/-! ## Sources -/

/-- The line of an error, and its kind, which the title names. -/
def AssemblyError.site (e : AssemblyError) : Nat × Text := (e.line, e.cause.title)

/-- The lines of two sources, by induction on them. After each of them the two
layouts differ in the letters of their statements alone. -/
theorem Layout.scanLines_alike {ts ts' : List Text} (h : List.Forall₂ SameLine ts ts')
    {l l' : Layout} (hl : l.upper = l'.upper) (n : Nat) :
    Alike AssemblyError.site (upper <$> l.scanLines n ts) (upper <$> l'.scanLines n ts') := by
  induction h generalizing l l' n with
  | nil => exact congrArg Except.ok hl
  | cons hline _ ih =>
      rw [scanLines, scanLines]
      rcases (scanLine_alike hl n hline).map_cases with
        ⟨l₁, l₂, h₁, h₂, hsame⟩ | ⟨e, e', he, he', htitle⟩
      · rw [h₁, h₂]
        exact ih hsame (n + 1)
      · rw [he, he']
        exact congrArg (fun title => Except.error (n, title)) htitle

theorem emit_alike (s : Symbols) {statements statements' : List Statement}
    (h : statements.map Statement.upper = statements'.map Statement.upper) :
    Alike AssemblyError.site (emit s statements) (emit s statements') := by
  induction statements generalizing statements' with
  | nil =>
      cases statements' with
      | nil => rfl
      | cons statement' rest' => exact nomatch h
  | cons statement rest ih =>
      cases statements' with
      | nil => exact nomatch h
      | cons statement' rest' =>
          obtain ⟨hfirst, hrest⟩ := List.cons.inj h
          obtain ⟨hline, haddress, hcontent⟩ := Statement.mk.inj hfirst
          have hwords : Alike title (statement.content.encode s statement.address)
              (statement'.content.encode s statement'.address) := by
            refine (encode_upper _ _ _).symm.trans ?_
            rw [haddress, hcontent]
            exact encode_upper _ _ _
          rw [emit, emit]
          rcases hwords.cases with ⟨words, hok, hok'⟩ | ⟨e, e', he, he', htitle⟩
          · rw [hok, hok']
            exact (ih hrest).bind fun _ => .of_eq (haddress ▸ rfl)
          · rw [he, he']
            exact congrArg₂ (fun line title => Except.error (line, title)) hline htitle

theorem forall₂_sameLine {ts ts' : List Text} (hupper : ts.map upper = ts'.map upper)
    (htext : ts.map textOperand? = ts'.map textOperand?) : List.Forall₂ SameLine ts ts' := by
  induction ts generalizing ts' with
  | nil =>
      cases ts' with
      | nil => exact .nil
      | cons t' ts' => exact nomatch hupper
  | cons t ts ih =>
      cases ts' with
      | nil => exact nomatch hupper
      | cons t' ts' =>
          obtain ⟨hletters, hrest⟩ := List.cons.inj hupper
          obtain ⟨hoperand, hoperands⟩ := List.cons.inj htext
          exact .cons ⟨hletters, hoperand⟩ (ih hrest hoperands)

/-- A source may be written in any mixture of small and capital letters, apart from
the texts of TXT: it has the same program, or an error of the same kind on the same
line. -/
theorem assemble_sameLetters {source source' : Text} (hletters : sameLetters source source' = true)
    (htexts : (lines source).map textOperand? = (lines source').map textOperand?) :
    (∃ p, assemble source = .ok p ∧ assemble source' = .ok p) ∨
      ∃ e e', assemble source = .error e ∧ assemble source' = .error e' ∧
        e.line = e'.line ∧ e.cause.title = e'.cause.title := by
  have hupper : (lines source).map upper = (lines source').map upper := by
    rw [← lines_upper, eq_of_beq hletters, lines_upper]
  have hlines := forall₂_sameLine hupper htexts
  have hscan := Layout.scanLines_alike hlines (rfl : Layout.upper {} = _) 1
  have hprogram : Alike AssemblyError.site (assemble source) (assemble source') := by
    rw [assemble, assemble]
    rcases hscan.map_cases with ⟨l, l', hl, hl', hsame⟩ | ⟨e, e', he, he', hsite⟩
    · have hsymbols : l.upper.symbols = l'.upper.symbols := congrArg Layout.symbols hsame
      have horigin : l.upper.origin = l'.upper.origin := congrArg Layout.origin hsame
      have hstatements : l.statements.reverse.map Statement.upper =
          l'.statements.reverse.map Statement.upper := by
        rw [List.map_reverse, List.map_reverse]
        exact congrArg (fun l => l.statements.reverse) hsame
      rw [hl, hl', ok_bind, ok_bind]
      change Alike _ (emit l.upper.symbols _ >>= _) (emit l'.upper.symbols _ >>= _)
      rw [hsymbols]
      refine (emit_alike _ hstatements).bind fun words => .of_eq ?_
      change Except.ok (Program.mk (l.upper.origin.getD 0) words) = _
      rw [horigin]
      rfl
    · rw [he, he']
      exact congrArg Except.error hsite
  rcases hprogram.cases with hok | ⟨e, e', he, he', hsite⟩
  · exact .inl hok
  · obtain ⟨hline, htitle⟩ := Prod.mk.inj hsite
    exact .inr ⟨e, e', he, he', hline, htitle⟩

/-- A label, a suffix, hexadecimal digits and a pair in other letters, next to a text
that keeps its own. -/
theorem assemble_sameLetters_text :
    ∃ p, assemble "lp: ldi $2a\nload db+3,x\ntxt \"aZ\"\ndup,add ; a\nBR LP".toList = .ok p ∧
      assemble "LP: Ldi $2A\nLOAD Db+3,X\nTXT \"aZ\"\nDUP,Add ; A\nbr Lp".toList = .ok p := by
  have hok : (assemble "lp: ldi $2a\nload db+3,x\ntxt \"aZ\"\ndup,add ; a\nBR LP".toList).isOk := by
    decide +kernel
  rcases @assemble_sameLetters "lp: ldi $2a\nload db+3,x\ntxt \"aZ\"\ndup,add ; a\nBR LP".toList
      "LP: Ldi $2A\nLOAD Db+3,X\nTXT \"aZ\"\nDUP,Add ; A\nbr Lp".toList
      (by decide +kernel) (by decide +kernel) with hsame | ⟨e, e', he, -⟩
  · exact hsame
  · rw [he] at hok
    exact nomatch hok

end StackComputer.Assembler
