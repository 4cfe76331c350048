import StackComputer.Proofs.ImageText
import StackComputer.Proofs.LiteralGrammar
import StackComputer.Proofs.TextLines

/-!
# The grammar of images

An image is read line by line. The reader accepts the texts all of whose lines
this grammar derives, and for every other text it names the first line that the
grammar does not derive. What it accepts are the programs that an image can
hold, and these are read back from their own images.
-/

namespace StackComputer.Image

open Text

/-! ## Lines -/

inductive OctalText : Text → Nat → Prop
  | bare {t : Text} {n : Nat} (h : Digits 8 t n) : OctalText t n
  | plus {t : Text} {n : Nat} (h : Digits 8 t n) : OctalText ('+' :: t) n

/-- What stands before the first semicolon. -/
inductive Uncommented : Text → Text → Prop
  | plain {t : Text} (h : ';' ∉ t) : Uncommented t t
  | comment {t : Text} (h : ';' ∉ t) (rest : Text) : Uncommented (t ++ ';' :: rest) t

/-- A line holds one cell or, if it is blank, none. -/
inductive LineText (line : Text) : Option (Word × Word) → Prop
  | blank {t : Text} (ht : Uncommented line t) (hbody : IsTrimmed t []) : LineText line none
  | cell {t first second a b : Text} {address word : Word} (ht : Uncommented line t)
      (hbody : IsTrimmed t (first ++ ':' :: second)) (ha : IsTrimmed first a)
      (hb : IsTrimmed second b) (haddress : OctalText a address.toNat)
      (hword : OctalText b word.toNat) (hrange : address.toNat ≤ 0x7FFF) :
      LineText line (some (address, word))

/-- The grammar derives the line. -/
def IsGood (line : Text) : Prop := ∃ cell?, LineText line cell?

variable {t : Text} {w : Word} {cell? : Option (Word × Word)}

theorem wordOfDigits_eq_some_iff :
    ((numeral? 8 t).filter (· < 0x10000)).map (BitVec.ofNat 16) = some w ↔
      Digits 8 t w.toNat := by
  simp only [Option.map_eq_some_iff, Option.filter_eq_some_iff, decide_eq_true_iff,
    numeral?_eq_some_iff (show 8 ≤ 16 by decide)]
  constructor
  · rintro ⟨n, ⟨hdigits, hn⟩, rfl⟩
    rwa [BitVec.toNat_ofNat, Nat.mod_eq_of_lt hn]
  · intro hdigits
    exact ⟨w.toNat, ⟨hdigits, w.isLt⟩, by simp⟩

theorem octalWord?_eq_some_iff : octalWord? t = some w ↔ OctalText t w.toNat := by
  have hsign : ∀ {d : Text} {n : Nat}, ¬ Digits 8 ('+' :: d) n := by
    intro d n h
    exact absurd ((mem_digits (by decide) h).2 '+' List.mem_cons_self) (by decide)
  by_cases hplus : ∃ d, t = '+' :: d
  · obtain ⟨d, rfl⟩ := hplus
    rw [octalWord?, wordOfDigits_eq_some_iff]
    refine ⟨.plus, fun h => ?_⟩
    cases h with
    | bare h => exact absurd h hsign
    | plus h => exact h
  · rw [octalWord?, wordOfDigits_eq_some_iff]
    · refine ⟨.bare, fun h => ?_⟩
      cases h with
      | bare h => exact h
      | plus h => exact absurd ⟨_, rfl⟩ hplus
    · exact fun d hd => hplus ⟨d, hd⟩

theorem parseOctal_eq_ok_iff :
    parseOctal t = .ok w ↔ ∃ a, IsTrimmed t a ∧ OctalText a w.toNat := by
  have htrim : (∃ a, IsTrimmed t a ∧ OctalText a w.toNat) ↔ OctalText (trim t) w.toNat := by
    simp only [← trim_eq_iff, exists_eq_left']
  rw [htrim, ← octalWord?_eq_some_iff, parseOctal]
  cases octalWord? (trim t) <;> simp

theorem uncommented_iff {s : Text} : t.takeWhile (· != ';') = s ↔ Uncommented t s := by
  have hplain : ∀ {s : Text}, ';' ∉ s → ∀ c ∈ s, (c != ';') = true := by
    intro s hs c hc
    exact bne_iff_ne.mpr fun heq => hs (heq ▸ hc)
  constructor
  · rintro rfl
    rcases exists_first_or (· == ';') t with hnone | ⟨x, c, rest, rfl, hc, hx⟩
    · have hsemicolon : ';' ∉ t := fun hmem => absurd (hnone _ hmem) (by decide)
      rw [List.takeWhile_eq_self_iff.mpr (hplain hsemicolon)]
      exact .plain hsemicolon
    · obtain rfl : c = ';' := beq_iff_eq.mp hc
      have hsemicolon : ';' ∉ x := fun hmem => absurd (hx _ hmem) (by decide)
      rw [List.takeWhile_append_of_pos (hplain hsemicolon)]
      simpa using Uncommented.comment hsemicolon rest
  · intro h
    cases h with
    | plain h => exact List.takeWhile_eq_self_iff.mpr (hplain h)
    | comment h rest =>
        rw [List.takeWhile_append_of_pos (hplain h)]
        simp

theorem isTrimmed_body : ∃ s, Uncommented t s ∧ IsTrimmed s (body t) :=
  ⟨_, uncommented_iff.mp rfl, trim_eq_iff.mp rfl⟩

theorem body_eq {s b : Text} (hs : Uncommented t s) (hb : IsTrimmed s b) : body t = b := by
  rw [body, uncommented_iff.mpr hs, trim_eq_iff.mpr hb]

/-- A number has no colon in it, so that its line is cut behind it. -/
theorem notMem_of_octalText {a : Text} {n : Nat} (ha : IsTrimmed t a) (h : OctalText a n) :
    ':' ∉ t := by
  have hdigits : ∀ {d : Text}, Digits 8 d n → ':' ∉ d := by
    intro d hd hmem
    exact absurd ((mem_digits (by decide) hd).2 ':' hmem) (by decide)
  have hnumber : ':' ∉ a := by
    cases h with
    | bare h => exact hdigits h
    | plus h => simpa using hdigits h
  rw [← trim_eq_iff] at ha
  intro hmem
  exact hnumber (ha ▸ mem_trim rfl hmem)

theorem parseLine_eq_ok_iff : parseLine t = .ok cell? ↔ LineText t cell? := by
  rw [parseLine]
  constructor
  · intro h
    obtain ⟨s, hs, hbody⟩ := isTrimmed_body (t := t)
    dsimp only at h
    split at h
    · next hempty =>
        cases h
        exact .blank hs (List.isEmpty_iff.mp hempty ▸ hbody)
    · split at h
      · cases h
      · next first second hcut =>
          obtain ⟨c, heq, hc, -⟩ := exists_of_cutAt? hcut
          obtain rfl : c = ':' := beq_iff_eq.mp hc
          obtain ⟨address, haddress, h⟩ := bind_eq_ok.mp h
          obtain ⟨a, ha, hdigits⟩ := parseOctal_eq_ok_iff.mp haddress
          split at h
          · cases h
          · next hrange =>
              obtain ⟨word, hword, h⟩ := bind_eq_ok.mp h
              cases h
              obtain ⟨b, hb, hdigits'⟩ := parseOctal_eq_ok_iff.mp hword
              exact .cell hs (heq ▸ hbody) ha hb hdigits hdigits' (Nat.le_of_not_lt hrange)
  · intro h
    cases h with
    | blank hs hbody =>
        rw [body_eq hs hbody]
        rfl
    | @cell s first second a b address word hs hbody ha hb haddress hword hrange =>
        have hcolon := beq_eq_false_of_notMem (notMem_of_octalText ha haddress)
        have hfirst := parseOctal_eq_ok_iff.mpr ⟨a, ha, haddress⟩
        have hsecond := parseOctal_eq_ok_iff.mpr ⟨b, hb, hword⟩
        rw [body_eq hs hbody, cutAt?_append hcolon (beq_self_eq_true ':')]
        dsimp only
        rw [if_neg (by simp), hfirst, ok_bind, if_neg (Nat.not_lt_of_le hrange), hsecond]
        rfl

theorem isGood_iff : IsGood t ↔ ∃ cell?, parseLine t = .ok cell? :=
  exists_congr fun _ => parseLine_eq_ok_iff.symm

theorem exists_error_of_not_isGood (h : ¬ IsGood t) : ∃ cause, parseLine t = .error cause := by
  cases hline : parseLine t with
  | error cause => exact ⟨cause, rfl⟩
  | ok cell? => exact absurd (isGood_iff.mpr ⟨cell?, hline⟩) h

/-! ## Texts -/

variable {n : Nat} {ts : List Text} {cells : List (Word × Word)} {p : Program}

theorem parseLines_cons (h : parseLine t = .ok cell?) (n : Nat) (ts : List Text) :
    parseLines n (t :: ts) = (cell?.toList ++ ·) <$> parseLines (n + 1) ts := by
  rw [parseLines, h]
  cases parseLines (n + 1) ts <;> rfl

theorem parseLines_eq_ok_iff : parseLines n ts = .ok cells ↔
    ∃ found, List.Forall₂ LineText ts found ∧ cells = found.reduceOption := by
  induction ts generalizing n cells with
  | nil => simp [parseLines, eq_comm]
  | cons t ts ih =>
      constructor
      · intro h
        cases hline : parseLine t with
        | error cause =>
            rw [parseLines, hline] at h
            cases h
        | ok cell? =>
            rw [parseLines_cons hline, map_eq_ok] at h
            obtain ⟨rest, hrest, rfl⟩ := h
            obtain ⟨found, hfound, rfl⟩ := ih.mp hrest
            refine ⟨cell? :: found, .cons (parseLine_eq_ok_iff.mp hline) hfound, ?_⟩
            cases cell? <;> rfl
      · rintro ⟨_, hall, rfl⟩
        cases hall with
        | @cons _ cell? _ found hline hfound =>
            rw [parseLines_cons (parseLine_eq_ok_iff.mpr hline), map_eq_ok]
            refine ⟨found.reduceOption, ih.mpr ⟨found, hfound, rfl⟩, ?_⟩
            cases cell? <;> rfl

/-- The lines before the first bad one do not matter, by induction on them. -/
theorem exists_parseLines_error {before : List Text} {bad : Text}
    (hbefore : ∀ line ∈ before, IsGood line) (hbad : ¬ IsGood bad) (n : Nat) (after : List Text) :
    ∃ cause, parseLines n (before ++ bad :: after) = .error ⟨n + before.length, cause⟩ := by
  induction before generalizing n with
  | nil =>
      obtain ⟨cause, hcause⟩ := exists_error_of_not_isGood hbad
      exact ⟨cause, by simp [parseLines, hcause]⟩
  | cons line before ih =>
      obtain ⟨hline, hrest⟩ := List.forall_mem_cons.mp hbefore
      obtain ⟨cell?, hcell⟩ := isGood_iff.mp hline
      obtain ⟨cause, hcause⟩ := ih hrest (n + 1)
      refine ⟨cause, ?_⟩
      rw [List.cons_append, parseLines_cons hcell, hcause, List.length_cons,
        Nat.add_right_comm, ← Nat.add_assoc]
      rfl

theorem exists_first_bad {ls : List Text} (h : ¬ ∀ line ∈ ls, IsGood line) :
    ∃ before bad after, ls = before ++ bad :: after ∧ (∀ line ∈ before, IsGood line) ∧
      ¬ IsGood bad := by
  induction ls with
  | nil => simp at h
  | cons line ls ih =>
      by_cases hline : IsGood line
      · obtain ⟨before, bad, after, rfl, hbefore, hbad⟩ :=
          ih fun hrest => h (List.forall_mem_cons.mpr ⟨hline, hrest⟩)
        exact ⟨line :: before, bad, after, rfl, List.forall_mem_cons.mpr ⟨hline, hbefore⟩, hbad⟩
      · exact ⟨[], line, ls, rfl, by simp, hline⟩

theorem parse_eq_ok_iff : parse t = .ok p ↔ ∃ found, List.Forall₂ LineText (lines t) found ∧
    p.words = found.reduceOption ∧ p.origin = firstAddress p.words := by
  rw [parse, bind_eq_ok]
  simp only [parseLines_eq_ok_iff]
  constructor
  · rintro ⟨_, ⟨found, hfound, rfl⟩, h⟩
    cases h
    exact ⟨found, hfound, rfl, rfl⟩
  · rintro ⟨found, hfound, hwords, horigin⟩
    obtain ⟨origin, words⟩ := p
    obtain rfl : words = found.reduceOption := hwords
    obtain rfl : origin = firstAddress found.reduceOption := horigin
    exact ⟨_, ⟨found, hfound, rfl⟩, rfl⟩

theorem exists_parse {t : Text} (h : ∀ line ∈ lines t, IsGood line) : ∃ p, parse t = .ok p := by
  choose! cellOf hcell using h
  have hfound : List.Forall₂ LineText (lines t) ((lines t).map cellOf) := by
    rw [List.forall₂_map_right_iff, List.forall₂_same]
    exact hcell
  exact ⟨⟨firstAddress _, _⟩, parse_eq_ok_iff.mpr ⟨_, hfound, rfl, rfl⟩⟩

theorem exists_parse_error {before after : List Text} {bad : Text}
    (h : lines t = before ++ bad :: after) (hbefore : ∀ line ∈ before, IsGood line)
    (hbad : ¬ IsGood bad) : ∃ cause, parse t = .error ⟨before.length + 1, cause⟩ := by
  obtain ⟨cause, hcause⟩ := exists_parseLines_error hbefore hbad 1 after
  refine ⟨cause, ?_⟩
  rw [parse, h, hcause, Nat.add_comm]
  rfl

/-- A text is read just when all of its lines are good, and then cell by cell.
Any other text is refused at its first line that is not. -/
theorem image_grammar (t : Text) :
    LinesOf t (lines t) ∧ ((∃ p, parse t = .ok p) ↔ ∀ line ∈ lines t, IsGood line) ∧
    (∀ p, parse t = .ok p ↔ ∃ found, List.Forall₂ LineText (lines t) found ∧
      p.words = found.reduceOption ∧ p.origin = firstAddress p.words) ∧
    ∀ n, (∃ e, parse t = .error e ∧ e.line = n) ↔
      ∃ before bad after, lines t = before ++ bad :: after ∧ (∀ line ∈ before, IsGood line) ∧
        ¬ IsGood bad ∧ n = before.length + 1 := by
  have hgood : ∀ p, parse t = .ok p → ∀ line ∈ lines t, IsGood line := by
    intro p hp
    by_contra hbad
    obtain ⟨before, bad, after, hlines, hbefore, hbad⟩ := exists_first_bad hbad
    obtain ⟨cause, hcause⟩ := exists_parse_error hlines hbefore hbad
    rw [hp] at hcause
    cases hcause
  refine ⟨linesOf_lines t, ⟨fun ⟨p, hp⟩ => hgood p hp, exists_parse⟩, fun p => parse_eq_ok_iff,
    fun n => ⟨?_, ?_⟩⟩
  · rintro ⟨e, he, rfl⟩
    have hbad : ¬ ∀ line ∈ lines t, IsGood line := by
      intro hall
      obtain ⟨p, hp⟩ := exists_parse hall
      rw [he] at hp
      cases hp
    obtain ⟨before, bad, after, hlines, hbefore, hbad⟩ := exists_first_bad hbad
    obtain ⟨cause, hcause⟩ := exists_parse_error hlines hbefore hbad
    obtain rfl : e = ⟨before.length + 1, cause⟩ := Except.error.inj (he.symm.trans hcause)
    exact ⟨before, bad, after, hlines, hbefore, hbad, rfl⟩
  · rintro ⟨before, bad, after, hlines, hbefore, hbad, rfl⟩
    obtain ⟨cause, hcause⟩ := exists_parse_error hlines hbefore hbad
    exact ⟨_, hcause, rfl⟩

/-- Lines with either end, a comment after a cell, a plus sign and a blank that
is no space, and one with a digit that is not octal. -/
def mixedImage : Text := "000100:21003 ; start\r\n\u00a0+101 : 030360\n; end\r\n\n8: 0".toList

def mixedLines : List Text :=
  ["000100:21003 ; start".toList, "\u00a0+101 : 030360".toList, "; end".toList, [],
    "8: 0".toList]

theorem image_grammar_mixed :
    LinesOf mixedImage mixedLines ∧ ¬ IsGood "8: 0".toList ∧
      ∃ e, parse mixedImage = .error e ∧ e.line = 5 := by
  have hlines : LinesOf mixedImage mixedLines := lines_eq_iff.mp (by decide +kernel)
  have hbad : ¬ IsGood "8: 0".toList := by
    rw [isGood_iff]
    rintro ⟨cell?, hcell⟩
    have herror : parseLine "8: 0".toList = .error (.invalidOctal "8".toList) := by decide +kernel
    rw [herror] at hcell
    cases hcell
  have hread : ∀ line ∈ mixedLines.take 4, (parseLine line).toOption.isSome = true := by
    decide +kernel
  have hbefore : ∀ line ∈ mixedLines.take 4, IsGood line := by
    intro line hline
    obtain ⟨cell?, hcell⟩ := Option.isSome_iff_exists.mp (hread line hline)
    exact isGood_iff.mpr ⟨cell?, toOption_eq_some.mp hcell⟩
  obtain ⟨-, -, -, herror⟩ := image_grammar mixedImage
  exact ⟨hlines, hbad, (herror 5).mpr
    ⟨mixedLines.take 4, _, [], hlines.lines_eq, hbefore, hbad, rfl⟩⟩

/-! ## Programs read back -/

/-- An image can hold the program: all its words are in memory, and it starts
at the first of them. -/
structure IsImage (p : Program) : Prop where
  addresses : ∀ cell ∈ p.words, cell.1.toNat ≤ 0x7FFF
  origin : p.origin = firstAddress p.words

theorem IsImage.read_back (h : IsImage p) : parse (render p) = .ok p := by
  have hparse := parse_render fun cell hcell => Word.address_of_le (h.addresses cell hcell)
  rwa [← h.origin] at hparse

theorem address_le_of_lineText {found : List (Option (Word × Word))}
    (h : List.Forall₂ LineText ts found) : ∀ cell ∈ found.reduceOption, cell.1.toNat ≤ 0x7FFF := by
  induction h with
  | nil => simp
  | cons hline _ ih =>
      cases hline with
      | blank => simpa using ih
      | cell _ _ _ _ _ _ hrange => exact List.forall_mem_cons.mpr ⟨hrange, ih⟩

theorem isImage_of_parse (h : parse t = .ok p) : IsImage p := by
  obtain ⟨found, hfound, hwords, horigin⟩ := parse_eq_ok_iff.mp h
  exact ⟨hwords ▸ address_le_of_lineText hfound, horigin⟩

/-- A program that an image can hold is read back from its own image, and only
such programs are read. So the image of a program that was read from any text
is read as the same program. -/
theorem images_read_back (p : Program) :
    (IsImage p → parse (render p) = .ok p) ∧
      ∀ t, parse t = .ok p → IsImage p ∧ parse (render p) = .ok p :=
  ⟨IsImage.read_back, fun _ h => ⟨isImage_of_parse h, (isImage_of_parse h).read_back⟩⟩

/-- Two words for one cell, and cells in no order. -/
def scatteredProgram : Program :=
  { origin := 0x7FFF, words := [(0x7FFF, 0xFFFF), (0, 1), (0x7FFF, 0)] }

theorem images_read_back_scattered :
    IsImage scatteredProgram ∧
      parse "77777:177777\n0:1\r\n+77777 : 0".toList = .ok scatteredProgram ∧
        parse (render scatteredProgram) = .ok scatteredProgram := by
  have hparse : parse "77777:177777\n0:1\r\n+77777 : 0".toList = .ok scatteredProgram := by
    decide +kernel
  obtain ⟨himage, -⟩ := (images_read_back scatteredProgram).2 _ hparse
  exact ⟨himage, hparse, (images_read_back scatteredProgram).1 himage⟩

end StackComputer.Image
