import StackComputer.CommandLine
import StackComputer.Proofs.FileContent
import StackComputer.Proofs.ImageText
import StackComputer.Proofs.SourceLayout

/-!
# The origin of an assembled image

A source starts at its first ORG or statement, an image at its first word. The
two are the same address unless an ORG comes between the start of the source and
its first word; what memory holds is the same in any case.
-/

namespace StackComputer

namespace Assembler

open Text

/-! ## Where the first word goes -/

/-- The line puts at least one word into memory. -/
def HoldsWords (t : Text) : Prop :=
  ∃ c, statementOf t ≠ [] ∧ ¬ IsOrg t ∧
    content (upper (firstWord (statementOf t)).1) (firstWord (statementOf t)).2 = .ok c ∧ 0 < c.size

/-- Every ORG is the first statement of the source or comes after a word. -/
def OriginAtFirstWord (source : Text) : Prop :=
  ∀ before line after, lines source = before ++ line :: after → IsOrg line →
    (∀ t ∈ before, statementOf t = []) ∨ ∃ t ∈ before, HoldsWords t

def Statement.isFilled (s : Statement) : Bool := 0 < s.content.size

namespace Layout

variable {l l₁ l₂ : Layout} {n : Nat} {t : Text}

/-- The address of the first statement that holds words. -/
def wordsFrom? (l : Layout) : Option Word :=
  (l.statements.reverse.find? Statement.isFilled).map (·.address)

theorem wordsFrom?_place (l : Layout) (line : Nat) (c : Content) :
    (l.place line c).wordsFrom? =
      l.wordsFrom?.or (if 0 < c.size then some l.counter else none) := by
  rw [wordsFrom?, wordsFrom?, place, List.reverse_cons, List.find?_append, Option.map_or]
  congr 1
  rw [List.find?_singleton, Statement.isFilled]
  by_cases hsize : 0 < c.size
  · rw [if_pos hsize, if_pos (decide_eq_true hsize), Option.map_some]
  · rw [if_neg hsize, if_neg (mt of_decide_eq_true hsize), Option.map_none]

theorem Extends.wordsFrom? (h : l.Extends l₁) {a : Word} (ha : l.wordsFrom? = some a) :
    l₁.wordsFrom? = some a := by
  obtain ⟨newer, hnewer⟩ := h.statements
  rw [Layout.wordsFrom?] at ha ⊢
  rw [← hnewer, List.reverse_append, List.find?_append, Option.map_or, ha, Option.some_or]

/-- Until there is a word the location counter stays at the origin, and then the
first word does. -/
structure Anchored (l : Layout) : Prop where
  waiting : l.wordsFrom? = none → ∀ a, l.origin = some a → l.counter = a
  settled : ∀ a, l.wordsFrom? = some a → l.origin = some a

theorem anchored_empty : Anchored {} := ⟨nofun, nofun⟩

theorem Anchored.label (hl : l.Anchored) {o : Option Text} (h : l.label o = .ok l₁) :
    l₁.Anchored ∧ l₁.origin = l.origin ∧ l₁.wordsFrom? = l.wordsFrom? := by
  rcases label_cases h with ⟨-, rfl⟩ | ⟨name, -, -, rfl⟩
  · exact ⟨hl, rfl, rfl⟩
  · exact ⟨⟨hl.waiting, hl.settled⟩, rfl, rfl⟩

/-- The counter may be moved before everything else and after a word. -/
theorem Anchored.moveTo (hl : l.Anchored) (hfree : l.origin = none ∨ l.wordsFrom? ≠ none)
    (a : Word) : (l.moveTo a).Anchored := by
  constructor
  · intro hwords b hb
    have horigin : l.origin = none := hfree.resolve_right fun hne => hne hwords
    rw [Layout.moveTo, horigin] at hb
    exact Option.some.inj hb
  · intro b hb
    rw [Layout.moveTo, hl.settled b hb]
    rfl

theorem Anchored.place (hl : l.Anchored) (haddress : l.Addressed) (line : Nat) (c : Content) :
    (l.place line c).Anchored := by
  have horigin : (l.place line c).origin = l.origin.or (some l.counter) := by
    rw [Layout.place]
    cases l.origin <;> rfl
  constructor
  -- Without a word so far the statement is empty, and the counter does not move.
  · intro hwords a ha
    rw [wordsFrom?_place, Option.or_eq_none_iff] at hwords
    have hsize : c.size = 0 := by
      refine Decidable.byContradiction fun hne => ?_
      rw [if_pos (Nat.pos_of_ne_zero hne)] at hwords
      cases hwords.2
    have hcounter : (l.place line c).counter = l.counter := by
      rw [Layout.place, hsize]
      exact (congrArg Word.address (BitVec.add_zero _)).trans haddress.counter
    rw [hcounter]
    rw [horigin] at ha
    cases hl' : l.origin with
    | none =>
        rw [hl'] at ha
        exact Option.some.inj ha
    | some b =>
        rw [hl'] at ha
        exact Option.some.inj ha ▸ hl.waiting hwords.1 b hl'
  -- The first word goes where the counter is, which is the origin still.
  · intro a ha
    rw [wordsFrom?_place] at ha
    rw [horigin]
    cases hwords : l.wordsFrom? with
    | some b =>
        rw [hwords] at ha
        rw [hl.settled b hwords]
        exact ha
    | none =>
        rw [hwords, Option.none_or] at ha
        split at ha
        · cases hl' : l.origin with
          | none => exact ha
          | some b =>
              rw [← hl.waiting hwords b hl']
              exact ha
        · cases ha

theorem Anchored.scanLine (hl : l.Anchored) (haddress : l.Addressed)
    (hfree : IsOrg t → l.origin = none ∨ l.wordsFrom? ≠ none) (h : l.scanLine n t = .ok l₂) :
    l₂.Anchored := by
  rw [scanLine_eq] at h
  obtain ⟨l₁, hlabel, h⟩ := bind_eq_ok.mp h
  obtain ⟨hl₁, horigin, hwords⟩ := hl.label hlabel
  rcases scanStatement_cases h with ⟨-, rfl⟩ | ⟨a, horg, -, rfl⟩ | ⟨c, -, -, -, rfl⟩
  · exact hl₁
  · refine hl₁.moveTo ?_ a
    rw [horigin, hwords]
    exact hfree horg
  · exact hl₁.place (haddress.label hlabel) n c

/-! ## Lines before -/

theorem origin_eq_none {ts : List Text} (h : l.scanLines n ts = .ok l₂)
    (hempty : ∀ t ∈ ts, statementOf t = []) (hl : l.origin = none) : l₂.origin = none := by
  induction ts generalizing l n with
  | nil => exact Except.ok.inj h ▸ hl
  | cons t ts ih =>
      rw [List.forall_mem_cons] at hempty
      obtain ⟨l₁, hline, h⟩ := scanLines_cons l n t ts h
      refine ih h hempty.2 ?_
      rw [scanLine_eq, hempty.1] at hline
      obtain ⟨l₃, hlabel, hstatement⟩ := bind_eq_ok.mp hline
      cases hstatement
      rcases label_cases hlabel with ⟨-, rfl⟩ | ⟨name, -, -, rfl⟩
      · exact hl
      · exact hl

theorem wordsFrom?_ne_none {ts : List Text} (h : l.scanLines n ts = .ok l₂) (hmem : t ∈ ts)
    (ht : HoldsWords t) : l₂.wordsFrom? ≠ none := by
  obtain ⟨before, after, rfl⟩ := List.append_of_mem hmem
  obtain ⟨l₁, -, h⟩ := scanLines_append.mp h
  obtain ⟨l₃, hline, hafter⟩ := scanLines_cons _ _ _ _ h
  rw [scanLine_eq] at hline
  obtain ⟨l₀, -, hstatement⟩ := bind_eq_ok.mp hline
  obtain ⟨c, hne, horg, hc, hsize⟩ := ht
  rcases scanStatement_cases hstatement with ⟨hempty, -⟩ | ⟨_, hmove, -⟩ | ⟨c', -, -, hc', rfl⟩
  · exact absurd hempty hne
  · exact absurd hmove horg
  · cases hc.symm.trans hc'
    have hplaced : ∀ line, ((l₀.place line c).wordsFrom?).isSome = true := by
      intro line
      rw [wordsFrom?_place, if_pos hsize, Option.isSome_or, Option.isSome_some, Bool.or_true]
    obtain ⟨a, ha⟩ := Option.isSome_iff_exists.mp (hplaced _)
    rw [(extends_scanLines hafter).wordsFrom? ha]
    exact Option.some_ne_none a

theorem Anchored.scanLines {before rest : List Text}
    (horg : ∀ first line after, before ++ rest = first ++ line :: after → IsOrg line →
      (∀ t ∈ first, statementOf t = []) ∨ ∃ t ∈ first, HoldsWords t)
    (hbefore : Layout.scanLines {} 1 before = .ok l) (hl : l.Anchored)
    (h : l.scanLines (1 + before.length) rest = .ok l₂) : l₂.Anchored := by
  -- The lines done move over to `before`, which is what an ORG is judged by.
  induction rest generalizing before l with
  | nil => exact Except.ok.inj h ▸ hl
  | cons t rest ih =>
      obtain ⟨l₁, hline, h⟩ := scanLines_cons _ _ _ _ h
      have hfree : IsOrg t → l.origin = none ∨ l.wordsFrom? ≠ none := by
        intro ht
        rcases horg before t rest rfl ht with hempty | ⟨u, hu, hwords⟩
        · exact .inl (origin_eq_none hbefore hempty rfl)
        · exact .inr (wordsFrom?_ne_none hbefore hu hwords)
      have hbefore' : Layout.scanLines {} 1 (before ++ [t]) = .ok l₁ := by
        refine scanLines_append.mpr ⟨l, hbefore, ?_⟩
        rw [Layout.scanLines, hline]
        rfl
      refine ih ?_ hbefore' ?_ ?_
      · intro first line after heq
        rw [List.append_assoc] at heq
        exact horg first line after heq
      · exact hl.scanLine (addressed_empty.scanLines hbefore) hfree hline
      · rw [List.length_append]
        exact h

end Layout

/-! ## The first cell -/

theorem head?_emit {s : Symbols} {statements : List Statement} {cells : List (Word × Word)}
    (haddress : ∀ statement ∈ statements, statement.address.address = statement.address)
    (h : emit s statements = .ok cells) :
    cells.head?.map Prod.fst =
      (statements.find? Statement.isFilled).map (·.address) := by
  induction statements generalizing cells with
  | nil =>
      cases h
      rfl
  | cons first rest ih =>
      rw [List.forall_mem_cons] at haddress
      obtain ⟨ws, tail, hws, htail, rfl⟩ := emit_cons h
      have hlength := length_encode hws
      cases ws with
      | nil =>
          have hsize : ¬ first.isFilled = true := by
            rw [Statement.isFilled, ← hlength]
            decide
          rw [List.find?_cons_of_neg hsize]
          exact ih haddress.2 htail
      | cons w ws =>
          have hsize : first.isFilled = true := by
            rw [Statement.isFilled, ← hlength]
            exact decide_eq_true (Nat.succ_pos _)
          rw [List.find?_cons_of_pos hsize]
          exact congrArg some haddress.1

theorem origin_eq_firstAddress {source : Text} {p : Program} (h : assemble source = .ok p)
    (horigin : OriginAtFirstWord source) (hne : p.words ≠ []) :
    p.origin = Image.firstAddress p.words := by
  obtain ⟨l, hl, hemit, hp⟩ := exists_layout_of_assemble h
  have haddress := Layout.addressed_empty.scanLines hl
  have hstart : Layout.scanLines {} 1 [] = .ok {} := rfl
  have hanchored : l.Anchored :=
    Layout.anchored_empty.scanLines (fun before line after => horigin before line after) hstart hl
  have hhead := head?_emit (fun s hs => haddress.statements s (List.mem_reverse.mp hs)) hemit
  obtain ⟨cell, cells, hcells⟩ := List.exists_cons_of_ne_nil hne
  have hwords : l.wordsFrom? = some cell.1 := by
    rw [Layout.wordsFrom?, ← hhead, hcells]
    rfl
  rw [hp, hanchored.settled _ hwords, Image.firstAddress, hcells]
  rfl

end Assembler

open Assembler CommandLine in
/-- An image has all the words of the program it was made from, and starts at
the first of them. -/
theorem assembled_image_keeps_words {source : Text} {p : Program} (h : assemble source = .ok p) :
    Image.parse (Image.render p) = .ok { p with origin := Image.firstAddress p.words } ∧
    (∀ t t' path, Image.save t path p = .ok t' →
      Image.load t' path = .ok { p with origin := Image.firstAddress p.words }) ∧
    (∀ start, (boot { p with origin := Image.firstAddress p.words } start).memory =
      (boot p start).memory) ∧
    (∀ a, boot { p with origin := Image.firstAddress p.words } (some a) = boot p (some a)) ∧
    (Image.parse (Image.render p) = .ok p ↔ p.origin = Image.firstAddress p.words) ∧
    (OriginAtFirstWord source → p.words ≠ [] → Image.parse (Image.render p) = .ok p) := by
  obtain ⟨l, hl, hemit, hp⟩ := exists_layout_of_assemble h
  have hparse := Image.parse_render fun cell hcell => address_of_mem_emit hemit hcell
  have hsame : Image.parse (Image.render p) = .ok p ↔ p.origin = Image.firstAddress p.words := by
    rw [hparse]
    constructor
    · intro heq
      exact congrArg Program.origin (Except.ok.inj heq).symm
    · intro horigin
      rw [← horigin]
  refine ⟨hparse, ?_, fun _ => rfl, fun _ => rfl, hsame, ?_⟩
  · intro t t' path hsave
    obtain ⟨written, hwrite, hsave⟩ : ∃ written, t.write path (Image.render p) = .ok written ∧
        written = t' := by
      rw [Image.save] at hsave
      cases hwrite : t.write path (Image.render p) with
      | error e =>
          rw [hwrite] at hsave
          cases hsave
      | ok written =>
          rw [hwrite] at hsave
          exact ⟨written, rfl, Except.ok.inj hsave⟩
    rw [Image.load, ← hsave, FileTree.read_write hwrite]
    dsimp only
    rw [hparse]
    rfl
  · intro horigin hne
    exact hsame.mpr (origin_eq_firstAddress h horigin hne)

open Assembler in
/-- The second ORG of this source comes after a word. -/
theorem assembled_image_keeps_words_org_twice :
    assemble "ORG 100\nHALT\nORG 200\nDW 1\n".toList =
      .ok { origin := 0x40, words := [(0x40, 0x30F0), (0x80, 1)] } ∧
    OriginAtFirstWord "ORG 100\nHALT\nORG 200\nDW 1\n".toList ∧
    Image.parse (Image.render { origin := 0x40, words := [(0x40, 0x30F0), (0x80, 1)] }) =
      .ok { origin := 0x40, words := [(0x40, 0x30F0), (0x80, 1)] } := by
  have hassemble : assemble "ORG 100\nHALT\nORG 200\nDW 1\n".toList =
      .ok { origin := 0x40, words := [(0x40, 0x30F0), (0x80, 1)] } := rfl
  have horigin : OriginAtFirstWord "ORG 100\nHALT\nORG 200\nDW 1\n".toList := by
    have hlines : Text.lines "ORG 100\nHALT\nORG 200\nDW 1\n".toList =
        ["ORG 100".toList, "HALT".toList, "ORG 200".toList, "DW 1".toList] := by decide +kernel
    have hhalt : HoldsWords "HALT".toList :=
      ⟨.instruction "HALT".toList [], by decide, by decide, rfl, by decide⟩
    intro before line after h horg
    rw [hlines] at h
    match before, h with
    | [], _ => exact .inl (List.forall_mem_nil _)
    | [_], h =>
        cases h
        exact absurd horg (by decide)
    | _ :: _ :: _, h =>
        obtain ⟨-, h⟩ := List.cons.inj h
        obtain ⟨rfl, -⟩ := List.cons.inj h
        exact .inr ⟨_, List.mem_cons_of_mem _ List.mem_cons_self, hhalt⟩
  obtain ⟨-, -, -, -, -, hsame⟩ := assembled_image_keeps_words hassemble
  exact ⟨hassemble, horigin, hsame horigin (List.cons_ne_nil _ _)⟩

open Assembler CommandLine in
/-- An ORG right after another leaves the origin where the first one put it, and
that is in the image no more. -/
theorem image_forgets_empty_org :
    assemble "ORG 100\nORG 200\nHALT\n".toList =
      .ok { origin := 0x40, words := [(0x80, 0x30F0)] } ∧
    Image.parse (Image.render { origin := 0x40, words := [(0x80, 0x30F0)] }) =
      .ok { origin := 0x80, words := [(0x80, 0x30F0)] } ∧
    (boot { origin := 0x40, words := [(0x80, 0x30F0)] } none).regs.pc = 0x40 ∧
    (boot { origin := 0x80, words := [(0x80, 0x30F0)] } none).regs.pc = 0x80 :=
  ⟨rfl, rfl, rfl, rfl⟩

end StackComputer
