import StackComputer.Proofs.SourceLayout

/-!
# Segments of a source

The lines of a source between two ORGs put their words one after the other into
memory, from the start of the segment on and round the end of memory. The first
pass knows only the sizes of statements; that it is right about every address is
what the words of the second pass show.
-/

namespace StackComputer.Assembler

open Text

/-! ## Locations -/

/-- The address `n` words after another, round the end of memory. -/
def location (start : Word) (n : Nat) : Word := BitVec.ofNat 16 ((start.toNat + n) % 0x8000)

theorem toNat_location (start : Word) (n : Nat) :
    (location start n).toNat = (start.toNat + n) % 0x8000 := by
  rw [location, BitVec.toNat_ofNat]
  omega

theorem location_zero {start : Word} (h : start.address = start) : location start 0 = start := by
  apply BitVec.eq_of_toNat_eq
  rw [toNat_location, ← h, Word.toNat_address]
  omega

theorem location_location (start : Word) (m n : Nat) :
    location (location start m) n = location start (m + n) := by
  apply BitVec.eq_of_toNat_eq
  simp only [toNat_location]
  omega

theorem address_add_ofNat (start : Word) (n : Nat) :
    (start + BitVec.ofNat 16 n).address = location start n := by
  apply BitVec.eq_of_toNat_eq
  rw [Word.toNat_address, toNat_location, BitVec.toNat_add, BitVec.toNat_ofNat]
  omega

theorem address_location (start : Word) (n : Nat) :
    (location start n).address = location start n := by
  apply BitVec.eq_of_toNat_eq
  rw [Word.toNat_address, toNat_location]
  omega

theorem placeWords_eq (start : Word) (ws : List Word) :
    placeWords start ws = ws.mapIdx fun i w => (location start i, w) :=
  placeWords_eq_mapIdx start ws

theorem placeWords_append (start : Word) (ws vs : List Word) :
    placeWords start (ws ++ vs) =
      placeWords start ws ++ placeWords (location start ws.length) vs := by
  have hlocation : ∀ i, location (location start ws.length) i = location start (i + ws.length) := by
    intro i
    rw [location_location, Nat.add_comm]
  simp only [placeWords_eq, List.mapIdx_append, hlocation]

/-! ## Placed lines -/

/-- A line, the value of the location counter before it and the words it puts
into memory. -/
structure PlacedLine where
  text : Text
  address : Word
  words : List Word

namespace PlacedLine

def cells (x : PlacedLine) : List (Word × Word) := placeWords x.address x.words

end PlacedLine

/-- The words a line puts into memory at an address: those of its statement. -/
def lineWords (s : Symbols) (here : Word) (t : Text) : Scan (List Word) :=
  if statementOf t = [] ∨ IsOrg t then .ok [] else do
    let c ← content (upper (firstWord (statementOf t)).1) (firstWord (statementOf t)).2
    c.encode s here

/-- The location counter after a line, told by the words of the line. -/
def addressAfter (s : Symbols) (x : PlacedLine) : Scan Word :=
  if IsOrg x.text then orgAddress s x.address (firstWord (statementOf x.text)).2
  else .ok (location x.address x.words.length)

theorem statementOf_ne_nil {t : Text} (h : IsOrg t) : statementOf t ≠ [] := by
  intro hempty
  rw [IsOrg, hempty] at h
  exact absurd h (by decide)

/-- Each line has its own words, and stands where the line before it ends. -/
inductive Follows (s : Symbols) : Word → List PlacedLine → Prop
  | nil (a : Word) : Follows s a []
  | cons {x : PlacedLine} {xs : List PlacedLine} {next : Word}
      (words : lineWords s x.address x.text = .ok x.words)
      (after : addressAfter s x = .ok next) (rest : Follows s next xs) :
      Follows s x.address (x :: xs)

namespace Follows

variable {s : Symbols} {start : Word} {before segment after xs : List PlacedLine}

theorem lineWords (h : Follows s start xs) :
    ∀ x ∈ xs, Assembler.lineWords s x.address x.text = .ok x.words := by
  induction h with
  | nil => simp
  | cons hwords _ _ ih => simpa using ⟨hwords, ih⟩

theorem head_address (h : Follows s start xs) : ∀ x ∈ xs.head?, x.address = start := by
  cases h <;> simp

theorem drop (h : Follows s start (before ++ after)) : ∃ a, Follows s a after := by
  induction before generalizing start with
  | nil => exact ⟨start, h⟩
  | cons x before ih =>
      cases h with
      | cons _ _ hrest => exact ih hrest

/-- Without an ORG the words of lines are one run of words, by induction on the
lines: where one line ends the next one starts. -/
theorem without_org (h : Follows s start (segment ++ after)) (hstart : start.address = start)
    (horg : ∀ x ∈ segment, ¬ IsOrg x.text) :
    segment.flatMap PlacedLine.cells = placeWords start (segment.flatMap PlacedLine.words) ∧
      Follows s (location start (segment.flatMap PlacedLine.words).length) after := by
  induction segment generalizing start with
  | nil => exact ⟨rfl, by simpa [location_zero hstart] using h⟩
  | cons x segment ih =>
      rw [List.forall_mem_cons] at horg
      cases h with
      | cons _ hafter hrest =>
          rw [addressAfter, if_neg horg.1] at hafter
          cases hafter
          obtain ⟨hcells, hfollows⟩ := ih hrest (address_location _ _) horg.2
          constructor
          · rw [List.flatMap_cons, List.flatMap_cons, placeWords_append, hcells]
            rfl
          · simpa [location_location] using hfollows

end Follows

/-- A segment starts at the start of the source, which is address zero, and after
an ORG, which is at its value. -/
inductive StartsSegment (s : Symbols) : List PlacedLine → Word → Prop
  | source : StartsSegment s [] 0
  | org {before : List PlacedLine} {x : PlacedLine} {start : Word} (org : IsOrg x.text)
      (value : orgAddress s x.address (firstWord (statementOf x.text)).2 = .ok start) :
      StartsSegment s (before ++ [x]) start

namespace StartsSegment

variable {s : Symbols} {start : Word} {before after : List PlacedLine}

theorem address_eq (h : StartsSegment s before start) : start.address = start := by
  cases h with
  | source => decide
  | org _ hvalue => exact Layout.address_orgAddress hvalue

theorem follows (h : StartsSegment s before start) (hfollows : Follows s 0 (before ++ after)) :
    Follows s start after := by
  cases h with
  | source => exact hfollows
  | org horg hvalue =>
      rw [List.append_assoc] at hfollows
      obtain ⟨a, hline⟩ := hfollows.drop
      cases hline with
      | cons _ hafter hrest =>
          rw [addressAfter, if_pos horg, hvalue] at hafter
          cases hafter
          exact hrest

end StartsSegment

/-! ## Labels of later lines -/

def Symbols.Within (s s' : Symbols) : Prop :=
  ∀ name a, s.lookup name = some a → s'.lookup name = some a

theorem find_within {s s' : Symbols} (h : s.Within s') {name : Text} {a : Word}
    (ha : s.find name = .ok a) : s'.find name = .ok a := by
  rw [Symbols.find] at ha
  split at ha
  · next b hb =>
      rw [Symbols.find, h _ _ hb]
      exact ha
  · cases ha

theorem evaluate_within {s s' : Symbols} (h : s.Within s') {here : Word} {t : Text} {n : Int}
    (hn : evaluate s here t = .ok n) : evaluate s' here t = .ok n := by
  rw [evaluate] at hn ⊢
  split at hn
  · next hdot => rw [if_pos hdot, hn]
  · next hdot =>
      rw [if_neg hdot]
      cases hliteral : signedLiteral? (trim t) with
      | some k =>
          rw [hliteral] at hn
          exact hn
      | none =>
          rw [hliteral] at hn
          dsimp only at hn ⊢
          split at hn
          · next hsymbol =>
              obtain ⟨a, ha, hn⟩ := map_eq_ok.mp hn
              rw [if_pos hsymbol, find_within h ha, ← hn]
              rfl
          · cases hn

theorem orgAddress_within {s s' : Symbols} (h : s.Within s') {here a : Word} {operand : Text}
    (ha : orgAddress s here operand = .ok a) : orgAddress s' here operand = .ok a := by
  obtain ⟨n, hn, ha⟩ := bind_eq_ok.mp ha
  exact bind_eq_ok.mpr ⟨n, evaluate_within h hn, ha⟩

/-! ## The two passes -/

namespace Layout

variable {l l₁ l₂ : Layout} {n : Nat} {t : Text}

theorem lookup_label {o : Option Text} (h : l.label o = .ok l₁) (key : Text) (a : Word) :
    l₁.symbols.lookup key = some a ↔
      l.symbols.lookup key = some a ∨ o.map upper = some key ∧ l.counter = a := by
  rcases label_cases h with ⟨rfl, rfl⟩ | ⟨name, rfl, hfree, rfl⟩
  · simp
  · rw [List.lookup_cons]
    by_cases hkey : key = upper name
    · simp [hkey, hfree]
    · have hne : (key == upper name) = false := by simpa using hkey
      simp [hne, Ne.symm hkey]

/-- What the first pass notes about one line, and what the second makes of it. -/
structure Notes (l : Layout) (t : Text) (l₂ : Layout) (newer : List Statement) : Prop where
  statements : l₂.statements = newer.reverse ++ l.statements
  symbols : ∀ key a, l₂.symbols.lookup key = some a ↔
    l.symbols.lookup key = some a ∨ (labelOf t).map upper = some key ∧ l.counter = a
  emitted : ∀ {s rest cells}, l₂.symbols.Within s → emit s (newer ++ rest) = .ok cells →
    ∃ ws tail, lineWords s l.counter t = .ok ws ∧
      addressAfter s ⟨t, l.counter, ws⟩ = .ok l₂.counter ∧
      emit s rest = .ok tail ∧ cells = placeWords l.counter ws ++ tail

theorem exists_notes (hl : l.Addressed) (h : l.scanLine n t = .ok l₂) :
    ∃ newer, Notes l t l₂ newer := by
  rw [scanLine_eq] at h
  obtain ⟨l₁, hlabel, h⟩ := bind_eq_ok.mp h
  have hsymbols := lookup_label hlabel
  have hbefore := label_keeps hlabel
  rcases scanStatement_cases h with ⟨hempty, rfl⟩ | ⟨a, horg, ha, rfl⟩ | ⟨c, hne, horg, hc, rfl⟩
  · refine ⟨[], hbefore.2, hsymbols, ?_⟩
    intro s rest cells _ hcells
    have horg : ¬ IsOrg t := fun horg => statementOf_ne_nil horg hempty
    refine ⟨[], cells, if_pos (.inl hempty), ?_, hcells, rfl⟩
    rw [addressAfter, if_neg horg, hbefore.1]
    exact congrArg Except.ok (location_zero hl.counter)
  · have horg : IsOrg t := horg
    refine ⟨[], hbefore.2, hsymbols, ?_⟩
    intro s rest cells hs hcells
    refine ⟨[], cells, if_pos (.inr horg), ?_, hcells, rfl⟩
    rw [addressAfter, if_pos horg, ← hbefore.1]
    -- The first pass knew fewer labels, but has found all that the ORG names.
    exact orgAddress_within hs ha
  · have horg : ¬ IsOrg t := horg
    refine ⟨[⟨n, l₁.counter, c⟩], ?_, hsymbols, ?_⟩
    · simp [place, hbefore.2]
    · intro s rest cells hs hcells
      obtain ⟨ws, tail, hws, htail, rfl⟩ := emit_cons hcells
      rw [hbefore.1] at hws
      refine ⟨ws, tail, ?_, ?_, htail, by rw [hbefore.1]⟩
      · rw [lineWords, if_neg (not_or.mpr ⟨hne, horg⟩)]
        exact bind_eq_ok.mpr ⟨c, hc, hws⟩
      · rw [addressAfter, if_neg horg, length_encode hws, place, hbefore.1, address_add_ofNat]

/-- A run of the first pass and what the second makes of its statements, by
induction on the lines. -/
theorem exists_placed {ts : List Text} (hl : l.Addressed) (h : l.scanLines n ts = .ok l₂) :
    ∃ newer, l₂.statements = newer.reverse ++ l.statements ∧
      ∀ {s cells}, l₂.symbols.Within s → emit s newer = .ok cells →
        ∃ placed, placed.map PlacedLine.text = ts ∧
          cells = placed.flatMap PlacedLine.cells ∧ Follows s l.counter placed ∧
          ∀ key a, l₂.symbols.lookup key = some a ↔ l.symbols.lookup key = some a ∨
            ∃ x ∈ placed, (labelOf x.text).map upper = some key ∧ x.address = a := by
  induction ts generalizing l n with
  | nil =>
      obtain rfl : l = l₂ := Except.ok.inj h
      refine ⟨[], rfl, ?_⟩
      rintro s cells - ⟨⟩
      exact ⟨[], rfl, rfl, .nil l.counter, by simp⟩
  | cons t ts ih =>
      obtain ⟨l₁, hline, hrest⟩ := scanLines_cons l n t ts h
      obtain ⟨first, hfirst⟩ := exists_notes hl hline
      obtain ⟨later, hlater, hplaced⟩ := ih (hl.scanLine hline) hrest
      refine ⟨first ++ later, by simp [hlater, hfirst.statements], ?_⟩
      intro s cells hs hcells
      have hwithin : l₁.symbols.Within s := fun key a ha =>
        hs key a ((extends_scanLines hrest).symbols key a ha)
      obtain ⟨ws, tail, hws, hafter, htail, rfl⟩ := hfirst.emitted hwithin hcells
      obtain ⟨placed, htexts, rfl, hfollows, hlabels⟩ := hplaced hs htail
      refine ⟨⟨t, l.counter, ws⟩ :: placed, by simp [htexts], rfl, .cons hws hafter hfollows, ?_⟩
      intro key a
      simp [hlabels, hfirst.symbols, or_assoc]

end Layout

/-- The words of a segment are in memory one after the other, from its start on
and round the end of memory, and a label in it is where the next word goes. A
label on the line of an ORG belongs to the segment that this ORG ends. -/
theorem assembled_segments {source : Text} {p : Program} (h : assemble source = .ok p) :
    ∃ l placed, Layout.scanLines {} 1 (lines source) = .ok l ∧
      placed.map PlacedLine.text = lines source ∧
      p.words = placed.flatMap PlacedLine.cells ∧
      (∀ x ∈ placed, lineWords l.symbols x.address x.text = .ok x.words) ∧
      (∀ key a, l.symbols.lookup key = some a ↔
        ∃ x ∈ placed, (labelOf x.text).map upper = some key ∧ x.address = a) ∧
      ∀ before segment after start, placed = before ++ segment ++ after →
        StartsSegment l.symbols before start → (∀ x ∈ segment, ¬ IsOrg x.text) →
        segment.flatMap PlacedLine.cells =
          (segment.flatMap PlacedLine.words).mapIdx (fun i w => (location start i, w)) ∧
        ∀ x ∈ after.head?,
          x.address = location start (segment.flatMap PlacedLine.words).length := by
  obtain ⟨l, hl, hemit, -⟩ := exists_layout_of_assemble h
  obtain ⟨newer, hnewer, hplaced⟩ := Layout.exists_placed Layout.addressed_empty hl
  have hstatements : l.statements.reverse = newer := by simp [hnewer]
  rw [hstatements] at hemit
  obtain ⟨placed, htexts, hcells, hfollows, hlabels⟩ := hplaced (fun _ _ ha => ha) hemit
  refine ⟨l, placed, hl, htexts, hcells, hfollows.lineWords, by simpa using hlabels, ?_⟩
  rintro before segment after start rfl hstart horg
  rw [List.append_assoc] at hfollows
  obtain ⟨hwords, hafter⟩ := (hstart.follows hfollows).without_org hstart.address_eq horg
  exact ⟨hwords.trans (placeWords_eq _ _), hafter.head_address⟩

/-- An odd text up to the last cell of memory, a list with an empty item after
it, and labels on an ORG and behind all the words. -/
def segmentedSource : Text :=
  "ORG 77776\nA: TXT \"abc\"\nB: DW 1,,C\nC: ORG 100\nDD A\nD:\n".toList

def segmentedProgram : Program :=
  { origin := 0x7FFE
    words := [(0x7FFE, 0x6162), (0x7FFF, 0x6300), (0, 1), (1, 2), (0x40, 0), (0x41, 0x7FFE)] }

theorem assembled_segments_across_end :
    assemble segmentedSource = .ok segmentedProgram ∧
      ∃ placed : List PlacedLine, placed.map PlacedLine.text = lines segmentedSource ∧
        segmentedProgram.words = placed.flatMap PlacedLine.cells ∧
        (∃ x ∈ placed, (labelOf x.text).map upper = some "C".toList ∧ x.address = 2) ∧
        ∃ x ∈ placed, (labelOf x.text).map upper = some "D".toList ∧ x.address = 0x42 := by
  have hassemble : assemble segmentedSource = .ok segmentedProgram := rfl
  obtain ⟨l, placed, hl, htexts, hcells, -, hlabels, -⟩ := assembled_segments hassemble
  have hscan : ((Layout.scanLines {} 1 (lines segmentedSource)).toOption.map fun l =>
      (l.symbols.lookup "C".toList, l.symbols.lookup "D".toList)) = some (some 2, some 0x42) := by
    decide +kernel
  rw [hl] at hscan
  obtain ⟨hc, hd⟩ := Prod.mk.inj (Option.some.inj hscan)
  exact ⟨hassemble, placed, htexts, hcells, (hlabels _ _).mp hc, (hlabels _ _).mp hd⟩

end StackComputer.Assembler
