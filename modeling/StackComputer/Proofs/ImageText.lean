import StackComputer.Image
import StackComputer.Proofs.Addresses
import StackComputer.Proofs.NumeralText

/-!
# Images read back

The image of a program holds its words and no origin. Reading it gives the
words again, and execution then starts at the first of them.
-/

namespace StackComputer.Image

open Text

/-- Where the program of an image starts. -/
def firstAddress (cells : List (Word × Word)) : Word := (cells.head?.map Prod.fst).getD 0

/-! ## Lines of an image -/

def cellLine (cell : Word × Word) : Text :=
  octalPadded 6 cell.1.toNat ++ ':' :: ' ' :: octalPadded 6 cell.2.toNat

/-- The comments an image starts with. -/
def headerLines (p : Program) : List Text :=
  ["; HP 3000 program image".toList,
    "; ".toList ++ decimal p.words.length ++ " words, origin ".toList ++
      octalPadded 6 p.origin.toNat]

theorem joinWith_ended {ts : List Text} (hne : ts ≠ []) :
    joinWith ['\n'] ts ++ ['\n'] = ts.flatMap (· ++ ['\n']) := by
  induction ts with
  | nil => exact absurd rfl hne
  | cons t ts ih =>
      cases ts with
      | nil => exact (List.append_nil _).symm
      | cons u rest =>
          rw [List.flatMap_cons, ← ih (List.cons_ne_nil u rest), joinWith, List.append_assoc,
            List.append_assoc]

theorem pairLine_eq (cell : Word × Word) : pairLine cell = cellLine cell ++ ['\n'] := by
  rw [pairLine, cellLine, List.append_assoc (octalPadded 6 cell.1.toNat)]
  rfl

theorem flatMap_pairLine (cells : List (Word × Word)) :
    cells.flatMap pairLine = (cells.map cellLine).flatMap (· ++ ['\n']) := by
  rw [List.flatMap_map]
  exact congrArg (List.flatMap · cells) (funext pairLine_eq)

theorem render_eq (p : Program) :
    render p = joinWith ['\n'] (headerLines p ++ p.words.map cellLine) ++ ['\n'] := by
  have hne : headerLines p ++ p.words.map cellLine ≠ [] := by
    rw [headerLines]
    exact List.cons_ne_nil _ _
  -- The first literal of an image runs on into the second line.
  have htitle : ∀ title : Text,
      title = "; HP 3000 program image".toList ++ ['\n'] ++ "; ".toList →
      title ++ decimal p.words.length ++ " words, origin ".toList ++
        octalPadded 6 p.origin.toNat ++ ['\n'] ++ p.words.flatMap pairLine =
      (headerLines p).flatMap (· ++ ['\n']) ++ p.words.flatMap pairLine := by
    rintro _ rfl
    simp only [headerLines, List.flatMap_cons, List.flatMap_nil, List.append_assoc,
      List.nil_append]
  rw [joinWith_ended hne, List.flatMap_append, ← flatMap_pairLine]
  exact htitle _ (by decide +kernel)

theorem isInner_of_decimal {n : Nat} : ∀ c ∈ decimal n, isInner c = true := by
  intro c hc
  obtain ⟨k, hk, rfl⟩ := mem_toDigits (by decide) hc
  have hall : ∀ k < 10, isInner k.digitChar = true := by decide
  exact hall k hk

theorem not_mem_digits {c : Char} {t : Text} (ht : ∀ d ∈ t, isInner d = true)
    (hc : isPlain c = false) : c ∉ t := by
  intro hmem
  rw [isPlain_of_isInner (ht c hmem)] at hc
  cases hc

theorem not_mem_headerLines (p : Program) {c : Char} (hc : c = '\n' ∨ c = '\r') :
    ∀ t ∈ headerLines p, c ∉ t := by
  have hplain : isPlain c = false := by rcases hc with rfl | rfl <;> decide
  have htitle : c ∉ "; HP 3000 program image".toList := by rcases hc with rfl | rfl <;> decide
  have hcount : c ∉ "; ".toList := by rcases hc with rfl | rfl <;> decide
  have horigin : c ∉ " words, origin ".toList := by rcases hc with rfl | rfl <;> decide
  intro t ht
  rcases List.mem_cons.mp ht with rfl | ht
  · exact htitle
  · rw [List.mem_singleton.mp ht]
    simp only [List.mem_append, not_or]
    exact ⟨⟨⟨hcount, not_mem_digits isInner_of_decimal hplain⟩, horigin⟩,
      not_mem_digits isInner_of_octalPadded hplain⟩

theorem not_mem_cellLine (cell : Word × Word) {c : Char} (hc : isPlain c = false)
    (hcolon : c ≠ ':') : c ∉ cellLine cell := by
  have hblank : c ≠ ' ' := by
    rintro rfl
    cases hc
  rw [cellLine, List.mem_append, List.mem_cons, List.mem_cons, not_or, not_or, not_or]
  exact ⟨not_mem_digits isInner_of_octalPadded hc, hcolon, hblank,
    not_mem_digits isInner_of_octalPadded hc⟩

theorem cellLine_ne_nil (cell : Word × Word) : cellLine cell ≠ [] :=
  List.append_ne_nil_of_left_ne_nil (octalPadded_ne_nil 6 _) _

theorem lines_render (p : Program) : lines (render p) = headerLines p ++ p.words.map cellLine := by
  rw [render_eq]
  refine lines_joinWith (List.append_ne_nil_of_left_ne_nil (List.cons_ne_nil _ _) _) ?_ true
  intro t ht
  rcases List.mem_append.mp ht with ht | ht
  · have hne : ∀ t ∈ headerLines p, t ≠ [] := by
      rw [headerLines, List.forall_mem_cons, List.forall_mem_singleton]
      exact ⟨by decide, List.cons_ne_nil _ _⟩
    exact ⟨hne t ht, not_mem_headerLines p (.inl rfl) t ht, not_mem_headerLines p (.inr rfl) t ht⟩
  · obtain ⟨cell, -, rfl⟩ := List.mem_map.mp ht
    exact ⟨cellLine_ne_nil cell, not_mem_cellLine cell (by decide) (by decide),
      not_mem_cellLine cell (by decide) (by decide)⟩

/-! ## Parsing -/

theorem octalWord?_octalPadded (width : Nat) (w : Word) :
    octalWord? (octalPadded width w.toNat) = some w := by
  obtain ⟨c, t, ht⟩ := List.exists_cons_of_ne_nil (octalPadded_ne_nil width w.toNat)
  obtain ⟨k, hk, rfl⟩ := mem_octalPadded (ht ▸ List.mem_cons_self : c ∈ octalPadded width w.toNat)
  have hplus : ∀ k < 8, k.digitChar ≠ '+' := by decide
  rw [octalWord?, numeral?_octalPadded, Option.filter_some, decide_eq_true w.isLt, if_pos rfl,
    Option.map_some, BitVec.ofNat_toNat, BitVec.setWidth_eq]
  intro digits hcons
  exact hplus k hk (List.cons.inj (ht.symm.trans hcons)).1

theorem parseOctal_octalPadded (width : Nat) (w : Word) :
    parseOctal (octalPadded width w.toNat) = .ok w := by
  rw [parseOctal, (tight_of_solid solid_octalPadded).trim_eq, octalWord?_octalPadded]

theorem parseLine_cellLine {cell : Word × Word} (h : cell.1.address = cell.1) :
    parseLine (cellLine cell) = .ok (some cell) := by
  have hsemicolon : (cellLine cell).takeWhile (· != ';') = cellLine cell := by
    have hall : ∀ c ∈ cellLine cell, (c != ';') = true := by
      intro c hc
      rw [bne_iff_ne]
      rintro rfl
      exact not_mem_cellLine cell (by decide) (by decide) hc
    rw [← List.append_nil (cellLine cell), List.takeWhile_append_of_pos hall]
    rfl
  have htight : Tight (cellLine cell) := by
    have happend := (tight_of_solid solid_octalPadded).append (tight_of_solid solid_octalPadded)
      (octalPadded_ne_nil 6 cell.1.toNat) (octalPadded_ne_nil 6 cell.2.toNat) [':', ' ']
    rwa [List.append_assoc] at happend
  have hbody : body (cellLine cell) = cellLine cell := by
    rw [body, hsemicolon, htight.trim_eq]
  have hcut : cutAt? (· == ':') (cellLine cell) =
      some (octalPadded 6 cell.1.toNat, ' ' :: octalPadded 6 cell.2.toNat) := by
    refine cutAt?_append (fun c hc => beq_eq_false_iff_ne.mpr ?_) rfl _
    exact (isPlain_ne (isPlain_of_isInner (isInner_of_octalPadded c hc))).2.2.2
  have hsecond : parseOctal (' ' :: octalPadded 6 cell.2.toNat) = .ok cell.2 :=
    parseOctal_octalPadded 6 cell.2
  have hrange : ¬ 0x7FFF < cell.1.toNat := by
    rw [← h, Word.toNat_address]
    omega
  rw [parseLine, hbody, if_neg (mt List.isEmpty_iff.mp (cellLine_ne_nil cell)), hcut]
  dsimp only
  rw [parseOctal_octalPadded]
  change (do
    if 0x7FFF < cell.1.toNat then throw (ParseError.addressRange cell.1)
    return some (cell.1, ← parseOctal (' ' :: octalPadded 6 cell.2.toNat))) = _
  rw [if_neg hrange, hsecond]
  rfl

theorem parseLines_cellLine {cells : List (Word × Word)}
    (h : ∀ cell ∈ cells, cell.1.address = cell.1) (line : Nat) :
    parseLines line (cells.map cellLine) = .ok cells := by
  induction cells generalizing line with
  | nil => rfl
  | cons cell cells ih =>
      rw [List.forall_mem_cons] at h
      rw [List.map_cons, parseLines, parseLine_cellLine h.1]
      dsimp only
      rw [ih h.2]
      rfl

/-- Only the origin of a program is lost in its image. -/
theorem parse_render {p : Program} (h : ∀ cell ∈ p.words, cell.1.address = cell.1) :
    parse (render p) = .ok { p with origin := firstAddress p.words } := by
  have hheader : parseLines 1 (lines (render p)) = .ok p.words := by
    rw [lines_render, headerLines, List.cons_append, List.cons_append, List.nil_append]
    change (do return [] ++ (← (do return [] ++ (← parseLines 3 (p.words.map cellLine))))) = _
    rw [parseLines_cellLine h]
    rfl
  rw [parse, hheader]
  rfl

end StackComputer.Image
