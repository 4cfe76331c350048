import StackComputer.Proofs.Addresses
import StackComputer.Proofs.InstructionText

/-!
# Listings assembled again

A source of one origin and the texts of words assembles to these words, at
consecutive addresses from the origin on.
-/

namespace StackComputer

namespace Assembler

open Text

theorem isPlain_spaced {name rest : Text} (hname : ∀ c ∈ name, isSolid c = true)
    (hrest : ∀ c ∈ rest, isPlain c = true) : ∀ c ∈ spaced name rest, isPlain c = true := by
  intro c hc
  rw [spaced] at hc
  split at hc
  · exact isPlain_of_isSolid (hname c hc)
  · rcases List.mem_append.mp hc with hc | hc
    · exact isPlain_of_isSolid (hname c hc)
    · rcases List.mem_cons.mp hc with rfl | hc
      · rfl
      · exact hrest c hc

theorem spaced_ne_nil {name : Text} (hname : name ≠ []) (rest : Text) : spaced name rest ≠ [] := by
  rw [spaced]
  split
  · exact hname
  · exact List.append_ne_nil_of_left_ne_nil hname _

theorem tight_spaced {name rest : Text} (hsolid : ∀ c ∈ name, isBlank c = false)
    (hname : name ≠ []) (hrest : Tight rest) : Tight (spaced name rest) := by
  rw [spaced]
  split
  · exact tight_of_solid hsolid
  · next hempty =>
      exact tight_append_blank hsolid hname hrest (mt List.isEmpty_iff.mpr hempty)

theorem firstWord_spaced {name rest : Text} (hsolid : ∀ c ∈ name, isBlank c = false)
    (hname : name ≠ []) (hrest : Tight rest) : firstWord (spaced name rest) = (name, rest) := by
  rw [spaced]
  split
  · next hempty => rw [firstWord_eq_self hsolid, List.isEmpty_iff.mp hempty]
  · next hempty =>
      exact firstWord_append hsolid hname hrest (mt List.isEmpty_iff.mpr hempty)

theorem withoutComment_eq_self {t : Text} (h : ';' ∉ t) (inQuotes : Bool) :
    withoutComment inQuotes t = t := by
  induction t generalizing inQuotes with
  | nil => rfl
  | cons c t ih =>
      rw [List.mem_cons, not_or] at h
      rw [withoutComment, if_neg fun hcomment => h.1 hcomment.1.symm, ih h.2]

theorem splitLabel_eq_none {t : Text} (h : ':' ∉ t) : splitLabel t = (none, t) := by
  rw [splitLabel, cutAt?_eq_none (beq_eq_false_of_notMem h)]

theorem content_of_no_directive {name : Text} (h : name ∉ directives) (operand : Text) :
    content name operand = .ok (.instruction name operand) := by
  have hdirective : ∀ d ∈ directives, name ≠ d := fun d hd heq => h (heq ▸ hd)
  rw [content, if_neg (hdirective _ (by decide)), if_neg (hdirective _ (by decide)),
    if_neg (hdirective _ (by decide)), if_neg (hdirective _ (by decide))]

namespace Layout

variable {l : Layout} {line : Nat} {name rest : Text}

/-- A plain line has neither label nor comment. -/
theorem scanLine_spaced (hsolid : ∀ c ∈ name, isSolid c = true) (hname : name ≠ [])
    (hrest : ∀ c ∈ rest, isPlain c = true) (htight : Tight rest) :
    l.scanLine line (spaced name rest) =
      if name = "ORG".toList then do
        let a ← narrow 16 0 0x7FFF (← evaluate l.symbols l.counter rest)
        return l.moveTo a
      else do
        let c ← content name rest
        return l.place line c := by
  have hspaced := isPlain_spaced hsolid hrest
  have hblank : ∀ c ∈ name, isBlank c = false := fun c hc => isBlank_of_isSolid (hsolid c hc)
  have hsemicolon : ';' ∉ spaced name rest := fun hc => (isPlain_ne (hspaced _ hc)).2.2.1 rfl
  have hcolon : ':' ∉ spaced name rest := fun hc => (isPlain_ne (hspaced _ hc)).2.2.2 rfl
  rw [scanLine, withoutComment_eq_self hsemicolon, (tight_spaced hblank hname htight).trim_eq,
    splitLabel_eq_none hcolon]
  dsimp only
  rw [scanStatement, firstWord_spaced hblank hname htight,
    if_neg (mt List.isEmpty_iff.mp (spaced_ne_nil hname rest))]
  dsimp only
  rw [upper_eq_self fun c hc => isPlain_of_isSolid (hsolid c hc)]

theorem scanLine_statement (h : IsStatement name rest) :
    l.scanLine line (spaced name rest) = .ok (l.place line (.instruction name rest)) := by
  have horg : name ≠ "ORG".toList := fun heq => h.no_directive (heq ▸ by decide)
  rw [scanLine_spaced h.solid_name h.name_ne_nil h.plain_rest h.tight_rest, if_neg horg,
    content_of_no_directive h.no_directive]
  rfl

end Layout

theorem evaluate_octalPadded (s : Symbols) (here : Word) (width : Nat) {n : Nat}
    (hn : n < 0x10000000000000000) : evaluate s here (octalPadded width n) = .ok (n : Int) := by
  obtain ⟨c, t, ht⟩ := List.exists_cons_of_ne_nil (octalPadded_ne_nil width n)
  obtain ⟨k, hk, rfl⟩ := mem_octalPadded (ht ▸ List.mem_cons_self : c ∈ octalPadded width n)
  have hdigits : ∀ k < 8, k.digitChar ≠ '.' ∧ k.digitChar ≠ '-' := by decide
  obtain ⟨hdot, hminus⟩ := hdigits k hk
  have htrim : trim (octalPadded width n) = octalPadded width n :=
    (tight_of_solid solid_octalPadded).trim_eq
  have hlone : octalPadded width n ≠ ['.'] := by
    rw [ht]
    exact fun heq => hdot (List.cons.inj heq).1
  have hsigned : signedLiteral? (octalPadded width n) = some (n : Int) := by
    rw [signedLiteral?, htrim]
    split
    · next rest heq =>
        rw [ht] at heq
        exact absurd (List.cons.inj heq).1 hminus
    · rw [literal?_octalPadded width hn]
      rfl
  rw [evaluate, htrim, if_neg hlone, hsigned]

theorem narrow_origin {o : Word} (ho : o.toNat ≤ 0x7FFF) :
    (narrow 16 0 0x7FFF (o.toNat : Int) : Scan Word) = .ok o := by
  have hrange : (0 : Int) ≤ o.toNat ∧ (o.toNat : Int) ≤ 0x7FFF := by omega
  rw [narrow, if_pos hrange, BitVec.ofInt_natCast, ofNat_toNat_self]

theorem solid_org : ∀ c ∈ "ORG".toList, isSolid c = true := List.all_eq_true.mp (by decide)

/-- The line that sets the origin. -/
def originLine (width : Nat) (o : Word) : Text := "ORG ".toList ++ octalPadded width o.toNat

theorem originLine_eq (width : Nat) (o : Word) :
    originLine width o = spaced "ORG".toList (octalPadded width o.toNat) := by
  rw [spaced_of_ne_nil _ (octalPadded_ne_nil width _)]
  rfl

theorem Layout.scanLine_originLine (l : Layout) (line width : Nat) {o : Word}
    (ho : o.toNat ≤ 0x7FFF) : l.scanLine line (originLine width o) = .ok (l.moveTo o) := by
  have hsmall : o.toNat < 0x10000000000000000 := Nat.lt_of_lt_of_le o.isLt (by decide)
  rw [originLine_eq, Layout.scanLine_spaced solid_org (by decide)
    (fun c hc => isPlain_of_isInner (isInner_of_octalPadded c hc))
    (tight_of_solid solid_octalPadded), if_pos rfl, evaluate_octalPadded _ _ width hsmall]
  change (narrow 16 0 0x7FFF (o.toNat : Int) >>= fun a => pure (l.moveTo a)) = _
  rw [narrow_origin ho]
  rfl

/-! ## Placement -/

theorem placeWords_congr {a b : Word} (h : a.address = b.address) (ws : List Word) :
    placeWords a ws = placeWords b ws := by
  induction ws generalizing a b with
  | nil => rfl
  | cons w ws ih => rw [placeWords, placeWords, h, ih (Word.address_add_one_congr h)]

theorem placeWords_eq_mapIdx (a : Word) (ws : List Word) :
    placeWords a ws = ws.mapIdx fun i w => (BitVec.ofNat 16 ((a.toNat + i) % 0x8000), w) := by
  induction ws generalizing a with
  | nil => rfl
  | cons w ws ih =>
      have hhead : a.address = BitVec.ofNat 16 ((a.toNat + 0) % 0x8000) := by
        apply BitVec.eq_of_toNat_eq
        rw [Word.toNat_address, BitVec.toNat_ofNat]
        omega
      have hnext : ∀ i, ((a + 1).toNat + i) % 0x8000 = (a.toNat + (i + 1)) % 0x8000 := by
        intro i
        simp only [BitVec.toNat_add, BitVec.ofNat_eq_ofNat, BitVec.toNat_ofNat]
        omega
      rw [placeWords, ih, List.mapIdx_cons, hhead]
      simp only [hnext]

/-- The lines of words are laid out one after the other, by induction on the
words. What they emit does not depend on the symbols. -/
theorem scanLines_disassemble (l : Layout) (line : Nat) (ws : List Word) :
    ∃ l' statements, l.scanLines line (ws.map Instruction.disassemble) = .ok l' ∧
      l'.symbols = l.symbols ∧ (∀ a, l.origin = some a → l'.origin = some a) ∧
      l'.statements = statements.reverse ++ l.statements ∧
      ∀ s, emit s statements = .ok (placeWords l.counter ws) := by
  -- The layout before the first word is arbitrary, so that each word can be the first.
  induction ws generalizing l line with
  | nil => exact ⟨l, [], rfl, rfl, fun _ h => h, rfl, fun _ => rfl⟩
  | cons w ws ih =>
      obtain ⟨name, rest, hstatement, htext, hencode⟩ := exists_statement w
      have hline : l.scanLine line (Instruction.disassemble w) =
          .ok (l.place line (.instruction name rest)) := by
        rw [htext]
        exact Layout.scanLine_statement hstatement
      obtain ⟨l', statements, hscan, hsymbols, horigin, hstatements, hemit⟩ :=
        ih (l.place line (.instruction name rest)) (line + 1)
      refine ⟨l', ⟨line, l.counter, .instruction name rest⟩ :: statements, ?_, hsymbols, ?_, ?_, ?_⟩
      · rw [List.map_cons, Layout.scanLines, hline]
        exact hscan
      · intro a ha
        apply horigin
        rw [Layout.place, ha]
        rfl
      · rw [hstatements, List.reverse_cons, List.append_assoc]
        rfl
      · intro s
        have hword : (Content.instruction name rest).encode s l.counter = .ok [w] := by
          rw [Content.encode, hencode]
          rfl
        have hcounter : (l.place line (.instruction name rest)).counter.address =
            (l.counter + 1).address := Word.address_address _
        rw [emit, hword]
        dsimp only
        rw [hemit, placeWords_congr hcounter]
        rfl

theorem assemble_of_scanLines {source : Text} {l : Layout} {words : List (Word × Word)}
    (hscan : Layout.scanLines {} 1 (lines source) = .ok l)
    (hemit : emit l.symbols l.statements.reverse = .ok words) :
    assemble source = .ok { origin := l.origin.getD 0, words := words } := by
  rw [assemble, hscan, ok_bind, hemit, ok_bind]
  rfl

/-- The line of an origin and those of words are the lines of their source. -/
theorem lines_disassembly (width : Nat) (o : Word) (ws : List Word) (ended : Bool) :
    lines (joinWith ['\n'] (originLine width o :: ws.map Instruction.disassemble) ++
      if ended then ['\n'] else []) = originLine width o :: ws.map Instruction.disassemble := by
  apply lines_joinWith (List.cons_ne_nil _ _)
  intro t ht
  obtain ⟨name, rest, rfl, hname, hplain⟩ : ∃ name rest, t = spaced name rest ∧ name ≠ [] ∧
      ∀ c ∈ spaced name rest, isPlain c = true := by
    rcases List.mem_cons.mp ht with rfl | ht
    · exact ⟨_, _, originLine_eq width o, by decide, isPlain_spaced solid_org
        fun c hc => isPlain_of_isInner (isInner_of_octalPadded c hc)⟩
    · obtain ⟨w, -, rfl⟩ := List.mem_map.mp ht
      obtain ⟨name, rest, hstatement, htext, -⟩ := exists_statement w
      exact ⟨name, rest, htext, hstatement.name_ne_nil,
        isPlain_spaced hstatement.solid_name hstatement.plain_rest⟩
  exact ⟨spaced_ne_nil hname rest, fun hc => (isPlain_ne (hplain _ hc)).1 rfl,
    fun hc => (isPlain_ne (hplain _ hc)).2.1 rfl⟩

/-- An origin and the disassembly of any words, a line each, assemble to just
these words, placed from the origin on and round the end of memory. -/
theorem assemble_disassembly {o : Word} (ho : o.toNat ≤ 0x7FFF) (width : Nat) (ws : List Word)
    (ended : Bool) :
    assemble (joinWith ['\n'] (originLine width o :: ws.map Instruction.disassemble) ++
        if ended then ['\n'] else []) =
      .ok { origin := o,
            words := ws.mapIdx fun i w => (BitVec.ofNat 16 ((o.toNat + i) % 0x8000), w) } := by
  obtain ⟨l, statements, hscan, -, horigin, hstatements, hemit⟩ :=
    scanLines_disassemble (Layout.moveTo {} o) 2 ws
  have hlayout : Layout.scanLines {} 1 (originLine width o :: ws.map Instruction.disassemble) =
      .ok l := by
    rw [Layout.scanLines, Layout.scanLine_originLine {} 1 width ho]
    exact hscan
  have hreverse : l.statements.reverse = statements := by
    rw [hstatements, List.reverse_append, List.reverse_reverse]
    rfl
  rw [assemble_of_scanLines ((lines_disassembly width o ws ended).symm ▸ hlayout)
    (hreverse ▸ hemit l.symbols), horigin o rfl, placeWords_eq_mapIdx]
  rfl

/-- Two words across the end of memory, half a pair and a whole word of them
without an instruction. -/
theorem assemble_disassembly_across_end :
    (0x7FFF : Word).toNat ≤ 0x7FFF ∧
      assemble "ORG 77777\nDATA 072, ADD\nDATA 177777\n".toList =
        .ok { origin := 0x7FFF, words := [(0x7FFF, 0x0E90), (0, 0xFFFF)] } := by
  have hsource : joinWith ['\n'] (originLine 0 0x7FFF ::
      [(0x0E90 : Word), 0xFFFF].map Instruction.disassemble) ++ ['\n'] =
        "ORG 77777\nDATA 072, ADD\nDATA 177777\n".toList := by decide +kernel
  have horigin : (0x7FFF : Word).toNat ≤ 0x7FFF := by decide
  have hassemble := assemble_disassembly horigin 0 [0x0E90, 0xFFFF] true
  rw [if_pos rfl, hsource] at hassemble
  exact ⟨horigin, hassemble⟩

end Assembler

end StackComputer
