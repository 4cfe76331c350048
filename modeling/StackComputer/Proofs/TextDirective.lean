import StackComputer.Proofs.DirectiveLine

/-!
# Text in memory

A TXT directive puts the bytes of its text into memory, two to a word, and a
zero byte after an odd number of them.
-/

namespace StackComputer

/-- The high byte and the low byte. -/
def Word.bytes (w : Word) : List Byte := [w.extractLsb' 8 8, w.extractLsb' 0 8]

theorem Word.bytes_pack (a b : Byte) :
    Word.bytes (a.setWidth 16 <<< 8 ||| b.setWidth 16) = [a, b] := by
  have hhigh : (a.setWidth 16 <<< 8 ||| b.setWidth 16).extractLsb' 8 8 = a := by
    apply BitVec.eq_of_getLsbD_eq
    intro i hi
    have hwidth : 8 + i < 16 ∧ i < 16 := by omega
    simp [hi, hwidth]
  have hlow : (a.setWidth 16 <<< 8 ||| b.setWidth 16).extractLsb' 0 8 = b := by
    apply BitVec.eq_of_getLsbD_eq
    intro i hi
    have hwidth : i < 16 := by omega
    simp [hi, hwidth]
  rw [Word.bytes, hhigh, hlow]

namespace Text

/-- The UTF-8 bytes of a text. -/
def utf8 (t : Text) : List Byte := (String.ofList t).toUTF8.data.toList.map UInt8.toBitVec

theorem toBytes_eq_utf8 (t : Text) : toBytes t = utf8 t := by
  simp only [utf8, String.toUTF8, String.toByteArray_ofList, List.utf8Encode,
    List.toList_data_toByteArray, List.map_flatMap]
  rfl

end Text

namespace Assembler

open Text

theorem flatMap_packBytes (bytes : List Byte) :
    (packBytes bytes).flatMap Word.bytes =
      bytes ++ if bytes.length % 2 = 1 then [0] else [] := by
  induction bytes using packBytes.induct with
  | case1 => rfl
  | case2 a =>
      have hpair := Word.bytes_pack a 0
      simpa [packBytes] using hpair
  | case3 a b rest ih =>
      have hlength : (a :: b :: rest).length % 2 = rest.length % 2 := by
        rw [List.length_cons, List.length_cons]
        omega
      rw [packBytes, List.flatMap_cons, Word.bytes_pack, ih, hlength]
      rfl

theorem tight_quoted (t : Text) : Tight ('"' :: t ++ ['"']) := by
  have hquote : Tight ['"'] := tight_of_solid (List.forall_mem_singleton.mpr rfl)
  exact hquote.append hquote (by simp) (by simp) t

theorem unquote?_quoted (t : Text) : unquote? ('"' :: t ++ ['"']) = some t := by
  rw [unquote?, (tight_quoted t).trim_eq]
  simp

theorem content_text (t : Text) :
    content "TXT".toList ('"' :: t ++ ['"']) = .ok (.text (utf8 t)) := by
  rw [content, if_neg (by decide), if_neg (by decide), if_neg (by decide), if_pos rfl,
    unquote?_quoted]
  dsimp only
  rw [toBytes_eq_utf8]

/-- Whatever the text is, as long as it holds no quote. -/
theorem text_directive {source line t : Text} {before after : List Text} {l₀ l : Layout}
    {label : Option Text} (h : LineAmong source line before after l₀ l) (hnew : l₀.IsNew label)
    (ht : '"' ∉ t) (hline : DirectiveLine "TXT".toList ('"' :: t ++ ['"']) label line) :
    ∃ ws, Emits source line l₀ l ws ∧ ws.length = ((utf8 t).length + 1) / 2 ∧
      ws.flatMap Word.bytes = utf8 t ++ if (utf8 t).length % 2 = 1 then [0] else [] := by
  obtain ⟨hok, -⟩ := h.assemble_directive hnew hline (by decide) (by decide) (.quoted ht)
    (content_text t)
  exact ⟨packBytes (utf8 t), hok _ rfl, length_packBytes _, flatMap_packBytes _⟩

/-- Blanks, marks and characters of two bytes, nine bytes in all. -/
def markedText : Text := " a:é;,\u00a0".toList

def markedLine : Text := "L : txt \" a:é;,\u00a0\" ; \"".toList

def markedSource : Text := "ORG 77776\nL : txt \" a:é;,\u00a0\" ; \"\nHALT\n".toList

def markedStart : Layout := { counter := 0x7FFE, origin := some 0x7FFE }

def markedPlaced : Layout :=
  Layout.place { markedStart with symbols := [("L".toList, 0x7FFE)] } 2 (.text (toBytes markedText))

theorem marked_among :
    LineAmong markedSource markedLine ["ORG 77776".toList] ["HALT".toList] markedStart
      (markedPlaced.place 3 (.instruction "HALT".toList [])) := by
  have hline : markedStart.scanLine 2 markedLine = .ok markedPlaced := rfl
  refine .of_scanLine (by decide +kernel) rfl hline rfl ?_
  intro s hs hother
  rcases List.mem_cons.mp hs with rfl | hs
  · exact ⟨_, rfl⟩
  · rw [List.mem_singleton.mp hs] at hother
    exact absurd rfl hother

theorem marked_directive :
    DirectiveLine "TXT".toList ('"' :: markedText ++ ['"']) (some "L".toList) markedLine := by
  have hname : SymbolText "L".toList := isSymbol_iff.mp (by decide)
  have hblank : ∀ c ∈ [' '], isBlank c = true := List.forall_mem_singleton.mpr rfl
  have hrest : IsTrimmed (' ' :: ('"' :: markedText ++ ['"'] ++ [' ']))
      ('"' :: markedText ++ ['"']) := ⟨[' '], [' '], rfl, hblank, hblank, tight_quoted _⟩
  have hline : markedLine = [] ++ ("L".toList ++ [' '] ++ [':']) ++ [' '] ++ "txt".toList ++
      ' ' :: ('"' :: markedText ++ ['"'] ++ [' ']) ++ ';' :: " \"".toList := by decide +kernel
  rw [hline]
  exact .mk (by simp) (.label hname hblank) hblank rfl (startsBlank_cons rfl _) hrest (.comment _)

theorem text_directive_marked :
    '"' ∉ markedText ∧ ∃ ws, Emits markedSource markedLine markedStart
        (markedPlaced.place 3 (.instruction "HALT".toList [])) ws ∧ ws.length = 5 ∧
      ws.flatMap Word.bytes = utf8 markedText ++ [0] := by
  have hquote : '"' ∉ markedText := by decide
  have hnew : markedStart.IsNew (some "L".toList) := fun _ _ => rfl
  have hlength : (utf8 markedText).length = 9 := by rw [← toBytes_eq_utf8]; rfl
  obtain ⟨ws, hemits, hwords, hbytes⟩ := text_directive marked_among hnew hquote marked_directive
  rw [hlength] at hwords hbytes
  exact ⟨hquote, ws, hemits, hwords, hbytes⟩

end Assembler

end StackComputer
