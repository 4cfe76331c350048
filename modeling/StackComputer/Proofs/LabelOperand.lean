import StackComputer.Proofs.SourceLayout
import StackComputer.Proofs.TextWords

/-!
# Labels as operands

A label stands for an address in an operand, alone or after the data base, in
letters of either case and with blanks anywhere.
-/

namespace StackComputer

namespace Assembler

open Text

/-! ## Symbols -/

theorem isSymbolStart_iff {c : Char} : isSymbolStart c = true ↔
    (65 ≤ c.toNat ∧ c.toNat ≤ 90 ∨ 97 ≤ c.toNat ∧ c.toNat ≤ 122) ∨ c.toNat = 95 := by
  have hupper : c.isUpper = true ↔ 65 ≤ c.toNat ∧ c.toNat ≤ 90 := decide_eq_true_iff
  have hunderscore : (c == '_') = true ↔ c.toNat = 95 := beq_iff_eq.trans Char.toNat_inj.symm
  rw [isSymbolStart, Char.isAlpha, Bool.or_eq_true, Bool.or_eq_true, hupper, isLower_iff,
    hunderscore]

theorem isSymbolPart_iff {c : Char} :
    isSymbolPart c = true ↔ isSymbolStart c = true ∨ 48 ≤ c.toNat ∧ c.toNat ≤ 57 := by
  have hdigit : c.isDigit = true ↔ 48 ≤ c.toNat ∧ c.toNat ≤ 57 := by
    rw [Char.isDigit, Bool.and_eq_true, decide_eq_true_iff, decide_eq_true_iff]
    exact Iff.rfl
  rw [isSymbolPart, Char.isAlphanum, isSymbolStart, Bool.or_eq_true, Bool.or_eq_true,
    Bool.or_eq_true, hdigit, or_right_comm]

theorem isSymbolStart_toUpper (c : Char) : isSymbolStart c.toUpper = isSymbolStart c := by
  rw [Bool.eq_iff_iff, isSymbolStart_iff, isSymbolStart_iff]
  rcases toNat_toUpper c with ⟨hlower, hc⟩ | ⟨hlower, hc⟩ <;> omega

theorem isSymbolPart_toUpper (c : Char) : isSymbolPart c.toUpper = isSymbolPart c := by
  rw [Bool.eq_iff_iff, isSymbolPart_iff, isSymbolPart_iff, isSymbolStart_toUpper]
  rcases toNat_toUpper c with ⟨hlower, -⟩ | ⟨-, hc⟩
  · have hstart : isSymbolStart c = true := isSymbolStart_iff.mpr (.inl (.inr hlower))
    rw [hstart]
    exact ⟨fun _ => .inl rfl, fun _ => .inl rfl⟩
  · rw [hc]

theorem isSymbol_upper (t : Text) : isSymbol (upper t) = isSymbol t := by
  cases t with
  | nil => rfl
  | cons c t =>
      have hparts : (isSymbolPart ∘ Char.toUpper) = isSymbolPart := funext isSymbolPart_toUpper
      rw [upper, List.map_cons, isSymbol, isSymbol, isSymbolStart_toUpper, List.all_map, hparts]

theorem isSymbol_congr {s t : Text} (h : upper s = upper t) : isSymbol s = isSymbol t := by
  rw [← isSymbol_upper s, h, isSymbol_upper]

theorem isSymbol_cons {t : Text} (h : isSymbol t = true) :
    ∃ c rest, t = c :: rest ∧ isSymbolStart c = true ∧ ∀ d ∈ t, isSymbolPart d = true := by
  cases t with
  | nil => cases h
  | cons c rest =>
      obtain ⟨hc, hrest⟩ := Bool.and_eq_true_iff.mp h
      refine ⟨c, rest, rfl, hc, List.forall_mem_cons.mpr ⟨?_, List.all_eq_true.mp hrest⟩⟩
      exact isSymbolPart_iff.mpr (.inl hc)

theorem ne_of_class {p : Char → Bool} {c d : Char} (hc : p c = true) (hd : p d = false) :
    c ≠ d := by
  rintro rfl
  rw [hc] at hd
  cases hd

theorem isBlank_of_isSymbolPart {c : Char} (h : isSymbolPart c = true) : isBlank c = false := by
  rw [isSymbolPart_iff, isSymbolStart_iff] at h
  simp only [isBlank, Bool.or_eq_false_iff, Bool.and_eq_false_iff, beq_eq_false_iff_ne,
    decide_eq_false_iff_not]
  omega

/-- A symbol is no octal number, and no other radix is announced. -/
theorem literal?_symbol {t : Text} (h : isSymbol t = true) : literal? t = none := by
  obtain ⟨c, rest, rfl, hc, hparts⟩ := isSymbol_cons h
  have hblank : ∀ d ∈ c :: rest, isBlank d = false := fun d hd =>
    isBlank_of_isSymbolPart (hparts d hd)
  have hpart : isSymbolPart c = true := isSymbolPart_iff.mpr (.inl hc)
  have hradix : radixOf (c :: rest) = (8, c :: rest) :=
    radixOf_cons (ne_of_class hpart (by decide)) (ne_of_class hpart (by decide)) rest
  have hdigit : isDigitIn 8 c = false := by
    rw [isSymbolStart_iff] at hc
    have hle : ∀ a b : Char, a ≤ b ↔ a.toNat ≤ b.toNat := fun _ _ => Iff.rfl
    rw [isDigitIn, decide_eq_false_iff_not, digitValue]
    simp only [hle]
    split
    · omega
    · split
      · omega
      · split <;> omega
  rw [literal?, (tight_of_solid hblank).trim_eq, hradix]
  dsimp only
  rw [numeral?, List.all_cons, hdigit, Bool.false_and, Bool.and_false]
  rfl

theorem value?_symbol {t : Text} (h : isSymbol t = true) : value? t = some (.symbol t) := by
  rw [value?, literal?_symbol h]
  exact if_pos h

/-! ## Addresses -/

/-- A label as an operand writes it, perhaps after the data base. -/
def labelText (viaDb : Bool) (label : Text) : Text :=
  if viaDb then "DB+".toList ++ label else label

def labelAddress (viaDb : Bool) (label : Text) : Address :=
  if viaDb then .db (.symbol label) else .plain (.symbol label)

/-- A text with no base and no direction is a value. -/
theorem address?_plain {t : Text} (hdot : '.' ∉ t) (hplus : '+' ∉ t) (hminus : '-' ∉ t) :
    address? t = (value? t).map .plain := by
  have hlone : t ≠ ['.'] := fun heq => hdot (heq ▸ List.mem_singleton.mpr rfl)
  have hdirection : direction? t = none := by
    match t, hplus, hminus with
    | [], _, _ | [_], _, _ => rfl
    | base :: sign :: rest, hplus, hminus =>
        have hp : sign ≠ '+' := fun heq => hplus (by simp [heq])
        have hm : sign ≠ '-' := fun heq => hminus (by simp [heq])
        rw [direction?, if_neg hp, if_neg hm, ite_self]
  have hafter : afterDb? t = none := by
    match t, hplus with
    | [], _ | [_], _ | [_, _], _ => rfl
    | d :: b :: plus :: rest, hplus => exact if_neg fun hbase => hplus (by simp [hbase.2.2])
  rw [address?, if_neg hlone, hdirection, hafter]

theorem address?_symbol {t : Text} (h : isSymbol t = true) :
    address? t = some (.plain (.symbol t)) := by
  obtain ⟨-, -, -, -, hparts⟩ := isSymbol_cons h
  have hnot : ∀ {c}, isSymbolPart c = false → c ∉ t := fun hc hmem =>
    ne_of_class (hparts _ hmem) hc rfl
  rw [address?_plain (hnot (by decide)) (hnot (by decide)) (hnot (by decide)), value?_symbol h]
  rfl

theorem address?_afterDb {d b : Char} (hd : d.toUpper = 'D') (hb : b.toUpper = 'B') (t : Text) :
    address? (d :: b :: '+' :: t) = (value? t).map .db := by
  have hlone : d :: b :: '+' :: t ≠ ['.'] := fun heq => nomatch heq
  have hbase : ¬ (d = '.' ∨ d.toUpper = 'P') := by
    rintro (rfl | hp)
    · exact absurd hd (by decide)
    · rw [hd] at hp
      exact absurd hp (by decide)
  have hdirection : direction? (d :: b :: '+' :: t) = none := if_neg hbase
  have hafter : afterDb? (d :: b :: '+' :: t) = some t := if_pos ⟨hd, hb, rfl⟩
  rw [address?, if_neg hlone, hdirection, hafter]

/-- The letter case of a label reference does not matter. -/
theorem address?_labelText {viaDb : Bool} {label t : Text} (hlabel : isSymbol label = true)
    (h : upper t = upper (labelText viaDb label)) :
    ∃ name, upper name = upper label ∧ address? t = some (labelAddress viaDb name) := by
  cases viaDb with
  | false => exact ⟨t, h, address?_symbol ((isSymbol_congr h).trans hlabel)⟩
  | true =>
      have hbase : t.map Char.toUpper = 'D' :: 'B' :: '+' :: upper label := h
      obtain ⟨d, t, rfl, hd, hbase⟩ := List.map_eq_cons_iff.mp hbase
      obtain ⟨b, t, rfl, hb, hbase⟩ := List.map_eq_cons_iff.mp hbase
      obtain ⟨plus, name, rfl, hplus, hname⟩ := List.map_eq_cons_iff.mp hbase
      obtain rfl : plus = '+' := (toUpper_eq_iff (by decide)).mp hplus
      refine ⟨name, hname, ?_⟩
      rw [address?_afterDb hd hb, value?_symbol ((isSymbol_congr hname).trans hlabel)]
      rfl

theorem noComma_labelText (viaDb : Bool) {label : Text} (hlabel : isSymbol label = true) :
    ∀ c ∈ upper (labelText viaDb label), (c == ',') = false := by
  have hparts : ∀ c ∈ label, (c == ',') = false := by
    obtain ⟨_, _, -, -, hparts⟩ := isSymbol_cons hlabel
    exact fun c hc => beq_eq_false_iff_ne.mpr (ne_of_class (hparts c hc) (by decide))
  have hcomma : ',' ∉ "DB+".toList := by decide
  have hbase := beq_eq_false_of_notMem hcomma
  intro c hc
  obtain ⟨d, hd, rfl⟩ := List.mem_map.mp hc
  rw [isComma_toUpper]
  rw [labelText] at hd
  split at hd
  · exact (List.mem_append.mp hd).elim (hbase d) (hparts d)
  · exact hparts d hd

/-! ## Operands -/

theorem suffixes?_upper (s : Suffixes) (letters : List Text) :
    suffixes? s (letters.map upper) = suffixes? s letters := by
  induction letters generalizing s with
  | nil => rfl
  | cons letter rest ih =>
      match letter with
      | [] => rfl
      | [c] =>
          rw [List.map_cons, upper, List.map_cons, List.map_nil, suffixes?, suffixes?,
            Char.toUpper_toUpper_eq_toUpper, ih, ih]
      | _ :: _ :: _ => rfl

theorem upper_suffixes (s : Suffixes) : upper s.text = s.text := by
  obtain ⟨_ | _, _ | _⟩ := s <;> decide

/-- A label with suffixes, letter case and blanks aside. -/
def IsLabelOperand (t : Text) (viaDb : Bool) (label : Text) (s : Suffixes) : Prop :=
  upper (squeeze t) = upper (labelText viaDb label ++ s.text)

namespace IsLabelOperand

variable {t label : Text} {viaDb : Bool} {s : Suffixes}

theorem splitAt_upper (h : IsLabelOperand t viaDb label s) (hlabel : isSymbol label = true) :
    ∃ letters, Text.splitAt (· == ',') (upper (squeeze t)) =
      upper (labelText viaDb label) :: letters ∧ suffixes? {} letters = some s := by
  rw [h, upper_append, upper_suffixes]
  exact suffixes?_split (noComma_labelText viaDb hlabel) s

theorem operand? (h : IsLabelOperand t viaDb label s) (hlabel : isSymbol label = true) :
    ∃ name, upper name = upper label ∧
      Assembler.operand? t = some ⟨labelAddress viaDb name, s⟩ := by
  obtain ⟨letters, hsplit, hletters⟩ := h.splitAt_upper hlabel
  rw [upper, splitAt_map isComma_toUpper] at hsplit
  rw [Assembler.operand?]
  cases hpieces : Text.splitAt (· == ',') (squeeze t) with
  | nil =>
      rw [hpieces] at hsplit
      cases hsplit
  | cons base rest =>
      rw [hpieces, List.map_cons] at hsplit
      obtain ⟨hbase, hrest⟩ := List.cons.inj hsplit
      obtain ⟨name, hname, haddress⟩ := address?_labelText hlabel hbase
      have hsuffixes : suffixes? {} rest = some s := by
        rw [← suffixes?_upper]
        exact (congrArg (suffixes? {}) hrest).trans hletters
      refine ⟨name, hname, ?_⟩
      simp only [haddress, hsuffixes, Option.bind_eq_bind, Option.bind_some, Option.pure_def]

end IsLabelOperand

/-! ## No pair of opcodes -/

/-- A mnemonic and what follows it, blanks at the end included, is no half of a
pair. -/
theorem stackCode?_mnemonic (m : Mnemonic) {t : Text} (ht : squeeze t ≠ []) :
    stackCode? (m.name ++ ' ' :: t) = none := by
  have htrim := trim_append_blank m.solid_name m.name_spec.1 ' ' ht
  have hblank : ' ' ∈ m.name ++ ' ' :: trimRight t := List.mem_append_right _ List.mem_cons_self
  have hdata : sameLetters m.name dataName = false := by
    rw [sameLetters, m.upper_name]
    exact beq_eq_false_iff_ne.mpr m.name_ne_dataName
  rw [stackCode?, firstWord, htrim, StackOp.named?_eq_none hblank, cutAt?_append m.solid_name rfl]
  dsimp only
  rw [hdata]
  rfl

/-- Something other than blanks stands before the first comma of an operand. -/
theorem squeeze_before_comma {x rest : Text} {o : Operand}
    (h : operand? (x ++ ',' :: rest) = some o) : squeeze x ≠ [] := by
  intro hnil
  have hcut : squeeze (x ++ ',' :: rest) = ',' :: squeeze rest := by
    rw [squeeze_append, hnil]
    rfl
  rw [operand?, hcut] at h
  cases h

theorem pair?_operand (m : Mnemonic) {t : Text} {o : Operand} (h : operand? t = some o) :
    pair? (m.name ++ ' ' :: t) = none := by
  have hname : ∀ c ∈ m.name ++ [' '], (c == ',') = false := by
    intro c hc
    rcases List.mem_append.mp hc with hc | hc
    · exact ne_comma_of_isInner (m.name_spec.2.1 c hc)
    · rw [List.mem_singleton.mp hc]
      rfl
  rw [List.append_cons]
  rcases exists_first_or (· == ',') t with hnone | ⟨x, c, rest, rfl, hc, hx⟩
  · exact pair?_eq_none_of_noComma fun c hc =>
      (List.mem_append.mp hc).elim (hname c) (hnone c)
  -- A pair would be cut at the first comma, and what stands before it is an address.
  · obtain rfl : c = ',' := beq_iff_eq.mp hc
    rw [← List.append_assoc]
    refine pair?_eq_none_of_first (fun c hc => (List.mem_append.mp hc).elim (hname c) (hx c)) ?_
    rw [← List.append_cons]
    exact stackCode?_mnemonic m (squeeze_before_comma h)

end Assembler

end StackComputer
