import Mathlib
import StackComputer.Proofs.LiteralGrammar

/-!
# The grammar of operands

An operand is an address and suffixes, with blanks anywhere. The reader accepts
the operands that this grammar derives, and quotes every other text in its
error.
-/

namespace StackComputer.Assembler

open Text

/-- A letter or an underscore, then letters, digits and underscores. -/
inductive SymbolText : Text → Prop
  | mk {c : Char} {rest : Text} (hc : c.isAlpha = true ∨ c = '_')
      (hrest : ∀ d ∈ rest, d.isAlphanum = true ∨ d = '_') : SymbolText (c :: rest)

inductive ValueText : Text → Value → Prop
  | number {t : Text} {n : Nat} (h : LiteralText t n) : ValueText t (.number n)
  | symbol {t : Text} (h : SymbolText t) : ValueText t (.symbol t)

/-- An address as it is written without blanks. -/
inductive AddressText : Text → Address → Prop
  | here : AddressText ['.'] (.own false 0)
  | own (back : Bool) {base : Char} {t : Text} {n : Nat} (hbase : base = '.' ∨ base.toUpper = 'P')
      (h : LiteralText t n) :
      AddressText (base :: (if back then '-' else '+') :: t) (.own back n)
  | db {d b : Char} {t : Text} {v : Value} (hd : d.toUpper = 'D') (hb : b.toUpper = 'B')
      (h : ValueText t v) : AddressText (d :: b :: '+' :: t) (.db v)
  | plain {t : Text} {v : Value} (h : ValueText t v) : AddressText t (.plain v)

/-- At most one of each suffix, in either order. -/
inductive SuffixText : Text → Suffixes → Prop
  | none : SuffixText [] {}
  | indirect {i : Char} (hi : i.toUpper = 'I') : SuffixText [',', i] { indirect := true }
  | indexed {x : Char} (hx : x.toUpper = 'X') : SuffixText [',', x] { indexed := true }
  | indirectIndexed {i x : Char} (hi : i.toUpper = 'I') (hx : x.toUpper = 'X') :
      SuffixText [',', i, ',', x] { indirect := true, indexed := true }
  | indexedIndirect {i x : Char} (hi : i.toUpper = 'I') (hx : x.toUpper = 'X') :
      SuffixText [',', x, ',', i] { indirect := true, indexed := true }

/-- A text that without its blanks is an address and suffixes. -/
inductive OperandText (t : Text) : Operand → Prop
  | mk {a s : Text} {address : Address} {suffixes : Suffixes} (ht : squeeze t = a ++ s)
      (ha : AddressText a address) (hs : SuffixText s suffixes) : OperandText t ⟨address, suffixes⟩

/-! ## Values -/

section

variable {t : Text} {v : Value} {a : Address}

theorem isSymbol_iff : isSymbol t = true ↔ SymbolText t := by
  constructor
  · intro h
    obtain ⟨c, rest, rfl, -, -⟩ := isSymbol_cons h
    exact .mk (by simp_all [isSymbol, isSymbolStart]) (by simp_all [isSymbol, isSymbolPart])
  · rintro ⟨hc, hrest⟩
    simpa [isSymbol, isSymbolStart, isSymbolPart] using And.intro hc hrest

theorem ValueText.isValuePart (h : ValueText t v) : ∀ c ∈ t, isValuePart c = true := by
  cases h with
  | number h => exact h.isValuePart
  | symbol h =>
      obtain ⟨-, -, -, -, hparts⟩ := isSymbol_cons (isSymbol_iff.mpr h)
      intro c hc
      simp [Assembler.isValuePart, hparts c hc]

theorem ValueText.value? (h : ValueText t v) : value? t = some v := by
  cases h with
  | number h => rw [Assembler.value?, h.literal?]
  | symbol h => exact value?_symbol (isSymbol_iff.mpr h)

theorem literalText_of_solid {n : Nat} (ht : ∀ c ∈ t, isBlank c = false)
    (h : literal? t = some n) : LiteralText t n := by
  rwa [literal?_eq_some_iff, (tight_of_solid ht).trim_eq] at h

theorem valueText_of_solid (ht : ∀ c ∈ t, isBlank c = false) (h : value? t = some v) :
    ValueText t v := by
  rw [Assembler.value?] at h
  split at h
  · next n hn =>
      obtain rfl := Option.some.inj h
      exact .number (literalText_of_solid ht hn)
  · obtain ⟨hsymbol, hv⟩ := Option.ite_none_right_eq_some.mp h
    obtain rfl := Option.some.inj hv
    exact .symbol (isSymbol_iff.mp hsymbol)

/-! ## Addresses -/

theorem address?_own_sign (back : Bool) {base : Char} (hbase : base = '.' ∨ base.toUpper = 'P')
    (t : Text) : address? (base :: (if back then '-' else '+') :: t) =
      (literal? t).map (.own back) := by
  cases back <;> simp [address?, direction?, hbase]

theorem AddressText.address? (h : AddressText t a) : address? t = some a := by
  cases h with
  | here => rfl
  | own back hbase h => rw [address?_own_sign back hbase, h.literal?, Option.map_some]
  | db hd hb h => rw [address?_afterDb hd hb, h.value?, Option.map_some]
  | plain h =>
      have hnot : ∀ {c}, isValuePart c = false → c ∉ t := fun hc hmem =>
        ne_of_class (h.isValuePart _ hmem) hc rfl
      rw [address?_plain (hnot (by decide)) (hnot (by decide)) (hnot (by decide)), h.value?,
        Option.map_some]

theorem direction?_eq_some {back : Bool} {rest : Text} (h : direction? t = some (back, rest)) :
    ∃ base, (base = '.' ∨ base.toUpper = 'P') ∧
      t = base :: (if back then '-' else '+') :: rest := by
  match t, h with
  | base :: sign :: rest', h =>
      rw [direction?] at h
      split_ifs at h with hbase hplus hminus
      · obtain ⟨rfl, rfl⟩ := Prod.mk.inj (Option.some.inj h)
        exact ⟨base, hbase, by simp [hplus]⟩
      · obtain ⟨rfl, rfl⟩ := Prod.mk.inj (Option.some.inj h)
        exact ⟨base, hbase, by simp [hminus]⟩

theorem afterDb?_eq_some {rest : Text} (h : afterDb? t = some rest) :
    ∃ d b, d.toUpper = 'D' ∧ b.toUpper = 'B' ∧ t = d :: b :: '+' :: rest := by
  match t, h with
  | d :: b :: plus :: rest', h =>
      obtain ⟨⟨hd, hb, rfl⟩, hrest⟩ := Option.ite_none_right_eq_some.mp h
      obtain rfl := Option.some.inj hrest
      exact ⟨d, b, hd, hb, rfl⟩

theorem addressText_of_solid (ht : ∀ c ∈ t, isBlank c = false) (h : address? t = some a) :
    AddressText t a := by
  rw [Assembler.address?] at h
  split_ifs at h with hlone
  · obtain rfl := Option.some.inj h
    exact hlone ▸ .here
  split at h
  · next back rest hdirection =>
      obtain ⟨base, hbase, rfl⟩ := direction?_eq_some hdirection
      obtain ⟨n, hn, rfl⟩ := Option.map_eq_some_iff.mp h
      exact .own back hbase (literalText_of_solid (fun c hc => ht c (by simp [hc])) hn)
  split at h
  · next rest hafter =>
      obtain ⟨d, b, hd, hb, rfl⟩ := afterDb?_eq_some hafter
      obtain ⟨v, hv, rfl⟩ := Option.map_eq_some_iff.mp h
      exact .db hd hb (valueText_of_solid (fun c hc => ht c (by simp [hc])) hv)
  · obtain ⟨v, hv, rfl⟩ := Option.map_eq_some_iff.mp h
    exact .plain (valueText_of_solid ht hv)

theorem ne_comma_of_toUpper {c e : Char} (h : c.toUpper = e) (he : e ≠ ',') : ',' ≠ c := by
  rintro rfl
  exact he h.symm

theorem AddressText.noComma (h : AddressText t a) : ',' ∉ t := by
  have hnot : ∀ {u : Text}, (∀ c ∈ u, Assembler.isValuePart c = true) → ',' ∉ u := fun hu hmem =>
    ne_of_class (hu _ hmem) (by decide) rfl
  cases h with
  | here => decide
  | own back hbase h =>
      have hsign : ',' ≠ if back then '-' else '+' := by cases back <;> decide
      refine List.not_mem_cons_of_ne_of_not_mem ?_
        (List.not_mem_cons_of_ne_of_not_mem hsign (hnot h.isValuePart))
      rcases hbase with rfl | hp
      · decide
      · exact ne_comma_of_toUpper hp (by decide)
  | db hd hb h =>
      simp [ne_comma_of_toUpper hd, ne_comma_of_toUpper hb, hnot h.isValuePart]
  | plain h => exact hnot h.isValuePart

end

/-! ## Suffixes -/

theorem suffixes?_cons_eq_some {s s' : Suffixes} {letter : Text} {rest : List Text}
    (h : suffixes? s (letter :: rest) = some s') :
    ∃ c, letter = [c] ∧
      (c.toUpper = 'I' ∧ s.indirect = false ∧
          suffixes? { s with indirect := true } rest = some s' ∨
        c.toUpper = 'X' ∧ s.indexed = false ∧
          suffixes? { s with indexed := true } rest = some s') := by
  match letter, h with
  | [c], h =>
      rw [suffixes?] at h
      split_ifs at h with hi hx
      · exact ⟨c, rfl, .inl (by simpa [and_assoc] using And.intro hi h)⟩
      · exact ⟨c, rfl, .inr (by simpa [and_assoc] using And.intro hx h)⟩

/-- After both suffixes there is no third one. -/
theorem suffixes?_both {s : Suffixes} {letters : List Text}
    (h : suffixes? { indirect := true, indexed := true } letters = some s) :
    letters = [] ∧ s = { indirect := true, indexed := true } := by
  cases letters with
  | nil => exact ⟨rfl, (Option.some.inj h).symm⟩
  | cons letter rest =>
      obtain ⟨_, -, ⟨-, hset, -⟩ | ⟨-, hset, -⟩⟩ := suffixes?_cons_eq_some h <;> cases hset

theorem suffixText_of_letters {s : Suffixes} {letters : List Text}
    (h : suffixes? {} letters = some s) : SuffixText (letters.flatMap ([','] ++ ·)) s := by
  match letters, h with
  | [], h =>
      obtain rfl := Option.some.inj h
      exact .none
  | [_], h =>
      obtain ⟨c, rfl, ⟨hi, -, h⟩ | ⟨hx, -, h⟩⟩ := suffixes?_cons_eq_some h
      · obtain rfl := Option.some.inj h
        exact .indirect hi
      · obtain rfl := Option.some.inj h
        exact .indexed hx
  | _ :: _ :: _, h =>
      obtain ⟨c, rfl, ⟨hi, -, h⟩ | ⟨hx, -, h⟩⟩ := suffixes?_cons_eq_some h <;>
        obtain ⟨d, rfl, ⟨hi', hset, h⟩ | ⟨hx', hset, h⟩⟩ := suffixes?_cons_eq_some h
      · cases hset
      · obtain ⟨rfl, rfl⟩ := suffixes?_both h
        exact .indirectIndexed hi hx'
      · obtain ⟨rfl, rfl⟩ := suffixes?_both h
        exact .indexedIndirect hi' hx
      · cases hset

theorem SuffixText.letters {t : Text} {s : Suffixes} (h : SuffixText t s) :
    ∃ letters, t = letters.flatMap ([','] ++ ·) ∧ (∀ letter ∈ letters, ',' ∉ letter) ∧
      suffixes? {} letters = some s := by
  have hne : ∀ {c e : Char}, c.toUpper = e → e ≠ ',' → ',' ≠ c := ne_comma_of_toUpper
  cases h with
  | none => exact ⟨[], by simp [suffixes?]⟩
  | @indirect i hi => exact ⟨[[i]], by simp [suffixes?, hi, hne hi]⟩
  | @indexed x hx => exact ⟨[[x]], by simp [suffixes?, hx, hne hx]⟩
  | @indirectIndexed i x hi hx =>
      exact ⟨[[i], [x]], by simp [suffixes?, hi, hx, hne hi, hne hx]⟩
  | @indexedIndirect i x hi hx =>
      exact ⟨[[x], [i]], by simp [suffixes?, hi, hx, hne hi, hne hx]⟩

/-! ## Operands -/

section

variable {t : Text} {o : Operand}

theorem operandText_of_operand? (h : operand? t = some o) : OperandText t o := by
  have hjoin := joinWith_splitAt ',' (squeeze t)
  rw [operand?] at h
  cases hpieces : Text.splitAt (· == ',') (squeeze t) with
  | nil =>
      rw [hpieces] at h
      cases h
  | cons base letters =>
      rw [hpieces, joinWith_cons] at hjoin
      rw [hpieces] at h
      obtain ⟨address, haddress, h⟩ := Option.bind_eq_some_iff.mp h
      obtain ⟨suffixes, hsuffixes, h⟩ := Option.bind_eq_some_iff.mp h
      obtain rfl := Option.some.inj h
      have hsolid : ∀ c ∈ base, isBlank c = false := by
        intro c hc
        have hmem : c ∈ squeeze t := hjoin ▸ List.mem_append_left _ hc
        simpa using (List.mem_filter.mp hmem).2
      exact .mk hjoin.symm (addressText_of_solid hsolid haddress) (suffixText_of_letters hsuffixes)

theorem OperandText.operand? (h : OperandText t o) : operand? t = some o := by
  obtain @⟨a, _, _, _, ht, ha, hs⟩ := h
  obtain ⟨letters, rfl, hletters, hsuffixes⟩ := hs.letters
  have hcomma : ∀ piece ∈ a :: letters, ',' ∉ piece :=
    List.forall_mem_cons.mpr ⟨ha.noComma, hletters⟩
  have hpieces : ∀ piece ∈ a :: letters, ∀ c ∈ piece, (c == ',') = false :=
    fun piece hpiece => beq_eq_false_of_notMem (hcomma piece hpiece)
  rw [Assembler.operand?, ht, ← joinWith_cons,
    splitAt_joinWith (p := (· == ',')) rfl (List.cons_ne_nil _ _) hpieces]
  simp [ha.address?, hsuffixes]

theorem operand?_eq_some_iff : operand? t = some o ↔ OperandText t o :=
  ⟨operandText_of_operand?, OperandText.operand?⟩

end

/-- An operand, or the error that quotes the text. -/
def readOperand (t : Text) : Encoding Operand :=
  match operand? t with
  | some o => .ok o
  | none => .error (.malformed t)

/-- The texts read as an operand, and what is read, are those the grammar
derives. Any other text is an error that quotes it, as a line of its own and in
a source. -/
theorem operand_grammar (t : Text) :
    (∀ o, readOperand t = .ok o ↔ OperandText t o) ∧
    (∀ e, readOperand t = .error e ↔ e = .malformed t ∧ ∀ o, ¬OperandText t o) ∧
    (∀ name, encodeText name t =
      if (trim t).isEmpty then encodeOperand name none
      else readOperand t >>= fun o => encodeOperand name (some o)) ∧
    ∀ s here name, encodeInstruction s here name t =
      match pair? (name ++ ' ' :: t) with
      | some w => .ok w
      | none =>
        if t.isEmpty then (encodeOperand name none).mapError .ofEncodeError
        else (readOperand t).mapError .ofEncodeError >>= fun o =>
          resolveOperand s here (isRelativeName name) o >>= fun o =>
            (encodeOperand name (some o)).mapError .ofEncodeError := by
  refine ⟨fun o => ?_, fun e => ?_, fun name => ?_, fun s here name => ?_⟩
  · rw [← operand?_eq_some_iff, readOperand]
    cases operand? t <;> simp
  · simp only [← operand?_eq_some_iff, readOperand]
    cases operand? t <;> simp [eq_comm]
  · rw [encodeText, readOperand]
    cases operand? t <;> rfl
  · rw [encodeInstruction, readOperand]
    cases operand? t <;> rfl

example : readOperand " p + 12 ,x , I".toList =
    .ok ⟨.own false 10, { indirect := true, indexed := true }⟩ := by decide

end StackComputer.Assembler
