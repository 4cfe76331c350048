import StackComputer.Assembler.Source
import StackComputer.Instruction.Text
import StackComputer.Proofs.NumeralText

/-!
# Operand text

Operands as instruction text writes them, and what the assembler reads from it.
-/

namespace StackComputer.Assembler

open Text

/-- The text an address is written as. -/
def Address.source : Address → Text
  | own back magnitude => ['.', if back then '-' else '+'] ++ octal magnitude
  | db (.number n) => "DB+".toList ++ octal n
  | db (.symbol name) => "DB+".toList ++ name
  | plain (.number n) => octal n
  | plain (.symbol name) => name

def Operand.source (o : Operand) : Text := o.address.source ++ o.suffixes.text

/-- The address holds a number that a literal can stand for, and no symbol. -/
def Address.IsNumeric : Address → Prop
  | own _ n | db (.number n) | plain (.number n) => n < 0x10000000000000000
  | db (.symbol _) | plain (.symbol _) => False

variable {a : Address} {o : Operand}

theorem isInner_of_source (h : a.IsNumeric) : ∀ c ∈ a.source, isInner c = true := by
  have hbase : ∀ {base : Text} {n : Nat}, (∀ c ∈ base, isInner c = true) →
      ∀ c ∈ base ++ octal n, isInner c = true := fun hbase c hc =>
    (List.mem_append.mp hc).elim (hbase c) (isInner_of_octal c)
  match a, h with
  | .own true n, _ | .own false n, _ => exact hbase (List.all_eq_true.mp (by decide))
  | .db (.number n), _ => exact hbase (List.all_eq_true.mp (by decide))
  | .plain (.number n), _ => exact isInner_of_octal

theorem source_ne_nil (h : a.IsNumeric) : a.source ≠ [] := by
  match a, h with
  | .own back n, _ | .db (.number n), _ => exact List.cons_ne_nil _ _
  | .plain (.number n), _ => exact Nat.toDigits_ne_nil

theorem operandSource_ne_nil (h : o.address.IsNumeric) : o.source ≠ [] :=
  List.append_ne_nil_of_left_ne_nil (source_ne_nil h) _

theorem value?_octalPadded (width : Nat) {n : Nat} (hn : n < 0x10000000000000000) :
    value? (octalPadded width n) = some (.number n) := by
  rw [value?, literal?_octalPadded width hn]

theorem address?_own (back : Bool) {n : Nat} (hn : n < 0x10000000000000000) :
    address? (Address.own back n).source = some (.own back n) := by
  have hdirection : direction? (Address.own back n).source = some (back, octal n) := by
    cases back <;> rfl
  have hlone : (Address.own back n).source ≠ ['.'] := by
    intro heq
    exact List.cons_ne_nil _ _ (List.cons.inj heq).2
  rw [address?, if_neg hlone, hdirection]
  dsimp only
  rw [literal?_octal hn, Option.map_some]

theorem address?_db {n : Nat} (hn : n < 0x10000000000000000) :
    address? (Address.db (.number n)).source = some (.db (.number n)) := by
  have hdirection : direction? (Address.db (.number n)).source = none := rfl
  have hafter : afterDb? (Address.db (.number n)).source = some (octal n) := rfl
  have hlone : (Address.db (.number n)).source ≠ ['.'] := by
    rintro ⟨⟩
  rw [address?, if_neg hlone, hdirection, hafter]
  dsimp only
  rw [← octalPadded_zero n, value?_octalPadded 0 hn, Option.map_some]

theorem address?_octalPadded (width : Nat) {n : Nat} (hn : n < 0x10000000000000000) :
    address? (octalPadded width n) = some (.plain (.number n)) := by
  obtain ⟨c, t, ht⟩ := List.exists_cons_of_ne_nil (octalPadded_ne_nil width n)
  obtain ⟨k, hk, rfl⟩ := mem_octalPadded (ht ▸ List.mem_cons_self : c ∈ octalPadded width n)
  have hdigits : ∀ k < 8, k.digitChar ≠ '.' ∧ k.digitChar.toUpper ≠ 'P' ∧
      k.digitChar.toUpper ≠ 'D' := by decide
  obtain ⟨hdot, hp, hd⟩ := hdigits k hk
  have hdirection : direction? (octalPadded width n) = none := by
    rw [ht]
    cases t with
    | nil => rfl
    | cons sign rest => exact if_neg fun hbase => hbase.elim hdot hp
  have hafter : afterDb? (octalPadded width n) = none := by
    rw [ht]
    match t with
    | [] | [_] => rfl
    | _ :: _ :: _ => exact if_neg fun hbase => hd hbase.1
  have hlone : octalPadded width n ≠ ['.'] := by
    rw [ht]
    exact fun heq => hdot (List.cons.inj heq).1
  rw [address?, if_neg hlone, hdirection, hafter]
  dsimp only
  rw [value?_octalPadded width hn, Option.map_some]

theorem address?_source (h : a.IsNumeric) : address? a.source = some a := by
  match a, h with
  | .own back n, h => exact address?_own back h
  | .db (.number n), h => exact address?_db h
  | .plain (.number n), h =>
      rw [Address.source, ← octalPadded_zero n]
      exact address?_octalPadded 0 h

/-- The suffixes written after a base are found again, in their order. -/
theorem suffixes?_split {base : Text} (hbase : ∀ c ∈ base, (c == ',') = false) (s : Suffixes) :
    ∃ letters, Text.splitAt (· == ',') (base ++ s.text) = base :: letters ∧
      suffixes? {} letters = some s := by
  obtain ⟨_ | _, _ | _⟩ := s
  · exact ⟨[], by rw [← splitAt_eq_singleton hbase]; exact congrArg _ (List.append_nil base), rfl⟩
  · exact ⟨[['X']], splitAt_append hbase rfl ['X'], rfl⟩
  · exact ⟨[['I']], splitAt_append hbase rfl ['I'], rfl⟩
  · exact ⟨[['I'], ['X']], splitAt_append hbase rfl ['I', ',', 'X'], rfl⟩

theorem isSolid_of_source (h : o.address.IsNumeric) : ∀ c ∈ o.source, isSolid c = true := by
  have hsuffixes : ∀ c ∈ o.suffixes.text, isSolid c = true := by
    rcases o.suffixes with ⟨_ | _, _ | _⟩ <;> exact List.all_eq_true.mp (by decide)
  intro c hc
  rcases List.mem_append.mp hc with hc | hc
  · exact isSolid_of_isInner (isInner_of_source h c hc)
  · exact hsuffixes c hc

theorem solid_source (h : o.address.IsNumeric) : ∀ c ∈ o.source, isBlank c = false :=
  fun c hc => isBlank_of_isSolid (isSolid_of_source h c hc)

theorem operand?_source (h : o.address.IsNumeric) : operand? o.source = some o := by
  obtain ⟨letters, hsplit, hletters⟩ :=
    suffixes?_split (fun c hc => ne_comma_of_isInner (isInner_of_source h c hc)) o.suffixes
  rw [operand?, squeeze_eq_self (solid_source h), Operand.source, hsplit]
  simp only [address?_source h, hletters, Option.bind_eq_bind, Option.bind_some, Option.pure_def]

theorem operand?_octalPadded (width : Nat) {n : Nat} (hn : n < 0x10000000000000000) :
    operand? (octalPadded width n) = some ⟨.plain (.number n), {}⟩ := by
  have hcomma : ∀ c ∈ octalPadded width n, (c == ',') = false :=
    fun c hc => ne_comma_of_isInner (isInner_of_octalPadded c hc)
  rw [operand?, squeeze_eq_self solid_octalPadded, splitAt_eq_singleton hcomma]
  dsimp only
  rw [address?_octalPadded width hn]
  rfl

/-- The symbol an address refers to. -/
def Address.symbol? : Address → Option Text
  | db (.symbol name) | plain (.symbol name) => some name
  | _ => none

theorem Address.IsNumeric.symbol? (h : a.IsNumeric) : a.symbol? = none := by
  match a, h with
  | .own _ _, _ | .db (.number _), _ | .plain (.number _), _ => rfl

theorem resolveOperand_eq_self (h : o.address.symbol? = none) (s : Symbols) (here : Word)
    (relative : Bool) : resolveOperand s here relative o = .ok o := by
  obtain ⟨address, suffixes⟩ := o
  match address, h with
  | .own back n, _ | .db (.number n), _ | .plain (.number n), _ => rfl

theorem resolveOperand_of_isNumeric (h : o.address.IsNumeric) (s : Symbols) (here : Word)
    (relative : Bool) : resolveOperand s here relative o = .ok o :=
  resolveOperand_eq_self h.symbol? s here relative

end StackComputer.Assembler
