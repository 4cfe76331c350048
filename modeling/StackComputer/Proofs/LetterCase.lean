import StackComputer.Proofs.InstructionSource
import StackComputer.Proofs.LiteralGrammar

/-!
# Letter case

The readers of assembler text do not look at the case of letters. In capital
letters a text is cut into the same parts, in capital letters, and the numbers,
forms and opcodes that are read from it are the same.
-/

namespace StackComputer

namespace Text

theorem toUpper_beq {d : Char} (hd : d.toNat < 65) (c : Char) : (c.toUpper == d) = (c == d) := by
  rw [Bool.eq_iff_iff, beq_iff_eq, beq_iff_eq, toUpper_eq_iff (.inl hd)]

theorem upper_eq_dot {t : Text} : upper t = ['.'] ↔ t = ['.'] := by
  match t with
  | [] => decide
  | [c] =>
      have hdot : c.toUpper = '.' ↔ c = '.' := toUpper_eq_iff (by decide)
      simpa [upper] using hdot
  | _ :: _ :: _ => simp [upper]

theorem isEmpty_upper (t : Text) : (upper t).isEmpty = t.isEmpty := by
  cases t <;> rfl

theorem trimLeft_upper (t : Text) : trimLeft (upper t) = upper (trimLeft t) := by
  have hblank : isBlank ∘ Char.toUpper = isBlank := funext isBlank_toUpper
  rw [trimLeft, upper, List.dropWhile_map, hblank]
  rfl

theorem trimRight_upper (t : Text) : trimRight (upper t) = upper (trimRight t) := by
  have hleft := trimLeft_upper t.reverse
  simp only [trimLeft, upper] at hleft
  simp only [trimRight, upper, ← List.map_reverse, hleft]

theorem trim_upper (t : Text) : trim (upper t) = upper (trim t) := by
  rw [trim, trimLeft_upper, trimRight_upper, trim]

theorem squeeze_upper (t : Text) : squeeze (upper t) = upper (squeeze t) := by
  simp [squeeze, upper, List.filter_map, Function.comp_def, isBlank_toUpper]

theorem cutAt?_upper {p : Char → Bool} (h : ∀ c, p c.toUpper = p c) (t : Text) :
    cutAt? p (upper t) = (cutAt? p t).map fun parts => (upper parts.1, upper parts.2) := by
  rw [upper]
  induction t with
  | nil => rfl
  | cons c t ih =>
      rw [List.map_cons, cutAt?, cutAt?, h, ih]
      split
      · rfl
      · cases cutAt? p t <;> rfl

theorem firstWord_upper (t : Text) :
    firstWord (upper t) = (upper (firstWord t).1, upper (firstWord t).2) := by
  rw [firstWord, firstWord, trim_upper, cutAt?_upper isBlank_toUpper]
  rcases cutAt? isBlank (trim t) with _ | ⟨word, rest⟩
  · rfl
  · exact congrArg (Prod.mk _) (trim_upper rest)

/-! ## Numbers -/

theorem digitValue_toUpper (c : Char) : digitValue c.toUpper = digitValue c := by
  rw [digitValue_eq, digitValue_eq]
  rcases toNat_toUpper c with ⟨hlower, hc⟩ | ⟨hlower, hc⟩ <;> split_ifs <;> omega

theorem numeral?_upper (radix : Nat) (t : Text) : numeral? radix (upper t) = numeral? radix t := by
  have hdigit : isDigitIn radix ∘ Char.toUpper = isDigitIn radix := by
    funext c
    simp only [Function.comp, isDigitIn, digitValue_toUpper]
  have hvalue : ofDigits radix 0 (upper t) = ofDigits radix 0 t := by
    simp only [ofDigits, upper, List.foldl_map, digitValue_toUpper]
  rw [numeral?, numeral?, hvalue, isEmpty_upper, upper, List.all_map, hdigit]

end Text

open Text

namespace Assembler

theorem radixOf_upper (t : Text) : radixOf (upper t) = ((radixOf t).1, upper (radixOf t).2) := by
  cases t with
  | nil => rfl
  | cons c t =>
      by_cases hdecimal : c = '#'
      · rw [hdecimal]
        rfl
      · by_cases hhexadecimal : c = '$'
        · rw [hhexadecimal]
          rfl
        · have hsame : ∀ d : Char, d.toNat < 65 → c ≠ d → c.toUpper ≠ d := fun d hd =>
            mt (toUpper_eq_iff (.inl hd)).mp
          rw [radixOf_cons hdecimal hhexadecimal]
          exact radixOf_cons (hsame '#' (by decide) hdecimal) (hsame '$' (by decide) hhexadecimal) _

theorem literal?_upper (t : Text) : literal? (upper t) = literal? t := by
  rw [literal?, literal?, trim_upper, radixOf_upper]
  dsimp only
  rw [numeral?_upper]

theorem signedLiteral?_upper (t : Text) : signedLiteral? (upper t) = signedLiteral? t := by
  rw [signedLiteral?, signedLiteral?, trim_upper]
  cases trim t with
  | nil => rfl
  | cons c t =>
      have hwhole := literal?_upper (c :: t)
      have hrest := literal?_upper t
      rw [upper] at hwhole hrest
      by_cases hminus : c = '-'
      · rw [hminus, upper, List.map_cons, show Char.toUpper '-' = '-' from rfl]
        simp only [hrest]
      · have hupper : c.toUpper ≠ '-' := mt (toUpper_eq_iff (by decide)).mp hminus
        rw [upper, List.map_cons]
        split
        · next heq => exact absurd (List.cons.inj heq).1 hupper
        · split
          · next heq => exact absurd (List.cons.inj heq).1 hminus
          · simp only [← List.map_cons, hwhole]

/-! ## Operands -/

def Value.upper : Value → Value
  | number n => number n
  | symbol name => symbol (Text.upper name)

def Address.upper : Address → Address
  | own back magnitude => own back magnitude
  | db value => db value.upper
  | plain value => plain value.upper

def Operand.upper (o : Operand) : Operand := { o with address := o.address.upper }

theorem value?_upper (t : Text) : value? (upper t) = (value? t).map Value.upper := by
  rw [value?, value?, literal?_upper, isSymbol_upper]
  cases literal? t with
  | some n => rfl
  | none => cases isSymbol t <;> rfl

theorem direction?_upper (t : Text) :
    direction? (upper t) = (direction? t).map fun parts => (parts.1, upper parts.2) := by
  match t with
  | [] | [_] => rfl
  | base :: sign :: rest =>
      have hsame : ∀ (c d : Char), d.toNat < 65 → (c.toUpper = d ↔ c = d) := fun c d hd =>
        toUpper_eq_iff (.inl hd)
      have hbase := hsame base '.' (by decide)
      have hplus := hsame sign '+' (by decide)
      have hminus := hsame sign '-' (by decide)
      simp only [upper, List.map_cons, direction?, Char.toUpper_toUpper_eq_toUpper, hbase, hplus,
        hminus]
      split_ifs <;> rfl

theorem afterDb?_upper (t : Text) : afterDb? (upper t) = (afterDb? t).map upper := by
  match t with
  | [] | [_] | [_, _] => rfl
  | d :: b :: plus :: rest =>
      have hplus : plus.toUpper = '+' ↔ plus = '+' := toUpper_eq_iff (by decide)
      simp only [upper, List.map_cons, afterDb?, Char.toUpper_toUpper_eq_toUpper, hplus]
      split_ifs <;> rfl

theorem address?_upper (t : Text) : address? (upper t) = (address? t).map Address.upper := by
  rw [address?, address?, direction?_upper, afterDb?_upper]
  simp only [upper_eq_dot]
  split_ifs
  · rfl
  · cases direction? t with
    | some parts =>
        dsimp only [Option.map_some]
        rw [literal?_upper]
        cases literal? parts.2 <;> rfl
    | none =>
        cases afterDb? t with
        | some rest =>
            dsimp only [Option.map_some, Option.map_none]
            rw [value?_upper]
            cases value? rest <;> rfl
        | none =>
            dsimp only [Option.map_none]
            rw [value?_upper]
            cases value? t <;> rfl

theorem operand?_upper (t : Text) : operand? (upper t) = (operand? t).map Operand.upper := by
  have hsplit : Text.splitAt (· == ',') (squeeze (upper t)) =
      (Text.splitAt (· == ',') (squeeze t)).map upper := by
    rw [squeeze_upper, upper, splitAt_map isComma_toUpper]
    rfl
  rw [operand?, operand?, hsplit]
  cases Text.splitAt (· == ',') (squeeze t) with
  | nil => rfl
  | cons base letters =>
      simp only [List.map_cons, address?_upper, suffixes?_upper]
      cases address? base with
      | none => rfl
      | some address => cases suffixes? {} letters <;> rfl

/-! ## Pairs -/

theorem stackCode?_upper (t : Text) : stackCode? (upper t) = stackCode? t := by
  rw [stackCode?_eq, stackCode?_eq, firstWord_upper, halfCode?_upper, halfCode?, halfCode?,
    isEmpty_upper, literal?_upper]

theorem pair?_upper (t : Text) : pair? (upper t) = pair? t := by
  rw [pair?, pair?, cutAt?_upper isComma_toUpper]
  rcases cutAt? (· == ',') t with _ | ⟨first, second⟩
  · rfl
  · simp only [Option.map_some, Option.bind_eq_bind, Option.bind_some, stackCode?_upper]

end Assembler

end StackComputer
