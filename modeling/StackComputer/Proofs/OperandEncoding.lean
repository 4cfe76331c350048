import StackComputer.Proofs.BaseAddress
import StackComputer.Proofs.InstructionCodec
import StackComputer.Proofs.InstructionText

/-!
# What operands are encoded as

A mnemonic takes addresses of some forms and some of the suffixes, and has a
field of a certain width for the number. A number that fits is found in the
encoded word again, and any other is refused: nothing is cut down.
-/

namespace StackComputer

open Assembler Text

def Assembler.Address.number? : Address → Option Nat
  | own _ n | db (.number n) | plain (.number n) => some n
  | db (.symbol _) | plain (.symbol _) => none

namespace Mnemonic

/-- The suffixes that an operand may have. -/
def takenSuffixes : Mnemonic → Suffixes
  | br | load | memory _ => ⟨true, true⟩
  | count _ | flag _ | bcc _ => ⟨true, false⟩
  | shift op => ⟨false, op.acceptsIndex⟩
  | _ => {}

/-- The width of the field for the number of an address, if the mnemonic takes
addresses of this form. -/
def fieldWidth? : Mnemonic → Address → Option Nat
  | br, .own _ _ | load, .own _ _ => some 8
  | bro, .own _ _ | count _, .own _ _ | flag _, .own _ _ | bcc _, .own _ _ => some 5
  | load, .db _ | load, .plain _ | memory _, .db _ | memory _, .plain _ => some 9
  | halt, .plain _ | rio, .plain _ | wio, .plain _ => some 4
  | scal, .plain _ | sxit, .plain _ | ldi, .plain _ | ldxi, .plain _ => some 8
  | shift _, .plain _ => some 6
  | _, _ => none

/-- The mnemonic takes operands of this form, with a field of `width` bits for
the number. -/
structure Takes (m : Mnemonic) (o : Operand) (width : Nat) : Prop where
  form : m.fieldWidth? o.address = some width
  indirect : o.suffixes.indirect = true → m.takenSuffixes.indirect = true
  indexed : o.suffixes.indexed = true → m.takenSuffixes.indexed = true

/-- The instruction with `n` in the field for the number. -/
def filled (m : Mnemonic) (a : Address) (n : Nat) (s : Suffixes) : Instruction :=
  let distance : Displacement := ⟨a matches .own true _, BitVec.ofNat 16 n⟩
  match m with
  | stack op => .pair .nop op
  | halt => .halt (BitVec.ofNat 8 n)
  | rio => .rio (BitVec.ofNat 8 n)
  | wio => .wio (BitVec.ofNat 8 n)
  | scal => .scal (BitVec.ofNat 8 n)
  | sxit => .sxit (BitVec.ofNat 8 n)
  | ldi => .ldi (BitVec.ofNat 8 n)
  | ldxi => .ldxi (BitVec.ofNat 8 n)
  | ddiv => .ddiv
  | br => .br distance s
  | bro => .bro distance
  | load => .load (if a matches .own _ _ then .own distance else .db (BitVec.ofNat 16 n)) s
  | shift op => .shift op (BitVec.ofNat 8 n) s.indexed
  | memory op => .memory op (BitVec.ofNat 16 n) s
  | count op => .count op distance s.indirect
  | flag op => .flag op distance s.indirect
  | bcc selector => .bcc (BitVec.ofNat 8 selector) distance s.indirect

end Mnemonic

namespace Instruction

/-- The code, count or value of an instruction that has one. -/
def code? : Instruction → Option Byte
  | halt n | rio n | wio n | scal n | sxit n | ldi n | ldxi n | shift _ n _ => some n
  | _ => none

/-- The fields of an instruction say what an operand says. -/
structure Holds (i : Instruction) (o : Operand) : Prop where
  suffixes : i.suffixes = o.suffixes
  own : ∀ back n, o.address = .own back n →
    ∃ d, i.distance? = some d ∧ d.back = back ∧ d.magnitude.toNat = n
  db : ∀ v, o.address = .db v →
    ∃ d, i.dataDisplacement? = some d ∧ v = .number d.toNat
  plain : ∀ v, o.address = .plain v →
    (∃ d, i.dataDisplacement? = some d ∧ v = .number d.toNat) ∨
      ∃ b, i.code? = some b ∧ v = .number b.toNat

end Instruction

namespace Assembler

/-- The number of an address, if it is one and not too large. -/
def fieldNumber (max : Nat) : Address → Encoding Nat
  | .own _ n => number max (.number n)
  | .db v | .plain v => number max v

variable {m : Mnemonic} {o : Operand} {i : Instruction} {k n max : Nat}

/-! ## One form for all mnemonics -/

theorem fieldNumber_eq {a : Address} (hn : a.number? = some n) :
    fieldNumber max a = if n ≤ max then .ok n else .error (.outOfRange n max) := by
  match a, hn with
  | .own _ _, rfl | .db (.number _), rfl | .plain (.number _), rfl => rfl

theorem map_byteOperand (f : Byte → Instruction) (name : Text) (o : Operand) (max : Nat) :
    f <$> byteOperand name (some o) max = do
      allow name o false false
      let n ← plainNumber o max
      return f (BitVec.ofNat 8 n) := by
  rw [byteOperand, numberOperand, required, ok_bind]
  cases allow name o false false with
  | error e => rfl
  | ok _ => cases plainNumber o max <;> rfl

theorem displacement_own (back : Bool) (n max : Nat) (s : Suffixes) :
    displacement ⟨.own back n, s⟩ max = do
      return ⟨back, BitVec.ofNat 16 (← number max (.number n))⟩ := by
  rw [displacement, number]
  dsimp only
  split <;> rfl

theorem map_shortBranch (f : Displacement → Bool → Instruction) (name : Text) (back : Bool)
    (n : Nat) (s : Suffixes) (indirect : Bool) :
    (do
      let (d, indirect) ← shortBranch name (some ⟨.own back n, s⟩) indirect
      return f d indirect) = do
      allow name ⟨.own back n, s⟩ indirect false
      let n ← number Instruction.shortMax (.number n)
      return f ⟨back, BitVec.ofNat 16 n⟩ s.indirect := by
  rw [shortBranch, required, ok_bind, displacement_own]
  cases allow name ⟨.own back n, s⟩ indirect false with
  | error e => rfl
  | ok _ => cases number Instruction.shortMax (.number n) <;> rfl

theorem allow_both (name : Text) (o : Operand) : allow name o true true = .ok () := by
  simp [allow]

/-- All mnemonics with an operand work alike: the suffixes are checked, then the
number, and what is left goes into the fields. -/
theorem instruction_eq (h : m.fieldWidth? o.address = some k) :
    instruction m (some o) = do
      allow m.name o m.takenSuffixes.indirect m.takenSuffixes.indexed
      let n ← fieldNumber (2 ^ k - 1) o.address
      return m.filled o.address n o.suffixes := by
  obtain ⟨a, s⟩ := o
  cases m with
  | stack op | ddiv => cases h
  | halt | rio | wio | scal | sxit | ldi | ldxi =>
      cases a with
      | own back n | db v => cases h
      | plain v =>
          cases h
          exact map_byteOperand _ _ _ _
  | shift op =>
      cases a with
      | own back n | db v => cases h
      | plain v =>
          cases h
          rfl
  | br =>
      cases a with
      | db v | plain v => cases h
      | own back n =>
          cases h
          simp only [instruction, required, ok_bind, displacement_own, bind_assoc, pure_bind]
          cases back <;> simp only [Mnemonic.takenSuffixes, allow_both] <;> rfl
  | bro =>
      cases a with
      | db v | plain v => cases h
      | own back n =>
          cases h
          cases back <;> exact map_shortBranch (fun d _ => .bro d) _ _ _ _ _
  | count op | flag op | bcc selector =>
      cases a with
      | db v | plain v => cases h
      | own back n =>
          cases h
          cases back <;> exact map_shortBranch _ _ _ _ _ _
  | load =>
      cases a with
      | own back n =>
          cases h
          simp only [instruction, required, ok_bind, displacement_own, map_eq_pure_bind,
            bind_assoc, pure_bind]
          cases back <;> simp only [Mnemonic.takenSuffixes, allow_both] <;> rfl
      | db v | plain v =>
          cases h
          simp only [instruction, required, ok_bind, map_eq_pure_bind, bind_assoc, pure_bind,
            Mnemonic.takenSuffixes, allow_both]
          rfl
  | memory op =>
      cases a with
      | own back n => cases h
      | db v | plain v =>
          cases h
          simp only [instruction, required, ok_bind, Mnemonic.takenSuffixes, allow_both]
          rfl

/-! ## Operands that are taken -/

theorem allow_of_takes (h : m.Takes o k) :
    allow m.name o m.takenSuffixes.indirect m.takenSuffixes.indexed = .ok () := by
  rw [allow, if_neg, if_neg]
  · rw [Bool.and_eq_true, Bool.not_eq_true']
    rintro ⟨hs, htaken⟩
    exact Bool.noConfusion (htaken.symm.trans (h.indexed hs))
  · rw [Bool.and_eq_true, Bool.not_eq_true']
    rintro ⟨hs, htaken⟩
    exact Bool.noConfusion (htaken.symm.trans (h.indirect hs))

theorem instruction_of_takes (h : m.Takes o k) (hn : o.address.number? = some n) :
    instruction m (some o) =
      if n ≤ 2 ^ k - 1 then .ok (m.filled o.address n o.suffixes)
      else .error (.outOfRange n (2 ^ k - 1)) := by
  rw [instruction_eq h.form, allow_of_takes h, ok_bind, fieldNumber_eq hn]
  split <;> rfl

theorem form_of_plainNumber (h : plainNumber o max = .ok n) : ∃ v, o.address = .plain v := by
  rw [plainNumber] at h
  split at h
  · next v hv => exact ⟨v, hv⟩
  · cases h

theorem form_of_byteOperand {name : Text} {b : Byte} (h : byteOperand name (some o) max = .ok b) :
    ∃ v, o.address = .plain v := by
  obtain ⟨n, hn, -⟩ := map_eq_ok.mp h
  obtain ⟨_, ⟨⟩, hn⟩ := bind_eq_ok.mp hn
  obtain ⟨-, -, hn⟩ := bind_eq_ok.mp hn
  exact form_of_plainNumber hn

theorem form_of_displacement {d : Displacement} (h : displacement o max = .ok d) :
    ∃ back n, o.address = .own back n := by
  rw [displacement] at h
  split at h
  · next back n hown => exact ⟨back, n, hown⟩
  · cases h

theorem form_of_shortBranch {name : Text} {indirect : Bool} {r : Displacement × Bool}
    (h : shortBranch name (some o) indirect = .ok r) : ∃ back n, o.address = .own back n := by
  obtain ⟨_, ⟨⟩, h⟩ := bind_eq_ok.mp h
  obtain ⟨-, -, h⟩ := bind_eq_ok.mp h
  obtain ⟨d, hd, -⟩ := bind_eq_ok.mp h
  exact form_of_displacement hd

theorem fieldWidth?_of_instruction (h : instruction m (some o) = .ok i) :
    ∃ k, m.fieldWidth? o.address = some k := by
  cases m with
  | stack op | ddiv => cases h
  | halt | rio | wio | scal | sxit | ldi | ldxi =>
      obtain ⟨b, hb, -⟩ := map_eq_ok.mp h
      obtain ⟨v, hv⟩ := form_of_byteOperand hb
      rw [hv]
      exact ⟨_, rfl⟩
  | shift op =>
      obtain ⟨_, ⟨⟩, h⟩ := bind_eq_ok.mp h
      obtain ⟨-, -, h⟩ := bind_eq_ok.mp h
      obtain ⟨n, hn, -⟩ := bind_eq_ok.mp h
      obtain ⟨v, hv⟩ := form_of_plainNumber hn
      rw [hv]
      exact ⟨_, rfl⟩
  | br =>
      obtain ⟨_, ⟨⟩, h⟩ := bind_eq_ok.mp h
      obtain ⟨d, hd, -⟩ := bind_eq_ok.mp h
      obtain ⟨back, n, hown⟩ := form_of_displacement hd
      rw [hown]
      exact ⟨_, rfl⟩
  | bro | count op | flag op | bcc selector =>
      obtain ⟨r, hr, -⟩ := bind_eq_ok.mp h
      obtain ⟨back, n, hown⟩ := form_of_shortBranch hr
      rw [hown]
      exact ⟨_, rfl⟩
  | load => cases o.address <;> exact ⟨_, rfl⟩
  | memory op =>
      obtain ⟨_, ⟨⟩, h⟩ := bind_eq_ok.mp h
      cases haddress : o.address with
      | own back n =>
          rw [haddress] at h
          cases h
      | db v | plain v => exact ⟨_, rfl⟩

/-- What is accepted has a form that the mnemonic takes, and a number in it. -/
theorem takes_of_instruction (h : instruction m (some o) = .ok i) :
    ∃ k n, m.Takes o k ∧ o.address.number? = some n ∧ n ≤ 2 ^ k - 1 ∧
      i = m.filled o.address n o.suffixes := by
  obtain ⟨k, hform⟩ := fieldWidth?_of_instruction h
  rw [instruction_eq hform] at h
  obtain ⟨⟨⟩, hallow, h⟩ := bind_eq_ok.mp h
  obtain ⟨n, hfield, h⟩ := bind_eq_ok.mp h
  obtain ⟨hindirect, hindexed⟩ := allow_eq_ok hallow
  have hnumber : o.address.number? = some n ∧ n ≤ 2 ^ k - 1 := by
    obtain ⟨a, s⟩ := o
    match a, hfield with
    | .own _ _, hfield | .db (.number _), hfield | .plain (.number _), hfield =>
        obtain ⟨hle, rfl⟩ := number_eq_ok hfield
        exact ⟨rfl, hle⟩
  exact ⟨k, n, ⟨hform, hindirect, hindexed⟩, hnumber.1, hnumber.2, (Except.ok.inj h).symm⟩

/-! ## Fields -/

theorem suffixes_filled (h : m.Takes o k) (n : Nat) :
    (m.filled o.address n o.suffixes).suffixes = o.suffixes := by
  obtain ⟨a, indirect, indexed⟩ := o
  have hindirect : indirect = true → m.takenSuffixes.indirect = true := h.indirect
  have hindexed : indexed = true → m.takenSuffixes.indexed = true := h.indexed
  cases m with
  | stack op | ddiv => cases h.form
  | br | load | memory op => rfl
  | halt | rio | wio | scal | sxit | ldi | ldxi | bro =>
      rw [Bool.eq_false_iff.mpr fun hs => Bool.noConfusion (hindirect hs),
        Bool.eq_false_iff.mpr fun hs => Bool.noConfusion (hindexed hs)]
      rfl
  | shift op =>
      rw [Bool.eq_false_iff.mpr fun hs => Bool.noConfusion (hindirect hs)]
      rfl
  | count op | flag op | bcc selector =>
      rw [Bool.eq_false_iff.mpr fun hs => Bool.noConfusion (hindexed hs)]
      rfl

theorem toNat_ofNat_of_le {w n max : Nat} (hn : n ≤ max) (hmax : max < 2 ^ w) :
    (BitVec.ofNat w n).toNat = n := by
  rw [BitVec.toNat_ofNat, Nat.mod_eq_of_lt (Nat.lt_of_le_of_lt hn hmax)]

theorem holds_own {back : Bool} {s : Suffixes} (hs : i.suffixes = s)
    (hd : i.distance? = some ⟨back, BitVec.ofNat 16 n⟩) (hn : n ≤ 0xFF) :
    i.Holds ⟨.own back n, s⟩ where
  suffixes := hs
  own := by
    rintro _ _ ⟨⟩
    exact ⟨_, hd, rfl, toNat_ofNat_of_le hn (by decide)⟩
  db := nofun
  plain := nofun

theorem holds_db {a : Address} {s : Suffixes} (ha : a = .db (.number n) ∨ a = .plain (.number n))
    (hs : i.suffixes = s) (hd : i.dataDisplacement? = some (BitVec.ofNat 16 n)) (hn : n ≤ 0x1FF) :
    i.Holds ⟨a, s⟩ := by
  have hnumber : ∃ d, i.dataDisplacement? = some d ∧ Value.number n = .number d.toNat :=
    ⟨_, hd, congrArg Value.number (toNat_ofNat_of_le hn (by decide)).symm⟩
  rcases ha with rfl | rfl
  · refine ⟨hs, nofun, ?_, nofun⟩
    rintro _ ⟨⟩
    exact hnumber
  · refine ⟨hs, nofun, nofun, ?_⟩
    rintro _ ⟨⟩
    exact .inl hnumber

theorem holds_code {s : Suffixes} (hs : i.suffixes = s) (hcode : i.code? = some (BitVec.ofNat 8 n))
    (hn : n ≤ 0xFF) : i.Holds ⟨.plain (.number n), s⟩ where
  suffixes := hs
  own := nofun
  db := nofun
  plain := by
    rintro _ ⟨⟩
    exact .inr ⟨_, hcode, congrArg Value.number (toNat_ofNat_of_le hn (by decide)).symm⟩

theorem holds_filled (h : m.Takes o k) (hn : o.address.number? = some n) (hle : n ≤ 2 ^ k - 1) :
    (m.filled o.address n o.suffixes).Holds o := by
  have hs := suffixes_filled h n
  have hform := h.form
  obtain ⟨a, s⟩ := o
  cases m with
  | stack op | ddiv => cases hform
  | halt | rio | wio | scal | sxit | ldi | ldxi | shift op =>
      match a, hform, hn with
      | .plain (.number _), rfl, rfl => exact holds_code hs rfl (Nat.le_trans hle (by decide))
  | br | bro | count op | flag op | bcc selector =>
      match a, hform, hn with
      | .own back _, rfl, rfl =>
          cases back <;> exact holds_own hs rfl (Nat.le_trans hle (by decide))
  | load =>
      match a, hform, hn with
      | .own back _, rfl, rfl => cases back <;> exact holds_own hs rfl hle
      | .db (.number _), rfl, rfl => exact holds_db (.inl rfl) hs rfl hle
      | .plain (.number _), rfl, rfl => exact holds_db (.inr rfl) hs rfl hle
  | memory op =>
      match a, hform, hn with
      | .db (.number _), rfl, rfl => exact holds_db (.inl rfl) hs rfl hle
      | .plain (.number _), rfl, rfl => exact holds_db (.inr rfl) hs rfl hle

theorem toNat_selector (selector : Fin 8) : (BitVec.ofNat 8 selector.val).toNat = selector.val :=
  toNat_ofNat_of_le (Nat.le_of_lt_succ selector.isLt) (by decide)

theorem mnemonic_filled (hm : m ≠ .stack .unk) (a : Address) (n : Nat) (s : Suffixes) :
    (m.filled a n s).mnemonic = m := by
  cases m with
  | bcc selector =>
      refine congrArg Mnemonic.bcc (Fin.ext ?_)
      dsimp only
      rw [toNat_selector, Nat.mod_eq_of_lt selector.isLt]
  | _ => rfl

theorem format_filled (h : m.Takes o k) (n : Nat) :
    (m.filled o.address n o.suffixes).format ≠ .pair := by
  cases m with
  | stack op => cases h.form
  | _ => exact Format.noConfusion

theorem fits_filled (h : m.Takes o k) (hle : n ≤ 2 ^ k - 1) :
    (m.filled o.address n o.suffixes).Fits := by
  have hsmall : ∀ {w max : Nat}, 2 ^ k - 1 ≤ max → (BitVec.ofNat w n).toNat ≤ max := by
    intro w max hmax
    rw [BitVec.toNat_ofNat]
    exact Nat.le_trans (Nat.mod_le _ _) (Nat.le_trans hle hmax)
  have hform := h.form
  have hindexed := h.indexed
  obtain ⟨a, s⟩ := o
  cases m with
  | stack op | ddiv => cases hform
  | scal | sxit | ldi | ldxi => exact ⟨trivial, nofun⟩
  | halt | rio | wio =>
      match a, hform with
      | .plain _, rfl => exact ⟨hsmall (by decide), nofun⟩
  | shift op =>
      match a, hform with
      | .plain _, rfl => exact ⟨⟨hsmall (by decide), hindexed⟩, nofun⟩
  | br | bro | count op | flag op =>
      match a, hform with
      | .own back _, rfl => exact ⟨hsmall (by decide), nofun⟩
  | bcc selector =>
      match a, hform with
      | .own back _, rfl =>
          refine ⟨hsmall (by decide), ?_⟩
          rintro _ _ _ ⟨⟩
          exact Nat.le_trans (Nat.le_of_eq (toNat_selector selector))
            (Nat.le_of_lt_succ selector.isLt)
  | load =>
      match a, hform with
      | .own back _, rfl => exact ⟨hsmall (by decide), nofun⟩
      | .db _, rfl | .plain _, rfl => exact ⟨hsmall (by decide), nofun⟩
  | memory op =>
      match a, hform with
      | .db _, rfl | .plain _, rfl => exact ⟨hsmall (by decide), nofun⟩

/-! ## Words -/

/-- An operand may be left out before a packed opcode, `DDIV` and `HALT`. -/
theorem instruction_none (hm : m ≠ .stack .unk) (h : instruction m none = .ok i) :
    i.Fits ∧ i.mnemonic = m ∧ i.operand = none ∧
      (i.format = .pair → ∃ op, i = .pair .nop op) := by
  cases m with
  | stack op =>
      cases h
      exact ⟨⟨trivial, nofun⟩, rfl, rfl, fun _ => ⟨op, rfl⟩⟩
  | ddiv =>
      cases h
      exact ⟨⟨trivial, nofun⟩, rfl, rfl, nofun⟩
  | halt =>
      cases h
      exact ⟨⟨Nat.zero_le _, nofun⟩, rfl, rfl, nofun⟩
  | _ => cases h

theorem exists_instruction_of_encodeOperand {mnemonic : Text} {o : Option Operand} {w : Word}
    (hdata : upper (trim mnemonic) ≠ dataName) (h : encodeOperand mnemonic o = .ok w) :
    ∃ m i, m ≠ Mnemonic.stack .unk ∧ m.name = upper (trim mnemonic) ∧
      instruction m o = .ok i ∧ i.encode = w := by
  rw [encodeOperand, if_neg hdata] at h
  split at h
  · next m hnamed =>
      obtain ⟨hname, hm⟩ := Mnemonic.of_named? hnamed
      obtain ⟨i, hi, hw⟩ := map_eq_ok.mp h
      exact ⟨m, i, hm, hname, hi, hw⟩
  · cases h

theorem ne_unk_of_takes (h : m.Takes o k) : m ≠ .stack .unk := by
  rintro rfl
  cases h.form

theorem encodeOperand_of_takes {mnemonic : Text} (hname : m.name = upper (trim mnemonic))
    (h : m.Takes o k) (hn : o.address.number? = some n) :
    encodeOperand mnemonic (some o) =
      if n ≤ 2 ^ k - 1 then .ok (m.filled o.address n o.suffixes).encode
      else .error (.outOfRange n (2 ^ k - 1)) := by
  rw [encodeOperand_of_name (ne_unk_of_takes h) hname, instruction_of_takes h hn]
  split <;> rfl

theorem encodeOperand_data {mnemonic : Text} (h : upper (trim mnemonic) = dataName) (n : Nat) :
    encodeOperand mnemonic (some ⟨.plain (.number n), {}⟩) =
      if n ≤ 0xFFFF then .ok (BitVec.ofNat 16 n) else .error (.outOfRange n 0xFFFF) := by
  have hnumber : numberOperand dataName (some ⟨.plain (.number n), {}⟩) 0xFFFF =
      number 0xFFFF (.number n) := rfl
  rw [encodeOperand, h, if_pos rfl, hnumber, number]
  split <;> rfl

open Instruction in
/-- An accepted operand has a form that its mnemonic takes, and is what the
decoded word holds. A number that does not fit is refused, nothing else is. -/
theorem operands_encode_exactly (mnemonic : Text) :
    (upper (trim mnemonic) ≠ dataName → ∀ o w, encodeOperand mnemonic o = .ok w →
      ∃ i, decode? w = some i ∧ i.mnemonic.name = upper (trim mnemonic) ∧
        (i.format = .pair → ∃ op, i = .pair .nop op) ∧ (o = none → i.operand = none) ∧
        ∀ o', o = some o' → i.Holds o' ∧ ∃ k, i.mnemonic.Takes o' k) ∧
    (∀ (m : Mnemonic) o k n, m.name = upper (trim mnemonic) → m.Takes o k →
      o.address.number? = some n →
      (n ≤ 2 ^ k - 1 → ∃ w, encodeOperand mnemonic (some o) = .ok w) ∧
      (2 ^ k - 1 < n →
        encodeOperand mnemonic (some o) = .error (.outOfRange n (2 ^ k - 1)))) ∧
    (upper (trim mnemonic) = dataName → ∀ n,
      (n ≤ 0xFFFF → ∃ w, encodeOperand mnemonic (some ⟨.plain (.number n), {}⟩) = .ok w ∧
        w.toNat = n) ∧
      (0xFFFF < n → encodeOperand mnemonic (some ⟨.plain (.number n), {}⟩) =
        .error (.outOfRange n 0xFFFF))) := by
  refine ⟨?_, ?_, ?_⟩
  · intro hdata o w hw
    obtain ⟨m, i, hm, hname, hi, rfl⟩ := exists_instruction_of_encodeOperand hdata hw
    cases o with
    | none =>
        obtain ⟨hfits, rfl, hoperand, hpair⟩ := instruction_none hm hi
        refine ⟨i, ?_, hname, hpair, fun _ => hoperand, nofun⟩
        rw [decode?_encode_eq_wrapped, hfits.wrapped_eq]
    | some o =>
        obtain ⟨k, n, htakes, hn, hle, rfl⟩ := takes_of_instruction hi
        have hmnemonic := mnemonic_filled hm o.address n o.suffixes
        refine ⟨_, ?_, hmnemonic.symm ▸ hname, ?_, nofun, ?_⟩
        · rw [decode?_encode_eq_wrapped, (fits_filled htakes hle).wrapped_eq]
        · intro hpair
          exact absurd hpair (format_filled htakes n)
        · rintro _ ⟨⟩
          exact ⟨holds_filled htakes hn hle, k, hmnemonic.symm ▸ htakes⟩
  · intro m o k n hname htakes hn
    rw [encodeOperand_of_takes hname htakes hn]
    constructor
    · intro hle
      exact ⟨_, if_pos hle⟩
    · intro hlt
      exact if_neg (Nat.not_le_of_lt hlt)
  · intro hdata n
    rw [encodeOperand_data hdata]
    constructor
    · intro hle
      exact ⟨_, if_pos hle, toNat_ofNat_of_le hle (by decide)⟩
    · intro hlt
      exact if_neg (Nat.not_le_of_lt hlt)

open Instruction in
theorem operands_encode_exactly_dlsr :
    (∃ w i, encodeOperand " dlsr".toList (some ⟨.plain (.number 63), ⟨false, true⟩⟩) = .ok w ∧
      decode? w = some i ∧ i.mnemonic.name = "DLSR".toList ∧
      i.Holds ⟨.plain (.number 63), ⟨false, true⟩⟩) ∧
    encodeOperand " dlsr".toList (some ⟨.plain (.number 64), ⟨false, true⟩⟩) =
      .error (.outOfRange 64 63) ∧
    encodeOperand "Data".toList (some ⟨.plain (.number 0x10000), {}⟩) =
      .error (.outOfRange 0x10000 0xFFFF) := by
  have hname : (Mnemonic.shift .dlsr).name = upper (trim " dlsr".toList) := by decide
  have htakes : ∀ n, (Mnemonic.shift .dlsr).Takes ⟨.plain (.number n), ⟨false, true⟩⟩ 6 :=
    fun _ => ⟨rfl, nofun, fun _ => rfl⟩
  obtain ⟨hword, hrange, -⟩ := operands_encode_exactly " dlsr".toList
  obtain ⟨w, hw⟩ := (hrange _ _ 6 63 hname (htakes 63) rfl).1 (by decide)
  obtain ⟨i, hi, hmnemonic, -, -, hholds⟩ := hword (by decide) _ w hw
  refine ⟨⟨w, i, hw, hi, ?_, (hholds _ rfl).1⟩, ?_, ?_⟩
  · rw [hmnemonic]
    decide
  · exact (hrange _ _ 6 64 hname (htakes 64) rfl).2 (by decide)
  · exact ((operands_encode_exactly "Data".toList).2.2 (by decide) 0x10000).2 (by decide)

end Assembler

end StackComputer
