import Mathlib.Algebra.Ring.Nat
import StackComputer.Proofs.InstructionWord

/-!
# Encoded instructions decode

No word belongs to two formats, so an encoded instruction decodes in its own
format, with each field cut down to its slot.
-/

namespace StackComputer

namespace Format

theorem mem_all (f : Format) : f ∈ all := by
  cases f with
  | shift op | memory op | count op | flag op => cases op <;> decide
  | _ => decide

theorem base_and_mask (f : Format) : f.base &&& f.mask = f.base := by
  have hall : ∀ f ∈ all, f.base &&& f.mask = f.base := by decide
  exact hall f f.mem_all

theorem eq_of_admits {f g : Format} {w : Word} (hf : f.admits w = true)
    (hg : g.admits w = true) : f = g := by
  -- Two formats differ in a bit that both of them fix.
  have hall : ∀ f ∈ all, ∀ g ∈ all, f ≠ g → f.base &&& g.mask ≠ g.base &&& f.mask := by
    decide +kernel
  refine Decidable.byContradiction fun hne => hall f f.mem_all g g.mem_all hne ?_
  rw [← beq_iff_eq.mp hf, ← beq_iff_eq.mp hg, BitVec.and_assoc, BitVec.and_assoc,
    BitVec.and_comm f.mask]

end Format

namespace Instruction

theorem decode?_of_admits {f : Format} {w : Word} (h : f.admits w = true) :
    decode? w = some (ofFormat w f) := by
  have hfind : Format.all.find? (·.admits w) = some f := by
    cases hfound : Format.all.find? (·.admits w) with
    | none => exact absurd h (List.find?_eq_none.mp hfound f f.mem_all)
    | some g =>
        have hg : g.admits w = true := List.find?_some (p := fun f => Format.admits f w) hfound
        rw [Format.eq_of_admits hg h]
  rw [decode?, hfind, Option.map_some]

/-! ## Fields -/

@[simp] theorem bit_true (mask : Word) : bit true mask = mask := rfl

@[simp] theorem bit_false (mask : Word) : bit false mask = 0#16 := rfl

@[simp] theorem bit_and (on : Bool) (mask slot : Word) :
    bit on mask &&& slot = bit on (mask &&& slot) := by
  cases on
  · exact BitVec.zero_and
  · rfl

@[simp] theorem bit_zero (on : Bool) : bit on 0#16 = 0#16 := by
  cases on <;> rfl

theorem setWidth_eq_and {k : Nat} (v : BitVec k) :
    (v.setWidth 16 : Word) = v.setWidth 16 &&& (BitVec.allOnes k).setWidth 16 := by
  apply BitVec.eq_of_getLsbD_eq
  intro i hi
  simp only [BitVec.getLsbD_and, BitVec.getLsbD_setWidth, BitVec.getLsbD_allOnes, hi, decide_true,
    Bool.true_and]
  by_cases hk : i < k
  · simp only [hk, decide_true, Bool.and_true]
  · rw [BitVec.getLsbD_of_ge v i (Nat.le_of_not_lt hk), Bool.false_and]

/-- The fields of an instruction keep to the bits its format leaves open. -/
theorem fields_and_mask (i : Instruction) : i.fields &&& i.format.mask = 0 := by
  cases i with
  | halt n | rio n | wio n => simp [fields, format, Format.mask, BitVec.and_assoc]
  | scal n | sxit n | ldi n | ldxi n =>
      rw [fields, format, Format.mask, setWidth_eq_and n, BitVec.and_assoc]
      exact BitVec.and_zero
  | shift op n indexed =>
      rw [fields, format, Format.mask]
      cases op.acceptsIndex with
      | false => simp [BitVec.and_assoc]
      | true => cases indexed <;> simp [BitVec.and_or_distrib_right, BitVec.and_assoc]
  | memory op n s | br d s =>
      simp [fields, format, Format.mask, suffixField, longField, BitVec.and_or_distrib_right,
        BitVec.and_assoc]
  | load target s =>
      cases target <;>
        simp [fields, format, Format.mask, suffixField, longField, BitVec.and_or_distrib_right,
          BitVec.and_assoc]
  | ddiv => rfl
  | bcc selector d indirect =>
      simp [fields, format, Format.mask, shortField, BitVec.and_or_distrib_right, BitVec.and_assoc,
        BitVec.shiftLeft_and_distrib]
  | count op d indirect | flag op d indirect | bro d =>
      simp [fields, format, Format.mask, shortField, BitVec.and_or_distrib_right, BitVec.and_assoc]
  | pair first second =>
      rw [fields, format, Format.mask, setWidth_eq_and first.code, setWidth_eq_and second.code]
      simp [BitVec.and_or_distrib_right, BitVec.shiftLeft_and_distrib, BitVec.and_assoc]

theorem admits_encode (i : Instruction) : i.format.admits i.encode = true := by
  rw [Format.admits, encode, BitVec.and_or_distrib_right, fields_and_mask, Format.base_and_mask]
  exact beq_iff_eq.mpr BitVec.or_zero

/-- Outside its format's mask an instruction word is all fields. -/
theorem encode_and (i : Instruction) (mask slot : Word) (hmask : i.format.mask = mask)
    (h : mask &&& slot = 0) : i.encode &&& slot = i.fields &&& slot := by
  have hbase : i.format.base &&& slot = 0 := by
    rw [← Format.base_and_mask, hmask, BitVec.and_assoc, h]
    exact BitVec.and_zero
  rw [encode, BitVec.and_or_distrib_right, hbase]
  exact BitVec.zero_or

theorem hasBit_eq {w mask : Word} {on : Bool} (hmask : mask ≠ 0) (h : w &&& mask = bit on mask) :
    hasBit w mask = on := by
  rw [hasBit, h]
  cases on
  · rfl
  · exact bne_iff_ne.mpr hmask

theorem suffixesOf_eq {w : Word} {s : Suffixes} (h : w &&& 0xC00 = suffixField s) :
    suffixesOf w = s := by
  have hslot : ∀ mask : Word, 0xC00 &&& mask = mask → w &&& mask = suffixField s &&& mask := by
    intro mask hmask
    rw [← h, BitVec.and_assoc, hmask]
  have hindirect : hasBit w 0x400 = s.indirect := by
    refine hasBit_eq (by decide) ((hslot _ rfl).trans ?_)
    simp [suffixField, BitVec.and_or_distrib_right]
  have hindexed : hasBit w 0x800 = s.indexed := by
    refine hasBit_eq (by decide) ((hslot _ rfl).trans ?_)
    simp [suffixField, BitVec.and_or_distrib_right]
  rw [suffixesOf, hindirect, hindexed]

theorem shortOf_eq {w : Word} {d : Displacement} (h : w &&& 0x3F = shortField d) :
    shortOf w = ⟨d.back, d.magnitude &&& 0x1F⟩ := by
  have hslot : ∀ mask : Word, 0x3F &&& mask = mask → w &&& mask = shortField d &&& mask := by
    intro mask hmask
    rw [← h, BitVec.and_assoc, hmask]
  have hback : hasBit w 0x20 = d.back := by
    refine hasBit_eq (by decide) ((hslot _ rfl).trans ?_)
    simp [shortField, BitVec.and_or_distrib_right, BitVec.and_assoc]
  have hmagnitude : w &&& 0x1F = d.magnitude &&& 0x1F := by
    refine (hslot _ rfl).trans ?_
    simp [shortField, BitVec.and_or_distrib_right, BitVec.and_assoc]
  rw [shortOf, hback, hmagnitude]

theorem longOf_eq {w : Word} {d : Displacement} (h : w &&& 0x1FF = longField d) :
    longOf w = ⟨d.back, d.magnitude &&& 0xFF⟩ := by
  have hslot : ∀ mask : Word, 0x1FF &&& mask = mask → w &&& mask = longField d &&& mask := by
    intro mask hmask
    rw [← h, BitVec.and_assoc, hmask]
  have hback : hasBit w 0x100 = d.back := by
    refine hasBit_eq (by decide) ((hslot _ rfl).trans ?_)
    simp [longField, BitVec.and_or_distrib_right, BitVec.and_assoc]
  have hmagnitude : w &&& 0xFF = d.magnitude &&& 0xFF := by
    refine (hslot _ rfl).trans ?_
    simp [longField, BitVec.and_or_distrib_right, BitVec.and_assoc]
  rw [longOf, hback, hmagnitude]

/-- The instruction with every field cut down to its slot. -/
def reduced : Instruction → Instruction
  | halt n => halt (n &&& 0xF)
  | rio n => rio (n &&& 0xF)
  | wio n => wio (n &&& 0xF)
  | scal n => scal n
  | sxit n => sxit n
  | shift op n indexed => shift op (n &&& 0x3F) (op.acceptsIndex && indexed)
  | memory op n s => memory op (n &&& 0x1FF) s
  | load (.db n) s => load (.db (n &&& 0x1FF)) s
  | load (.own d) s => load (.own ⟨d.back, d.magnitude &&& 0xFF⟩) s
  | ldi n => ldi n
  | ldxi n => ldxi n
  | ddiv => ddiv
  | br d s => br ⟨d.back, d.magnitude &&& 0xFF⟩ s
  | bcc selector d indirect => bcc (selector &&& 7) ⟨d.back, d.magnitude &&& 0x1F⟩ indirect
  | count op d indirect => count op ⟨d.back, d.magnitude &&& 0x1F⟩ indirect
  | flag op d indirect => flag op ⟨d.back, d.magnitude &&& 0x1F⟩ indirect
  | bro d => bro ⟨d.back, d.magnitude &&& 0x1F⟩
  | pair first second => pair first second

theorem byte_and_eq {w : Word} {n mask : Byte}
    (h : w &&& mask.setWidth 16 = n.setWidth 16 &&& mask.setWidth 16) :
    w.setWidth 8 &&& mask = n &&& mask := by
  have hbyte := congrArg (BitVec.setWidth 8) h
  simpa only [BitVec.setWidth_and, BitVec.setWidth_setWidth_of_le _ (show 8 ≤ 16 by decide),
    BitVec.setWidth_eq] using hbyte

theorem byte_eq {w : Word} {n : Byte} (h : w &&& 0xFF = n.setWidth 16 &&& 0xFF) :
    w.setWidth 8 = n := by
  have hbyte : w.setWidth 8 &&& 0xFF = n &&& 0xFF := byte_and_eq h
  exact (BitVec.and_allOnes.symm.trans hbyte).trans BitVec.and_allOnes

theorem selector_eq {w : Word} {n : Byte}
    (h : w &&& (0x1C0 : Word) = ((n.setWidth 16 : Word) &&& 7) <<< 6) :
    (w >>> 6).setWidth 8 &&& 7 = n &&& 7 := by
  have hread : w >>> 6 &&& (7 : Word) = (w &&& 0x1C0) >>> 6 :=
    (BitVec.ushiftRight_and_distrib w 0x1C0 6).symm
  have hsmall : ((n.setWidth 16 : Word) &&& 7).toNat ≤ 7 := Nat.and_le_right
  apply byte_and_eq
  refine hread.trans ?_
  rw [h]
  apply BitVec.eq_of_toNat_eq
  rw [BitVec.toNat_ushiftRight, BitVec.toNat_shiftLeft, Nat.shiftLeft_eq, Nat.shiftRight_eq_div_pow]
  change _ = ((n.setWidth 16 : Word) &&& 7).toNat
  omega

theorem low_code (first second : BitVec 6) :
    (first.setWidth 16 <<< 6 ||| second.setWidth 16 : Word).setWidth 6 = second := by
  apply BitVec.eq_of_getLsbD_eq
  intro i hi
  simp [hi]

theorem high_code (first second : BitVec 6) :
    ((first.setWidth 16 <<< 6 ||| second.setWidth 16 : Word) >>> 6).setWidth 6 = first := by
  apply BitVec.eq_of_getLsbD_eq
  intro i hi
  have hin : 6 + i < 16 := by omega
  have hout : ¬ 6 + i < 6 := by omega
  have hlow : i < 16 := by omega
  simp [hi, hin, hout, hlow]

theorem shortOf_and_hasBit_eq {w : Word} {d : Displacement} {indirect : Bool}
    (h : ∀ slot, 0xF7C0 &&& slot = 0 →
      w &&& slot = (bit indirect 0x800 ||| shortField d) &&& slot) :
    shortOf w = ⟨d.back, d.magnitude &&& 0x1F⟩ ∧ hasBit w 0x800 = indirect := by
  constructor
  · refine shortOf_eq ((h 0x3F rfl).trans ?_)
    simp [shortField, BitVec.and_or_distrib_right, BitVec.and_assoc]
  · refine hasBit_eq (by decide) ((h 0x800 rfl).trans ?_)
    simp [shortField, BitVec.and_or_distrib_right, BitVec.and_assoc]

theorem ofFormat_encode_shift (op : ShiftOp) (n : Byte) (indexed : Bool) :
    ofFormat (shift op n indexed).encode (.shift op) = (shift op n indexed).reduced := by
  have hslot := encode_and (shift op n indexed)
  cases haccepts : op.acceptsIndex with
  | false =>
      have hcount : (shift op n indexed).encode &&& 0x3F = n.setWidth 16 &&& 0x3F := by
        refine (hslot 0xFFC0 0x3F (if_neg (Bool.eq_false_iff.mp haccepts)) rfl).trans ?_
        simp [fields, BitVec.and_or_distrib_right, BitVec.and_assoc]
      rw [ofFormat, reduced, byte_and_eq hcount, haccepts, Bool.false_and, Bool.false_and]
  | true =>
      have hcount : (shift op n indexed).encode &&& 0x3F = n.setWidth 16 &&& 0x3F := by
        refine (hslot 0xFDC0 0x3F (if_pos haccepts) rfl).trans ?_
        simp [fields, BitVec.and_or_distrib_right, BitVec.and_assoc]
      have hindexed : hasBit (shift op n indexed).encode 0x200 = indexed := by
        refine hasBit_eq (by decide) ((hslot 0xFDC0 0x200 (if_pos haccepts) rfl).trans ?_)
        simp [fields, BitVec.and_or_distrib_right, BitVec.and_assoc, haccepts]
      rw [ofFormat, reduced, byte_and_eq hcount, hindexed]

theorem ofFormat_encode_load (target : LoadTarget) (s : Suffixes) :
    ofFormat (load target s).encode .load = (load target s).reduced := by
  have hslot := encode_and (load target s)
  have hsuffixes : (load target s).encode &&& 0xC00 = suffixField s := by
    refine (hslot 0xF000 0xC00 rfl rfl).trans ?_
    cases target <;>
      simp [fields, suffixField, longField, BitVec.and_or_distrib_right, BitVec.and_assoc]
  cases target with
  | db n =>
      have hown : hasBit (load (.db n) s).encode 0x200 = true := by
        refine hasBit_eq (by decide) ((hslot 0xF000 0x200 rfl rfl).trans ?_)
        simp [fields, suffixField, BitVec.and_or_distrib_right, BitVec.and_assoc]
      have hdisplacement : (load (.db n) s).encode &&& 0x1FF = n &&& 0x1FF := by
        refine (hslot 0xF000 0x1FF rfl rfl).trans ?_
        simp [fields, suffixField, BitVec.and_or_distrib_right, BitVec.and_assoc]
      rw [ofFormat, reduced, suffixesOf_eq hsuffixes, hown, hdisplacement]
      rfl
  | own d =>
      have hown : hasBit (load (.own d) s).encode 0x200 = false := by
        refine hasBit_eq (by decide) ((hslot 0xF000 0x200 rfl rfl).trans ?_)
        simp [fields, suffixField, longField, BitVec.and_or_distrib_right, BitVec.and_assoc]
      have hdisplacement : (load (.own d) s).encode &&& 0x1FF = longField d := by
        refine (hslot 0xF000 0x1FF rfl rfl).trans ?_
        simp [fields, suffixField, longField, BitVec.and_or_distrib_right, BitVec.and_assoc]
      rw [ofFormat, reduced, suffixesOf_eq hsuffixes, hown, longOf_eq hdisplacement]
      rfl

theorem ofFormat_encode_bcc (selector : Byte) (d : Displacement) (indirect : Bool) :
    ofFormat (bcc selector d indirect).encode .bcc = (bcc selector d indirect).reduced := by
  have hslot := encode_and (bcc selector d indirect)
  have hshort : (bcc selector d indirect).encode &&& 0x3F = shortField d := by
    refine (hslot 0xFA00 0x3F rfl rfl).trans ?_
    simp [fields, shortField, BitVec.and_or_distrib_right, BitVec.and_assoc,
      BitVec.shiftLeft_and_distrib]
  have hindirect : hasBit (bcc selector d indirect).encode 0x400 = indirect := by
    refine hasBit_eq (by decide) ((hslot 0xFA00 0x400 rfl rfl).trans ?_)
    simp [fields, shortField, BitVec.and_or_distrib_right, BitVec.and_assoc,
      BitVec.shiftLeft_and_distrib]
  have hselector : (bcc selector d indirect).encode &&& (0x1C0 : Word) =
      ((selector.setWidth 16 : Word) &&& 7) <<< 6 := by
    refine (hslot 0xFA00 0x1C0 rfl rfl).trans ?_
    simp [fields, shortField, BitVec.and_or_distrib_right, BitVec.and_assoc,
      BitVec.shiftLeft_and_distrib]
  rw [ofFormat, reduced, shortOf_eq hshort, hindirect, selector_eq hselector]

theorem ofFormat_encode (i : Instruction) : ofFormat i.encode i.format = i.reduced := by
  have hslot := encode_and i
  cases i with
  | halt n | rio n | wio n =>
      have hcode := hslot 0xFFF0 0xF rfl rfl
      rw [fields, BitVec.and_assoc] at hcode
      rw [format, ofFormat, reduced, byte_and_eq hcode]
  | scal n | sxit n | ldi n | ldxi n =>
      rw [format, ofFormat, reduced, byte_eq (hslot 0xFF00 0xFF rfl rfl)]
  | shift op n indexed => exact ofFormat_encode_shift op n indexed
  | memory op n s =>
      have hsuffixes : (memory op n s).encode &&& 0xC00 = suffixField s := by
        refine (hslot 0xF200 0xC00 rfl rfl).trans ?_
        simp [fields, suffixField, BitVec.and_or_distrib_right, BitVec.and_assoc]
      have hdisplacement : (memory op n s).encode &&& 0x1FF = n &&& 0x1FF := by
        refine (hslot 0xF200 0x1FF rfl rfl).trans ?_
        simp [fields, suffixField, BitVec.and_or_distrib_right, BitVec.and_assoc]
      rw [format, ofFormat, reduced, suffixesOf_eq hsuffixes, hdisplacement]
  | load target s => exact ofFormat_encode_load target s
  | ddiv => rfl
  | br d s =>
      have hsuffixes : (br d s).encode &&& 0xC00 = suffixField s := by
        refine (hslot 0xF200 0xC00 rfl rfl).trans ?_
        simp [fields, suffixField, longField, BitVec.and_or_distrib_right, BitVec.and_assoc]
      have hdisplacement : (br d s).encode &&& 0x1FF = longField d := by
        refine (hslot 0xF200 0x1FF rfl rfl).trans ?_
        simp [fields, suffixField, longField, BitVec.and_or_distrib_right, BitVec.and_assoc]
      rw [format, ofFormat, reduced, suffixesOf_eq hsuffixes, longOf_eq hdisplacement]
  | bcc selector d indirect => exact ofFormat_encode_bcc selector d indirect
  | count op d indirect | flag op d indirect =>
      obtain ⟨hshort, hindirect⟩ := shortOf_and_hasBit_eq fun slot => hslot 0xF7C0 slot rfl
      rw [format, ofFormat, reduced, hshort, hindirect]
  | bro d =>
      have hshort : (bro d).encode &&& 0x3F = shortField d := by
        refine (hslot 0xFFC0 0x3F rfl rfl).trans ?_
        simp [fields, shortField, BitVec.and_or_distrib_right, BitVec.and_assoc]
      rw [format, ofFormat, reduced, shortOf_eq hshort]
  | pair first second =>
      have hcodes : (pair first second).encode =
          first.code.setWidth 16 <<< 6 ||| second.code.setWidth 16 := BitVec.zero_or
      rw [format, ofFormat, reduced, hcodes, low_code, high_code, StackOp.ofCode_code,
        StackOp.ofCode_code]

theorem decode?_encode (i : Instruction) : decode? i.encode = some i.reduced := by
  rw [decode?_of_admits i.admits_encode, ofFormat_encode]

/-! ## Ranges -/

theorem and_eq_self {w k : Nat} {v mask : BitVec w} (hmask : mask.toNat = 2 ^ k - 1)
    (hv : v.toNat ≤ mask.toNat) : v &&& mask = v := by
  apply BitVec.eq_of_toNat_eq
  have hpos := Nat.two_pow_pos k
  rw [BitVec.toNat_and, hmask, Nat.and_two_pow_sub_one_eq_mod, Nat.mod_eq_of_lt (by omega)]

/-- Nothing is cut off fields that fit. -/
theorem reduced_eq_self {i : Instruction} (hi : i.InRange)
    (hselector : ∀ selector d indirect, i = bcc selector d indirect → selector.toNat ≤ 7) :
    i.reduced = i := by
  have hshort : ∀ d : Displacement, d.magnitude.toNat ≤ shortMax →
      d.magnitude &&& 0x1F = d.magnitude := fun _ hd => and_eq_self (k := 5) (by decide) hd
  have hlong : ∀ d : Displacement, d.magnitude.toNat ≤ longMax →
      d.magnitude &&& 0xFF = d.magnitude := fun _ hd => and_eq_self (k := 8) (by decide) hd
  have hdb : ∀ n : Word, n.toNat ≤ dbMax → n &&& 0x1FF = n :=
    fun _ hn => and_eq_self (k := 9) (by decide) hn
  cases i with
  | halt n | rio n | wio n =>
      have hcode : n &&& 0xF = n := and_eq_self (k := 4) (by decide) hi
      rw [reduced, hcode]
  | scal n | sxit n | ldi n | ldxi n | ddiv | pair first second => rfl
  | shift op n indexed =>
      have hcount : n &&& 0x3F = n := and_eq_self (k := 6) (by decide) hi.1
      have hindexed : (op.acceptsIndex && indexed) = indexed := by
        cases indexed with
        | false => exact Bool.and_false _
        | true => exact (Bool.and_true _).trans (hi.2 rfl)
      rw [reduced, hcount, hindexed]
  | memory op n s => rw [reduced, hdb n hi]
  | load target s =>
      cases target with
      | db n => rw [reduced, hdb n hi]
      | own d => rw [reduced, hlong d hi]
  | br d s => rw [reduced, hlong d hi]
  | bcc selector d indirect =>
      have hbits : selector &&& 7 = selector :=
        and_eq_self (k := 3) (by decide) (hselector selector d indirect rfl)
      rw [reduced, hbits, hshort d hi]
  | count op d indirect | flag op d indirect | bro d => rw [reduced, hshort d hi]

end Instruction

end StackComputer
