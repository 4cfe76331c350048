import StackComputer.Proofs.BaseAddress

/-!
# Flag sets

Carry, overflow and the condition code share the status word, and every opcode
and instruction sets some of them and no other. The groups here say which. The
rest of the word is set by none of them.
-/

namespace StackComputer

/-- Some of the flags. -/
structure FlagSet where
  carry : Bool := false
  overflow : Bool := false
  code : Bool := false
deriving DecidableEq, Repr

namespace FlagSet

/-- What signed sums and differences set. -/
def all : FlagSet := ⟨true, true, true⟩

/-- What unsigned results and shifts set. -/
def carried : FlagSet := { carry := true, code := true }

/-- What results that may be out of range set. -/
def ranged : FlagSet := { overflow := true, code := true }

def union (f g : FlagSet) : FlagSet :=
  ⟨f.carry || g.carry, f.overflow || g.overflow, f.code || g.code⟩

end FlagSet

/-- The flags an opcode may set. -/
def StackOp.flags : StackOp → FlagSet
  | incx | decx | adax | adbx | adxa | adxb | add | sub | neg | inca | deca | incb | decb
  | dadd | dsub | dneg => .all
  | ladd | lsub | lmpy => .carried
  | mpy | mpyl | div | divl | ldiv | flt | dflt | fadd | fsub | fmpy | fdiv | fixr | fixt => .ranged
  | dup | ddup | zrob | not | or | xor | and | test | dtst | btst | cmp | lcmp | dcmp | fneg
  | fcmp => { code := true }
  | nop | del | delb | ddel | zero | dzro | xch | dxch | cab | zrox | stax | ldxa | ldxb | stbx
  | xax | xbx | unk => {}

def MemoryOp.flags : MemoryOp → FlagSet
  | incm | decm => .all
  | ldd => { code := true }
  | stor | std => {}

def FlagOp.flags : FlagOp → FlagSet
  | bcy | bncy => { carry := true }
  | bov | bnov => { overflow := true }

/-- The flags an instruction may set. -/
def Instruction.flags : Instruction → FlagSet
  | rio _ | wio _ | load _ _ | ldi _ => { code := true }
  | shift _ _ _ => .carried
  | memory op _ _ => op.flags
  | ddiv => .ranged
  | flag op _ _ => op.flags
  | pair first second => first.flags.union second.flags
  | halt _ | scal _ | sxit _ | ldxi _ | br _ _ | bcc _ _ _ | count _ _ _ | bro _ => {}

namespace ConditionCode

theorem ofResult_ne {w : Nat} (v : BitVec w) : ofResult v ≠ .indeterminate := by
  rw [ofResult]
  split
  · exact nofun
  · split <;> exact nofun

theorem ofOrdering_ne (o : Ordering) : ofOrdering o ≠ .indeterminate := by
  cases o <;> exact nofun

theorem ofByte_ne (b : Byte) : ofByte b ≠ .indeterminate := by
  rw [ofByte]
  split
  · exact nofun
  · split <;> exact nofun

end ConditionCode

namespace Status

/-- The second status differs from the first at most in the flags of a set. An
indeterminate condition code does not come about. -/
structure Within (f : FlagSet) (s s' : Status) : Prop where
  mode_eq : s'.mode = s.mode
  low_eq : s'.low = s.low
  carry_eq : f.carry = false → s'.carry = s.carry
  overflow_eq : f.overflow = false → s'.overflow = s.overflow
  code_eq : f.code = false → s'.cc = s.cc
  determinate : s.cc ≠ .indeterminate → s'.cc ≠ .indeterminate

variable {f g : FlagSet} {s s' s'' : Status}

theorem Within.refl (f : FlagSet) (s : Status) : Within f s s :=
  ⟨rfl, rfl, fun _ => rfl, fun _ => rfl, fun _ => rfl, id⟩

theorem Within.trans (h : Within f s s') (h' : Within f s' s'') : Within f s s'' where
  mode_eq := h'.mode_eq.trans h.mode_eq
  low_eq := h'.low_eq.trans h.low_eq
  carry_eq hf := (h'.carry_eq hf).trans (h.carry_eq hf)
  overflow_eq hf := (h'.overflow_eq hf).trans (h.overflow_eq hf)
  code_eq hf := (h'.code_eq hf).trans (h.code_eq hf)
  determinate hs := h'.determinate (h.determinate hs)

theorem Within.union_left (h : Within f s s') (g : FlagSet) : Within (f.union g) s s' where
  mode_eq := h.mode_eq
  low_eq := h.low_eq
  carry_eq hf := h.carry_eq (Bool.or_eq_false_iff.mp hf).1
  overflow_eq hf := h.overflow_eq (Bool.or_eq_false_iff.mp hf).1
  code_eq hf := h.code_eq (Bool.or_eq_false_iff.mp hf).1
  determinate := h.determinate

theorem Within.union_right (h : Within g s s') (f : FlagSet) : Within (f.union g) s s' where
  mode_eq := h.mode_eq
  low_eq := h.low_eq
  carry_eq hf := h.carry_eq (Bool.or_eq_false_iff.mp hf).2
  overflow_eq hf := h.overflow_eq (Bool.or_eq_false_iff.mp hf).2
  code_eq hf := h.code_eq (Bool.or_eq_false_iff.mp hf).2
  determinate := h.determinate

/-- Where no flag may be set the status is the same. -/
theorem Within.eq (h : Within {} s s') : s' = s := by
  cases s
  cases s'
  simp only [mk.injEq]
  exact ⟨h.mode_eq, h.overflow_eq rfl, h.carry_eq rfl, h.code_eq rfl, h.low_eq⟩

theorem within_setCode (s : Status) {cc : ConditionCode} (hcc : cc ≠ .indeterminate) :
    Within { code := true } s { s with cc := cc } :=
  ⟨rfl, rfl, fun _ => rfl, fun _ => rfl, nofun, fun _ => hcc⟩

theorem within_sense {w : Nat} (s : Status) (v : BitVec w) :
    Within { code := true } s (s.sense v) :=
  within_setCode s (ConditionCode.ofResult_ne v)

theorem within_latch {w : Nat} (s : Status) (result : BitVec w × Flags) :
    Within .all s (s.latch result) :=
  ⟨rfl, rfl, nofun, nofun, nofun, fun _ => ConditionCode.ofResult_ne result.1⟩

end Status

namespace Latches

theorem within_latchCarry {w : Nat} (l : Latches) (result : BitVec w × Flags) :
    Status.Within .carried l.sta (l.latchCarry result).sta :=
  ⟨rfl, rfl, nofun, fun _ => rfl, nofun, fun _ => ConditionCode.ofResult_ne result.1⟩

theorem within_latchOverflow {w : Nat} (l : Latches) (overflow : Bool) (v : BitVec w) :
    Status.Within .ranged l.sta (l.latchOverflow overflow v).sta :=
  ⟨rfl, rfl, fun _ => rfl, nofun, nofun, fun _ => ConditionCode.ofResult_ne v⟩

end Latches

namespace Outcome

theorem within_real (r : Except RealWord.RangeError Dword) (l : Latches) :
    Status.Within .ranged l.sta (real r l).latches.sta := by
  cases r with
  | ok d => exact l.within_latchOverflow _ _
  | error cause => exact l.within_latchOverflow _ _

theorem within_integer (n : Int) (l : Latches) :
    Status.Within .ranged l.sta (integer n l).latches.sta := by
  rw [integer]
  split <;> exact l.within_latchOverflow _ _

theorem within_divide (a b : Word) (l : Latches) :
    Status.Within .ranged l.sta (divide a b l).latches.sta := by
  rw [divide]
  split <;> exact l.within_latchOverflow _ _

theorem within_divideLong (a : Dword) (b : Word) (l : Latches) :
    Status.Within .ranged l.sta (divideLong a b l).latches.sta := by
  rw [divideLong]
  split <;> exact l.within_latchOverflow _ _

theorem within_divideLogical (a : Dword) (b : Word) (l : Latches) :
    Status.Within .ranged l.sta (divideLogical a b l).latches.sta := by
  rw [divideLogical]
  split <;> exact l.within_latchOverflow _ _

theorem within_divideDouble (a b : Dword) (l : Latches) :
    Status.Within .ranged l.sta (divideDouble a b l).latches.sta := by
  rw [divideDouble]
  split <;> exact l.within_latchOverflow _ _

end Outcome

namespace Effect

/-- Whatever the cells and latches, the effect sets flags of the set alone. -/
def Sets (f : FlagSet) : Effect → Prop
  | undefined | dropSecond => True
  | latch g => ∀ l, Status.Within f l.sta (g l).sta
  | update _ g => ∀ cells l, Status.Within f l.sta (g cells l).2.sta
  | extend _ g | replace _ g => ∀ cells l, Status.Within f l.sta (g cells l).latches.sta

theorem sets_shift (op : ShiftOp) (n : Nat) :
    (shift op n).Sets .carried := by
  rw [shift]
  split <;> exact fun _ l => l.within_latchCarry _

theorem sets_real {n : Nat} (f : Cells n → Except RealWord.RangeError Dword) :
    (replace n fun cells => .real (f cells)).Sets .ranged :=
  fun cells l => Outcome.within_real (f cells) l

theorem sets_integer {n : Nat} (f : Cells n → Int) :
    (replace n fun cells => .integer (f cells)).Sets .ranged :=
  fun cells l => Outcome.within_integer (f cells) l

theorem sets_divideDouble : (binaryDouble .divideDouble).Sets .ranged :=
  fun cells l => Outcome.within_divideDouble cells.lowerDouble cells.double l

end Effect

open Status Outcome Effect in
theorem StackOp.sets_effect (op : StackOp) : op.effect.Sets op.flags := by
  cases op with
  | unk | delb => trivial
  | nop | zrox => exact fun l => .refl _ l.sta
  | xch | cab | ldxb | stbx | xax | xbx | del | ddel | zero | dzro | dxch | stax | ldxa =>
      exact fun _ l => .refl _ l.sta
  | incx | decx => exact fun l => within_latch l.sta _
  | adax | adbx | adxa | adxb | add | sub | neg | inca | deca | incb | decb | dadd | dsub | dneg =>
      exact fun _ l => within_latch l.sta _
  | ladd | lsub | lmpy => exact fun _ l => l.within_latchCarry _
  | mpy | mpyl => exact fun _ l => l.within_latchOverflow _ _
  | div => exact fun _ l => within_divide _ _ l
  | divl => exact fun _ l => within_divideLong _ _ l
  | ldiv => exact fun _ l => within_divideLogical _ _ l
  | flt | dflt | fadd | fsub | fmpy | fdiv => exact sets_real _
  | fixr | fixt => exact sets_integer _
  | dup | ddup | not | or | xor | and | test | dtst | fneg => exact fun _ l => within_sense l.sta _
  | zrob => exact fun _ l => within_setCode l.sta (by decide)
  | btst => exact fun _ l => within_setCode l.sta (ConditionCode.ofByte_ne _)
  | cmp | lcmp | dcmp | fcmp =>
      exact fun _ l => within_setCode l.sta (ConditionCode.ofOrdering_ne _)

end StackComputer
