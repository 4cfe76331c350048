import StackComputer.Proofs.Step
import StackComputer.Proofs.Transition

/-!
# Base addresses

Every reference to memory and every branch starts from a base address: a
displacement from the data base, or a distance from the instruction itself. The
rest of its effect depends on the base address and not on how it was given.
-/

namespace StackComputer

namespace FlagOp

def holds (sta : Status) : FlagOp → Bool
  | bcy => sta.carry
  | bncy => !sta.carry
  | bov => sta.overflow
  | bnov => !sta.overflow

/-- The status with the tested flag cleared. -/
def clear (sta : Status) : FlagOp → Status
  | bcy | bncy => { sta with carry := false }
  | bov | bnov => { sta with overflow := false }

end FlagOp

namespace Instruction

/-- The distance an instruction measures from itself. -/
def distance? : Instruction → Option Displacement
  | load (.own d) _ | br d _ | bcc _ d _ | count _ d _ | flag _ d _ | bro d => some d
  | _ => none

def dataDisplacement? : Instruction → Option Word
  | memory _ n _ | load (.db n) _ => some n
  | _ => none

def suffixes : Instruction → Suffixes
  | memory _ _ s | load _ s | br _ s => s
  | bcc _ _ indirect | count _ _ indirect | flag _ _ indirect => ⟨indirect, false⟩
  | shift _ _ indexed => ⟨false, indexed⟩
  | _ => {}

/-- The base address of an instruction whose word was just fetched. -/
def base? (m : Machine) (i : Instruction) : Option Word :=
  (i.distance?.map (·.apply m.here)).or (i.dataDisplacement?.map (m.regs.db + ·))

/-- What an instruction does with `t` for its base address. -/
def actAt (t : Word) (m : Machine) : Instruction → Machine
  | memory op _ s => m.memoryAct op (m.resolve t s)
  | load _ s => (m.pushCell (m.memory.read (m.resolve t s))).sense (m.memory.read (m.resolve t s))
  | br _ s => m.jump (m.resolve t s)
  | bcc selector _ indirect =>
    if Machine.accepts selector m.regs.sta.cc then m.jump (m.resolve t ⟨indirect, false⟩) else m
  | count op _ indirect =>
    let (n, m) := m.countAct op
    if n = 0 then m.jump (m.resolve t ⟨indirect, false⟩) else m
  | flag op _ indirect =>
    let cleared := m.setStatus (op.clear m.regs.sta)
    if op.holds m.regs.sta then cleared.jump (cleared.resolve t ⟨indirect, false⟩) else cleared
  | bro _ =>
    if m.regs.ra.getLsbD 0 then m.dropCell.jump (m.dropCell.resolve t {}) else m.dropCell
  | i => i.act m

theorem here_countAct (m : Machine) (op : CountOp) : (m.countAct op).2.here = m.here := by
  cases op <;> rfl

theorem pc_dropCell (m : Machine) : m.dropCell.regs.pc = m.regs.pc :=
  congrArg Machine.Frame.pc (Machine.frame_dropCell m)

theorem here_dropCell (m : Machine) : m.dropCell.here = m.here := by
  rw [Machine.here, Machine.here, pc_dropCell]

theorem flagBranch_eq (op : FlagOp) (d : Displacement) (s : Suffixes) (m : Machine) :
    m.flagBranch op d s =
      if op.holds m.regs.sta then (m.setStatus (op.clear m.regs.sta)).branch d s
      else m.setStatus (op.clear m.regs.sta) := by
  cases op <;> rfl

/-- The displacement matters through the base address alone. -/
theorem act_eq_actAt {i : Instruction} {m : Machine} {t : Word} (h : i.base? m = some t) :
    i.act m = i.actAt t m := by
  cases i with
  | memory op n s =>
      cases h
      rfl
  | load target s => cases target <;> cases h <;> rfl
  | br d s | bcc selector d indirect =>
      cases h
      rfl
  | count op d indirect =>
      cases h
      -- Counting comes first, but does not move what the distance is measured from.
      have htaken : (m.countAct op).2.branch d ⟨indirect, false⟩ =
          (m.countAct op).2.jump
            ((m.countAct op).2.resolve (d.apply m.here) ⟨indirect, false⟩) := by
        rw [Machine.branch, here_countAct]
      rw [act, actAt]
      dsimp only
      rw [htaken]
  | flag op d indirect =>
      cases h
      rw [act, flagBranch_eq]
      rfl
  | bro d =>
      cases h
      have htaken : m.dropCell.branch d {} =
          m.dropCell.jump (m.dropCell.resolve (d.apply m.here) {}) := by
        rw [Machine.branch, here_dropCell]
      rw [act, actAt, htaken]
  | _ => cases h

def isTaken (m : Machine) : Instruction → Bool
  | br _ _ => true
  | bcc selector _ _ => Machine.accepts selector m.regs.sta.cc
  | count op _ _ => (m.countAct op).1 = 0
  | flag op _ _ => op.holds m.regs.sta
  | bro _ => m.regs.ra.getLsbD 0
  | _ => false

def isBranch : Instruction → Bool
  | br _ _ | bcc _ _ _ | count _ _ _ | flag _ _ _ | bro _ => true
  | _ => false

end Instruction

namespace Machine

variable {m : Machine}

@[simp] theorem address_resolve (m : Machine) (t : Word) (s : Suffixes) :
    (m.resolve t s).address = m.resolve t s := by
  rw [resolve]
  split
  · exact Word.address_address _
  · exact Word.address_address _

theorem resolve_plain (m : Machine) {t : Word} (ht : t.address = t) : m.resolve t {} = t := ht

theorem resolve_countAct (m : Machine) (op : CountOp) (t : Word) (indirect : Bool) :
    (m.countAct op).2.resolve t ⟨indirect, false⟩ = m.resolve t ⟨indirect, false⟩ := by
  cases op <;> rfl

theorem pc_countAct (m : Machine) (op : CountOp) : (m.countAct op).2.regs.pc = m.regs.pc := by
  cases op <;> rfl

theorem pc_actAt {i : Instruction} (hi : i.isBranch = true) (t : Word) (m : Machine) :
    (i.actAt t m).regs.pc = if i.isTaken m then m.resolve t i.suffixes else m.regs.pc := by
  cases i with
  | br d s => exact address_resolve m t s
  | bcc selector d indirect =>
      rw [Instruction.actAt, Instruction.isTaken]
      split
      · exact address_resolve m t ⟨indirect, false⟩
      · rfl
  | count op d indirect =>
      rw [Instruction.actAt, Instruction.isTaken]
      dsimp only
      by_cases hzero : (m.countAct op).1 = 0
      · rw [if_pos hzero, if_pos (decide_eq_true hzero), resolve_countAct]
        exact address_resolve m t ⟨indirect, false⟩
      · rw [if_neg hzero, if_neg (mt of_decide_eq_true hzero), pc_countAct]
  | flag op d indirect =>
      rw [Instruction.actAt, Instruction.isTaken]
      split
      · exact address_resolve m t ⟨indirect, false⟩
      · rfl
  | bro d =>
      rw [Instruction.actAt, Instruction.isTaken]
      split
      · exact address_resolve m.dropCell t {}
      · exact Instruction.pc_dropCell m
  | _ => cases hi

/-! ## One step -/

/-- The machine runs, is at `a` where the instruction is, and has the cells the
instruction needs. -/
structure ReadyFor (m : Machine) (a : Word) (i : Instruction) : Prop where
  running : m.isRunning = true
  pc_eq : m.regs.pc = a
  read_eq : m.memory.read a = i.encode
  guard_le : i.guard.getD 0 ≤ m.regs.available

theorem here_fetching {a : Word} {i : Instruction} (h : m.ReadyFor a i) (ha : a.address = a) :
    (m.fetching i).here = a := by
  have hpc : (m.fetching i).regs.pc = (a + 1).address := h.pc_eq ▸ rfl
  have hback : ((a + 1).address - 1).address = a := by
    apply BitVec.eq_of_toNat_eq
    have hsmall := Word.toNat_address a
    rw [ha] at hsmall
    have hlt := a.isLt
    simp only [Word.toNat_address, BitVec.toNat_sub, BitVec.toNat_add, BitVec.ofNat_eq_ofNat,
      BitVec.toNat_ofNat]
    omega
  rw [here, hpc, hback]

variable {β : Type} [Bus β]

theorem step_eq {a : Word} {i : Instruction} (h : m.ReadyFor a i)
    (hdecode : Instruction.decode? i.encode = some i) (hsimple : i.isSimple = true) (b : β) :
    m.step b = (i.act (m.fetching i), b) := by
  have hword : m.memory.read m.regs.pc = i.encode := h.pc_eq ▸ h.read_eq
  have hrun : (m.fetching i).isRunning = true := h.running
  have hcells : ¬ (m.fetching i).regs.available < i.guard.getD 0 := Nat.not_lt.mpr h.guard_le
  have hfetched : m.fetched? = some i := by rw [fetched?, if_pos h.running, hword, hdecode]
  rw [step_of_fetched hfetched, Instruction.perform_execute hsimple hrun, if_neg hcells]
  rfl

end Machine

namespace Instruction

/-- Executed where the machine is, the instruction starts from `t`. -/
def UsesBase (i : Instruction) (m : Machine) (t : Word) : Prop :=
  i.base? (m.fetching i) = some t ∧
    ∀ (β : Type) [Bus β] (b : β), m.step b = (i.actAt t (m.fetching i), b)

variable {i : Instruction} {m : Machine} {a t : Word}

theorem isSimple_of_base? (h : i.base? m = some t) : i.isSimple = true := by
  cases i with
  | rio device | wio device | pair first second => cases h
  | _ => rfl

theorem usesBase_of_base? (h : m.ReadyFor a i) (hdecode : decode? i.encode = some i)
    (hbase : i.base? (m.fetching i) = some t) : i.UsesBase m t := by
  refine ⟨hbase, ?_⟩
  intro β _ b
  rw [Machine.step_eq h hdecode (isSimple_of_base? hbase), act_eq_actAt hbase]

theorem usesBase_of_distance (h : m.ReadyFor a i) (hdecode : decode? i.encode = some i)
    (ha : a.address = a) {d : Displacement} (hd : i.distance? = some d) :
    i.UsesBase m (d.apply a) := by
  refine usesBase_of_base? h hdecode ?_
  rw [base?, hd, Option.map_some, Option.some_or, Machine.here_fetching h ha]

theorem usesBase_of_dataDisplacement (h : m.ReadyFor a i) (hdecode : decode? i.encode = some i)
    (hn : i.dataDisplacement? = some t) (hdb : m.regs.db = 0) : i.UsesBase m t := by
  refine usesBase_of_base? h hdecode ?_
  have hdistance : i.distance? = none := by
    cases i with
    | memory op n s => rfl
    | load target s => cases target <;> first | rfl | cases hn
    | _ => cases hn
  have hregs : (m.fetching i).regs.db = 0 := hdb
  rw [base?, hdistance, hn, Option.map_none, Option.none_or, Option.map_some, hregs]
  exact congrArg some (BitVec.zero_add t)

theorem UsesBase.pc_step {β : Type} [Bus β] (h : i.UsesBase m t) (hi : i.isBranch = true) (b : β) :
    (m.step b).1.regs.pc =
      if i.isTaken m then m.resolve t i.suffixes else (m.regs.pc + 1).address := by
  have htaken : i.isTaken (m.fetching i) = i.isTaken m := by
    cases i with
    | count op d indirect => cases op <;> rfl
    | _ => rfl
  rw [h.2 β b, Machine.pc_actAt hi, htaken]
  rfl

theorem UsesBase.ra_step {β : Type} [Bus β] {target : LoadTarget} {s : Suffixes}
    (h : (load target s).UsesBase m t) (b : β) :
    (m.step b).1.regs.ra = m.memory.read (m.resolve t s) ∧
      (m.step b).1.regs.depth = m.regs.depth + 1 := by
  rw [h.2 β b]
  exact ⟨rfl, rfl⟩

end Instruction

end StackComputer
