import StackComputer.Machine.Run
import StackComputer.Proofs.LogicalStack

/-!
# Steps

A stopped machine stays as it is. A running one fetches a word, which stops it
if it is no instruction; any other is executed, and an error of its execution
stops the machine. What all of these keep, a step keeps, and so does a run.
-/

namespace StackComputer

namespace Exchange

/-- The machine after an exchange, which an error stops. -/
def stopped {β : Type} : Except ExecError Unit × Machine × β → Machine
  | (.ok (), m, _) => m
  | (.error cause, m, _) => m.fault cause

theorem regs_stopped {β : Type} (r : Except ExecError Unit × Machine × β) :
    (stopped r).regs = r.2.1.regs := by
  rcases r with ⟨cause | ⟨⟩, m, b⟩
  · exact Machine.regs_fault m cause
  · rfl

end Exchange

namespace Machine

/-- The machine when an instruction is executed. -/
def fetching (m : Machine) (i : Instruction) : Machine := { m.fetch with last := some i }

/-- The instruction that the next step executes, if it comes to one. -/
def fetched? (m : Machine) : Option Instruction :=
  if m.isRunning then Instruction.decode? (m.memory.read m.regs.pc) else none

variable {β : Type} [Bus β] {m : Machine} {i : Instruction}

theorem isRunning_of_fetched (h : m.fetched? = some i) : m.isRunning = true := by
  rw [fetched?] at h
  split at h
  · assumption
  · cases h

theorem isRunning_fetching (h : m.fetched? = some i) : (m.fetching i).isRunning = true := by
  have hrun := isRunning_of_fetched h
  exact hrun

theorem step_of_stopped (hstop : m.isRunning = false) (b : β) : m.step b = (m, b) := by
  rw [step, hstop]
  rfl

theorem step_of_unknown (hrun : m.isRunning = true) (h : m.fetched? = none) (b : β) :
    m.step b = (m.fetch.fault (.unknownInstruction (m.memory.read m.regs.pc)), b) := by
  rw [fetched?, if_pos hrun] at h
  rw [step, hrun, if_neg (by decide)]
  dsimp only
  rw [h]

theorem step_of_fetched (h : m.fetched? = some i) (b : β) :
    m.step b = (Exchange.stopped (i.execute.perform (m.fetching i) b),
      (i.execute.perform (m.fetching i) b).2.2) := by
  have hrun := isRunning_of_fetched h
  rw [fetched?, if_pos hrun] at h
  rw [step, hrun, if_neg (by decide)]
  dsimp only
  rw [h]
  dsimp only
  rw [← fetching]
  rcases i.execute.perform (m.fetching i) b with ⟨cause | ⟨⟩, m', b'⟩ <;> rfl

/-- A step without an instruction does not come near the bus. -/
theorem step_of_not_fetched (h : m.fetched? = none) :
    ∃ m', ∀ {β : Type} [Bus β] (b : β), m.step b = (m', b) := by
  rcases Bool.eq_false_or_eq_true m.isRunning with hrun | hstop
  · exact ⟨_, fun b => step_of_unknown hrun h b⟩
  · exact ⟨m, fun b => step_of_stopped hstop b⟩

/-- All that a step can be. -/
theorem step_cases (m : Machine) (b : β) :
    (m.isRunning = false ∧ m.step b = (m, b)) ∨
      (m.isRunning = true ∧
        m.step b = (m.fetch.fault (.unknownInstruction (m.memory.read m.regs.pc)), b)) ∨
      ∃ i, m.fetched? = some i ∧
        m.step b = (Exchange.stopped (i.execute.perform (m.fetching i) b),
          (i.execute.perform (m.fetching i) b).2.2) := by
  rcases Bool.eq_false_or_eq_true m.isRunning with hrun | hstop
  · cases h : m.fetched? with
    | none => exact .inr (.inl ⟨hrun, step_of_unknown hrun h b⟩)
    | some i => exact .inr (.inr ⟨i, rfl, step_of_fetched h b⟩)
  · exact .inl ⟨hstop, step_of_stopped hstop b⟩

theorem runFrom_preserves {P : Machine → Prop}
    (hstep : ∀ (m : Machine) (b : β), P m → P (m.step b).1) (h : P m) (b : β)
    (count budget : Nat) : P (m.runFrom count b budget).2.1 := by
  induction budget generalizing m b count with
  | zero => exact h
  | succ budget ih =>
      have hnext := hstep m b h
      rw [runFrom]
      dsimp only
      split
      · exact ih hnext _ _
      · exact hnext

end Machine

end StackComputer
