import StackComputer.Proofs.FlagDiscipline

/-!
# Step budgets

A run goes on as long as the machine runs and its budget lasts. A budget can be
spent in two runs as in one, and what a run returns falls short of the fetches it
made by the step that stopped the machine.
-/

namespace StackComputer.Machine

variable {β : Type} [Bus β] {m : Machine}

theorem runFrom_eq (m : Machine) (b : β) (count budget : Nat) :
    m.runFrom count b budget = (count + (m.run b budget).1, (m.run b budget).2) := by
  have hadd : ∀ (m : Machine) (b : β) (start : Nat), m.runFrom (count + start) b budget =
      (count + (m.runFrom start b budget).1, (m.runFrom start b budget).2) := by
    induction budget with
    | zero => exact fun _ _ _ => rfl
    | succ budget ih =>
        intro m b start
        rw [runFrom, runFrom]
        dsimp only
        split
        · exact ih _ _ (start + 1)
        · rfl
  exact hadd m b 0

theorem run_zero (m : Machine) (b : β) : m.run b 0 = (0, m, b) := rfl

theorem run_succ_of_running {b : β} (hrun : (m.step b).1.isRunning = true) (n : Nat) :
    m.run b (n + 1) =
      (((m.step b).1.run (m.step b).2 n).1 + 1, ((m.step b).1.run (m.step b).2 n).2) := by
  rw [run, runFrom]
  dsimp only
  rw [hrun, if_pos rfl, runFrom_eq, Nat.add_comm]

theorem run_succ_of_stopped {b : β} (hstop : (m.step b).1.isRunning = false) (n : Nat) :
    m.run b (n + 1) = (0, m.step b) := by
  rw [run, runFrom]
  dsimp only
  rw [hstop]
  rfl

theorem run_of_stopped (hstop : m.isRunning = false) (b : β) (n : Nat) :
    m.run b n = (0, m, b) := by
  cases n with
  | zero => rfl
  | succ n =>
      have hstep := step_of_stopped hstop b
      rw [run_succ_of_stopped (by rw [hstep]; exact hstop), hstep]

/-- The run after a run that stopped returns at once. -/
theorem run_add (m : Machine) (b : β) (n k : Nat) :
    m.run b (n + k) =
      let first := m.run b n
      let second := first.2.1.run first.2.2 k
      (first.1 + second.1, second.2) := by
  induction n generalizing m b with
  | zero =>
      rw [run_zero, Nat.zero_add]
      dsimp only
      rw [Nat.zero_add]
  | succ n ih =>
      rw [Nat.succ_add]
      rcases Bool.eq_false_or_eq_true (m.step b).1.isRunning with hrun | hstop
      · rw [run_succ_of_running hrun, run_succ_of_running hrun, ih]
        dsimp only
        rw [Nat.add_right_comm]
      · rw [run_succ_of_stopped hstop, run_succ_of_stopped hstop]
        dsimp only
        rw [run_of_stopped hstop]
        rfl

theorem cycles_step (hrun : m.isRunning = true) (b : β) : (m.step b).1.cycles = m.cycles + 1 := by
  obtain ⟨fetched, f, hcycles, -, hkeeps⟩ := exists_keeps_step hrun b
  rw [hkeeps.cycles_eq, hcycles]

/-- Each step is a fetch; the one that stops the machine is not returned. -/
theorem cycles_run (m : Machine) (b : β) (n : Nat) :
    (m.run b n).2.1.cycles = m.cycles + (m.run b n).1 +
      if m.isRunning = true ∧ (m.run b n).2.1.isRunning = false then 1 else 0 := by
  induction n generalizing m b with
  | zero =>
      rw [run_zero, if_neg fun h => Bool.noConfusion (h.1.symm.trans h.2)]
      rfl
  | succ n ih =>
      rcases Bool.eq_false_or_eq_true m.isRunning with hrun | hstop
      · rcases Bool.eq_false_or_eq_true (m.step b).1.isRunning with hnext | hnext
        · rw [run_succ_of_running hnext]
          dsimp only
          rw [ih, cycles_step hrun, hnext, hrun]
          omega
        · rw [run_succ_of_stopped hnext, if_pos ⟨hrun, hnext⟩, cycles_step hrun]
          rfl
      · rw [run_of_stopped hstop, if_neg fun h => Bool.noConfusion (h.1.symm.trans hstop)]
        rfl

theorem run_le (m : Machine) (b : β) (n : Nat) : (m.run b n).1 ≤ n := by
  induction n generalizing m b with
  | zero => exact Nat.le_refl 0
  | succ n ih =>
      rcases Bool.eq_false_or_eq_true (m.step b).1.isRunning with hrun | hstop
      · rw [run_succ_of_running hrun]
        exact Nat.succ_le_succ (ih _ _)
      · rw [run_succ_of_stopped hstop]
        exact Nat.zero_le _

/-- A run on a budget is a run on the first part of it and one on the rest, on the
same bus, and returns the sum of what they return, which is no more than the
budget. The fetches of a run are the steps it returns, and one more if it stopped
the machine. -/
theorem budgets_add (m : Machine) (b : β) :
    (∀ n k, m.run b (n + k) =
      let first := m.run b n
      let second := first.2.1.run first.2.2 k
      (first.1 + second.1, second.2)) ∧
    ∀ n, (m.run b n).1 ≤ n ∧ (m.run b n).2.1.cycles = m.cycles + (m.run b n).1 +
      if m.isRunning = true ∧ (m.run b n).2.1.isRunning = false then 1 else 0 :=
  ⟨run_add m b, fun n => ⟨run_le m b n, cycles_run m b n⟩⟩

end StackComputer.Machine
