import StackComputer.Proofs.FixedExecution
import StackComputer.Proofs.RunBudget

/-!
# Freedom from traps

Whatever the program, a machine with fields of fixed width traps on nothing but the
depth of its stack. Four cells a step take a long run to get there, but there are
programs that push for ever.
-/

namespace StackComputer.FixedWidth

variable {β : Type} [Bus β] {m : Machine}

/-! ## Runs -/

theorem meets_step (hm : m.regs.WellFormed) (hcycles : m.cycles + 1 < 2 ^ 64) (b : β) :
    Meets (m.regs.depth + 4) (m.step b).1 (step m b) (m.step b) := by
  have hroom : m.regs.depth ≤ m.regs.depth + 4 := Nat.le_add_right _ _
  rw [step, Machine.step, read_eq, natural_eq hcycles]
  rcases Bool.eq_false_or_eq_true m.isRunning with hrun | hstop
  · rw [hrun, if_neg (by decide), if_neg (by decide), ok_bind, ok_bind]
    dsimp only
    cases Instruction.decode? (m.memory.read m.regs.pc) with
    | none =>
        apply Meets.ok
        rw [Machine.regs_fault]
        exact hroom
    | some i =>
        have hfetched : { m.fetch with last := some i }.regs.WellFormed := hm.advance
        have hexecute := meets_execute hfetched i b
        apply hexecute.bind le_rfl
        dsimp only
        rcases i.execute.perform { m.fetch with last := some i } b with ⟨cause | ⟨⟩, m', b'⟩
        · intro hd
          apply Meets.ok
          rw [Machine.regs_fault]
          exact hd
        · exact Meets.ok
  · rw [hstop, if_pos (by decide), if_pos (by decide)]
    exact .ok hroom

theorem isRunning_of_step {b : β} (h : (m.step b).1.isRunning = true) : m.isRunning = true := by
  rcases Bool.eq_false_or_eq_true m.isRunning with hrun | hstop
  · exact hrun
  · rw [Machine.step_of_stopped hstop] at h
    exact h

/-- A run traps on nothing but the depth. The induction is on the budget: as long as
some is left the counters fit in their fields, and no step pushes more than four cells. -/
theorem runFrom_cases (hm : m.regs.WellFormed) (b : β) (count budget : Nat)
    (hcount : count + budget < 2 ^ 64) (hcycles : m.cycles + budget < 2 ^ 64) :
    runFrom count m b budget = .ok (m.runFrom count b budget) ∨
      runFrom count m b budget = .error .depth ∧
        ∃ k < budget, (m.run b k).2.1.regs.depth ≤ m.regs.depth + 4 * k ∧
          2 ^ 32 ≤ (m.run b k).2.1.regs.depth + 4 := by
  induction budget generalizing m b count with
  | zero => exact .inl rfl
  | succ budget ih =>
      have hstep := meets_step hm (by omega) b
      have hroom := hstep.depth_le
      have hwell := Machine.wellFormed_step hm b
      rw [runFrom, Machine.runFrom]
      rcases hmet : step m b with trap | next
      · rw [hmet] at hstep
        cases hstep with
        | deep _ htrap => exact .inr ⟨rfl, 0, Nat.succ_pos budget, le_rfl, htrap⟩
      · rw [hmet] at hstep
        obtain rfl : m.step b = next := by
          cases hstep
          rfl
        rw [ok_bind]
        dsimp only
        rcases Bool.eq_false_or_eq_true (m.step b).1.isRunning with hrun | hstop
        · have hrunning := isRunning_of_step hrun
          have hnext := Machine.cycles_step hrunning b
          have hsteps : natural .steps 64 (count + 1) = .ok (count + 1) := natural_eq (by omega)
          rw [hrun, if_pos rfl, if_pos rfl, hsteps, ok_bind]
          rcases ih hwell (m.step b).2 (count + 1) (by omega) (by omega) with
            hok | ⟨htrap, k, hk, hdepth, hdeep⟩
          · exact .inl hok
          · refine .inr ⟨htrap, k + 1, by omega, ?_⟩
            rw [Machine.run_succ_of_running hrun]
            dsimp only
            exact ⟨by omega, hdeep⟩
        · rw [hstop, if_neg Bool.false_ne_true, if_neg Bool.false_ne_true]
          exact .inl rfl

/-! ## A program that pushes for ever -/

/-- The instruction that loads the word it is itself. -/
def selfLoad : Instruction := .load (.own ⟨false, 0⟩) {}

/-- Nothing but this instruction in memory and on the stack. -/
structure LoadsItself (m : Machine) : Prop where
  wellFormed : m.regs.WellFormed
  running : m.isRunning = true
  read_eq : ∀ a, m.memory.read a = selfLoad.encode
  cell_eq : ∀ i < m.regs.sr, m.regs.cell i = selfLoad.encode

/-- The machine after the instruction was executed. -/
def selfLoaded (m : Machine) : Machine :=
  ({ m.fetch with last := some selfLoad }.pushCell selfLoad.encode).sense selfLoad.encode

/-- What is spilled is the instruction again, wherever it lands. -/
theorem LoadsItself.selfLoaded (h : LoadsItself m) : LoadsItself (selfLoaded m) where
  wellFormed := by
    have hfetched : { m.fetch with last := some selfLoad }.regs.WellFormed := h.wellFormed.advance
    exact (Machine.wellFormed_pushCell hfetched selfLoad.encode).latches _ _
  running := h.running
  read_eq a := by
    have hmemory : (FixedWidth.selfLoaded m).memory =
        if m.regs.sr = 4 then m.memory.write (m.regs.sm - 1).address m.regs.rd
        else m.memory := by
      have hspilled : (FixedWidth.selfLoaded m).memory =
          if m.regs.sr = 4 then
            m.memory.write (if m.regs.sr = 4 then (m.regs.sm - 1).address else m.regs.sm) m.regs.rd
          else m.memory := rfl
      rw [hspilled]
      split <;> rfl
    rw [hmemory]
    split
    · next hfull =>
        rw [Memory.read_write, h.read_eq]
        split
        · exact h.cell_eq 3 (by omega)
        · rfl
    · exact h.read_eq a
  cell_eq i hi := by
    have hsr : (FixedWidth.selfLoaded m).regs.sr = min (m.regs.sr + 1) 4 := rfl
    match i with
    | 0 => rfl
    | 1 => exact h.cell_eq 0 (by omega)
    | 2 => exact h.cell_eq 1 (by omega)
    | 3 => exact h.cell_eq 2 (by omega)
    | i + 4 => omega

/-- Wherever the address of the instruction resolves to, the same word is there. -/
theorem execute_selfLoad (h : LoadsItself m) (b : β) :
    execute selfLoad m b =
      if m.regs.depth + 1 < 2 ^ 32 then
        .ok (.ok (), (m.pushCell selfLoad.encode).sense selfLoad.encode, b)
      else .error .depth := by
  have hsr := h.wellFormed.sr_eq
  have hload : execute selfLoad m b = alone (load selfLoad.encode) m b := by
    change alone (loadFrom _ _) m b = _
    rw [alone, alone]
    unfold loadFrom
    dsimp only
    rw [resolve_eq, ok_bind, read_eq, ok_bind, h.read_eq]
  rw [hload, alone, load, after_of_enough h.running (Nat.zero_le _), always,
    pushCell_eq (by omega)]
  split <;> rfl

theorem step_selfLoad (h : LoadsItself m) (hcycles : m.cycles + 1 < 2 ^ 64) (b : β) :
    step m b = if m.regs.depth + 1 < 2 ^ 32 then .ok (selfLoaded m, b) else .error .depth := by
  have hdecode : Instruction.decode? (m.memory.read m.regs.pc) = some selfLoad := by
    rw [h.read_eq]
    rfl
  have hfetched : LoadsItself { m.fetch with last := some selfLoad } :=
    ⟨h.wellFormed.advance, h.running, h.read_eq, h.cell_eq⟩
  have hexecute : execute selfLoad { m.fetch with last := some selfLoad } b =
      if m.regs.depth + 1 < 2 ^ 32 then .ok (.ok (), selfLoaded m, b) else .error .depth :=
    execute_selfLoad hfetched b
  rw [step, h.running, if_neg (by decide), read_eq, ok_bind, natural_eq hcycles, ok_bind]
  dsimp only
  rw [hdecode]
  change (execute selfLoad { m.fetch with last := some selfLoad } b >>= _) = _
  rw [hexecute]
  by_cases hfits : m.regs.depth + 1 < 2 ^ 32
  · rw [if_pos hfits, if_pos hfits]
    rfl
  · rw [if_neg hfits, if_neg hfits]
    rfl

/-- The depth runs out sooner or later, by induction on the budget. -/
theorem runFrom_selfLoad (h : LoadsItself m) (b : β) (count budget : Nat)
    (hdepth : m.regs.depth < 2 ^ 32) (hlong : 2 ^ 32 ≤ m.regs.depth + budget)
    (hcount : count + budget < 2 ^ 64) (hcycles : m.cycles + budget < 2 ^ 64) :
    runFrom count m b budget = .error .depth := by
  induction budget generalizing m count with
  | zero => omega
  | succ budget ih =>
      rw [runFrom, step_selfLoad h (by omega)]
      by_cases hfits : m.regs.depth + 1 < 2 ^ 32
      · have hrun := h.selfLoaded.running
        have hloaded : (selfLoaded m).regs.depth = m.regs.depth + 1 := rfl
        have hfetched : (selfLoaded m).cycles = m.cycles + 1 := rfl
        have hsteps : natural .steps 64 (count + 1) = .ok (count + 1) := natural_eq (by omega)
        rw [if_pos hfits, ok_bind]
        dsimp only
        rw [hrun, if_pos rfl, hsteps, ok_bind]
        exact ih h.selfLoaded (count + 1) (by omega) (by omega) (by omega) (by omega)
      · rw [if_neg hfits]
        rfl

/-- A machine with nothing but the instruction in memory. -/
def selfLoading : Machine := { memory := ⟨.replicate 0x8000 selfLoad.encode⟩ }

theorem loadsItself_reset (start : Word) : LoadsItself (selfLoading.reset start) where
  wellFormed := (Machine.Fresh.reset selfLoading start).wellFormed
  running := rfl
  read_eq _ := Vector.getElem_replicate _
  cell_eq _ hi := absurd hi (Nat.not_lt_zero _)

/-! ## Freedom from traps -/

/-- After a reset a run on a budget below 2^64 does what the machine does, unless
its stack comes within four cells of 2^32. That takes 2^30 steps. -/
theorem run_traps_only_on_depth (m : Machine) (start : Word) (b : β) {budget : Nat}
    (hbudget : budget < 2 ^ 64) :
    run (m.reset start) b budget = .ok ((m.reset start).run b budget) ∨
      run (m.reset start) b budget = .error .depth ∧
        ∃ k < budget, 2 ^ 30 ≤ k + 1 ∧
          2 ^ 32 ≤ ((m.reset start).run b k).2.1.regs.depth + 4 := by
  have hwell := (Machine.Fresh.reset m start).wellFormed
  have hdepth : (m.reset start).regs.depth = 0 := rfl
  have hcycles : (m.reset start).cycles = 0 := rfl
  rcases runFrom_cases hwell b 0 budget (by omega) (by omega) with
    hok | ⟨htrap, k, hk, hroom, hdeep⟩
  · exact .inl hok
  · exact .inr ⟨htrap, k, hk, by omega, hdeep⟩

/-- The longest run that no depth can stop. -/
theorem run_traps_only_on_depth_selfLoading :
    2 ^ 30 - 1 < 2 ^ 64 ∧
      run (selfLoading.reset 0) EmptyBus.mk (2 ^ 30 - 1) =
        .ok ((selfLoading.reset 0).run EmptyBus.mk (2 ^ 30 - 1)) := by
  have hbudget : 2 ^ 30 - 1 < 2 ^ 64 := by decide
  refine ⟨hbudget, ?_⟩
  rcases run_traps_only_on_depth selfLoading 0 EmptyBus.mk hbudget with hok | ⟨-, k, hk, hlong, -⟩
  · exact hok
  · omega

/-- One cell a step is enough on a longer budget. -/
theorem selfLoading_runs_out_of_depth :
    2 ^ 32 < 2 ^ 64 ∧ run (selfLoading.reset 0) EmptyBus.mk (2 ^ 32) = .error .depth :=
  ⟨by decide, runFrom_selfLoad (loadsItself_reset 0) EmptyBus.mk 0 (2 ^ 32) (by decide)
    (by decide) (by decide) (by decide)⟩

end StackComputer.FixedWidth
