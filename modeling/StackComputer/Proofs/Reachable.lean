import StackComputer.Proofs.BusTransition
import StackComputer.Proofs.Step
import StackComputer.Proofs.StackRefinement

/-!
# Reachable machines

The states a machine can be brought to: by operations on its stack, by
instructions and opcodes executed one by one, and by running a program, with
any device answers, and with memory and the registers beside P and the stack
set from outside in between. In all of them the register file is well formed.
-/

namespace StackComputer

theorem Registers.WellFormed.latches {r : Registers} (h : r.WellFormed) (x : Word) (sta : Status) :
    { r with x := x, sta := sta }.WellFormed :=
  ⟨h.sr_eq, h.vacant, h.sm_eq, h.pc_eq⟩

theorem Registers.WellFormed.advance {r : Registers} (h : r.WellFormed) : r.advance.WellFormed :=
  ⟨h.sr_eq, h.vacant, h.sm_eq, Word.address_address _⟩

namespace Machine

variable {m : Machine}

theorem wellFormed_branch (h : m.regs.WellFormed) (d : Displacement) (s : Suffixes) :
    (m.branch d s).regs.WellFormed :=
  h.jump _

theorem wellFormed_settle (h : m.regs.WellFormed) (o : Outcome) :
    (m.settle o).regs.WellFormed := by
  rw [settle]
  cases o.range with
  | none => exact (wellFormed_pushCells h o.pushed).latches _ _
  | some cause =>
      have hrecord : (m.record (.outOfRange m.regs.pc cause)).regs.WellFormed := h
      exact (wellFormed_pushCells hrecord o.pushed).latches _ _

theorem wellFormed_memoryAct (h : m.regs.WellFormed) {op : MemoryOp} (a : Word)
    (hn : op.guard.getD 0 ≤ m.regs.depth) : (m.memoryAct op a).regs.WellFormed := by
  cases op with
  | incm | decm => exact h.latches _ _
  | stor => exact wellFormed_dropCell h hn
  | ldd => exact (wellFormed_pushCells h _).latches _ _
  | std => exact wellFormed_dropCells h hn

theorem wellFormed_countAct (h : m.regs.WellFormed) {op : CountOp}
    (hn : op.guard.getD 0 ≤ m.regs.depth) : (m.countAct op).2.regs.WellFormed := by
  cases op with
  | iabz => exact wellFormed_setTop h _ hn
  | ixbz | dxbz => exact h.latches _ _

theorem wellFormed_flagBranch (h : m.regs.WellFormed) (op : FlagOp) (d : Displacement)
    (s : Suffixes) : (flagBranch op d s m).regs.WellFormed := by
  have hsta : ∀ sta, (m.setStatus sta).regs.WellFormed := fun sta => h.latches _ sta
  have htaken : ∀ sta (taken : Bool),
      (if taken then (m.setStatus sta).branch d s else m.setStatus sta).regs.WellFormed := by
    intro sta taken
    split
    · exact wellFormed_branch (hsta sta) d s
    · exact hsta sta
  cases op <;> exact htaken _ _

theorem wellFormed_guarded {α : Type} (h : m.regs.WellFormed) {g : Option Nat}
    {f : Machine → α × Machine}
    (hf : g.getD 0 ≤ m.regs.depth → (f m).2.regs.WellFormed) :
    ((guarded g f).perform m).2.regs.WellFormed := by
  rcases perform_guarded_cases g f m with hstop | hshort | ⟨hn, hok⟩
  · rw [hstop]
    exact h
  · rw [hshort, regs_fault]
    exact h
  · rw [hok]
    exact hf (h.available_eq ▸ hn)

end Machine

theorem Effect.wellFormed_act {m : Machine} (h : m.regs.WellFormed) {e : Effect}
    (hn : e.guard.getD 0 ≤ m.regs.depth) : (e.act m).regs.WellFormed := by
  cases e with
  | undefined => exact h
  | latch f => exact h.latches _ _
  | update n f => exact (Machine.wellFormed_setTop h _ hn).latches _ _
  | extend n f => exact Machine.wellFormed_settle h _
  | replace n f => exact Machine.wellFormed_settle (Machine.wellFormed_dropCells h hn) _
  | dropSecond => exact Machine.wellFormed_dropSecondCell h hn

theorem Instruction.wellFormed_act {m : Machine} (h : m.regs.WellFormed) {i : Instruction}
    (hn : i.guard.getD 0 ≤ m.regs.depth) : (i.act m).regs.WellFormed := by
  cases i with
  | rio device | wio device | pair first second => exact h
  | halt code =>
      rw [act, Machine.halt]
      split <;> exact h
  | scal n =>
      apply Registers.WellFormed.jump
      apply Machine.wellFormed_pushCell
      have hlabel : (if n = 0 then 1 else 0) ≤ m.regs.depth := hn
      by_cases hzero : n = 0
      · rw [if_pos hzero] at hlabel ⊢
        exact Machine.wellFormed_dropCell h hlabel
      · rw [if_neg hzero]
        exact h
  | sxit n => exact (Machine.wellFormed_dropCells h hn).jump _
  | shift op n indexed =>
      apply Effect.wellFormed_act h
      rw [Effect.guard_shift]
      exact hn
  | memory op displacement s => exact Machine.wellFormed_memoryAct h _ hn
  | load target s => exact (Machine.wellFormed_pushCell h _).latches _ _
  | ldi value => exact (Machine.wellFormed_pushCell h _).latches _ _
  | ldxi value => exact h.latches _ _
  | ddiv => exact Effect.wellFormed_act h hn
  | br displacement s => exact Machine.wellFormed_branch h _ _
  | bcc selector displacement indirect =>
      rw [act]
      split
      · exact Machine.wellFormed_branch h _ _
      · exact h
  | count op displacement indirect =>
      have hcount := Machine.wellFormed_countAct h hn
      rw [act]
      dsimp only
      split
      · exact Machine.wellFormed_branch hcount _ _
      · exact hcount
  | flag op displacement indirect => exact Machine.wellFormed_flagBranch h op _ _
  | bro displacement =>
      have hdrop := Machine.wellFormed_dropCell h hn
      rw [act]
      split
      · exact Machine.wellFormed_branch hdrop _ _
      · exact hdrop

namespace Machine

theorem wellFormed_stackOp {m : Machine} (h : m.regs.WellFormed) (op : StackOp) :
    ((stackOp op).perform m).2.regs.WellFormed := by
  by_cases hop : op = .unk
  · rw [hop]
    exact h
  · rw [stackOp, Effect.apply_eq (StackOp.effect_ne_undefined hop)]
    exact wellFormed_guarded h fun hn => Effect.wellFormed_act h hn

theorem wellFormed_pair {m : Machine} (h : m.regs.WellFormed) (first second : StackOp) :
    ((pair first second).perform m).2.regs.WellFormed := by
  have hfirst := wellFormed_stackOp h first
  rcases hrun : (stackOp first).perform m with ⟨cause | ⟨⟩, m'⟩
  · rw [hrun] at hfirst
    rw [perform_pair_error hrun]
    exact hfirst
  · rw [hrun] at hfirst
    rw [perform_pair_ok hrun]
    split
    · exact wellFormed_stackOp hfirst second
    · exact hfirst

end Machine

namespace Exchange

theorem wellFormed_delivered {m : Machine} (h : m.regs.WellFormed) (w : Word)
    (cc : ConditionCode) : (m.delivered w cc).regs.WellFormed :=
  (Machine.wellFormed_pushCell h w).latches _ _

theorem stable_wellFormed : Stable fun m => m.regs.WellFormed where
  hear h _ := h
  setCode h := h.latches _ _
  fault h := (Machine.regs_fault _ _).symm ▸ h
  delivered h w cc _ := wellFormed_delivered h w cc
  taken h hone := (Machine.wellFormed_dropCell h (h.available_eq ▸ hone)).latches _ _
  refused h _ _ := h.latches _ _

end Exchange

namespace Machine

variable {β : Type} [Bus β] {m : Machine}

theorem wellFormed_execute (h : m.regs.WellFormed) (i : Instruction) (b : β) :
    (i.execute.perform m b).2.1.regs.WellFormed := by
  cases i with
  | rio device => exact Exchange.stable_wellFormed.receive h device b
  | wio device => exact Exchange.stable_wellFormed.send h device b
  | pair first second => exact wellFormed_pair h first second
  | _ =>
      rw [Instruction.execute_eq rfl, Exchange.perform_machine]
      exact wellFormed_guarded h fun hn => Instruction.wellFormed_act h hn

theorem wellFormed_step (h : m.regs.WellFormed) (b : β) : (m.step b).1.regs.WellFormed := by
  rcases step_cases m b with ⟨-, hstep⟩ | ⟨-, hstep⟩ | ⟨i, -, hstep⟩ <;> rw [hstep]
  · exact h
  · rw [regs_fault]
    exact h.advance
  · have hfetching : (m.fetching i).regs.WellFormed := h.advance
    rw [Exchange.regs_stopped]
    exact wellFormed_execute hfetching i b

theorem wellFormed_runFrom (h : m.regs.WellFormed) (b : β) (count budget : Nat) :
    (m.runFrom count b budget).2.1.regs.WellFormed :=
  runFrom_preserves (P := fun m => m.regs.WellFormed) (fun _ b hm => wellFormed_step hm b) h b
    count budget

theorem wellFormed_answer (h : m.regs.WellFormed) (r : StackRequest) :
    (m.answer r).2.regs.WellFormed := by
  rw [answer, r.action_eq]
  exact wellFormed_guarded (g := some r.needs) h fun hn => r.wellFormed_act h hn

/-- The states a machine can be brought to. -/
inductive Reachable : Machine → Prop
  | fresh {m : Machine} : Fresh m → Reachable m
  | preset {m : Machine} (memory : Memory) (x db pb pl : Word) (sta : Status) :
      Reachable m → Reachable { m with
        memory := memory, regs := { m.regs with x := x, db := db, pb := pb, pl := pl, sta := sta } }
  | answer {m : Machine} (r : StackRequest) : Reachable m → Reachable (m.answer r).2
  | stackOp {m : Machine} (op : StackOp) : Reachable m → Reachable ((stackOp op).perform m).2
  | execute {m : Machine} {β : Type} [Bus β] (i : Instruction) (b : β) :
      Reachable m → Reachable (i.execute.perform m b).2.1
  | step {m : Machine} {β : Type} [Bus β] (b : β) : Reachable m → Reachable (m.step b).1
  | run {m : Machine} {β : Type} [Bus β] (b : β) (budget : Nat) :
      Reachable m → Reachable (m.run b budget).2.1
  | halt {m : Machine} (reason : Text) : Reachable m → Reachable (m.halt reason)

theorem Reachable.wellFormed (h : m.Reachable) : m.regs.WellFormed := by
  induction h with
  | fresh h => exact h.wellFormed
  | preset memory x db pb pl sta _ ih => exact ⟨ih.sr_eq, ih.vacant, ih.sm_eq, ih.pc_eq⟩
  | answer r _ ih => exact wellFormed_answer ih r
  | stackOp op _ ih => exact wellFormed_stackOp ih op
  | execute i b _ ih => exact wellFormed_execute ih i b
  | step b _ ih => exact wellFormed_step ih b
  | run b budget _ ih => exact wellFormed_runFrom ih b 0 budget
  | halt reason _ ih =>
      rw [Machine.halt]
      split <;> exact ih

theorem Reachable.answerAll (h : m.Reachable) (rs : List StackRequest) :
    (StackRequest.answerAll Machine.answer rs m).2.Reachable := by
  induction rs generalizing m with
  | nil => exact h
  | cons r rs ih => exact ih (h.answer r)

theorem sm_eq_emod (h : m.regs.WellFormed) :
    (m.regs.sm.toNat : Int) = (0x1000 - max ((m.regs.depth : Int) - 4) 0) % 0x8000 := by
  have hspilled : max ((m.regs.depth : Int) - 4) 0 = ((m.regs.depth - 4 : Nat) : Int) := by omega
  rw [hspilled, h.sm_eq, toNat_spillPointer]
  omega

/-- In every reachable state the window holds as many cells as it can and zeros
elsewhere, P and the spill pointer are addresses, and the depth determines the
spill pointer. -/
theorem register_file_invariant (h : m.Reachable) :
    m.regs.sr = min m.regs.depth 4 ∧
    (∀ i, m.regs.sr ≤ i → i < 4 → m.regs.cell i = 0) ∧
    m.regs.pc.toNat ≤ 0x7FFF ∧
    m.regs.sm.toNat ≤ 0x7FFF ∧
    (m.regs.sm.toNat : Int) = (0x1000 - max ((m.regs.depth : Int) - 4) 0) % 0x8000 := by
  have hregs := h.wellFormed
  have hsm := sm_eq_emod hregs
  have hpc : m.regs.pc.toNat % 0x8000 = m.regs.pc.toNat := by
    rw [← Word.toNat_address, hregs.pc_eq]
  refine ⟨hregs.sr_eq, hregs.vacant, ?_, ?_, hsm⟩
  · omega
  · omega

/-- Six cells, and then a return that asks for ten. -/
def shortReturn : Machine :=
  ((Instruction.sxit 9).execute.perform (StackRequest.answerAll answer
    [.push 1, .push 2, .push 3, .push 4, .push 5, .push 6] {}).2 EmptyBus.mk).2.1

theorem register_file_invariant_shortReturn :
    shortReturn.Reachable ∧ shortReturn.state = .faulted .stackUnderflow ∧
      shortReturn.regs.sr = 4 ∧ shortReturn.regs.sm.toNat = 0xFFE := by
  have hreach : shortReturn.Reachable := .execute _ _ (Reachable.answerAll (.fresh .new) _)
  obtain ⟨hsr, -, -, -, hsm⟩ := register_file_invariant hreach
  have hdepth : shortReturn.regs.depth = 6 := rfl
  rw [hdepth] at hsr hsm
  refine ⟨hreach, rfl, hsr, ?_⟩
  omega

end Machine

end StackComputer
