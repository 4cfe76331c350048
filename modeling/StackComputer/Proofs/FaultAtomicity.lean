import StackComputer.Proofs.Reachable

/-!
# Faults change nothing

An instruction of a running machine fails exactly when the stack is shorter
than what the instruction looks at or takes. The failure stops the machine and
leaves registers, memory and devices as they were.
-/

namespace StackComputer

/-- Whether a device is ready for a transfer. -/
def Exchange.isReady {β : Type} [Bus β] (b : β) (device : Byte) : Bool :=
  (Bus.readStatus b device).answer.any Bus.isReady

namespace Instruction

/-- How many cells an instruction looks at or takes. A word is only taken for a
device that is ready. -/
def operands {β : Type} [Bus β] (b : β) : Instruction → Nat
  | wio device => if Exchange.isReady b device then 1 else 0
  | i => i.guard.getD 0

def isPair : Instruction → Bool
  | pair _ _ => true
  | _ => false

end Instruction

namespace Machine

/-- The second machine is the first one stopped by an underflow. -/
structure Underflowed (before after : Machine) : Prop where
  regs_eq : after.regs = before.regs
  memory_eq : after.memory = before.memory
  phase_eq : after.state.phase = .error
  reason_eq : after.state.reason? = some "stack underflow".toList
  cycles_eq : after.cycles = before.cycles
  last_eq : after.last = before.last

/-- A step fails exactly when the stack is too short, and then changes nothing. -/
structure AtomicStep (before : Machine) (needs : Nat) (answer : Except ExecError Unit)
    (after : Machine) : Prop where
  fails_iff : (∃ e, answer = .error e) ↔ before.stack.length < needs
  fault : ∀ e, answer = .error e → e = .stackUnderflow ∧ before.Underflowed after

variable {m : Machine}

theorem underflowed_fault (hrun : m.isRunning = true) :
    m.Underflowed (m.fault .stackUnderflow) := by
  rw [fault, if_pos hrun]
  exact ⟨rfl, rfl, rfl, rfl, rfl, rfl⟩

theorem atomicStep_of_short (h : m.regs.WellFormed) {needs : Nat}
    (hshort : m.regs.depth < needs) {after : Machine} (hafter : m.Underflowed after) :
    m.AtomicStep needs (.error .stackUnderflow) after := by
  refine ⟨⟨fun _ => ?_, fun _ => ⟨_, rfl⟩⟩, ?_⟩
  · rw [length_stack h]
    exact hshort
  · rintro e ⟨⟩
    exact ⟨rfl, hafter⟩

theorem atomicStep_of_enough (h : m.regs.WellFormed) {needs : Nat}
    (henough : needs ≤ m.regs.depth) (after : Machine) : m.AtomicStep needs (.ok ()) after := by
  refine ⟨⟨?_, fun hlt => ?_⟩, ?_⟩
  · rintro ⟨e, ⟨⟩⟩
  · rw [length_stack h] at hlt
    exact absurd hlt (Nat.not_lt.mpr henough)
  · rintro e ⟨⟩

theorem atomicStep_stackOp (h : m.regs.WellFormed) (hrun : m.isRunning = true) {op : StackOp}
    (hop : op ≠ .unk) :
    m.AtomicStep op.operands ((stackOp op).perform m).1 ((stackOp op).perform m).2 := by
  rw [StackOp.perform_stackOp hrun hop, h.available_eq]
  by_cases hshort : m.regs.depth < op.operands
  · rw [if_pos hshort]
    exact atomicStep_of_short h hshort (underflowed_fault hrun)
  · rw [if_neg hshort]
    exact atomicStep_of_enough h (Nat.le_of_not_lt hshort) _

end Machine

namespace Exchange

open Machine

variable {β : Type} {m : Machine}

theorem perform_deliver (hrun : m.isRunning = true) (w : Word) (cc : ConditionCode) (b : β) :
    (machine (deliver w cc)).perform m b = (.ok (), m.delivered w cc, b) := by
  rw [perform_machine, deliver_eq, perform_checked_ok hrun (Nat.zero_le _)]

theorem isRunning_hear (hrun : m.isRunning = true) (events : List Event) :
    (m.hear events).isRunning = true := hrun

variable [Bus β]

theorem receive_ok (hrun : m.isRunning = true) (device : Byte) (b : β) :
    ((receive device).perform m b).1 = .ok () := by
  have hheard := isRunning_hear hrun (Bus.readStatus b device).events
  cases hpoll : (Bus.readStatus b device).answer with
  | none => rw [perform_receive_absent hpoll]
  | some status =>
      cases hready : Bus.isReady status with
      | false => rw [perform_receive_busy hpoll hready, perform_deliver hheard]
      | true =>
          rw [perform_receive_ready hpoll hready]
          exact congrArg Prod.fst (perform_deliver (isRunning_hear hheard _) _ _ _)

/-- A transfer fails only to a ready device, and after nothing but the poll. -/
theorem send_error (hrun : m.isRunning = true) {device : Byte} {b : β}
    (hready : isReady b device = true) (hshort : m.regs.available < 1) :
    (send device).perform m b =
      (.error .stackUnderflow,
        (m.hear (Bus.readStatus b device).events).fault .stackUnderflow,
        (Bus.readStatus b device).bus) := by
  cases hpoll : (Bus.readStatus b device).answer with
  | none => rw [isReady, hpoll] at hready; exact absurd hready Bool.false_ne_true
  | some status =>
      rw [isReady, hpoll] at hready
      apply perform_send_failed hpoll hready
      rw [peek_eq]
      exact perform_checked_underflow (isRunning_hear hrun _) hshort _

theorem send_ok (hrun : m.isRunning = true) {device : Byte} {b : β}
    (henough : isReady b device = true → 1 ≤ m.regs.available) :
    ((send device).perform m b).1 = .ok () := by
  have hheard := isRunning_hear hrun (Bus.readStatus b device).events
  cases hpoll : (Bus.readStatus b device).answer with
  | none => rw [perform_send_absent hpoll]
  | some status =>
      cases hready : Bus.isReady status with
      | false => rw [perform_send_busy hpoll hready, perform_deliver hheard]
      | true =>
          have hpos : 1 ≤ m.regs.available := by
            apply henough
            rw [isReady, hpoll]
            exact hready
          have hpeek : peek.perform (m.hear (Bus.readStatus b device).events) =
              (.ok m.regs.ra, m.hear (Bus.readStatus b device).events) := by
            rw [peek_eq]
            exact perform_checked_ok hheard hpos _
          rw [perform_send_ready hpoll hready hpeek]
          dsimp only
          split
          · exact congrArg Prod.fst (perform_checked_ok (isRunning_hear hheard _) hpos _)
          · rfl

end Exchange

namespace Machine

variable {β : Type} [Bus β] {m : Machine}

theorem atomicStep_execute (h : m.regs.WellFormed) (hrun : m.isRunning = true)
    {i : Instruction} (hi : i.isPair = false) (b : β) :
    m.AtomicStep (i.operands b) (i.execute.perform m b).1 (i.execute.perform m b).2.1 := by
  have hsimple : i.isSimple = true → i.operands b = i.guard.getD 0 →
      m.AtomicStep (i.operands b) (i.execute.perform m b).1 (i.execute.perform m b).2.1 := by
    intro hs hoperands
    rw [Instruction.perform_execute hs hrun, h.available_eq, hoperands]
    by_cases hshort : m.regs.depth < i.guard.getD 0
    · rw [if_pos hshort]
      exact atomicStep_of_short h hshort (underflowed_fault hrun)
    · rw [if_neg hshort]
      exact atomicStep_of_enough h (Nat.le_of_not_lt hshort) _
  cases i with
  | rio device =>
      have hok : ((Instruction.rio device).execute.perform m b).1 = .ok () :=
        Exchange.receive_ok hrun device b
      rw [hok]
      exact atomicStep_of_enough h (Nat.zero_le _) _
  | wio device =>
      have hneeds : (Instruction.wio device).operands b =
          if Exchange.isReady b device then 1 else 0 := rfl
      -- Only a ready device makes the machine look at its stack.
      by_cases hshort : Exchange.isReady b device = true ∧ m.regs.depth < 1
      · have hsend := Exchange.send_error hrun hshort.1 (h.available_eq.symm ▸ hshort.2)
        rw [hneeds, if_pos hshort.1, Instruction.execute, hsend]
        have hfault := underflowed_fault (Exchange.isRunning_hear hrun
          (Bus.readStatus b device).events)
        exact atomicStep_of_short h hshort.2 ⟨hfault.regs_eq, hfault.memory_eq, hfault.phase_eq,
          hfault.reason_eq, hfault.cycles_eq, hfault.last_eq⟩
      · have henough : Exchange.isReady b device = true → 1 ≤ m.regs.depth :=
          fun hready => Nat.le_of_not_lt fun hlt => hshort ⟨hready, hlt⟩
        have hok : ((Instruction.wio device).execute.perform m b).1 = .ok () :=
          Exchange.send_ok hrun fun hready => h.available_eq.symm ▸ henough hready
        rw [hok, hneeds]
        apply atomicStep_of_enough h
        split
        · next hready => exact henough hready
        · exact Nat.zero_le _
  | pair first second => exact absurd hi Bool.noConfusion
  | _ => exact hsimple rfl rfl

/-- A failed instruction has asked for a status at most. -/
theorem polls_of_error (hrun : m.isRunning = true) {i : Instruction} (hi : i.isPair = false)
    {b : β} {e : ExecError} (herror : (i.execute.perform m b).1 = .error e) :
    ∀ call ∈ (i.execute.perform m ({ bus := b } : Taped β)).2.2.calls,
      call.isTransfer = false := by
  have hnone : ∀ call ∈ ({ bus := b } : Taped β).calls, call.isTransfer = false :=
    fun call hcall => absurd hcall List.not_mem_nil
  cases i with
  | rio device =>
      have hok : ((Instruction.rio device).execute.perform m b).1 = .ok () :=
        Exchange.receive_ok hrun device b
      rw [hok] at herror
      cases herror
  | wio device =>
      by_cases hshort : Exchange.isReady b device = true ∧ m.regs.available < 1
      · have hsend : (Instruction.wio device).execute.perform m ({ bus := b } : Taped β) = _ :=
          Exchange.send_error hrun hshort.1 hshort.2
        rw [hsend]
        intro call hcall
        rw [List.mem_singleton.mp hcall]
        rfl
      · have hok : ((Instruction.wio device).execute.perform m b).1 = .ok () :=
          Exchange.send_ok hrun fun hready => Nat.le_of_not_lt fun hlt => hshort ⟨hready, hlt⟩
        rw [hok] at herror
        cases herror
  | pair first second => exact absurd hi Bool.noConfusion
  | _ =>
      rw [Instruction.execute_eq rfl, Exchange.perform_machine]
      exact hnone

/-- The second opcode of a packed pair is a step of its own. -/
theorem atomicStep_pair {m' : Machine} (h : m'.regs.WellFormed) (hrun : m'.isRunning = true)
    {first second : StackOp} (hsecond : second ≠ .unk)
    (hfirst : (stackOp first).perform m = (.ok (), m')) (b : β) :
    m'.AtomicStep second.operands (((Instruction.pair first second).execute.perform m b).1)
      ((Instruction.pair first second).execute.perform m b).2.1 := by
  have hpair : (pair first second).perform m = (stackOp second).perform m' := by
    rw [perform_pair_ok hfirst, if_pos hrun]
  have hexecute : (Instruction.pair first second).execute.perform m b =
      (((pair first second).perform m).1, ((pair first second).perform m).2, b) := rfl
  rw [hexecute, hpair]
  exact atomicStep_stackOp h hrun hsecond

theorem isRunning_of_stackOp (hrun : m.isRunning = true) {op : StackOp} {m' : Machine}
    (hop : (stackOp op).perform m = (.ok (), m')) : m'.isRunning = true := by
  by_cases hunk : op = .unk
  · rw [hunk] at hop
    cases hop
  · rw [StackOp.perform_stackOp hrun hunk] at hop
    split at hop
    · cases hop
    · cases hop
      rw [Effect.isRunning_act]
      exact hrun

/-- In a reachable machine that runs, instructions and opcodes fail exactly when
the stack is too short for them, with nothing changed and nothing moved over the
bus. A packed pair that fails in its second half has done its first. -/
theorem faults_change_nothing (h : m.Reachable) (hrun : m.isRunning = true) (b : β) :
    (∀ i : Instruction, i.isPair = false →
      m.AtomicStep (i.operands b) (i.execute.perform m b).1 (i.execute.perform m b).2.1 ∧
      ∀ e, (i.execute.perform m b).1 = .error e → ∃ t : Taped β,
        i.execute.perform m ({ bus := b } : Taped β) =
          (.error e, (i.execute.perform m b).2.1, t) ∧
        t.bus = (i.execute.perform m b).2.2 ∧ ∀ call ∈ t.calls, call.isTransfer = false) ∧
    (∀ op : StackOp, op ≠ .unk →
      m.AtomicStep op.operands ((stackOp op).perform m).1 ((stackOp op).perform m).2) ∧
    ∀ (first second : StackOp) (m' : Machine), second ≠ .unk →
      (stackOp first).perform m = (.ok (), m') →
      m'.AtomicStep second.operands (((Instruction.pair first second).execute.perform m b).1)
        ((Instruction.pair first second).execute.perform m b).2.1 := by
  refine ⟨fun i hi => ⟨atomicStep_execute h.wellFormed hrun hi b, fun e herror => ?_⟩,
    fun op hop => atomicStep_stackOp h.wellFormed hrun hop,
    fun first second m' hsecond hfirst => ?_⟩
  · -- The tape of the same run shows the calls that were made.
    have hmirror := Taped.mirrors_execute i m ({ bus := b } : Taped β)
    have hanswer := congrArg Prod.fst hmirror
    have hmachine := congrArg (fun r => r.2.1) hmirror
    have hbus := congrArg (fun r => r.2.2) hmirror
    refine ⟨(i.execute.perform m ({ bus := b } : Taped β)).2.2, ?_, hbus.symm,
      polls_of_error hrun hi herror⟩
    rw [← herror, hanswer, hmachine]
  · have hdone := wellFormed_stackOp h.wellFormed first
    rw [hfirst] at hdone
    exact atomicStep_pair hdone (isRunning_of_stackOp hrun hfirst) hsecond hfirst b

theorem faults_change_nothing_send_to_ready :
    ({} : Machine).Reachable ∧ ({} : Machine).isRunning = true ∧
    ((Instruction.wio 4).execute.perform {}
      ({ statuses := [(4, [some 2])] } : ScriptedBus)).1 = .error .stackUnderflow ∧
    Underflowed {} ((Instruction.wio 4).execute.perform {}
      ({ statuses := [(4, [some 2])] } : ScriptedBus)).2.1 := by
  have hfresh : ({} : Machine).Reachable := .fresh .new
  have hstep := ((faults_change_nothing hfresh rfl
    ({ statuses := [(4, [some 2])] } : ScriptedBus)).1 (.wio 4) rfl).1
  obtain ⟨e, he⟩ := hstep.fails_iff.mpr (by decide)
  obtain ⟨rfl, hafter⟩ := hstep.fault e he
  exact ⟨hfresh, rfl, he, hafter⟩

end Machine

end StackComputer
