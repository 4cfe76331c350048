import StackComputer.Proofs.BaseAddress
import StackComputer.Proofs.BusTransition
import StackComputer.Proofs.RunBudget
import StackComputer.Proofs.StackRefinement

/-!
# Stopped machines

A machine that has stopped refuses every operation on its stack and fetches
nothing. An instruction that is executed on it all the same stops at the first use
of the stack; one that makes none still reaches P, X, the status word or memory.
-/

namespace StackComputer

/-- What an instruction may change on a machine that has stopped. -/
structure Footprint where
  pc : Bool := false
  x : Bool := false
  sta : Bool := false
  /-- The address of a word in memory. -/
  word : Option Word := none

namespace Machine

/-- The second machine is the first one, changed within a footprint. -/
structure Within (f : Footprint) (m m' : Machine) : Prop where
  state : m'.state = m.state
  cycles : m'.cycles = m.cycles
  regs : { m'.regs with pc := m.regs.pc, x := m.regs.x, sta := m.regs.sta } = m.regs
  pc : f.pc = false → m'.regs.pc = m.regs.pc
  x : f.x = false → m'.regs.x = m.regs.x
  sta : f.sta = false → m'.regs.sta = m.regs.sta
  memory : ∀ a, f.word ≠ some a.address → m'.memory.read a = m.memory.read a

variable {f : Footprint} {m m' m'' : Machine}

theorem Within.refl (f : Footprint) (m : Machine) : m.Within f m :=
  ⟨rfl, rfl, rfl, fun _ => rfl, fun _ => rfl, fun _ => rfl, fun _ _ => rfl⟩

theorem Within.trans (h : m.Within f m') (h' : m'.Within f m'') : m.Within f m'' where
  state := h'.state.trans h.state
  cycles := h'.cycles.trans h.cycles
  regs := by
    rw [← h.regs, ← h'.regs]
  pc hpc := (h'.pc hpc).trans (h.pc hpc)
  x hx := (h'.x hx).trans (h.x hx)
  sta hsta := (h'.sta hsta).trans (h.sta hsta)
  memory a ha := (h'.memory a ha).trans (h.memory a ha)

theorem within_jump (hf : f.pc = true) (m : Machine) (a : Word) : m.Within f (m.jump a) :=
  { Within.refl f m with pc := fun hpc => absurd (hf.symm.trans hpc) (by decide) }

theorem within_setX (hf : f.x = true) (m : Machine) (w : Word) :
    m.Within f (m.setLatches (m.latches.setX w)) :=
  { Within.refl f m with x := fun hx => absurd (hf.symm.trans hx) (by decide) }

theorem within_setStatus (hf : f.sta = true) (m : Machine) (sta : Status) :
    m.Within f (m.setStatus sta) :=
  { Within.refl f m with sta := fun hsta => absurd (hf.symm.trans hsta) (by decide) }

theorem within_setLatches (hx : f.x = true) (hsta : f.sta = true) (m : Machine) (l : Latches) :
    m.Within f (m.setLatches l) :=
  (within_setX hx m l.x).trans (within_setStatus hsta _ l.sta)

theorem within_hear (m : Machine) (events : List Event) : m.Within f (m.hear events) :=
  { Within.refl f m with }

theorem within_store {a : Word} (hf : f.word = some a.address) (m : Machine) (w : Word) :
    m.Within f (m.store a w) :=
  { Within.refl f m with
    memory := fun c hc => by
      have hother : a.address ≠ c.address := fun h => hc (hf.trans (congrArg some h))
      rw [store, Memory.read_write, if_neg hother] }

end Machine

/-! ## Opcodes and instructions -/

/-- Whether an opcode uses the operand stack. The others are for X alone, or do
nothing. -/
def StackOp.usesStack : StackOp → Bool
  | nop | zrox | incx | decx | unk => false
  | _ => true

def StackOp.footprint : StackOp → Footprint
  | zrox => { x := true }
  | incx | decx => { x := true, sta := true }
  | _ => {}

namespace Instruction

/-- Whether an instruction begins with the operand stack. The second opcode of a
pair is not reached. -/
def usesStack : Instruction → Bool
  | halt _ | rio _ | wio _ | ldxi _ | br _ _ | bcc _ _ _ | flag _ _ _ => false
  | memory op _ _ => op != .incm && op != .decm
  | count op _ _ => op == .iabz
  | pair first _ => first.usesStack
  | scal _ | sxit _ | shift _ _ _ | load _ _ | ldi _ | ddiv | bro _ => true

/-- Whether an instruction exchanges anything with a device. -/
def usesBus : Instruction → Bool
  | rio _ | wio _ => true
  | _ => false

/-- Counting in memory writes the word that is counted. A device that is missing
shows in the condition code. -/
def footprint {β : Type} [Bus β] (m : Machine) (b : β) : Instruction → Footprint
  | rio device | wio device => { sta := (Bus.readStatus b device).answer.isNone }
  | ldxi _ => { x := true }
  | br _ _ | bcc _ _ _ => { pc := true }
  | flag _ _ _ => { pc := true, sta := true }
  | count op _ _ => if op = .iabz then {} else { pc := true, x := true }
  | memory op displacement s =>
    if op = .incm ∨ op = .decm then
      { sta := true, word := some (m.resolve (m.regs.db + displacement) s) }
    else {}
  | pair first _ => first.footprint
  | _ => {}

end Instruction

theorem StackOp.isSome_guard (op : StackOp) : op.effect.guard.isSome = op.usesStack := by
  cases op <;> rfl

theorem Instruction.isSome_guard {i : Instruction} (hi : i.isSimple = true) :
    i.guard.isSome = i.usesStack := by
  cases i with
  | rio device | wio device | pair first second => exact absurd hi Bool.false_ne_true
  | memory op displacement s => cases op <;> rfl
  | count op displacement indirect => cases op <;> rfl
  | _ => rfl

namespace Machine

variable {α : Type} {m : Machine}

theorem perform_guarded_stopped (hstop : m.isRunning = false) {g : Option Nat}
    (hg : g.isSome = true) (f : Machine → α × Machine) :
    (guarded g f).perform m = (.error (.notRunning m.state.phase), m) := by
  obtain ⟨n, rfl⟩ := Option.isSome_iff_exists.mp hg
  exact perform_checked_stopped hstop f

theorem perform_stackOp_stopped (hstop : m.isRunning = false) {op : StackOp}
    (hop : op.usesStack = true) :
    (stackOp op).perform m = (.error (.notRunning m.state.phase), m) := by
  have hdefined : op ≠ .unk := by
    rintro rfl
    exact Bool.noConfusion hop
  rw [stackOp, Effect.apply_eq (StackOp.effect_ne_undefined hdefined)]
  exact perform_guarded_stopped hstop (op.isSome_guard.trans hop) _

theorem within_stackOp (hstop : m.isRunning = false) (op : StackOp) :
    m.Within op.footprint ((stackOp op).perform m).2 := by
  cases hop : op.usesStack with
  | true =>
      rw [perform_stackOp_stopped hstop hop]
      exact .refl _ m
  | false =>
      cases op with
      | nop | unk => exact .refl _ m
      | zrox => exact within_setX rfl m 0
      | incx | decx => exact within_setLatches rfl rfl m _
      | _ => exact Bool.noConfusion hop

/-- The second opcode of a pair finds the machine stopped. -/
theorem perform_pair_stopped (hstop : m.isRunning = false) (first second : StackOp) :
    (pair first second).perform m = (stackOp first).perform m := by
  have hstate := (within_stackOp hstop first).state
  rcases h : (stackOp first).perform m with ⟨cause | ⟨⟩, m'⟩
  · exact perform_pair_error h
  · rw [h] at hstate
    have hstop' : m'.isRunning = false := by rw [isRunning, hstate, ← isRunning, hstop]
    rw [perform_pair_ok h, hstop']
    rfl

theorem within_branch {f : Footprint} (hf : f.pc = true) (m : Machine) (d : Displacement)
    (s : Suffixes) : m.Within f (m.branch d s) :=
  within_jump hf m _

theorem within_flagBranch {f : Footprint} (hpc : f.pc = true) (hsta : f.sta = true) (m : Machine)
    (op : FlagOp) (d : Displacement) (s : Suffixes) : m.Within f (m.flagBranch op d s) := by
  rw [Instruction.flagBranch_eq]
  split
  · exact (within_setStatus hsta m _).trans (within_branch hpc _ d s)
  · exact within_setStatus hsta m _

end Machine

/-! ## Devices -/

namespace Exchange

open Machine

variable {β : Type} {m : Machine}

theorem perform_deliver_stopped (hstop : m.isRunning = false) (w : Word) (cc : ConditionCode)
    (b : β) :
    (machine (deliver w cc)).perform m b = (.error (.notRunning m.state.phase), m, b) := by
  rw [perform_machine, deliver_eq, perform_checked_stopped hstop]

theorem perform_peek_stopped (hstop : m.isRunning = false) :
    peek.perform m = (.error (.notRunning m.state.phase), m) := by
  rw [peek_eq, perform_checked_stopped hstop]

theorem isRunning_hear_stopped (hstop : m.isRunning = false) (events : List Event) :
    (m.hear events).isRunning = false := hstop

variable [Bus β]

theorem within_receive (hstop : m.isRunning = false) (device : Byte) (b : β) :
    m.Within { sta := (Bus.readStatus b device).answer.isNone }
      ((receive device).perform m b).2.1 := by
  have hheard := isRunning_hear_stopped hstop (Bus.readStatus b device).events
  cases hpoll : (Bus.readStatus b device).answer with
  | none =>
      rw [perform_receive_absent hpoll]
      exact (m.within_hear _).trans (within_setStatus rfl _ _)
  | some status =>
      cases hready : Bus.isReady status with
      | false =>
          rw [perform_receive_busy hpoll hready, perform_deliver_stopped hheard]
          exact m.within_hear _
      | true =>
          rw [perform_receive_ready hpoll hready]
          dsimp only
          rw [perform_deliver_stopped (isRunning_hear_stopped hheard _)]
          exact (m.within_hear _).trans (within_hear _ _)

theorem within_send (hstop : m.isRunning = false) (device : Byte) (b : β) :
    m.Within { sta := (Bus.readStatus b device).answer.isNone }
      ((send device).perform m b).2.1 := by
  have hheard := isRunning_hear_stopped hstop (Bus.readStatus b device).events
  cases hpoll : (Bus.readStatus b device).answer with
  | none =>
      rw [perform_send_absent hpoll]
      exact (m.within_hear _).trans (within_setStatus rfl _ _)
  | some status =>
      cases hready : Bus.isReady status with
      | false =>
          rw [perform_send_busy hpoll hready, perform_deliver_stopped hheard]
          exact m.within_hear _
      | true =>
          rw [perform_send_failed hpoll hready (perform_peek_stopped hheard)]
          exact m.within_hear _

/-- The word to send is asked for before it is offered. -/
theorem bus_send (hstop : m.isRunning = false) (device : Byte) (b : β) :
    ((send device).perform m b).2.2 = (Bus.readStatus b device).bus := by
  have hheard := isRunning_hear_stopped hstop (Bus.readStatus b device).events
  cases hpoll : (Bus.readStatus b device).answer with
  | none => rw [perform_send_absent hpoll]
  | some status =>
      cases hready : Bus.isReady status with
      | false => rw [perform_send_busy hpoll hready, perform_deliver_stopped hheard]
      | true => rw [perform_send_failed hpoll hready (perform_peek_stopped hheard)]

theorem bus_receive (hstop : m.isRunning = false) (device : Byte) (b : β) :
    ((receive device).perform m b).2.2 = (Bus.readStatus b device).bus ∨
      ((receive device).perform m b).2.2 =
        (Bus.readByte (Bus.readStatus b device).bus device).bus := by
  have hheard := isRunning_hear_stopped hstop (Bus.readStatus b device).events
  cases hpoll : (Bus.readStatus b device).answer with
  | none =>
      rw [perform_receive_absent hpoll]
      exact .inl rfl
  | some status =>
      cases hready : Bus.isReady status with
      | false =>
          rw [perform_receive_busy hpoll hready, perform_deliver_stopped hheard]
          exact .inl rfl
      | true =>
          rw [perform_receive_ready hpoll hready]
          dsimp only
          rw [perform_deliver_stopped (isRunning_hear_stopped hheard _)]
          exact .inr rfl

end Exchange

namespace Instruction

open Machine Exchange

variable {β : Type} [Bus β] {m : Machine} {i : Instruction}

theorem perform_execute_stopped (hstop : m.isRunning = false) (hi : i.usesStack = true) (b : β) :
    i.execute.perform m b = (.error (.notRunning m.state.phase), m, b) := by
  cases hsimple : i.isSimple with
  | true =>
      rw [execute_eq hsimple, Exchange.perform_machine,
        perform_guarded_stopped hstop ((isSome_guard hsimple).trans hi)]
  | false =>
      cases i with
      | pair first second =>
          have hfirst : (stackOp first).perform m = (.error (.notRunning m.state.phase), m) :=
            perform_stackOp_stopped hstop hi
          rw [execute, Exchange.perform_machine, perform_pair_stopped hstop, hfirst]
      | rio device | wio device => exact Bool.noConfusion hi
      | _ => exact Bool.noConfusion hsimple

/-- An instruction that makes no use of the stack does what it does on any machine. -/
theorem within_act (hstop : m.isRunning = false) (hi : i.usesStack = false) (b : β) :
    m.Within (i.footprint m b) (i.act m) := by
  cases i with
  | rio device | wio device | pair first second => exact .refl _ m
  | halt code =>
      rw [act, Machine.halt, hstop]
      exact .refl _ m
  | ldxi value => exact within_setX rfl m _
  | br displacement s => exact within_branch rfl m displacement s
  | bcc selector displacement indirect =>
      rw [act]
      split
      · exact within_branch rfl m displacement _
      · exact .refl _ m
  | flag op displacement indirect => exact within_flagBranch rfl rfl m op displacement _
  | count op displacement indirect =>
      cases op with
      | iabz => exact Bool.noConfusion hi
      | ixbz | dxbz =>
          rw [act]
          dsimp only [countAct]
          split
          · exact (within_setX rfl m _).trans (within_branch rfl _ displacement _)
          · exact within_setX rfl m _
  | memory op displacement s =>
      have haddress := m.address_resolve (m.regs.db + displacement) s
      cases op with
      | incm | decm =>
          exact (within_store (congrArg some haddress.symm) m _).trans (within_setStatus rfl _ _)
      | stor | ldd | std => exact Bool.noConfusion hi
  | _ => exact Bool.noConfusion hi

theorem within_execute (hstop : m.isRunning = false) (i : Instruction) (b : β) :
    m.Within (i.footprint m b) (i.execute.perform m b).2.1 := by
  cases hi : i.usesStack with
  | true =>
      rw [perform_execute_stopped hstop hi]
      exact .refl _ m
  | false =>
      cases hsimple : i.isSimple with
      | true =>
          have hguard : i.guard = none := by
            rw [← Option.not_isSome_iff_eq_none, isSome_guard hsimple, hi]
            decide
          rw [execute_eq hsimple, Exchange.perform_machine, hguard]
          exact within_act hstop hi b
      | false =>
          cases i with
          | pair first second =>
              rw [execute, Exchange.perform_machine, perform_pair_stopped hstop]
              exact within_stackOp hstop first
          | rio device => exact within_receive hstop device b
          | wio device => exact within_send hstop device b
          | _ => exact Bool.noConfusion hsimple

theorem bus_execute (hi : i.usesBus = false) (m : Machine) (b : β) :
    (i.execute.perform m b).2.2 = b := by
  cases hsimple : i.isSimple with
  | true =>
      rw [execute_eq hsimple, Exchange.perform_machine]
  | false =>
      cases i with
      | pair first second => rw [execute, Exchange.perform_machine]
      | rio device | wio device => exact Bool.noConfusion hi
      | _ => exact Bool.noConfusion hsimple

theorem calls_execute (hstop : m.isRunning = false) (i : Instruction) (b : β) :
    ∀ call ∈ (i.execute.perform m ({ bus := b } : Taped β)).2.2.calls, call.isTransfer = true →
      ∃ device byte, i = rio device ∧ call = .readByte device byte := by
  cases hi : i.usesBus with
  | false =>
      rw [bus_execute hi]
      exact List.forall_mem_nil _
  | true =>
      cases i with
      | wio device =>
          rw [execute, bus_send hstop, Taped.readStatus_eq]
          simp [BusCall.isTransfer]
      | rio device =>
          rw [execute]
          rcases bus_receive hstop device ({ bus := b } : Taped β) with hbus | hbus
          · rw [hbus, Taped.readStatus_eq]
            simp [BusCall.isTransfer]
          · rw [hbus, Taped.readStatus_eq, Taped.readByte_eq]
            simp [BusCall.isTransfer]
      | _ => exact Bool.noConfusion hi

end Instruction

namespace Machine

variable {β : Type} [Bus β] {m : Machine}

/-- Operations on the stack, `step`, `run` and `halt` change nothing once the machine
has stopped, and neither do opcodes and instructions that use the stack. The others
change P, X, the status word or one word of memory, as their footprints say. State,
reason and cycles stay in any case, nothing is sent to a device, and nothing but an
instruction that receives a byte can take one. -/
theorem stopped_within_footprint (hstop : m.isRunning = false) (b : β) :
    (∀ r : StackRequest, m.answer r = (.error (.notRunning m.state.phase), m)) ∧
    (∀ reason, m.halt reason = m) ∧
    m.step b = (m, b) ∧
    (∀ budget, m.run b budget = (0, m, b)) ∧
    (∀ op : StackOp,
      (op.usesStack = true → (stackOp op).perform m = (.error (.notRunning m.state.phase), m)) ∧
      m.Within op.footprint ((stackOp op).perform m).2) ∧
    ∀ i : Instruction,
      (i.usesStack = true →
        i.execute.perform m b = (.error (.notRunning m.state.phase), m, b)) ∧
      m.Within (i.footprint m b) (i.execute.perform m b).2.1 ∧
      (i.usesBus = false → (i.execute.perform m b).2.2 = b) ∧
      ∀ call ∈ (i.execute.perform m ({ bus := b } : Taped β)).2.2.calls,
        call.isTransfer = true → ∃ device byte, i = .rio device ∧ call = .readByte device byte := by
  refine ⟨fun r => ?_, fun reason => ?_, step_of_stopped hstop b, run_of_stopped hstop b,
    fun op => ⟨perform_stackOp_stopped hstop, within_stackOp hstop op⟩, fun i => ?_⟩
  · rw [answer, r.action_eq, perform_checked_stopped hstop]
  · rw [halt, hstop]
    rfl
  · exact ⟨fun hi => i.perform_execute_stopped hstop hi b, i.within_execute hstop b,
      fun hi => i.bus_execute hi m b, i.calls_execute hstop b⟩

/-- A machine stopped before its first step. -/
def halted : Machine := ({} : Machine).halt "stopped".toList

/-- It refuses to store the top of its stack, and counts a word in memory. -/
theorem stopped_within_footprint_halted :
    halted.isRunning = false ∧
    (Instruction.memory .stor 3 {}).execute.perform halted EmptyBus.mk =
      (.error (.notRunning .halted), halted, EmptyBus.mk) ∧
    halted.Within { sta := true, word := some 3 }
      ((Instruction.memory .incm 3 {}).execute.perform halted EmptyBus.mk).2.1 := by
  have hstop : halted.isRunning = false := by decide
  obtain ⟨-, -, -, -, -, hinstruction⟩ := stopped_within_footprint hstop EmptyBus.mk
  obtain ⟨hrefused, -⟩ := hinstruction (.memory .stor 3 {})
  obtain ⟨-, hcounted, -⟩ := hinstruction (.memory .incm 3 {})
  exact ⟨hstop, hrefused (by decide), hcounted⟩

/-- X is loaded on a machine that has stopped. -/
theorem ldxi_changes_stopped :
    halted.isRunning = false ∧
      ((Instruction.ldxi 5).execute.perform halted EmptyBus.mk).2.1.regs ≠ halted.regs := by
  decide

end Machine

end StackComputer
