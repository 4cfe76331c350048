import StackComputer.Proofs.BaseAddress
import StackComputer.Proofs.FaultAtomicity

/-!
# Transfers over the bus

An instruction for a device polls it once and then moves one word or byte, or
tells why it did not. Over a run nothing is lost or moved twice: the words a bus
accepted left the stack in that order, and the bytes taken from it came onto the
stack in theirs.
-/

namespace StackComputer

namespace Machine

/-! ## Journals aside -/

/-- The machine without its journal. -/
def silent (m : Machine) : Machine := { m with journal := {} }

variable {m : Machine}

@[simp] theorem regs_silent (m : Machine) : m.silent.regs = m.regs := rfl

@[simp] theorem regs_hear (m : Machine) (events : List Event) :
    (m.hear events).regs = m.regs := rfl

@[simp] theorem silent_hear (m : Machine) (events : List Event) :
    (m.hear events).silent = m.silent := rfl

@[simp] theorem silent_setCode (m : Machine) (cc : ConditionCode) :
    (m.setCode cc).silent = m.silent.setCode cc := rfl

@[simp] theorem silent_delivered (m : Machine) (w : Word) (cc : ConditionCode) :
    (m.delivered w cc).silent = m.silent.delivered w cc := rfl

@[simp] theorem silent_refused (m : Machine) (device : Byte) (cause : DeviceError) :
    (m.refused device cause).silent = m.silent.setCode .less := rfl

theorem silent_refill (m : Machine) : m.refill.silent = m.silent.refill :=
  apply_ite silent _ _ _

@[simp] theorem silent_taken (m : Machine) : m.taken.silent = m.silent.taken :=
  congrArg (setCode · .equal) (silent_refill _)

@[simp] theorem silent_fault (m : Machine) (e : ExecError) :
    (m.fault e).silent = m.silent.fault e := by
  have hrecord : ∀ (m : Machine) (event : Event),
      (m.record event).silent = m.silent.record event := fun _ _ => rfl
  rw [fault, apply_ite silent, hrecord]
  rfl

theorem fault_fault (m : Machine) (e e' : ExecError) : (m.fault e).fault e' = m.fault e := by
  cases hrun : m.isRunning with
  | false => simp [fault, hrun]
  | true =>
    have hstop : (m.fault e).isRunning = false := by
      rw [isRunning, state_fault hrun]
      rfl
    rw [fault, hstop]
    rfl

end Machine

/-! ## One instruction -/

open Machine

/-- What an instruction that sends a word does to a running machine, and the
calls it makes: the word on top is offered to a ready device and leaves the stack
if the device takes it. -/
inductive Sends (device : Byte) (m : Machine) : List BusCall → Machine → Prop
  | absent : Sends device m [.readStatus device none] (m.setCode .less)
  | busy {status : Word} (busy : Bus.isReady status = false) :
      Sends device m [.readStatus device (some status)] (m.delivered status .greater)
  | empty {status : Word} (ready : Bus.isReady status = true) (short : m.regs.available < 1) :
      Sends device m [.readStatus device (some status)] (m.fault .stackUnderflow)
  | accepted {status : Word} (ready : Bus.isReady status = true) (enough : 1 ≤ m.regs.available) :
      Sends device m [.readStatus device (some status), .writeWord device m.regs.ra (.ok ())]
        m.taken
  | refused {status : Word} {cause : DeviceError} (ready : Bus.isReady status = true)
      (enough : 1 ≤ m.regs.available) :
      Sends device m [.readStatus device (some status), .writeWord device m.regs.ra (.error cause)]
        (m.setCode .less)

/-- What an instruction that receives a byte does: the byte of a ready device
comes onto the stack, filled up with zeros. -/
inductive Receives (device : Byte) (m : Machine) : List BusCall → Machine → Prop
  | absent : Receives device m [.readStatus device none] (m.setCode .less)
  | busy {status : Word} (busy : Bus.isReady status = false) :
      Receives device m [.readStatus device (some status)] (m.delivered status .greater)
  | taken {status : Word} {byte : Byte} (ready : Bus.isReady status = true) :
      Receives device m [.readStatus device (some status), .readByte device byte]
        (m.delivered (byte.setWidth 16) .equal)

/-- The word of a call by which the bus accepted one, with its device. -/
def BusCall.accepted? : BusCall → Option (Byte × Word)
  | .writeWord device w (.ok ()) => some (device, w)
  | _ => none

/-- The byte of a call by which it was taken from the bus, filled up with zeros. -/
def BusCall.taken? : BusCall → Option (Byte × Word)
  | .readByte device byte => some (device, byte.setWidth 16)
  | _ => none

/-- What the calls of an instruction say about the stack before and after it. A
word can only come on top of a stack that does not fill its area. -/
structure OnStack (before : Machine) (calls : List BusCall) (after : Machine) : Prop where
  absent : ∀ device, calls = [.readStatus device none] →
    after.stack = before.stack ∧ after.regs.sta.cc = .less
  busy : ∀ device status, calls = [.readStatus device (some status)] →
    Bus.isReady status = false → before.regs.depth < 0x8004 →
    after.stack = status :: before.stack ∧ after.regs.sta.cc = .greater
  accepted : ∀ device w, .writeWord device w (.ok ()) ∈ calls →
    before.stack = w :: after.stack ∧ after.regs.sta.cc = .equal
  refused : ∀ device w cause, .writeWord device w (.error cause) ∈ calls →
    before.stack.head? = some w ∧ after.stack = before.stack ∧ after.regs.sta.cc = .less
  taken : ∀ device byte, .readByte device byte ∈ calls → before.regs.depth < 0x8004 →
    after.stack = byte.setWidth 16 :: before.stack ∧ after.regs.sta.cc = .equal

namespace Machine

variable {m : Machine}

@[simp] theorem cc_setCode (m : Machine) (cc : ConditionCode) :
    (m.setCode cc).regs.sta.cc = cc := rfl

@[simp] theorem cc_delivered (m : Machine) (w : Word) (cc : ConditionCode) :
    (m.delivered w cc).regs.sta.cc = cc := rfl

@[simp] theorem cc_taken (m : Machine) : m.taken.regs.sta.cc = .equal := rfl

@[simp] theorem stack_setCode (m : Machine) (cc : ConditionCode) :
    (m.setCode cc).stack = m.stack := rfl

theorem stack_delivered (h : m.regs.WellFormed) (hd : m.regs.depth < 0x8004) (w : Word)
    (cc : ConditionCode) : (m.delivered w cc).stack = w :: m.stack :=
  stack_pushCell h hd w

theorem length_stack_delivered (h : m.regs.WellFormed) (w : Word) (cc : ConditionCode) :
    (m.delivered w cc).stack.length = m.stack.length + 1 := by
  rw [length_stack (Exchange.wellFormed_delivered h w cc), length_stack h]
  rfl

theorem head?_stack_delivered (h : m.regs.WellFormed) (w : Word) (cc : ConditionCode) :
    (m.delivered w cc).stack.head? = some w := by
  rw [stack_eq_cons (Exchange.wellFormed_delivered h w cc) (Nat.succ_pos m.regs.depth)]
  rfl

theorem stack_eq_taken (h : m.regs.WellFormed) (hpos : 1 ≤ m.regs.available) :
    m.stack = m.regs.ra :: m.taken.stack := by
  rw [h.available_eq] at hpos
  have hdrop : m.taken.stack = m.stack.tail := stack_dropCell h hpos
  rw [hdrop, stack_eq_cons h hpos]
  rfl

end Machine

section

variable {device : Byte} {m after : Machine} {calls : List BusCall}

theorem Sends.onStack (h : Sends device m calls after) (hm : m.regs.WellFormed) :
    OnStack m calls after := by
  cases h with
  | absent => constructor <;> simp
  | busy hbusy =>
      constructor
      case busy =>
        rintro _ _ ⟨⟩ - hd
        exact ⟨stack_delivered hm hd _ _, rfl⟩
      all_goals simp
  | empty hready hshort =>
      constructor
      case busy =>
        rintro _ _ ⟨⟩ hbusy
        simp [hready] at hbusy
      all_goals simp
  | accepted hready hpos =>
      constructor
      case accepted =>
        intro _ w hmem
        obtain ⟨-, rfl⟩ : _ ∧ w = m.regs.ra := by simpa using hmem
        exact ⟨stack_eq_taken hm hpos, rfl⟩
      all_goals simp
  | refused hready hpos =>
      constructor
      case refused =>
        intro _ w _ hmem
        obtain ⟨-, rfl, -⟩ : _ ∧ w = m.regs.ra ∧ _ := by simpa using hmem
        exact ⟨by simp [stack_eq_taken hm hpos], rfl, rfl⟩
      all_goals simp

theorem Receives.onStack (h : Receives device m calls after) (hm : m.regs.WellFormed) :
    OnStack m calls after := by
  cases h with
  | absent => constructor <;> simp
  | busy hbusy =>
      constructor
      case busy =>
        rintro _ _ ⟨⟩ - hd
        exact ⟨stack_delivered hm hd _ _, rfl⟩
      all_goals simp
  | taken hready =>
      constructor
      case taken =>
        intro _ byte hmem hd
        obtain ⟨-, rfl⟩ : _ ∧ byte = _ := by simpa using hmem
        exact ⟨stack_delivered hm hd _ _, rfl⟩
      all_goals simp

/-- The bus accepted the word that left the stack, and no other. -/
theorem Sends.transfers (h : Sends device m calls after) (hm : m.regs.WellFormed) :
    calls.filterMap BusCall.taken? = [] ∧
      calls.filterMap BusCall.accepted? =
        (if after.regs.sta.cc = .equal ∧ after.stack.length < m.stack.length then
          m.stack.head?.map (device, ·)
        else none).toList := by
  cases h with
  | absent | busy | empty | refused => exact ⟨rfl, by simp [BusCall.accepted?]⟩
  | accepted hready hpos =>
      refine ⟨rfl, ?_⟩
      rw [stack_eq_taken hm hpos, if_pos ⟨cc_taken m, by simp⟩]
      rfl

/-- The byte taken from the bus came onto the stack, and no other. -/
theorem Receives.transfers (h : Receives device m calls after) (hm : m.regs.WellFormed) :
    calls.filterMap BusCall.accepted? = [] ∧
      calls.filterMap BusCall.taken? =
        (if after.regs.sta.cc = .equal ∧ m.stack.length < after.stack.length then
          after.stack.head?.map (device, ·)
        else none).toList := by
  cases h with
  | absent | busy => exact ⟨rfl, by simp [BusCall.taken?]⟩
  | taken hready =>
      refine ⟨rfl, ?_⟩
      rw [length_stack_delivered hm, if_pos ⟨rfl, Nat.lt_succ_self _⟩, head?_stack_delivered hm]
      rfl

theorem Sends.popped_iff (h : Sends device m calls after) (hm : m.regs.WellFormed) :
    after.stack.length < m.stack.length ↔ ∃ w, .writeWord device w (.ok ()) ∈ calls := by
  cases h with
  | absent | empty | refused => simp
  | busy => simp [length_stack_delivered hm]
  | accepted hready hpos => simp [stack_eq_taken hm hpos]

end

namespace Exchange

variable {β : Type} [Bus β] {m : Machine}

theorem receives_receive (hrun : m.isRunning = true) (device : Byte) (b : β) :
    Receives device m.silent ((receive device).perform m ({ bus := b } : Taped β)).2.2.calls
      (stopped ((receive device).perform m ({ bus := b } : Taped β))).silent := by
  cases hpoll : (Bus.readStatus ({ bus := b } : Taped β) device).answer with
  | none =>
      have hstatus : (Bus.readStatus b device).answer = none := hpoll
      rw [perform_receive_absent hpoll]
      simpa [stopped, Taped.readStatus_eq, hstatus] using Receives.absent
  | some status =>
      have hstatus : (Bus.readStatus b device).answer = some status := hpoll
      cases hready : Bus.isReady status with
      | false =>
          rw [perform_receive_busy hpoll hready, perform_deliver (isRunning_hear hrun _)]
          simpa [stopped, Taped.readStatus_eq, hstatus] using Receives.busy hready
      | true =>
          rw [perform_receive_ready hpoll hready]
          dsimp only
          rw [perform_deliver (isRunning_hear (isRunning_hear hrun _) _)]
          simpa [stopped, Taped.readStatus_eq, Taped.readByte_eq, hstatus] using
            Receives.taken hready

theorem perform_peek (hrun : m.isRunning = true) :
    peek.perform m =
      if m.regs.available < 1 then (.error .stackUnderflow, m.fault .stackUnderflow)
      else (.ok m.regs.ra, m) := by
  rw [peek_eq, perform_checked, hrun]
  rfl

theorem sends_send (hrun : m.isRunning = true) (device : Byte) (b : β) :
    Sends device m.silent ((send device).perform m ({ bus := b } : Taped β)).2.2.calls
      (stopped ((send device).perform m ({ bus := b } : Taped β))).silent := by
  cases hpoll : (Bus.readStatus ({ bus := b } : Taped β) device).answer with
  | none =>
      have hstatus : (Bus.readStatus b device).answer = none := hpoll
      rw [perform_send_absent hpoll]
      simpa [stopped, Taped.readStatus_eq, hstatus] using Sends.absent
  | some status =>
      have hstatus : (Bus.readStatus b device).answer = some status := hpoll
      cases hready : Bus.isReady status with
      | false =>
          rw [perform_send_busy hpoll hready, perform_deliver (isRunning_hear hrun _)]
          simpa [stopped, Taped.readStatus_eq, hstatus] using Sends.busy hready
      | true =>
          have hheard := isRunning_hear hrun (Bus.readStatus b device).events
          have hpeek := perform_peek hheard
          -- Whether there is a word to send shows only after the poll.
          split at hpeek
          · next hshort =>
              rw [perform_send_failed hpoll hready hpeek]
              simpa [stopped, Taped.readStatus_eq, hstatus, fault_fault] using
                Sends.empty (m := m.silent) hready hshort
          · next henough =>
              have hone : 1 ≤ m.silent.regs.available := Nat.le_of_not_lt henough
              rw [perform_send_ready hpoll hready hpeek, Taped.readStatus_eq, Taped.writeWord_eq]
              dsimp only
              cases hreply : (Bus.writeWord (Bus.readStatus b device).bus device
                  (m.hear (Bus.readStatus b device).events).regs.ra).answer with
              | ok _ =>
                  simp only [perform_machine]
                  rw [perform_checked_ok (isRunning_hear hheard _) hone]
                  simpa [stopped, hstatus] using Sends.accepted hready hone
              | error cause =>
                  simpa [stopped, hstatus] using Sends.refused hready hone

end Exchange

/-! ## One step -/

namespace Machine

variable {β : Type} [Bus β] {m : Machine} {i : Instruction}

def calls (m : Machine) (b : β) : List BusCall := (m.step ({ bus := b } : Taped β)).2.calls

theorem step_taped (m : Machine) (t : Taped β) :
    m.step t = ((m.step t.bus).1,
      { bus := (m.step t.bus).2, calls := t.calls ++ m.calls t.bus }) := by
  cases h : m.fetched? with
  | none =>
      obtain ⟨m', hstep⟩ := step_of_not_fetched h
      simp [calls, hstep]
  | some i =>
      rw [calls, step_of_fetched h, step_of_fetched h, step_of_fetched h,
        Taped.records_execute i (m.fetching i) t]
      rcases i.execute.perform (m.fetching i) t.bus with ⟨cause | ⟨⟩, m', b'⟩ <;> rfl

def steps (m : Machine) (b : β) : Nat → Machine × β
  | 0 => (m, b)
  | n + 1 => (m.step b).1.steps (m.step b).2 n

theorem steps_of_stopped (hstop : m.isRunning = false) (b : β) (n : Nat) :
    m.steps b n = (m, b) := by
  induction n with
  | zero => rfl
  | succ n ih =>
      rw [steps, step_of_stopped hstop]
      exact ih

/-- A run stops with the machine, and the steps after that do nothing. -/
theorem runFrom_eq_steps (m : Machine) (b : β) (count budget : Nat) :
    (m.runFrom count b budget).2 = m.steps b budget := by
  induction budget generalizing m b count with
  | zero => rfl
  | succ budget ih =>
      rw [runFrom, steps]
      dsimp only
      split
      · exact ih _ _ _
      · next hstop => rw [steps_of_stopped (by simpa using hstop)]

end Machine

/-! ## Passages -/

/-- A step of a machine: its state before and after, and the calls made between. -/
structure Passage where
  before : Machine
  calls : List BusCall
  after : Machine

namespace Passage

/-- The calls of a step are those of the instruction it executes. -/
structure Lawful (x : Passage) : Prop where
  sends : ∀ device, x.before.fetched? = some (.wio device) →
    Sends device (x.before.fetching (.wio device)).silent x.calls x.after.silent
  receives : ∀ device, x.before.fetched? = some (.rio device) →
    Receives device (x.before.fetching (.rio device)).silent x.calls x.after.silent
  quiet : (∀ device, x.before.fetched? ≠ some (.wio device) ∧
    x.before.fetched? ≠ some (.rio device)) → x.calls = []

/-- The word that left the stack for a device, as the stack and the condition
code tell. -/
def popped? (x : Passage) : Option (Byte × Word) :=
  match x.before.fetched? with
  | some (.wio device) =>
    if x.after.regs.sta.cc = .equal ∧ x.after.stack.length < x.before.stack.length then
      x.before.stack.head?.map (device, ·)
    else none
  | _ => none

/-- The word that came onto the stack from a device. -/
def pushed? (x : Passage) : Option (Byte × Word) :=
  match x.before.fetched? with
  | some (.rio device) =>
    if x.after.regs.sta.cc = .equal ∧ x.before.stack.length < x.after.stack.length then
      x.after.stack.head?.map (device, ·)
    else none
  | _ => none

end Passage

namespace Machine

variable {β : Type} [Bus β]

def passage (m : Machine) (b : β) : Passage := ⟨m, m.calls b, (m.step b).1⟩

def observe (m : Machine) (b : β) : Nat → List Passage
  | 0 => []
  | n + 1 => m.passage b :: (m.step b).1.observe (m.step b).2 n

/-- A tape of many steps holds the calls of each of them, by induction on the
steps: what was on the tape before stays in front. -/
theorem steps_taped (m : Machine) (t : Taped β) (n : Nat) :
    m.steps t n = ((m.steps t.bus n).1,
      { bus := (m.steps t.bus n).2
        calls := t.calls ++ (m.observe t.bus n).flatMap Passage.calls }) := by
  induction n generalizing m t with
  | zero => simp [steps, observe]
  | succ n ih =>
      rw [steps, step_taped, ih]
      simp [steps, observe, passage]

/-- What a step does on a tape of its own is what the passage shows. -/
theorem passage_of_fetched {m : Machine} {i : Instruction} (h : m.fetched? = some i) (b : β) :
    (m.passage b).calls = (i.execute.perform (m.fetching i) ({ bus := b } : Taped β)).2.2.calls ∧
      (m.passage b).after =
        Exchange.stopped (i.execute.perform (m.fetching i) ({ bus := b } : Taped β)) := by
  have hstep := step_of_fetched h ({ bus := b } : Taped β)
  have hafter : (m.step b).1 = (m.step ({ bus := b } : Taped β)).1 := by rw [step_taped]
  constructor
  · rw [passage, calls, hstep]
  · rw [passage, hafter, hstep]

theorem lawful_passage (m : Machine) (b : β) : (m.passage b).Lawful := by
  constructor
  · intro device (h : m.fetched? = some (.wio device))
    obtain ⟨hcalls, hafter⟩ := passage_of_fetched h b
    rw [hcalls, hafter]
    exact Exchange.sends_send (isRunning_fetching h) device b
  · intro device (h : m.fetched? = some (.rio device))
    obtain ⟨hcalls, hafter⟩ := passage_of_fetched h b
    rw [hcalls, hafter]
    exact Exchange.receives_receive (isRunning_fetching h) device b
  · intro hother
    cases h : m.fetched? with
    | none =>
        obtain ⟨m', hstep⟩ := step_of_not_fetched h
        rw [passage, calls, hstep]
    | some i =>
        obtain ⟨hcalls, -⟩ := passage_of_fetched h b
        rw [hcalls]
        cases i with
        | wio device => exact absurd h (hother device).1
        | rio device => exact absurd h (hother device).2
        | pair first second => rfl
        | _ =>
            rw [Instruction.execute_eq rfl]
            rfl

theorem lawful_observe (m : Machine) (b : β) (n : Nat) : ∀ x ∈ m.observe b n, x.Lawful := by
  induction n generalizing m b with
  | zero => simp [observe]
  | succ n ih => simpa [observe] using ⟨lawful_passage m b, ih _ _⟩

theorem wellFormed_observe {m : Machine} (h : m.regs.WellFormed) (b : β) (n : Nat) :
    ∀ x ∈ m.observe b n, x.before.regs.WellFormed := by
  induction n generalizing m b with
  | zero => simp [observe]
  | succ n ih => simpa [observe] using ⟨h, ih (wellFormed_step h b) _⟩

end Machine

namespace Passage

variable {x : Passage}

theorem Lawful.cases (h : x.Lawful) :
    (∃ device, x.before.fetched? = some (.wio device) ∧
      Sends device (x.before.fetching (.wio device)).silent x.calls x.after.silent) ∨
    (∃ device, x.before.fetched? = some (.rio device) ∧
      Receives device (x.before.fetching (.rio device)).silent x.calls x.after.silent) ∨
    x.calls = [] ∧ x.popped? = none ∧ x.pushed? = none := by
  cases hfetched : x.before.fetched? with
  | none =>
      exact .inr (.inr ⟨h.quiet (by simp [hfetched]), by simp [popped?, hfetched],
        by simp [pushed?, hfetched]⟩)
  | some i =>
      cases i with
      | wio device => exact .inl ⟨device, rfl, h.sends device hfetched⟩
      | rio device => exact .inr (.inl ⟨device, rfl, h.receives device hfetched⟩)
      | _ =>
          exact .inr (.inr ⟨h.quiet (by simp [hfetched]), by simp [popped?, hfetched],
            by simp [pushed?, hfetched]⟩)

theorem Lawful.onStack (h : x.Lawful) (hx : x.before.regs.WellFormed) :
    OnStack x.before x.calls x.after := by
  have hfetching : ∀ i, (x.before.fetching i).silent.regs.WellFormed := fun i => hx.advance
  have hsame : ∀ i, OnStack (x.before.fetching i).silent x.calls x.after.silent →
      OnStack x.before x.calls x.after := fun i hi =>
    ⟨hi.absent, hi.busy, hi.accepted, hi.refused, hi.taken⟩
  rcases h.cases with ⟨device, -, hsends⟩ | ⟨device, -, hreceives⟩ | ⟨hnone, -⟩
  · exact hsame _ (hsends.onStack (hfetching _))
  · exact hsame _ (hreceives.onStack (hfetching _))
  · rw [hnone]
    constructor <;> simp

theorem Lawful.transfers (h : x.Lawful) (hx : x.before.regs.WellFormed) :
    x.calls.filterMap BusCall.accepted? = x.popped?.toList ∧
      x.calls.filterMap BusCall.taken? = x.pushed?.toList := by
  have hfetching : ∀ i, (x.before.fetching i).silent.regs.WellFormed := fun i => hx.advance
  rcases h.cases with ⟨device, hi, hsends⟩ | ⟨device, hi, hreceives⟩ | ⟨hnone, hpopped, hpushed⟩
  · obtain ⟨htaken, haccepted⟩ := hsends.transfers (hfetching _)
    rw [htaken, haccepted, popped?, pushed?, hi]
    exact ⟨rfl, rfl⟩
  · obtain ⟨haccepted, htaken⟩ := hreceives.transfers (hfetching _)
    rw [htaken, haccepted, popped?, pushed?, hi]
    exact ⟨rfl, rfl⟩
  · simp [hnone, hpopped, hpushed]

end Passage

namespace Machine

variable {β : Type} [Bus β] {m : Machine}

theorem filterMap_calls {α : Type} {f : BusCall → Option α} {g : Passage → Option α}
    {xs : List Passage} (h : ∀ x ∈ xs, x.calls.filterMap f = (g x).toList) :
    (xs.flatMap Passage.calls).filterMap f = xs.filterMap g := by
  induction xs with
  | nil => rfl
  | cons x xs ih =>
      rw [List.forall_mem_cons] at h
      rw [List.flatMap_cons, List.filterMap_append, ih h.2, h.1, List.filterMap_cons]
      cases g x <;> rfl

/-- A run is the steps it is allowed. Its calls are those of its steps, each of which
moves what its instruction says and nothing else. While the register file is well formed, as it
is in every machine that can be reached, a word is accepted by the bus just when
it leaves the stack and a byte taken just when it comes onto the stack, over the
whole run and in the same order. -/
theorem device_transfers (m : Machine) (b : β) (n : Nat) :
    (m.run b n).2 = m.steps b n ∧
    m.steps ({ bus := b } : Taped β) n =
      ((m.steps b n).1,
        { bus := (m.steps b n).2, calls := (m.observe b n).flatMap Passage.calls }) ∧
    (∀ x ∈ m.observe b n, x.Lawful) ∧
    (m.regs.WellFormed →
      (∀ x ∈ m.observe b n, OnStack x.before x.calls x.after ∧
        ∀ device, x.before.fetched? = some (.wio device) →
          (x.after.stack.length < x.before.stack.length ↔
            ∃ w, .writeWord device w (.ok ()) ∈ x.calls)) ∧
      ((m.observe b n).flatMap Passage.calls).filterMap BusCall.accepted? =
        (m.observe b n).filterMap Passage.popped? ∧
      ((m.observe b n).flatMap Passage.calls).filterMap BusCall.taken? =
        (m.observe b n).filterMap Passage.pushed?) := by
  have hlawful := lawful_observe m b n
  refine ⟨runFrom_eq_steps m b 0 n, steps_taped m { bus := b } n, hlawful, ?_⟩
  intro hm
  have hwell := wellFormed_observe hm b n
  refine ⟨fun x hx => ⟨(hlawful x hx).onStack (hwell x hx), fun device hfetched => ?_⟩, ?_, ?_⟩
  · have hfetching : (x.before.fetching (.wio device)).silent.regs.WellFormed :=
      (hwell x hx).advance
    exact ((hlawful x hx).sends device hfetched).popped_iff hfetching
  · exact filterMap_calls fun x hx => ((hlawful x hx).transfers (hwell x hx)).1
  · exact filterMap_calls fun x hx => ((hlawful x hx).transfers (hwell x hx)).2

/-- A program that sends a letter and receives another. -/
def exchanging : Machine :=
  { memory := ((Memory.zero.write 0 (Instruction.ldi 0x41).encode).write 1
      (Instruction.wio 4).encode).write 2 (Instruction.rio 4).encode }

/-- A device that is always ready and has one byte to give. -/
def readyDevice : ScriptedBus := { statuses := [(4, [some 2])], bytes := [0x42] }

theorem device_transfers_exchanging :
    exchanging.regs.WellFormed ∧
    ((exchanging.observe readyDevice 3).flatMap Passage.calls).filterMap BusCall.accepted? =
      [(4, 0x41)] ∧
    ((exchanging.observe readyDevice 3).flatMap Passage.calls).filterMap BusCall.taken? =
      [(4, 0x42)] := by
  have hm : exchanging.regs.WellFormed := Registers.wellFormed_start 0
  obtain ⟨-, -, -, hwell⟩ := device_transfers exchanging readyDevice 3
  obtain ⟨-, haccepted, htaken⟩ := hwell hm
  refine ⟨hm, ?_, ?_⟩
  · rw [haccepted]
    decide +kernel
  · rw [htaken]
    decide +kernel

end Machine

end StackComputer
