import StackComputer.Proofs.Transition

/-!
# Transitions with a bus

What the instructions for devices and packed pairs do. A tape around a bus
keeps the questions put to it with their answers, and changes nothing else.
-/

namespace StackComputer

namespace Machine

/-- The machine with what its bus told written down. -/
def hear (m : Machine) (events : List Event) : Machine :=
  { m with journal := m.journal.addAll events }

/-- The machine with a word delivered by a device on its stack. -/
def delivered (m : Machine) (w : Word) (cc : ConditionCode) : Machine :=
  (m.pushCell w).setCode cc

/-- The machine after a device took the top of its stack. -/
def taken (m : Machine) : Machine := m.dropCell.setCode .equal

/-- The machine after a device refused the top of its stack. -/
def refused (m : Machine) (device : Byte) (cause : DeviceError) : Machine :=
  (m.record (.refused device m.here cause)).setCode .less

end Machine

namespace Exchange

open Machine

variable {α β γ : Type}

@[simp] theorem perform_machine (a : Action α) (m : Machine) (b : β) :
    (machine a).perform m b = ((a.perform m).1, (a.perform m).2, b) := rfl

@[simp] theorem perform_ask (question : β → Reply β α) (m : Machine) (b : β) :
    (ask question).perform m b =
      (.ok (question b).answer, m.hear (question b).events, (question b).bus) := rfl

theorem perform_bind (e : Exchange β α) (f : α → Exchange β γ) (m : Machine) (b : β) :
    (e >>= f).perform m b =
      match e.perform m b with
      | (.ok x, m, b) => (f x).perform m b
      | (.error cause, m, b) => (.error cause, m, b) := by
  rcases h : e.perform m b with ⟨cause | x, m', b'⟩
  · exact run_bind_error h f
  · exact run_bind_ok h f

theorem perform_ask_bind (question : β → Reply β α) (f : α → Exchange β γ) (m : Machine) (b : β) :
    (ask question >>= f).perform m b =
      (f (question b).answer).perform (m.hear (question b).events) (question b).bus := by
  rw [perform_bind, perform_ask]

theorem perform_machine_bind_ok {a : Action α} {f : α → Exchange β γ} {m m' : Machine} {b : β}
    {x : α} (h : a.perform m = (.ok x, m')) :
    (machine a >>= f).perform m b = (f x).perform m' b := by
  rw [perform_bind, perform_machine, h]

theorem perform_machine_bind_error {a : Action α} {f : α → Exchange β γ} {m m' : Machine} {b : β}
    {cause : ExecError} (h : a.perform m = (.error cause, m')) :
    (machine a >>= f).perform m b = (.error cause, m', b) := by
  rw [perform_bind, perform_machine, h]

theorem deliver_eq (w : Word) (cc : ConditionCode) :
    deliver w cc = checked 0 fun m => ((), m.delivered w cc) := by
  rw [deliver, push_eq]
  exact checked_bind_eq fun m _ _ => rfl

variable [Bus β] {device : Byte} {m : Machine} {b : β}

theorem perform_receive_absent (hpoll : (Bus.readStatus b device).answer = none) :
    (receive device).perform m b =
      (.ok (), (m.hear (Bus.readStatus b device).events).setCode .less,
        (Bus.readStatus b device).bus) := by
  rw [receive, perform_ask_bind, hpoll]
  rfl

theorem perform_receive_busy {status : Word}
    (hpoll : (Bus.readStatus b device).answer = some status)
    (hbusy : Bus.isReady status = false) :
    (receive device).perform m b =
      (machine (deliver status .greater)).perform (m.hear (Bus.readStatus b device).events)
        (Bus.readStatus b device).bus := by
  rw [receive, perform_ask_bind, hpoll]
  simp only [hbusy, Bool.false_eq_true, if_false]

theorem perform_receive_ready {status : Word}
    (hpoll : (Bus.readStatus b device).answer = some status)
    (hready : Bus.isReady status = true) :
    (receive device).perform m b =
      let byte := Bus.readByte (Bus.readStatus b device).bus device
      (machine (deliver (byte.answer.setWidth 16) .equal)).perform
        ((m.hear (Bus.readStatus b device).events).hear byte.events) byte.bus := by
  rw [receive, perform_ask_bind, hpoll]
  simp only [hready, if_true, perform_ask_bind]

theorem perform_send_absent (hpoll : (Bus.readStatus b device).answer = none) :
    (send device).perform m b =
      (.ok (), (m.hear (Bus.readStatus b device).events).setCode .less,
        (Bus.readStatus b device).bus) := by
  rw [send, perform_ask_bind, hpoll]
  rfl

theorem perform_send_busy {status : Word}
    (hpoll : (Bus.readStatus b device).answer = some status)
    (hbusy : Bus.isReady status = false) :
    (send device).perform m b =
      (machine (deliver status .greater)).perform (m.hear (Bus.readStatus b device).events)
        (Bus.readStatus b device).bus := by
  rw [send, perform_ask_bind, hpoll]
  simp only [hbusy, Bool.false_eq_true, if_false]

/-- A transfer from a stack that holds nothing, or of a stopped machine. -/
theorem perform_send_failed {status : Word} {m' : Machine} {cause : ExecError}
    (hpoll : (Bus.readStatus b device).answer = some status)
    (hready : Bus.isReady status = true)
    (hpeek : peek.perform (m.hear (Bus.readStatus b device).events) = (.error cause, m')) :
    (send device).perform m b = (.error cause, m', (Bus.readStatus b device).bus) := by
  rw [send, perform_ask_bind, hpoll]
  simp only [hready, if_true]
  exact perform_machine_bind_error hpeek

theorem perform_send_ready {status w : Word} {m' : Machine}
    (hpoll : (Bus.readStatus b device).answer = some status)
    (hready : Bus.isReady status = true)
    (hpeek : peek.perform (m.hear (Bus.readStatus b device).events) = (.ok w, m')) :
    (send device).perform m b =
      let reply := Bus.writeWord (Bus.readStatus b device).bus device w
      match reply.answer with
      | .ok () =>
        (machine (checked 1 fun m => ((), m.taken))).perform (m'.hear reply.events) reply.bus
      | .error cause => (.ok (), (m'.hear reply.events).refused device cause, reply.bus) := by
  have htake : (do
      let _ ← pop
      modify fun m => m.setCode .equal : Action Unit) = checked 1 fun m => ((), m.taken) := by
    rw [pop_eq]
    exact checked_bind_eq fun m _ _ => rfl
  rw [send, perform_ask_bind, hpoll]
  simp only [hready, if_true, htake]
  rw [perform_machine_bind_ok hpeek, perform_ask_bind]
  cases (Bus.writeWord (Bus.readStatus b device).bus device w).answer <;> rfl

/-- What stays true whatever an instruction for a device comes to. -/
structure Stable (P : Machine → Prop) : Prop where
  hear {m : Machine} (h : P m) (events : List Event) : P (m.hear events)
  setCode {m : Machine} (h : P m) : P (m.setCode .less)
  fault {m : Machine} (h : P m) : P (m.fault .stackUnderflow)
  delivered {m : Machine} (h : P m) (w : Word) {cc : ConditionCode}
    (hcc : cc ≠ .indeterminate) : P (m.delivered w cc)
  taken {m : Machine} (h : P m) (hone : 1 ≤ m.regs.available) : P m.taken
  refused {m : Machine} (h : P m) (device : Byte) (cause : DeviceError) : P (m.refused device cause)

namespace Stable

variable {P : Machine → Prop} (hP : Stable P)
include hP

omit [Bus β] in
theorem perform_checked {n : Nat} {f : Machine → α × Machine} (h : P m)
    (hf : n ≤ m.regs.available → P (f m).2) : P ((checked n f).perform m).2 := by
  rcases perform_guarded_cases (some n) f m with hstop | hshort | ⟨hn, hok⟩
  · rw [← guarded, hstop]
    exact h
  · rw [← guarded, hshort]
    exact hP.fault h
  · rw [← guarded, hok]
    exact hf hn

omit [Bus β] in
theorem deliver (h : P m) (w : Word) {cc : ConditionCode} (hcc : cc ≠ .indeterminate) (b : β) :
    P ((machine (deliver w cc)).perform m b).2.1 := by
  rw [perform_machine, deliver_eq]
  exact hP.perform_checked h fun _ => hP.delivered h w hcc

theorem receive (h : P m) (device : Byte) (b : β) : P ((receive device).perform m b).2.1 := by
  have hheard := hP.hear h (Bus.readStatus b device).events
  cases hpoll : (Bus.readStatus b device).answer with
  | none =>
      rw [perform_receive_absent hpoll]
      exact hP.setCode hheard
  | some status =>
      cases hready : Bus.isReady status with
      | false =>
          rw [perform_receive_busy hpoll hready]
          exact hP.deliver hheard _ (by decide) _
      | true =>
          rw [perform_receive_ready hpoll hready]
          exact hP.deliver (hP.hear hheard _) _ (by decide) _

theorem send (h : P m) (device : Byte) (b : β) : P ((send device).perform m b).2.1 := by
  have hheard := hP.hear h (Bus.readStatus b device).events
  cases hpoll : (Bus.readStatus b device).answer with
  | none =>
      rw [perform_send_absent hpoll]
      exact hP.setCode hheard
  | some status =>
      cases hready : Bus.isReady status with
      | false =>
          rw [perform_send_busy hpoll hready]
          exact hP.deliver hheard _ (by decide) _
      | true =>
          have hpeek : peek = guarded (some 1) fun m => (m.regs.ra, m) := peek_eq
          rcases perform_guarded_cases (some 1) (fun m => (m.regs.ra, m))
            (m.hear (Bus.readStatus b device).events) with hstop | hshort | ⟨-, hok⟩
          · rw [perform_send_failed hpoll hready (hpeek ▸ hstop)]
            exact hheard
          · rw [perform_send_failed hpoll hready (hpeek ▸ hshort)]
            exact hP.fault hheard
          · rw [perform_send_ready hpoll hready (hpeek ▸ hok)]
            have hwritten := hP.hear hheard
              (Bus.writeWord (Bus.readStatus b device).bus device
                (m.hear (Bus.readStatus b device).events).regs.ra).events
            dsimp only
            split
            · exact hP.perform_checked hwritten fun hone => hP.taken hwritten hone
            · exact hP.refused hwritten _ _

end Stable

end Exchange

namespace Machine

variable {m m' : Machine} {first second : StackOp}

theorem perform_pair_error {cause : ExecError}
    (h : (stackOp first).perform m = (.error cause, m')) :
    (pair first second).perform m = (.error cause, m') :=
  Action.perform_bind_error h

theorem perform_pair_ok (h : (stackOp first).perform m = (.ok (), m')) :
    (pair first second).perform m =
      if m'.isRunning then (stackOp second).perform m' else (.ok (), m') := by
  rw [pair, Action.perform_bind_ok h, Action.perform_bind_ok (Action.perform_get m')]
  split <;> rfl

end Machine

/-! ## Tapes -/

/-- A question put to a bus, with its answer. -/
inductive BusCall where
  | readStatus (device : Byte) (status : Option Word)
  | writeWord (device : Byte) (w : Word) (answer : Except DeviceError Unit)
  | readByte (device : Byte) (byte : Byte)

/-- Whether a call moves data, and does not just ask for a status. -/
def BusCall.isTransfer : BusCall → Bool
  | readStatus _ _ => false
  | writeWord _ _ _ | readByte _ _ => true

/-- A bus and the calls made to it, in order. -/
structure Taped (β : Type) where
  bus : β
  calls : List BusCall := []

namespace Taped

variable {α β γ : Type} [Bus β]

instance : Bus (Taped β) where
  readStatus t device :=
    let reply := Bus.readStatus t.bus device
    ⟨reply.answer, ⟨reply.bus, t.calls ++ [.readStatus device reply.answer]⟩, reply.events⟩
  writeWord t device w :=
    let reply := Bus.writeWord t.bus device w
    ⟨reply.answer, ⟨reply.bus, t.calls ++ [.writeWord device w reply.answer]⟩, reply.events⟩
  readByte t device :=
    let reply := Bus.readByte t.bus device
    ⟨reply.answer, ⟨reply.bus, t.calls ++ [.readByte device reply.answer]⟩, reply.events⟩

theorem readStatus_eq (t : Taped β) (device : Byte) :
    Bus.readStatus t device =
      ⟨(Bus.readStatus t.bus device).answer,
        ⟨(Bus.readStatus t.bus device).bus,
          t.calls ++ [.readStatus device (Bus.readStatus t.bus device).answer]⟩,
        (Bus.readStatus t.bus device).events⟩ := rfl

theorem writeWord_eq (t : Taped β) (device : Byte) (w : Word) :
    Bus.writeWord t device w =
      ⟨(Bus.writeWord t.bus device w).answer,
        ⟨(Bus.writeWord t.bus device w).bus,
          t.calls ++ [.writeWord device w (Bus.writeWord t.bus device w).answer]⟩,
        (Bus.writeWord t.bus device w).events⟩ := rfl

theorem readByte_eq (t : Taped β) (device : Byte) :
    Bus.readByte t device =
      ⟨(Bus.readByte t.bus device).answer,
        ⟨(Bus.readByte t.bus device).bus,
          t.calls ++ [.readByte device (Bus.readByte t.bus device).answer]⟩,
        (Bus.readByte t.bus device).events⟩ := rfl

/-- The exchange does on a taped bus what the other does on the bus itself. -/
def Mirrors (taped : Exchange (Taped β) α) (e : Exchange β α) : Prop :=
  ∀ m t, e.perform m t.bus =
    ((taped.perform m t).1, (taped.perform m t).2.1, (taped.perform m t).2.2.bus)

/-- So it does, and it adds calls to the tape that do not depend on the calls
already there. -/
def Records (taped : Exchange (Taped β) α) (e : Exchange β α) : Prop :=
  ∀ m t, taped.perform m t =
    ((e.perform m t.bus).1, (e.perform m t.bus).2.1,
      { bus := (e.perform m t.bus).2.2
        calls := t.calls ++ (taped.perform m { bus := t.bus }).2.2.calls })

omit [Bus β] in
theorem Records.mirrors {taped : Exchange (Taped β) α} {e : Exchange β α}
    (h : Records taped e) : Mirrors taped e := by
  intro m t
  rw [h m t]

omit [Bus β] in
theorem records_machine (a : Action α) :
    Records (.machine a : Exchange (Taped β) α) (.machine a) := by
  intro m t
  simp

omit [Bus β] in
theorem Records.bind {taped : Exchange (Taped β) α} {e : Exchange β α}
    {f : α → Exchange (Taped β) γ} {f' : α → Exchange β γ} (h : Records taped e)
    (hf : ∀ x, Records (f x) (f' x)) : Records (taped >>= f) (e >>= f') := by
  intro m t
  have hblank := h m { bus := t.bus }
  have htaped := h m t
  rw [Exchange.perform_bind, Exchange.perform_bind, Exchange.perform_bind, htaped, hblank]
  rcases e.perform m t.bus with ⟨cause | x, m', b'⟩
  · simp
  -- The second exchange finds the calls of the first one on the tape already.
  · have hlater : ∀ calls, (f x).perform m' { bus := b', calls := calls } =
        (((f' x).perform m' b').1, ((f' x).perform m' b').2.1,
          { bus := ((f' x).perform m' b').2.2
            calls := calls ++ ((f x).perform m' { bus := b' }).2.2.calls }) :=
      fun calls => hf x m' { bus := b', calls := calls }
    simp only [List.nil_append]
    rw [hlater (t.calls ++ _), hlater (taped.perform m _).2.2.calls, List.append_assoc]

theorem records_receive (device : Byte) :
    Records (.receive device : Exchange (Taped β) Unit) (.receive device) := by
  apply Records.bind
  · exact fun _ _ => rfl
  · rintro (_ | status)
    · exact records_machine _
    · dsimp only
      split
      · exact Records.bind (fun _ _ => rfl) fun _ => records_machine _
      · exact records_machine _

theorem records_send (device : Byte) :
    Records (.send device : Exchange (Taped β) Unit) (.send device) := by
  apply Records.bind
  · exact fun _ _ => rfl
  · rintro (_ | status)
    · exact records_machine _
    · dsimp only
      split
      · refine Records.bind (records_machine _) fun w => Records.bind (fun _ _ => rfl) ?_
        rintro (cause | ⟨⟩) <;> exact records_machine _
      · exact records_machine _

theorem records_execute (i : Instruction) :
    Records (i.execute : Exchange (Taped β) Unit) i.execute := by
  cases i with
  | rio device => exact records_receive device
  | wio device => exact records_send device
  | pair first second => exact records_machine _
  | _ =>
      rw [Instruction.execute_eq rfl, Instruction.execute_eq rfl]
      exact records_machine _

theorem mirrors_execute (i : Instruction) :
    Mirrors (i.execute : Exchange (Taped β) Unit) i.execute :=
  (records_execute i).mirrors

end Taped

end StackComputer
