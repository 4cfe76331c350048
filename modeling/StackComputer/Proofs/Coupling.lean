import StackComputer.Proofs.BusTransition
import StackComputer.Proofs.Step

/-!
# Coupled programs

Two programs with errors and a state are coupled if from related states they
end alike. If the questions put to two buses get the same answers, and leave
buses that are related again, then so does every step of the machine.
-/

namespace StackComputer

variable {ε α γ σ : Type}

/-- Answers that `Q` relates, or one error, in states that `R` relates. -/
inductive EndAlike (R : σ → σ → Prop) (Q : α → α → Prop) :
    Except ε α × σ → Except ε α × σ → Prop
  | ok {a b : α} {s t : σ} (answer : Q a b) (state : R s t) : EndAlike R Q (.ok a, s) (.ok b, t)
  | error (cause : ε) {s t : σ} (state : R s t) : EndAlike R Q (.error cause, s) (.error cause, t)

/-- From states that `R` relates, the two programs end alike. -/
def Coupled (R : σ → σ → Prop) (Q : α → α → Prop) (x y : ExceptT ε (StateM σ) α) : Prop :=
  ∀ ⦃s t⦄, R s t → EndAlike R Q ((ExceptT.run x).run s) ((ExceptT.run y).run t)

section

variable {R : σ → σ → Prop} {Q : α → α → Prop} {Q' : γ → γ → Prop}

theorem EndAlike.answer_eq {p q : Except ε α × σ} (h : EndAlike R Eq p q) : p.1 = q.1 := by
  cases h with
  | ok answer _ => rw [answer]
  | error _ _ => rfl

theorem EndAlike.state {p q : Except ε α × σ} (h : EndAlike R Q p q) : R p.2 q.2 := by
  cases h with
  | ok _ state => exact state
  | error _ state => exact state

theorem EndAlike.of_eq {p q : Except ε α × σ} (answer : p.1 = q.1) (state : R p.2 q.2) :
    EndAlike R Eq p q := by
  obtain ⟨cause | a, s⟩ := p <;> obtain ⟨answer', t⟩ := q <;> cases answer
  · exact .error cause state
  · exact .ok rfl state

theorem coupled_pure {a b : α} (h : Q a b) :
    Coupled R Q (pure a : ExceptT ε (StateM σ) α) (pure b) :=
  fun _ _ hst => .ok h hst

theorem coupled_throw (cause : ε) :
    Coupled R Q (throw cause : ExceptT ε (StateM σ) α) (throw cause) :=
  fun _ _ hst => .error cause hst

theorem coupled_modify {f g : σ → σ} (h : ∀ s t, R s t → R (f s) (g t)) :
    Coupled R Eq (modify f : ExceptT ε (StateM σ) Unit) (modify g) :=
  fun s t hst => .ok rfl (h s t hst)

theorem Coupled.bind {x y : ExceptT ε (StateM σ) α} {f g : α → ExceptT ε (StateM σ) γ}
    (h : Coupled R Q x y) (hfg : ∀ a b, Q a b → Coupled R Q' (f a) (g b)) :
    Coupled R Q' (x >>= f) (y >>= g) := by
  intro s t hst
  generalize hx : (ExceptT.run x).run s = p
  generalize hy : (ExceptT.run y).run t = q
  have hends : EndAlike R Q p q := hx ▸ hy ▸ h hst
  cases hends with
  | ok answer state =>
      rw [run_bind_ok hx, run_bind_ok hy]
      exact hfg _ _ answer state
  | error cause state =>
      rw [run_bind_error hx, run_bind_error hy]
      exact .error cause state

theorem Coupled.bind_eq {x y : ExceptT ε (StateM σ) α} {f g : α → ExceptT ε (StateM σ) γ}
    (h : Coupled R Eq x y) (hfg : ∀ a, Coupled R Q' (f a) (g a)) :
    Coupled R Q' (x >>= f) (y >>= g) :=
  h.bind fun a _ hab => hab ▸ hfg a

/-- Programs that begin with the same part end alike if their rests do. -/
theorem endAlike_bind (hR : ∀ s, R s s) (x : ExceptT ε (StateM σ) α)
    {f g : α → ExceptT ε (StateM σ) γ}
    (hfg : ∀ a s, EndAlike R Q' ((ExceptT.run (f a)).run s) ((ExceptT.run (g a)).run s)) (s : σ) :
    EndAlike R Q' ((ExceptT.run (x >>= f)).run s) ((ExceptT.run (x >>= g)).run s) := by
  rcases hx : (ExceptT.run x).run s with ⟨cause | a, s'⟩
  · rw [run_bind_error hx, run_bind_error hx]
    exact .error cause (hR s')
  · rw [run_bind_ok hx, run_bind_ok hx]
    exact hfg a s'

theorem coupled_get_bind {f g : σ → ExceptT ε (StateM σ) γ}
    (h : ∀ s t, R s t → Coupled R Q' (f s) (g t)) :
    Coupled R Q' (get >>= f) (get >>= g) :=
  fun s t hst => h s t hst hst

end

/-- Equal on the left, and related by `R` on the right. -/
def Beside {τ : Type} (R : σ → σ → Prop) (s t : τ × σ) : Prop := s.1 = t.1 ∧ R s.2 t.2

/-! ## Buses -/

variable {β : Type} {R : β → β → Prop}

/-- One answer and one account of it, and buses that `R` relates. -/
structure Reply.Alike (R : β → β → Prop) (r r' : Reply β α) : Prop where
  answer : r.answer = r'.answer
  events : r.events = r'.events
  bus : R r.bus r'.bus

/-- Buses that `R` relates answer every question alike. -/
structure Bus.Respects [Bus β] (R : β → β → Prop) : Prop where
  readStatus {b c : β} (h : R b c) (device : Byte) :
    (Bus.readStatus b device).Alike R (Bus.readStatus c device)
  writeWord {b c : β} (h : R b c) (device : Byte) (w : Word) :
    (Bus.writeWord b device w).Alike R (Bus.writeWord c device w)
  readByte {b c : β} (h : R b c) (device : Byte) :
    (Bus.readByte b device).Alike R (Bus.readByte c device)

namespace Exchange

theorem coupled_machine (a : Action α) :
    Coupled (Beside R) Eq (machine a : Exchange β α) (machine a) := by
  rintro ⟨m, b⟩ ⟨_, c⟩ ⟨rfl, hbc⟩
  exact .of_eq rfl ⟨rfl, hbc⟩

theorem coupled_ask {question : β → Reply β α}
    (h : ∀ b c, R b c → (question b).Alike R (question c)) :
    Coupled (Beside R) Eq (ask question) (ask question) := by
  rintro ⟨m, b⟩ ⟨_, c⟩ ⟨rfl, hbc⟩
  have halike := h b c hbc
  refine .of_eq ?_ ⟨?_, halike.bus⟩
  · exact congrArg Except.ok halike.answer
  · exact congrArg m.hear halike.events

variable [Bus β]

theorem coupled_receive (hR : Bus.Respects R) (device : Byte) :
    Coupled (Beside R) Eq (receive device : Exchange β Unit) (receive device) := by
  refine (coupled_ask fun _ _ h => hR.readStatus h device).bind_eq ?_
  rintro (_ | status)
  · exact coupled_machine _
  · dsimp only
    split
    · exact (coupled_ask fun _ _ h => hR.readByte h device).bind_eq fun _ => coupled_machine _
    · exact coupled_machine _

theorem coupled_send (hR : Bus.Respects R) (device : Byte) :
    Coupled (Beside R) Eq (send device : Exchange β Unit) (send device) := by
  refine (coupled_ask fun _ _ h => hR.readStatus h device).bind_eq ?_
  rintro (_ | status)
  · exact coupled_machine _
  · dsimp only
    split
    · refine (coupled_machine _).bind_eq fun w =>
        (coupled_ask fun _ _ h => hR.writeWord h device w).bind_eq ?_
      rintro (cause | ⟨⟩) <;> exact coupled_machine _
    · exact coupled_machine _

end Exchange

variable [Bus β]

theorem Instruction.coupled_execute (hR : Bus.Respects R) (i : Instruction) :
    Coupled (Beside R) Eq (i.execute : Exchange β Unit) i.execute := by
  cases i with
  | rio device => exact Exchange.coupled_receive hR device
  | wio device => exact Exchange.coupled_send hR device
  | pair first second => exact Exchange.coupled_machine (Machine.pair first second)
  | _ =>
      rw [Instruction.execute_eq rfl]
      exact Exchange.coupled_machine _

/-- Steps on buses that answer alike leave one machine, and such buses again. -/
theorem Machine.beside_step (hR : Bus.Respects R) (m : Machine) {b c : β} (h : R b c) :
    Beside R (m.step b) (m.step c) := by
  cases hi : m.fetched? with
  | none =>
      obtain ⟨m', hstep⟩ := step_of_not_fetched hi
      rw [hstep b, hstep c]
      exact ⟨rfl, h⟩
  | some i =>
      have hends : EndAlike (Beside R) Eq (i.execute.perform (m.fetching i) b)
          (i.execute.perform (m.fetching i) c) := i.coupled_execute hR ⟨rfl, h⟩
      rw [step_of_fetched hi, step_of_fetched hi]
      generalize i.execute.perform (m.fetching i) b = p at hends ⊢
      generalize i.execute.perform (m.fetching i) c = q at hends ⊢
      cases hends with
      | ok _ state => exact state
      | error cause state => exact ⟨congrArg (fault · cause) state.1, state.2⟩

end StackComputer
