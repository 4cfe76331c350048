import StackComputer.Machine.Execute
import StackComputer.Proofs.Outcome

/-!
# Checked actions

Almost everything the machine does is one check followed by a change that
cannot fail. The check refuses a stopped machine and stops one whose stack is
too short, so an action that fails has changed nothing else.
-/

namespace StackComputer

namespace Action

variable {α β : Type}

theorem ext {a b : Action α} (h : ∀ m, a.perform m = b.perform m) : a = b := funext h

@[simp] theorem perform_pure (x : α) (m : Machine) :
    (pure x : Action α).perform m = (.ok x, m) := rfl

@[simp] theorem perform_get (m : Machine) : (get : Action Machine).perform m = (.ok m, m) := rfl

@[simp] theorem perform_modify (f : Machine → Machine) (m : Machine) :
    (modify f : Action Unit).perform m = (.ok (), f m) := rfl

@[simp] theorem perform_modifyGet (f : Machine → α × Machine) (m : Machine) :
    (modifyGet f : Action α).perform m = (.ok (f m).1, (f m).2) := rfl

theorem perform_ite_modify (c : Prop) [Decidable c] (f : Machine → Machine) (m : Machine) :
    (if c then modify f else pure () : Action Unit).perform m = (.ok (), if c then f m else m) := by
  split <;> rfl

theorem perform_bind (a : Action α) (f : α → Action β) (m : Machine) :
    (a >>= f).perform m =
      match a.perform m with
      | (.ok x, m) => (f x).perform m
      | (.error e, m) => (.error e, m) := by
  rcases h : a.perform m with ⟨e | x, m'⟩
  · exact run_bind_error h f
  · exact run_bind_ok h f

theorem perform_bind_ok {a : Action α} {f : α → Action β} {m m' : Machine} {x : α}
    (h : a.perform m = (.ok x, m')) : (a >>= f).perform m = (f x).perform m' :=
  run_bind_ok h f

theorem get_bind_eq {k : Machine → Action α} {a : Action α}
    (h : ∀ m, (k m).perform m = a.perform m) : (get >>= k) = a := by
  apply ext
  intro m
  rw [perform_bind_ok (perform_get m), h]

theorem perform_bind_error {a : Action α} {f : α → Action β} {m m' : Machine} {e : ExecError}
    (h : a.perform m = (.error e, m')) : (a >>= f).perform m = (.error e, m') :=
  run_bind_error h f

end Action

namespace Machine

variable {α β : Type}

/-- Needs `n` cells of a running machine, and then does `f`. -/
def checked (n : Nat) (f : Machine → α × Machine) : Action α := do
  require n
  modifyGet f

theorem perform_checked (n : Nat) (f : Machine → α × Machine) (m : Machine) :
    (checked n f).perform m =
      if !m.isRunning then (.error (.notRunning m.state.phase), m)
      else if m.regs.available < n then (.error .stackUnderflow, m.fault .stackUnderflow)
      else (.ok (f m).1, (f m).2) := by
  have hrequire : (require n).perform m =
      if !m.isRunning then (.error (.notRunning m.state.phase), m)
      else if m.regs.available < n then (.error .stackUnderflow, m.fault .stackUnderflow)
      else (.ok (), m) := rfl
  rw [checked, Action.perform_bind, hrequire]
  by_cases hstop : (!m.isRunning) = true
  · rw [if_pos hstop, if_pos hstop]
  · rw [if_neg hstop, if_neg hstop]
    by_cases hfew : m.regs.available < n
    · rw [if_pos hfew, if_pos hfew]
    · rw [if_neg hfew, if_neg hfew]
      rfl

theorem perform_checked_ok {n : Nat} {m : Machine} (hrun : m.isRunning = true)
    (hn : n ≤ m.regs.available) (f : Machine → α × Machine) :
    (checked n f).perform m = (.ok (f m).1, (f m).2) := by
  rw [perform_checked, hrun, if_neg (by decide), if_neg (Nat.not_lt.mpr hn)]

theorem perform_checked_underflow {n : Nat} {m : Machine} (hrun : m.isRunning = true)
    (hn : m.regs.available < n) (f : Machine → α × Machine) :
    (checked n f).perform m = (.error .stackUnderflow, m.fault .stackUnderflow) := by
  rw [perform_checked, hrun, if_neg (by decide), if_pos hn]

theorem perform_checked_stopped {n : Nat} {m : Machine} (hstop : m.isRunning = false)
    (f : Machine → α × Machine) :
    (checked n f).perform m = (.error (.notRunning m.state.phase), m) := by
  rw [perform_checked, hstop, if_pos (by decide)]

theorem require_bind_eq (n : Nat) {a : Action α} {f : Machine → α × Machine}
    (h : ∀ m, a.perform m = (.ok (f m).1, (f m).2)) :
    (do require n; a) = checked n f := by
  have ha : a = modifyGet f := Action.ext h
  rw [ha, checked]

/-- A checked action may be followed by anything that cannot fail after it. -/
theorem perform_checked_bind {n : Nat} {f : Machine → α × Machine} {k : α → Action β}
    {g : Machine → β × Machine} {m : Machine}
    (h : m.isRunning = true → n ≤ m.regs.available →
      (k (f m).1).perform (f m).2 = (.ok (g m).1, (g m).2)) :
    (checked n f >>= k).perform m = (checked n g).perform m := by
  rcases Bool.eq_false_or_eq_true m.isRunning with hrun | hstop
  · rcases Nat.lt_or_ge m.regs.available n with hlt | hge
    · rw [Action.perform_bind_error (perform_checked_underflow hrun hlt f),
        perform_checked_underflow hrun hlt]
    · rw [Action.perform_bind_ok (perform_checked_ok hrun hge f), h hrun hge,
        perform_checked_ok hrun hge]
  · rw [Action.perform_bind_error (perform_checked_stopped hstop f),
      perform_checked_stopped hstop]

theorem checked_bind_eq {n : Nat} {f : Machine → α × Machine} {k : α → Action β}
    {g : Machine → β × Machine}
    (h : ∀ m, m.isRunning = true → n ≤ m.regs.available →
      (k (f m).1).perform (f m).2 = (.ok (g m).1, (g m).2)) :
    (checked n f >>= k) = checked n g :=
  Action.ext fun m => perform_checked_bind (h m)

theorem peekCells_eq (n : Nat) : peekCells n = checked n fun m => (m.regs.top n, m) :=
  require_bind_eq n fun _ => rfl

theorem popCells_eq (n : Nat) :
    popCells n = checked n fun m => (m.regs.top n, m.dropCells n) := by
  rw [popCells, peekCells_eq]
  exact checked_bind_eq fun m _ _ => rfl

theorem replaceCells_eq {n : Nat} (cells : Cells n) :
    replaceCells cells = checked n fun m => ((), { m with regs := m.regs.setTop cells }) :=
  require_bind_eq n fun _ => rfl

theorem push_eq (w : Word) : push w = checked 0 fun m => ((), m.pushCell w) :=
  require_bind_eq 0 fun _ => rfl

theorem perform_push {m : Machine} (hrun : m.isRunning = true) (w : Word) :
    (push w).perform m = (.ok (), m.pushCell w) := by
  rw [push_eq, perform_checked_ok hrun (Nat.zero_le _)]

theorem pop_eq : pop = checked 1 fun m => (m.regs.ra, m.dropCell) := by
  rw [pop, popCells_eq]
  exact checked_bind_eq fun m _ _ => rfl

theorem peek_eq : peek = checked 1 fun m => (m.regs.ra, m) := by
  rw [peek, peekCells_eq]
  exact checked_bind_eq fun m _ _ => rfl

theorem peekSecond_eq : peekSecond = checked 2 fun m => (m.regs.rb, m) := by
  rw [peekSecond, peekCells_eq]
  exact checked_bind_eq fun m _ _ => rfl

theorem dropSecond_eq : dropSecond = checked 2 fun m => ((), m.dropSecondCell) :=
  require_bind_eq 2 fun _ => rfl

theorem replaceSecond_eq (w : Word) :
    replaceSecond w =
      checked 2 fun m => ((), { m with regs := m.regs.setTop (.two m.regs.ra w) }) := by
  rw [replaceSecond, peekCells_eq]
  apply checked_bind_eq
  intro m hrun hn
  rw [replaceCells_eq]
  exact perform_checked_ok hrun hn _

theorem pushDouble_eq (d : Dword) :
    pushDouble d = checked 0 fun m => ((), m.pushCells [d.high, d.low]) :=
  require_bind_eq 0 fun _ => rfl

theorem popDouble_eq :
    popDouble = checked 2 fun m => (.join m.regs.rb m.regs.ra, m.dropCells 2) := by
  rw [popDouble, popCells_eq]
  exact checked_bind_eq fun m _ _ => rfl

theorem peekDouble_eq :
    peekDouble = checked 2 fun m => (.join m.regs.rb m.regs.ra, m) := by
  rw [peekDouble, peekCells_eq]
  exact checked_bind_eq fun m _ _ => rfl

end Machine

end StackComputer
