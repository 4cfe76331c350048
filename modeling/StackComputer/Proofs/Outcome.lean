/-!
# Outcomes

What the steps of a computation were when all of it succeeded, and how programs
with errors and a state go on from one step to the next.
-/

namespace StackComputer

variable {ε α β : Type} {x : Except ε α} {b : β}

theorem ok_bind (a : α) (f : α → Except ε β) : (Except.ok a >>= f) = f a := rfl

theorem bind_eq_ok {f : α → Except ε β} :
    x >>= f = .ok b ↔ ∃ a, x = .ok a ∧ f a = .ok b := by
  cases x with
  | error e => exact ⟨nofun, nofun⟩
  | ok a =>
      refine ⟨fun h => ⟨a, rfl, h⟩, ?_⟩
      rintro ⟨_, ⟨⟩, h⟩
      exact h

theorem map_eq_ok {f : α → β} : f <$> x = .ok b ↔ ∃ a, x = .ok a ∧ f a = b := by
  cases x with
  | error e => exact ⟨nofun, nofun⟩
  | ok a =>
      refine ⟨fun h => ⟨a, rfl, Except.ok.inj h⟩, ?_⟩
      rintro ⟨_, ⟨⟩, h⟩
      exact congrArg Except.ok h

theorem mapError_eq_ok {ε' : Type} {f : ε → ε'} {a : α} {x : Except ε α} :
    x.mapError f = .ok a ↔ x = .ok a := by
  cases x with
  | error e => exact ⟨nofun, nofun⟩
  | ok b =>
      exact ⟨fun h => congrArg _ (Except.ok.inj h), fun h => congrArg _ (Except.ok.inj h)⟩

theorem toOption_eq_some {a : α} {x : Except ε α} : x.toOption = some a ↔ x = .ok a := by
  cases x with
  | error e => exact ⟨nofun, nofun⟩
  | ok b => simp [Except.toOption]

section

variable {σ : Type} {x : ExceptT ε (StateM σ) α} {s s' : σ}

theorem run_bind (x : ExceptT ε (StateM σ) α) (f : α → ExceptT ε (StateM σ) β) (s : σ) :
    (ExceptT.run (x >>= f)).run s =
      (ExceptT.bindCont f ((ExceptT.run x).run s).1 : StateM σ _).run
        ((ExceptT.run x).run s).2 := rfl

theorem run_bind_ok {a : α} (h : (ExceptT.run x).run s = (.ok a, s'))
    (f : α → ExceptT ε (StateM σ) β) :
    (ExceptT.run (x >>= f)).run s = (ExceptT.run (f a)).run s' := by
  rw [run_bind, h]
  rfl

theorem run_bind_error {e : ε} (h : (ExceptT.run x).run s = (.error e, s'))
    (f : α → ExceptT ε (StateM σ) β) : (ExceptT.run (x >>= f)).run s = (.error e, s') := by
  rw [run_bind, h]
  rfl

end

end StackComputer
