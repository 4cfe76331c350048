import StackComputer.Proofs.CheckedAction
import StackComputer.Proofs.LogicalStack

/-!
# The operand stack as a list

The operations on the operand stack, next to the same operations on a plain
list of cells. Through any sequence of them the machine gives the answers the
list gives, whatever moves between the registers and memory meanwhile.
-/

namespace StackComputer

/-- An operation on the operand stack. -/
inductive StackRequest where
  | push (w : Word)
  | pop
  | peek
  | peekSecond
  | dropSecond
  | replaceTop (w : Word)
  | replaceSecond (w : Word)
  | pushDouble (d : Dword)
  | popDouble
  | peekDouble
  | replaceDouble (d : Dword)
deriving DecidableEq, Repr

inductive StackAnswer where
  | done
  | word (w : Word)
  | double (d : Dword)
deriving DecidableEq, Repr

/-- Takes a list apart into its first cell and the rest. -/
def withTop {α : Type} (f : Word → List Word → α) : List Word → Option α
  | a :: s => some (f a s)
  | [] => none

def withTopTwo {α : Type} (f : Word → Word → List Word → α) : List Word → Option α
  | a :: b :: s => some (f a b s)
  | _ => none

theorem withTop_eq_none_iff {α : Type} {f : Word → List Word → α} {s : List Word} :
    withTop f s = none ↔ s.length < 1 := by
  cases s <;> simp [withTop]

theorem withTopTwo_eq_none_iff {α : Type} {f : Word → Word → List Word → α} {s : List Word} :
    withTopTwo f s = none ↔ s.length < 2 := by
  rcases s with _ | ⟨a, _ | ⟨b, s⟩⟩ <;> simp [withTopTwo]

namespace StackRequest

/-- The operation on the machine. -/
def action : StackRequest → Action StackAnswer
  | push w => do
    Machine.push w
    return .done
  | pop => return .word (← Machine.pop)
  | peek => return .word (← Machine.peek)
  | peekSecond => return .word (← Machine.peekSecond)
  | dropSecond => do
    Machine.dropSecond
    return .done
  | replaceTop w => do
    Machine.replaceTop w
    return .done
  | replaceSecond w => do
    Machine.replaceSecond w
    return .done
  | pushDouble d => do
    Machine.pushDouble d
    return .done
  | popDouble => return .double (← Machine.popDouble)
  | peekDouble => return .double (← Machine.peekDouble)
  | replaceDouble d => do
    Machine.replaceDouble d
    return .done

/-- The operation on a plain list of cells, the top first. A list that is too
short has no answer. -/
def onCells : StackRequest → List Word → Option (StackAnswer × List Word)
  | push w => fun s => some (.done, w :: s)
  | pop => withTop fun a s => (.word a, s)
  | peek => withTop fun a s => (.word a, a :: s)
  | peekSecond => withTopTwo fun a b s => (.word b, a :: b :: s)
  | dropSecond => withTopTwo fun a _ s => (.done, a :: s)
  | replaceTop w => withTop fun _ s => (.done, w :: s)
  | replaceSecond w => withTopTwo fun a _ s => (.done, a :: w :: s)
  | pushDouble d => fun s => some (.done, d.low :: d.high :: s)
  | popDouble => withTopTwo fun a b s => (.double (.join b a), s)
  | peekDouble => withTopTwo fun a b s => (.double (.join b a), a :: b :: s)
  | replaceDouble d => withTopTwo fun _ _ s => (.done, d.low :: d.high :: s)

/-- How many cells the operation looks at or takes. -/
def needs : StackRequest → Nat
  | push _ | pushDouble _ => 0
  | pop | peek | replaceTop _ => 1
  | peekSecond | dropSecond | replaceSecond _ | popDouble | peekDouble | replaceDouble _ => 2

/-- What the operation does to a running machine with enough cells. -/
def act : StackRequest → Machine → StackAnswer × Machine
  | push w, m => (.done, m.pushCell w)
  | pop, m => (.word m.regs.ra, m.dropCell)
  | peek, m => (.word m.regs.ra, m)
  | peekSecond, m => (.word m.regs.rb, m)
  | dropSecond, m => (.done, m.dropSecondCell)
  | replaceTop w, m => (.done, { m with regs := m.regs.setTop (.one w) })
  | replaceSecond w, m => (.done, { m with regs := m.regs.setTop (.two m.regs.ra w) })
  | pushDouble d, m => (.done, m.pushCells [d.high, d.low])
  | popDouble, m => (.double (.join m.regs.rb m.regs.ra), m.dropCells 2)
  | peekDouble, m => (.double (.join m.regs.rb m.regs.ra), m)
  | replaceDouble d, m => (.done, { m with regs := m.regs.setTop (.ofDouble d) })

theorem onCells_eq_none_iff (r : StackRequest) (s : List Word) :
    r.onCells s = none ↔ s.length < r.needs := by
  cases r with
  | push w | pushDouble d => simp [onCells, needs]
  | pop | peek | replaceTop w => exact withTop_eq_none_iff
  | peekSecond | dropSecond | replaceSecond w | popDouble | peekDouble | replaceDouble d =>
      exact withTopTwo_eq_none_iff

theorem action_eq (r : StackRequest) : r.action = Machine.checked r.needs r.act := by
  cases r with
  | push w =>
      rw [action, Machine.push_eq]
      exact Machine.checked_bind_eq fun m _ _ => rfl
  | pop =>
      rw [action, Machine.pop_eq]
      exact Machine.checked_bind_eq fun m _ _ => rfl
  | peek =>
      rw [action, Machine.peek_eq]
      exact Machine.checked_bind_eq fun m _ _ => rfl
  | peekSecond =>
      rw [action, Machine.peekSecond_eq]
      exact Machine.checked_bind_eq fun m _ _ => rfl
  | dropSecond =>
      rw [action, Machine.dropSecond_eq]
      exact Machine.checked_bind_eq fun m _ _ => rfl
  | replaceTop w =>
      rw [action, Machine.replaceTop, Machine.replaceCells_eq]
      exact Machine.checked_bind_eq fun m _ _ => rfl
  | replaceSecond w =>
      rw [action, Machine.replaceSecond_eq]
      exact Machine.checked_bind_eq fun m _ _ => rfl
  | pushDouble d =>
      rw [action, Machine.pushDouble_eq]
      exact Machine.checked_bind_eq fun m _ _ => rfl
  | popDouble =>
      rw [action, Machine.popDouble_eq]
      exact Machine.checked_bind_eq fun m _ _ => rfl
  | peekDouble =>
      rw [action, Machine.peekDouble_eq]
      exact Machine.checked_bind_eq fun m _ _ => rfl
  | replaceDouble d =>
      rw [action, Machine.replaceDouble, Machine.replaceCells_eq]
      exact Machine.checked_bind_eq fun m _ _ => rfl

variable {m : Machine}

theorem wellFormed_act (h : m.regs.WellFormed) (r : StackRequest) (hn : r.needs ≤ m.regs.depth) :
    (r.act m).2.regs.WellFormed := by
  cases r with
  | push w => exact Machine.wellFormed_pushCell h w
  | pop => exact Machine.wellFormed_dropCell h hn
  | peek | peekSecond | peekDouble => exact h
  | dropSecond => exact Machine.wellFormed_dropSecondCell h hn
  | replaceTop w => exact Machine.wellFormed_setTop h _ hn
  | replaceSecond w => exact Machine.wellFormed_setTop h _ hn
  | pushDouble d => exact Machine.wellFormed_pushCells h _
  | popDouble => exact Machine.wellFormed_dropCells h hn
  | replaceDouble d => exact Machine.wellFormed_setTop h _ hn

theorem sameBut_act (h : m.regs.WellFormed) (r : StackRequest) {n : Nat}
    (hroom : (r.act m).2.regs.depth ≤ n + 4) :
    Memory.SameBut n m.memory (r.act m).2.memory := by
  cases r with
  | push w => exact Machine.sameBut_pushCell h w hroom
  | pushDouble d =>
      apply Machine.sameBut_pushCells h
      simpa only [act, Machine.depth_pushCells] using hroom
  | pop =>
      simp only [act, Machine.memory_dropCell]
      exact Memory.SameBut.refl _ _
  | dropSecond =>
      simp only [act, Machine.memory_dropSecondCell]
      exact Memory.SameBut.refl _ _
  | popDouble =>
      simp only [act, Machine.memory_dropCells]
      exact Memory.SameBut.refl _ _
  | peek | peekSecond | replaceTop w | replaceSecond w | peekDouble | replaceDouble d =>
      exact Memory.SameBut.refl _ _

/-- On the logical stack an operation acts as it does on a list. -/
theorem onCells_stack (h : m.regs.WellFormed) (r : StackRequest) (hn : r.needs ≤ m.regs.depth)
    (hroom : (r.act m).2.regs.depth ≤ 0x8004) :
    r.onCells m.stack = some ((r.act m).1, (r.act m).2.stack) := by
  have hone : 1 ≤ m.regs.depth → m.stack = m.regs.ra :: m.stack.drop 1 :=
    Machine.stack_eq_take_append h (by decide)
  have htwo : 2 ≤ m.regs.depth → m.stack = m.regs.ra :: m.regs.rb :: m.stack.drop 2 :=
    Machine.stack_eq_take_append h (by decide)
  cases r with
  | push w =>
      simp only [act, Machine.stack_pushCell h hroom]
      rfl
  | pop =>
      simp only [act, Machine.stack_dropCell h hn]
      rw [hone hn]
      rfl
  | peek =>
      simp only [act]
      rw [hone hn]
      rfl
  | peekSecond =>
      simp only [act]
      rw [htwo hn]
      rfl
  | dropSecond =>
      simp only [act, Machine.stack_dropSecondCell h hn]
      rw [htwo hn]
      rfl
  | replaceTop w =>
      simp only [act, Machine.stack_setTop h _ (by decide : 1 ≤ 4) hn]
      rw [hone hn]
      rfl
  | replaceSecond w =>
      simp only [act, Machine.stack_setTop h _ (by decide : 2 ≤ 4) hn]
      rw [htwo hn]
      rfl
  | pushDouble d =>
      simp only [act, Machine.depth_pushCells] at hroom
      simp only [act, Machine.stack_pushCells h hroom]
      rfl
  | popDouble =>
      simp only [act, Machine.stack_dropCells h (show 2 ≤ m.regs.depth from hn)]
      rw [htwo hn]
      rfl
  | peekDouble =>
      simp only [act]
      rw [htwo hn]
      rfl
  | replaceDouble d =>
      simp only [act, Machine.stack_setTop h _ (by decide : 2 ≤ 4) hn]
      rw [htwo hn]
      rfl

theorem state_act (r : StackRequest) (m : Machine) : (r.act m).2.state = m.state := by
  cases r with
  | pop => exact congrArg Machine.Frame.state (Machine.frame_dropCell m)
  | dropSecond => exact congrArg Machine.Frame.state (Machine.frame_dropSecondCell m)
  | popDouble => exact congrArg Machine.Frame.state (Machine.frame_dropCells m 2)
  | push w | peek | peekSecond | replaceTop w | replaceSecond w | pushDouble d | peekDouble
  | replaceDouble d => rfl

/-- The answers to operations done in turn, and what is left in the end. -/
def answerAll {σ : Type} (answer : StackRequest → σ → Except ExecError StackAnswer × σ) :
    List StackRequest → σ → List (Except ExecError StackAnswer) × σ
  | [], s => ([], s)
  | r :: rest, s =>
    let (first, s) := answer r s
    let (others, s) := answerAll answer rest s
    (first :: others, s)

end StackRequest

/-- A plain list of cells, in use until an operation finds it too short. -/
structure ListStack where
  cells : List Word := []
  state : RunState := .running

def ListStack.answer (r : StackRequest) (s : ListStack) :
    Except ExecError StackAnswer × ListStack :=
  if !s.state.isRunning then (.error (.notRunning s.state.phase), s) else
  match r.onCells s.cells with
  | some (answer, cells) => (.ok answer, { s with cells })
  | none => (.error .stackUnderflow, { s with state := .faulted .stackUnderflow })

namespace Machine

def answer (r : StackRequest) (m : Machine) : Except ExecError StackAnswer × Machine :=
  r.action.perform m

/-- The machine holds the cells of the list and is in the same run state. -/
structure Represents (m : Machine) (s : ListStack) : Prop where
  wellFormed : m.regs.WellFormed
  stack_eq : m.stack = s.cells
  state_eq : m.state = s.state

theorem Fresh.represents {m : Machine} (h : m.Fresh) : m.Represents {} :=
  ⟨h.wellFormed, h.stack_eq, h.state_eq⟩

variable {m : Machine} {s : ListStack}

/-- One operation: the answers agree, and so does what is left. -/
theorem Represents.answer (h : m.Represents s) (r : StackRequest) {n : Nat} (hn : n ≤ 0x8000)
    (hroom : (Machine.answer r m).2.regs.depth ≤ n + 4) :
    (Machine.answer r m).1 = (ListStack.answer r s).1 ∧
      (Machine.answer r m).2.Represents (ListStack.answer r s).2 ∧
      Memory.SameBut n m.memory (Machine.answer r m).2.memory := by
  obtain ⟨hwell, hstack, hstate⟩ := h
  have hrunning : s.state.isRunning = m.isRunning := by rw [← hstate, isRunning]
  have havail := hwell.available_eq
  rw [Machine.answer, r.action_eq] at hroom ⊢
  rw [ListStack.answer, hrunning]
  rcases Bool.eq_false_or_eq_true m.isRunning with hrun | hstop
  · rw [hrun, if_neg (by decide), ← hstack]
    rcases Nat.lt_or_ge m.regs.depth r.needs with hfew | henough
    · have hnone : r.onCells m.stack = none := by
        rw [r.onCells_eq_none_iff, length_stack hwell]
        exact hfew
      rw [perform_checked_underflow hrun (havail ▸ hfew), hnone]
      refine ⟨rfl, ⟨?_, stack_fault m _, state_fault hrun _⟩, ?_⟩
      · rw [regs_fault]
        exact hwell
      · rw [memory_fault]
        exact Memory.SameBut.refl _ _
    · rw [perform_checked_ok hrun (havail ▸ henough)] at hroom ⊢
      have hsome := r.onCells_stack hwell henough (by simp only at hroom; omega)
      rw [hsome]
      exact ⟨rfl, ⟨r.wellFormed_act hwell henough, rfl, (r.state_act m).trans hstate⟩,
        r.sameBut_act hwell hroom⟩
  · rw [hstop, if_pos (by decide), perform_checked_stopped hstop, hstate]
    exact ⟨rfl, ⟨hwell, hstack, hstate⟩, Memory.SameBut.refl _ _⟩

/-- A sequence of operations, by induction on it: `Represents` is what one
operation keeps. -/
theorem Represents.answerAll (h : m.Represents s) (rs : List StackRequest) {n : Nat}
    (hn : n ≤ 0x8000)
    (hroom : ∀ k, (StackRequest.answerAll Machine.answer (rs.take k) m).2.regs.depth ≤ n + 4) :
    (StackRequest.answerAll Machine.answer rs m).1 =
        (StackRequest.answerAll ListStack.answer rs s).1 ∧
      (StackRequest.answerAll Machine.answer rs m).2.Represents
        (StackRequest.answerAll ListStack.answer rs s).2 ∧
      Memory.SameBut n m.memory (StackRequest.answerAll Machine.answer rs m).2.memory := by
  induction rs generalizing m s with
  | nil => exact ⟨rfl, h, Memory.SameBut.refl _ _⟩
  | cons r rs ih =>
      obtain ⟨hfirst, hrep, hsame⟩ := h.answer r hn (hroom 1)
      obtain ⟨hothers, hrep', hsame'⟩ := ih hrep fun k => hroom (k + 1)
      refine ⟨?_, hrep', hsame.trans hsame'⟩
      simp only [StackRequest.answerAll, hfirst, hothers]

/-- Operations on the stack of a machine that has just started are answered as
on a list that starts empty, and the cells left are those of the list, as long
as they fit in the registers and memory. Beyond the registers only the spill
area of the deepest stack so far is written. -/
theorem answers_eq_list_answers (h : m.Fresh) (rs : List StackRequest) {deepest : Nat}
    (hfits : deepest ≤ 0x8004)
    (hdepth : ∀ k, (StackRequest.answerAll Machine.answer (rs.take k) m).2.regs.depth ≤ deepest) :
    let machine := StackRequest.answerAll Machine.answer rs m
    let list := StackRequest.answerAll ListStack.answer rs {}
    machine.1 = list.1 ∧ machine.2.stack = list.2.cells ∧ machine.2.state = list.2.state ∧
      ∀ a, ¬ SpillCell (deepest - 4) a → machine.2.memory.read a = m.memory.read a := by
  intro machine list
  have hroom : ∀ k, (StackRequest.answerAll Machine.answer (rs.take k) m).2.regs.depth ≤
      (deepest - 4) + 4 := fun k => Nat.le_trans (hdepth k) (by omega)
  obtain ⟨hanswers, hrep, hsame⟩ := h.represents.answerAll rs (by omega) hroom
  exact ⟨hanswers, hrep.stack_eq, hrep.state_eq, hsame⟩

/-- Six words through the window and back, until the stack is empty. -/
theorem answers_eq_list_answers_six :
    let rs : List StackRequest := [.push 1, .push 2, .push 3, .push 4, .push 5, .push 6,
      .dropSecond, .peekSecond, .popDouble, .popDouble, .pop, .pop, .push 7]
    (∀ k, (StackRequest.answerAll Machine.answer (rs.take k) {}).2.regs.depth ≤ 6) ∧
      (StackRequest.answerAll Machine.answer rs {}).1 =
        [.ok .done, .ok .done, .ok .done, .ok .done, .ok .done, .ok .done, .ok .done,
          .ok (.word 4), .ok (.double 0x00040006), .ok (.double 0x00020003), .ok (.word 1),
          .error .stackUnderflow, .error (.notRunning .error)] := by
  intro rs
  have hdepth : ∀ k, (StackRequest.answerAll Machine.answer (rs.take k) {}).2.regs.depth ≤ 6 := by
    have hshort : ∀ k ≤ 13,
        (StackRequest.answerAll Machine.answer (rs.take k) {}).2.regs.depth ≤ 6 := by decide
    intro k
    rcases Nat.le_total k 13 with hk | hk
    · exact hshort k hk
    · have htake : rs.take k = rs.take 13 :=
        (List.take_of_length_le hk).trans (List.take_of_length_le (Nat.le_refl 13)).symm
      rw [htake]
      exact hshort 13 (Nat.le_refl 13)
  exact ⟨hdepth, (answers_eq_list_answers .new rs (by decide) hdepth).1.trans rfl⟩

end Machine

end StackComputer
