import StackComputer.Proofs.OpcodeLocality

/-!
# Operands replaced by results

Cells that are taken from the stack and as many or fewer pushed in their place
leave memory as it was, however deep the stack is. What such an effect does is
therefore known even where the spilled cells have come round to their start.
-/

namespace StackComputer

theorem Memory.write_read_self (m : Memory) (a : Word) : m.write a (m.read a) = m := by
  simp [write, read]

/-- The window with `w` at a position. -/
def Registers.setCell (r : Registers) : Nat → Word → Registers
  | 0, w => { r with ra := w }
  | 1, w => { r with rb := w }
  | 2, w => { r with rc := w }
  | _, w => { r with rd := w }

namespace Machine

variable {m : Machine}

def setCell (m : Machine) (i : Nat) (w : Word) : Machine :=
  { m with regs := m.regs.setCell i w }

@[simp] theorem depth_setCell (m : Machine) (i : Nat) (w : Word) :
    (m.setCell i w).regs.depth = m.regs.depth := by
  match i with
  | 0 | 1 | 2 | _ + 3 => rfl

theorem wellFormed_setCell (h : m.regs.WellFormed) {i : Nat} (hi : i < m.regs.depth) (hlt : i < 4)
    (w : Word) : (m.setCell i w).regs.WellFormed := by
  have hsr := h.sr_eq
  have hcell : ∀ j, i ≠ j → j < 4 → (m.setCell i w).regs.cell j = m.regs.cell j := by
    intro j hne hj
    match i, j with
    | 0, 0 | 1, 1 | 2, 2 | 3, 3 => exact absurd rfl hne
    | 0, 1 | 0, 2 | 0, 3 | 1, 0 | 1, 2 | 1, 3 | 2, 0 | 2, 1 | 2, 3 | 3, 0 | 3, 1 | 3, 2 => rfl
  have hvacant : ∀ j, m.regs.sr ≤ j → j < 4 → (m.setCell i w).regs.cell j = 0 := by
    intro j hle hj
    rw [hcell j (by omega) hj]
    exact h.vacant j hle hj
  match i, hlt with
  | 0, _ | 1, _ | 2, _ | 3, _ => exact ⟨hsr, hvacant, h.sm_eq, h.pc_eq⟩

theorem stack_setCell (h : m.regs.WellFormed) {i : Nat} (hi : i < m.regs.depth) (hlt : i < 4)
    (w : Word) : (m.setCell i w).stack = m.stack.set i w := by
  have hsr := h.sr_eq
  have hcases : i = 0 ∨ i = 1 ∨ i = 2 ∨ i = 3 := by omega
  have hwindow : (m.setCell i w).regs.window = m.regs.window.set i w := by
    rcases hcases with rfl | rfl | rfl | rfl <;> rfl
  have hlen : i < (m.regs.window.take m.regs.sr).length := by
    simp only [Registers.window, List.length_take, List.length_cons, List.length_nil]
    omega
  have hstack : (m.setCell i w).stack = (m.setCell i w).regs.window.take m.regs.sr ++
      m.memory.readBlock m.regs.sm (m.regs.depth - m.regs.sr) := by
    rcases hcases with rfl | rfl | rfl | rfl <;> rfl
  rw [hstack, hwindow, stack, List.set_append_left _ _ hlen, List.take_set]

/-- A cell pushed where one was dropped stands in its place. The word it spills,
if any, is the one that was brought back. -/
theorem pushCell_dropCell (h : m.regs.WellFormed) (hpos : 0 < m.regs.depth) (w : Word) :
    m.dropCell.pushCell w = m.setCell 0 w := by
  have hsr := h.sr_eq
  have hdepth : m.regs.depth - 1 + 1 = m.regs.depth := Nat.sub_add_cancel hpos
  by_cases hdeep : 4 < m.regs.depth
  · have hfull : m.regs.sr = 4 := by omega
    obtain ⟨n, hn⟩ : ∃ n, m.regs.depth = n + 5 := ⟨m.regs.depth - 5, by omega⟩
    have hsm : ((m.regs.sm + 1).address - 1).address = m.regs.sm := by
      rw [h.sm_eq, hn]
      exact (congrArg (fun p => (p - 1).address) (spillPointer_add_one n)).trans
        (spillPointer_sub_one n)
    have hdrop : m.dropCell = { m with regs := { m.regs with
        ra := m.regs.rb, rb := m.regs.rc, rc := m.regs.rd, rd := m.memory.read m.regs.sm,
        sm := (m.regs.sm + 1).address, depth := m.regs.depth - 1 } } := if_pos ⟨hfull, hdeep⟩
    have hmin : min (m.regs.sr + 1) 4 = m.regs.sr := by omega
    simp only [hdrop, pushCell, if_pos hfull, hsm, Memory.write_read_self, hmin, hdepth]
    rfl
  · have hdrop : m.dropCell = { m with regs := { m.regs with
        ra := m.regs.rb, rb := m.regs.rc, rc := m.regs.rd, rd := 0,
        sr := m.regs.sr - 1, depth := m.regs.depth - 1 } } := if_neg fun hboth => hdeep hboth.2
    have hroom : m.regs.sr - 1 ≠ 4 := by omega
    have hmin : min (m.regs.sr - 1 + 1) 4 = m.regs.sr := by omega
    simp only [hdrop, pushCell, if_neg hroom, hmin, hdepth]
    rfl

theorem dropCell_setCell (m : Machine) {i : Nat} (hi : i < 3) (w : Word) :
    (m.setCell (i + 1) w).dropCell = m.dropCell.setCell i w := by
  match i, hi with
  | 0, _ | 1, _ | 2, _ =>
      simp only [dropCell, refill, setCell, Registers.setCell]
      split <;> rfl

theorem dropCells_setCell (m : Machine) {n i : Nat} (hi : n + i < 4) (w : Word) :
    (m.setCell (n + i) w).dropCells n = (m.dropCells n).setCell i w := by
  induction n generalizing m with
  | zero => rw [Nat.zero_add, dropCells, dropCells]
  | succ n ih =>
      have hmove : n + 1 + i = n + i + 1 := by omega
      rw [hmove, dropCells, dropCell_setCell m (by omega), ih _ (by omega), dropCells]

theorem dropCells_succ (m : Machine) (n : Nat) :
    m.dropCells (n + 1) = (m.dropCells n).dropCell := by
  induction n generalizing m with
  | zero => rfl
  | succ n ih => rw [dropCells, ih, dropCells]

/-- The first word pushed takes the place of the last cell taken. -/
theorem pushCells_dropCells_succ (h : m.regs.WellFormed) {n : Nat} (hn : n < 4)
    (hd : n < m.regs.depth) (w : Word) (ws : List Word) :
    (m.dropCells (n + 1)).pushCells (w :: ws) = ((m.setCell n w).dropCells n).pushCells ws := by
  have hdrop := wellFormed_dropCells h (Nat.le_of_lt hd)
  have hpos : 0 < (m.dropCells n).regs.depth := by
    rw [depth_dropCells]
    omega
  have hset := dropCells_setCell m (n := n) (i := 0) hn w
  rw [pushCells, List.foldl_cons, ← pushCells, dropCells_succ, pushCell_dropCell hdrop hpos, ← hset,
    Nat.add_zero]

/-- Words pushed in place of as many cells or more stand above the cells that
were left, and no memory is written. -/
theorem pushCells_dropCells (h : m.regs.WellFormed) {n : Nat} (hn : n ≤ 4)
    (hd : n ≤ m.regs.depth) {ws : List Word} (hws : ws.length ≤ n) :
    ((m.dropCells n).pushCells ws).stack = ws.reverse ++ m.stack.drop n ∧
      ((m.dropCells n).pushCells ws).memory = m.memory := by
  induction ws generalizing m n with
  | nil => exact ⟨stack_dropCells h hd, memory_dropCells m n⟩
  | cons w ws ih =>
      rw [List.length_cons] at hws
      obtain ⟨n, rfl⟩ : ∃ k, n = k + 1 := ⟨n - 1, by omega⟩
      have hset := wellFormed_setCell h hd hn w
      have hleft : n ≤ (m.setCell n w).regs.depth := by
        rw [depth_setCell]
        exact Nat.le_of_succ_le hd
      obtain ⟨hstack, hmemory⟩ := ih hset (Nat.le_of_succ_le hn) hleft (Nat.le_of_succ_le_succ hws)
      have hlen : n < m.stack.length := by
        rw [length_stack h]
        exact hd
      rw [pushCells_dropCells_succ h hn hd]
      refine ⟨?_, hmemory⟩
      calc (((m.setCell n w).dropCells n).pushCells ws).stack
          = ws.reverse ++ (m.stack.set n w).drop n := by rw [hstack, stack_setCell h hd hn]
        _ = ws.reverse ++ w :: m.stack.drop (n + 1) := by
            rw [List.drop_set, if_neg (Nat.lt_irrefl n), Nat.sub_self,
              List.drop_eq_getElem_cons hlen, List.set_cons_zero]
        _ = (w :: ws).reverse ++ m.stack.drop (n + 1) := by
            rw [List.reverse_cons, List.append_assoc, List.singleton_append]

/-- The second machine is the first one with some words, the topmost first, in
place of its top `n` cells, and with new latches. Those words are in the
registers. What lies below them is one list, and memory is as it was, if the
register file was well formed. -/
structure Yields (before : Machine) (n : Nat) (ws : List Word) (l : Latches)
    (after : Machine) : Prop where
  occupied : ws.length ≤ after.regs.sr
  window_eq : after.regs.window.take ws.length = ws
  frame_eq : after.frame = { before.frame with x := l.x, sta := l.sta }
  wellFormed : before.regs.WellFormed → after.regs.WellFormed
  stack_eq : before.regs.WellFormed → after.stack = ws ++ before.stack.drop n
  memory_eq : before.regs.WellFormed → after.memory = before.memory

theorem sr_pushCells (m : Machine) {ws : List Word} (hws : ws.length ≤ 4) :
    ws.length ≤ (m.pushCells ws).regs.sr := by
  have hmin : ∀ m : Machine, min (m.regs.sr + ws.length) 4 ≤ (m.pushCells ws).regs.sr := by
    clear hws
    induction ws with
    | nil => exact fun m => Nat.min_le_left _ _
    | cons w ws ih =>
        intro m
        have hpush : (m.pushCell w).regs.sr = min (m.regs.sr + 1) 4 := rfl
        refine Nat.le_trans ?_ (ih (m.pushCell w))
        rw [hpush, List.length_cons]
        omega
  have hle := hmin m
  omega

theorem window_pushCells (m : Machine) (ws : List Word) :
    (m.pushCells ws).regs.window = (ws.reverse ++ m.regs.window).take 4 := by
  induction ws generalizing m with
  | nil => rfl
  | cons w ws ih =>
      have hwindow : (m.pushCell w).regs.window = (w :: m.regs.window).take 4 := rfl
      rw [pushCells, List.foldl_cons, ← pushCells, ih, hwindow, List.reverse_cons,
        List.append_assoc, List.singleton_append]
      rw [List.take_append, List.take_append, List.take_take, Nat.min_eq_left (Nat.sub_le _ _)]

theorem pushCells_record (m : Machine) (e : Event) (ws : List Word) :
    (m.record e).pushCells ws = (m.pushCells ws).record e := by
  induction ws generalizing m with
  | nil => rfl
  | cons w ws ih => exact ih (m.pushCell w)

/-- Apart from the journal, settling an outcome pushes its results and sets the
latches. -/
theorem settle_eq (m : Machine) (o : Outcome) :
    (m.settle o).regs = ((m.pushCells o.pushed).setLatches o.latches).regs ∧
      (m.settle o).memory = (m.pushCells o.pushed).memory := by
  rw [settle]
  cases o.range with
  | none => exact ⟨rfl, rfl⟩
  | some cause =>
      dsimp only
      rw [pushCells_record]
      exact ⟨rfl, rfl⟩

theorem le_depth_of_available (h : m.regs.WellFormed) {n : Nat} (hn : n ≤ m.regs.available) :
    n ≤ m.regs.depth :=
  h.available_eq ▸ hn

theorem yields_settle {n : Nat} {o : Outcome} (hn : n ≤ 4) (hk : n ≤ m.regs.available)
    (hlen : o.pushed.length ≤ n) :
    m.Yields n o.pushed.reverse o.latches ((m.dropCells n).settle o) := by
  have hfour := Nat.le_trans hlen hn
  obtain ⟨hregs, hmemory⟩ := settle_eq (m.dropCells n) o
  refine ⟨?_, ?_, ?_, fun h => ?_, fun h => ?_, fun h => ?_⟩
  · rw [hregs, List.length_reverse]
    exact sr_pushCells _ hfour
  · have hwindow : ((m.dropCells n).settle o).regs.window =
        ((m.dropCells n).pushCells o.pushed).regs.window := by
      rw [hregs]
      rfl
    rw [hwindow, window_pushCells, List.take_take, List.length_reverse, Nat.min_eq_left hfour,
      List.take_left' List.length_reverse]
  · rw [frame_settle, frame_dropCells]
  · exact wellFormed_settle (wellFormed_dropCells h (le_depth_of_available h hk)) o
  · have hstack : ((m.dropCells n).settle o).stack =
        ((m.dropCells n).pushCells o.pushed).stack := by
      rw [stack, stack, hregs, hmemory]
      rfl
    rw [hstack, (pushCells_dropCells h hn (le_depth_of_available h hk) hlen).1]
  · rw [hmemory, (pushCells_dropCells h hn (le_depth_of_available h hk) hlen).2]

section

variable {e : Effect} {n : Nat} {ws : List Word} {l : Latches}

theorem yields_replace {f : Cells n → Latches → Outcome} (he : e = .replace n f) (hn : n ≤ 4)
    (hk : n ≤ m.regs.available) (hws : (f (m.regs.top n) m.latches).pushed = ws.reverse)
    (hl : (f (m.regs.top n) m.latches).latches = l) (hlen : ws.length ≤ n) :
    m.Yields n ws l (e.act m) := by
  have hpushed : (f (m.regs.top n) m.latches).pushed.length ≤ n := by
    rw [hws, List.length_reverse]
    exact hlen
  have hyields := yields_settle hn hk hpushed
  rw [hws, hl, List.reverse_reverse] at hyields
  rw [he, Effect.act, latches_eq_of_frame (frame_dropCells m n)]
  exact hyields

theorem yields_update {f : Cells n → Latches → Cells n × Latches} (he : e = .update n f)
    (hn : n ≤ 4) (hk : n ≤ m.regs.available)
    (hws : (f (m.regs.top n) m.latches).1.toList = ws)
    (hl : (f (m.regs.top n) m.latches).2 = l) : m.Yields n ws l (e.act m) := by
  rw [he, ← hws, ← hl]
  refine ⟨?_, ?_, rfl, fun h => ?_, fun h => ?_, fun _ => rfl⟩
  · have hsr : n ≤ m.regs.sr := by
      rw [Registers.available] at hk
      split at hk <;> omega
    rw [Vector.length_toList]
    exact hsr
  · have hwindow := window_setTop m.regs (f (m.regs.top n) m.latches).1 hn
    rw [Vector.length_toList]
    exact (congrArg (List.take n) hwindow).trans (List.take_left' Vector.length_toList)
  · exact (wellFormed_setTop h _ (le_depth_of_available h hk)).latches _ _
  · exact stack_setTop h _ hn (le_depth_of_available h hk)

end

namespace Yields

variable {m₁ m₂ : Machine} {n k : Nat} {ws vs : List Word} {l₁ l₂ : Latches}

theorem latches_eq (h : m.Yields n ws l₁ m₁) : m₁.latches = l₁ := by
  have hx : m₁.regs.x = l₁.x := congrArg Frame.x h.frame_eq
  have hsta : m₁.regs.sta = l₁.sta := congrArg Frame.sta h.frame_eq
  rw [latches, hx, hsta]

theorem isRunning_eq (h : m.Yields n ws l₁ m₁) : m₁.isRunning = m.isRunning :=
  congrArg (RunState.isRunning ∘ Frame.state) h.frame_eq

theorem length_le_available (h : m.Yields n ws l₁ m₁) : ws.length ≤ m₁.regs.available := by
  have hoccupied := h.occupied
  rw [Registers.available]
  split <;> omega

theorem join_eq {d : Dword} (h : m.Yields n [d.low, d.high] l₁ m₁) :
    Dword.join m₁.regs.rb m₁.regs.ra = d := by
  obtain ⟨ha, htail⟩ := List.cons_eq_cons.mp h.window_eq
  obtain ⟨hb, -⟩ := List.cons_eq_cons.mp htail
  rw [ha, hb, Dword.join_high_low]

/-- What the first step left may be what the second one takes. -/
theorem trans (h₁ : m.Yields n ws l₁ m₁) (h₂ : m₁.Yields ws.length vs l₂ m₂) :
    m.Yields n vs l₂ m₂ where
  occupied := h₂.occupied
  window_eq := h₂.window_eq
  frame_eq := by rw [h₂.frame_eq, h₁.frame_eq]
  wellFormed h := h₂.wellFormed (h₁.wellFormed h)
  stack_eq h := by rw [h₂.stack_eq (h₁.wellFormed h), h₁.stack_eq h, List.drop_left]
  memory_eq h := by rw [h₂.memory_eq (h₁.wellFormed h), h₁.memory_eq h]

end Yields

end Machine

end StackComputer
