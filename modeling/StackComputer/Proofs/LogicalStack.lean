import StackComputer.Proofs.SpillArea

/-!
# The logical stack

The operand stack as one list, top first: the occupied registers, then the
spilled cells. While the register file is well formed and the spill area has
not come round to its start, pushing and dropping act on this list alone.
-/

namespace StackComputer

namespace Registers

/-- What every operation keeps of the register file: the window holds as many
cells as it can, its vacant positions are zero, and the spill pointer and P are
addresses, the former determined by the depth. -/
structure WellFormed (r : Registers) : Prop where
  sr_eq : r.sr = min r.depth 4
  vacant : ∀ i, r.sr ≤ i → i < 4 → r.cell i = 0
  sm_eq : r.sm = spillPointer (r.depth - 4)
  pc_eq : r.pc.address = r.pc

theorem wellFormed_start (a : Word) : (start a).WellFormed where
  sr_eq := rfl
  vacant i _ hi := by
    match i with
    | 0 | 1 | 2 | 3 => rfl
  sm_eq := spillPointer_zero.symm
  pc_eq := Word.address_address a

theorem WellFormed.available_eq {r : Registers} (h : r.WellFormed) : r.available = r.depth := by
  have hsr := h.sr_eq
  unfold available
  split <;> omega

theorem WellFormed.jump {r : Registers} (h : r.WellFormed) (a : Word) :
    (r.jump a).WellFormed where
  sr_eq := h.sr_eq
  vacant := h.vacant
  sm_eq := h.sm_eq
  pc_eq := Word.address_address a

end Registers

namespace Machine

/-- What traffic on the operand stack leaves alone. -/
structure Frame where
  pc : Word
  x : Word
  db : Word
  pb : Word
  pl : Word
  sta : Status
  state : RunState
  cycles : Nat
  last : Option Instruction

def frame (m : Machine) : Frame where
  pc := m.regs.pc
  x := m.regs.x
  db := m.regs.db
  pb := m.regs.pb
  pl := m.regs.pl
  sta := m.regs.sta
  state := m.state
  cycles := m.cycles
  last := m.last

/-- The cells of the operand stack, the top first. -/
def stack (m : Machine) : List Word :=
  m.regs.window.take m.regs.sr ++ m.memory.readBlock m.regs.sm (m.regs.depth - m.regs.sr)

/-- A machine as it starts. -/
inductive Fresh : Machine → Prop
  | new : Fresh {}
  | reset (m : Machine) (a : Word) : Fresh (m.reset a)

variable {m : Machine}

theorem Fresh.wellFormed (h : m.Fresh) : m.regs.WellFormed := by
  cases h with
  | new => exact Registers.wellFormed_start 0
  | reset m a => exact Registers.wellFormed_start a

theorem Fresh.stack_eq (h : m.Fresh) : m.stack = [] := by
  cases h <;> rfl

theorem Fresh.state_eq (h : m.Fresh) : m.state = .running := by
  cases h <;> rfl

@[simp] theorem regs_fault (m : Machine) (e : ExecError) : (m.fault e).regs = m.regs := by
  simp only [fault]
  split <;> rfl

@[simp] theorem memory_fault (m : Machine) (e : ExecError) : (m.fault e).memory = m.memory := by
  simp only [fault]
  split <;> rfl

theorem state_fault (hrun : m.isRunning = true) (e : ExecError) :
    (m.fault e).state = .faulted e := by
  rw [fault, if_pos hrun]
  rfl

@[simp] theorem stack_fault (m : Machine) (e : ExecError) : (m.fault e).stack = m.stack := by
  rw [stack, stack, regs_fault, memory_fault]

theorem stack_eq (h : m.regs.WellFormed) :
    m.stack = m.regs.window.take m.regs.depth ++ m.memory.spilled (m.regs.depth - 4) := by
  have htake : m.regs.window.take m.regs.sr = m.regs.window.take m.regs.depth := by
    rw [h.sr_eq, List.take_eq_take_iff]
    simp only [Registers.window, List.length_cons, List.length_nil]
    omega
  have hdeep : m.regs.depth - m.regs.sr = m.regs.depth - 4 := by
    have hsr := h.sr_eq
    omega
  rw [stack, htake, h.sm_eq, hdeep, Memory.spilled]

theorem length_stack (h : m.regs.WellFormed) : m.stack.length = m.regs.depth := by
  rw [stack_eq h, List.length_append, List.length_take, Memory.length_spilled]
  simp only [Registers.window, List.length_cons, List.length_nil]
  omega

/-- The stack of a window that has nothing below it. -/
theorem stack_eq_of_le (h : m.regs.WellFormed) (hd : m.regs.depth ≤ 4) :
    m.stack = m.regs.window.take m.regs.depth := by
  rw [stack_eq h, Nat.sub_eq_zero_of_le hd, Memory.spilled_zero, List.append_nil]

/-- The stack of a full window with `n` cells below it. -/
theorem stack_eq_of_add (h : m.regs.WellFormed) {n : Nat} (hd : m.regs.depth = n + 4) :
    m.stack = m.regs.window ++ m.memory.spilled n := by
  rw [stack_eq h, hd, List.take_of_length_le (Nat.le_add_left 4 n), Nat.add_sub_cancel]

theorem wellFormed_pushCell (h : m.regs.WellFormed) (w : Word) :
    (m.pushCell w).regs.WellFormed where
  sr_eq := by
    have hsr := h.sr_eq
    simp only [pushCell]
    omega
  vacant i hi hlt := by
    have hcell : ∀ j, j + 1 = i → (m.pushCell w).regs.cell i = m.regs.cell j := by
      rintro j rfl
      match j with
      | 0 | 1 | 2 => rfl
    simp only [pushCell] at hi
    obtain ⟨j, rfl⟩ : ∃ j, j + 1 = i := ⟨i - 1, by omega⟩
    rw [hcell j rfl]
    exact h.vacant j (by omega) (by omega)
  sm_eq := by
    have hsr := h.sr_eq
    simp only [pushCell]
    split
    · rw [h.sm_eq, spillPointer_sub_one]
      congr 1
      omega
    · rw [h.sm_eq]
      congr 1
      omega
  pc_eq := h.pc_eq

theorem stack_pushCell (h : m.regs.WellFormed) (hd : m.regs.depth < 0x8004) (w : Word) :
    (m.pushCell w).stack = w :: m.stack := by
  have hpush := wellFormed_pushCell h w
  have hsr := h.sr_eq
  -- A full window spills RD, in front of the cells spilled before.
  rcases Nat.lt_or_ge m.regs.depth 4 with hlt | hge
  · rw [stack_eq_of_le hpush hlt, stack_eq_of_le h (Nat.le_of_lt hlt)]
    have hdepth : (m.pushCell w).regs.depth = m.regs.depth + 1 := rfl
    have hwindow : (m.pushCell w).regs.window = w :: m.regs.window.take 3 := rfl
    rw [hdepth, hwindow, List.take_succ_cons, List.take_take, Nat.min_eq_left (by omega)]
  · obtain ⟨n, hn⟩ : ∃ n, m.regs.depth = n + 4 := ⟨m.regs.depth - 4, by omega⟩
    have hsm : (m.regs.sm - 1).address = spillPointer (n + 1) := by
      rw [h.sm_eq, hn, Nat.add_sub_cancel, spillPointer_sub_one]
    have hmemory : (m.pushCell w).memory =
        m.memory.write (spillPointer (n + 1)) m.regs.rd := by
      simp only [pushCell, if_pos (show m.regs.sr = 4 by omega), hsm]
    have hdepth : (m.pushCell w).regs.depth = (n + 1) + 4 := by
      simp only [pushCell, hn]
    rw [stack_eq_of_add hpush hdepth, stack_eq_of_add h hn, hmemory,
      Memory.spilled_write_succ _ _ (by omega)]
    rfl

/-! ## Dropping cells -/

theorem wellFormed_refill (h : m.regs.WellFormed) (hpos : 0 < m.regs.depth) {a b : Word}
    (ha : m.regs.sr ≤ 1 → a = 0) (hb : m.regs.sr ≤ 2 → b = 0) :
    (refill { m with
      regs := { m.regs with ra := a, rb := b, rc := m.regs.rd } }).regs.WellFormed := by
  have hsr := h.sr_eq
  by_cases hdeep : 4 < m.regs.depth
  · rw [refill, if_pos ⟨by simp only; omega, hdeep⟩]
    refine ⟨?_, ?_, ?_, h.pc_eq⟩
    · simp only
      omega
    · intro i hi hlt
      simp only at hi
      omega
    · obtain ⟨n, hn⟩ : ∃ n, m.regs.depth = n + 5 := ⟨m.regs.depth - 5, by omega⟩
      simp only [h.sm_eq, hn, Nat.add_sub_cancel, Nat.reduceSubDiff]
      exact spillPointer_add_one n
  · rw [refill, if_neg (fun hboth => hdeep hboth.2)]
    refine ⟨?_, ?_, ?_, h.pc_eq⟩
    · simp only
      omega
    · intro i hi hlt
      simp only at hi
      match i with
      | 0 => exact ha (by omega)
      | 1 => exact hb (by omega)
      | 2 => exact h.vacant 3 (by omega) (by omega)
      | 3 => rfl
    · simp only [h.sm_eq]
      congr 1
      omega

theorem stack_refill (h : m.regs.WellFormed) (hpos : 0 < m.regs.depth) {a b : Word}
    (ha : m.regs.sr ≤ 1 → a = 0) (hb : m.regs.sr ≤ 2 → b = 0) :
    (refill { m with regs := { m.regs with ra := a, rb := b, rc := m.regs.rd } }).stack =
      [a, b, m.regs.rd].take (m.regs.depth - 1) ++ m.memory.spilled (m.regs.depth - 4) := by
  have hsr := h.sr_eq
  have hnew := wellFormed_refill h hpos ha hb
  -- Either RD is filled from memory, or nothing lies there and RD falls vacant.
  by_cases hdeep : 4 < m.regs.depth
  · obtain ⟨n, hn⟩ : ∃ n, m.regs.depth = n + 5 := ⟨m.regs.depth - 5, by omega⟩
    rw [stack_eq hnew]
    rw [refill, if_pos ⟨by simp only; omega, hdeep⟩]
    have hshort : [a, b, m.regs.rd].length ≤ n + 4 := Nat.le_add_left 3 (n + 1)
    simp only [h.sm_eq, hn, Nat.add_sub_cancel, Nat.reduceSubDiff, Registers.window,
      Memory.spilled_succ, List.take_of_length_le hshort]
    rw [List.take_of_length_le (Nat.le_add_left 4 n)]
    rfl
  · rw [stack_eq hnew]
    rw [refill, if_neg (fun hboth => hdeep hboth.2)]
    have hnone : m.regs.depth - 1 - 4 = 0 := by omega
    have hnone' : m.regs.depth - 4 = 0 := by omega
    simp only [hnone, hnone', Memory.spilled_zero, List.append_nil, Registers.window]
    have hlen : m.regs.depth - 1 ≤ [a, b, m.regs.rd].length := by
      simp only [List.length_cons, List.length_nil]
      omega
    change ([a, b, m.regs.rd] ++ [0]).take (m.regs.depth - 1) = _
    exact List.take_append_of_le_length hlen

/-- A nonempty stack, its top cell apart. -/
theorem stack_eq_cons (h : m.regs.WellFormed) (hpos : 0 < m.regs.depth) :
    m.stack = m.regs.ra :: ([m.regs.rb, m.regs.rc, m.regs.rd].take (m.regs.depth - 1) ++
      m.memory.spilled (m.regs.depth - 4)) := by
  obtain ⟨n, hn⟩ : ∃ n, m.regs.depth = n + 1 := ⟨m.regs.depth - 1, by omega⟩
  rw [stack_eq h, hn]
  rfl

theorem wellFormed_dropCell (h : m.regs.WellFormed) (hpos : 0 < m.regs.depth) :
    m.dropCell.regs.WellFormed :=
  wellFormed_refill h hpos (fun hsr => h.vacant 1 hsr (by decide))
    (fun hsr => h.vacant 2 hsr (by decide))

theorem stack_dropCell (h : m.regs.WellFormed) (hpos : 0 < m.regs.depth) :
    m.dropCell.stack = m.stack.tail := by
  rw [stack_eq_cons h hpos, List.tail_cons]
  exact stack_refill h hpos (fun hsr => h.vacant 1 hsr (by decide))
    (fun hsr => h.vacant 2 hsr (by decide))

theorem wellFormed_dropSecondCell (h : m.regs.WellFormed) (htwo : 2 ≤ m.regs.depth) :
    m.dropSecondCell.regs.WellFormed := by
  have hsr := h.sr_eq
  exact wellFormed_refill h (by omega) (fun hle => by omega)
    (fun hle => h.vacant 2 hle (by decide))

theorem stack_dropSecondCell (h : m.regs.WellFormed) (htwo : 2 ≤ m.regs.depth) :
    m.dropSecondCell.stack = m.stack.eraseIdx 1 := by
  have hsr := h.sr_eq
  obtain ⟨n, hn⟩ : ∃ n, m.regs.depth = n + 2 := ⟨m.regs.depth - 2, by omega⟩
  have hdrop : m.dropSecondCell.stack = [m.regs.ra, m.regs.rc, m.regs.rd].take (m.regs.depth - 1) ++
      m.memory.spilled (m.regs.depth - 4) :=
    stack_refill h (by omega) (fun hle => by omega) (fun hle => h.vacant 2 hle (by decide))
  rw [hdrop, stack_eq_cons h (by omega), hn]
  rfl

theorem depth_dropCell (m : Machine) : m.dropCell.regs.depth = m.regs.depth - 1 := by
  simp only [dropCell, refill]
  split <;> rfl

theorem wellFormed_dropCells (h : m.regs.WellFormed) {n : Nat} (hn : n ≤ m.regs.depth) :
    (m.dropCells n).regs.WellFormed := by
  induction n generalizing m with
  | zero => exact h
  | succ n ih =>
      apply ih (wellFormed_dropCell h (by omega))
      rw [depth_dropCell]
      omega

theorem stack_dropCells (h : m.regs.WellFormed) {n : Nat} (hn : n ≤ m.regs.depth) :
    (m.dropCells n).stack = m.stack.drop n := by
  induction n generalizing m with
  | zero => rfl
  | succ n ih =>
      have hle : n ≤ m.dropCell.regs.depth := by
        rw [depth_dropCell]
        omega
      rw [dropCells, ih (wellFormed_dropCell h (by omega)) hle, stack_dropCell h (by omega),
        List.drop_tail]

/-! ## Several cells at once -/

@[simp] theorem depth_pushCells (m : Machine) (ws : List Word) :
    (m.pushCells ws).regs.depth = m.regs.depth + ws.length := by
  induction ws generalizing m with
  | nil => rfl
  | cons w ws ih =>
      rw [pushCells, List.foldl_cons, ← pushCells, ih, List.length_cons]
      simp only [pushCell]
      omega

theorem wellFormed_pushCells (h : m.regs.WellFormed) (ws : List Word) :
    (m.pushCells ws).regs.WellFormed := by
  induction ws generalizing m with
  | nil => exact h
  | cons w ws ih => exact ih (wellFormed_pushCell h w)

theorem stack_pushCells (h : m.regs.WellFormed) {ws : List Word}
    (hd : m.regs.depth + ws.length ≤ 0x8004) :
    (m.pushCells ws).stack = ws.reverse ++ m.stack := by
  induction ws generalizing m with
  | nil => rfl
  | cons w ws ih =>
      have hdepth : (m.pushCell w).regs.depth = m.regs.depth + 1 := rfl
      rw [List.length_cons] at hd
      rw [pushCells, List.foldl_cons, ← pushCells, ih (wellFormed_pushCell h w) (by omega),
        stack_pushCell h (by omega), List.reverse_cons, List.append_assoc]
      rfl

theorem frame_dropCell (m : Machine) : m.dropCell.frame = m.frame := by
  simp only [dropCell, refill]
  split <;> rfl

theorem frame_dropSecondCell (m : Machine) : m.dropSecondCell.frame = m.frame := by
  simp only [dropSecondCell, refill]
  split <;> rfl

@[simp] theorem frame_dropCells (m : Machine) (n : Nat) : (m.dropCells n).frame = m.frame := by
  induction n generalizing m with
  | zero => rfl
  | succ n ih => rw [dropCells, ih, frame_dropCell]

@[simp] theorem frame_pushCells (m : Machine) (ws : List Word) :
    (m.pushCells ws).frame = m.frame := by
  induction ws generalizing m with
  | nil => rfl
  | cons w ws ih => exact ih (m.pushCell w)

theorem memory_dropCell (m : Machine) : m.dropCell.memory = m.memory := by
  simp only [dropCell, refill]
  split <;> rfl

theorem memory_dropSecondCell (m : Machine) : m.dropSecondCell.memory = m.memory := by
  simp only [dropSecondCell, refill]
  split <;> rfl

@[simp] theorem memory_dropCells (m : Machine) (n : Nat) : (m.dropCells n).memory = m.memory := by
  induction n generalizing m with
  | zero => rfl
  | succ n ih => rw [dropCells, ih, memory_dropCell]

theorem sameBut_pushCell (h : m.regs.WellFormed) (w : Word) {n : Nat}
    (hn : m.regs.depth + 1 ≤ n + 4) : Memory.SameBut n m.memory (m.pushCell w).memory := by
  have hsr := h.sr_eq
  simp only [pushCell]
  split
  · rw [h.sm_eq, spillPointer_sub_one]
    exact Memory.sameBut_write _ _ (by omega) (by omega)
  · exact Memory.SameBut.refl _ _

theorem sameBut_pushCells (h : m.regs.WellFormed) {ws : List Word} {n : Nat}
    (hn : m.regs.depth + ws.length ≤ n + 4) :
    Memory.SameBut n m.memory (m.pushCells ws).memory := by
  induction ws generalizing m with
  | nil => exact Memory.SameBut.refl _ _
  | cons w ws ih =>
      rw [List.length_cons] at hn
      apply (sameBut_pushCell h w (by omega)).trans
      apply ih (wellFormed_pushCell h w)
      simp only [pushCell]
      omega

/-! ## The top of the stack -/

theorem toList_top_eq_take (r : Registers) {n : Nat} (hn : n ≤ 4) :
    (r.top n).toList = r.window.take n := by
  rw [Registers.top, Vector.toList_ofFn]
  match n with
  | 0 | 1 | 2 | 3 | 4 => rfl

theorem take_stack (h : m.regs.WellFormed) {n : Nat} (hn : n ≤ 4) (hd : n ≤ m.regs.depth) :
    m.stack.take n = m.regs.window.take n := by
  have hlen : n ≤ (m.regs.window.take m.regs.depth).length := by
    simp only [Registers.window, List.length_take, List.length_cons, List.length_nil]
    omega
  rw [stack_eq h, List.take_append_of_le_length hlen, List.take_take, Nat.min_eq_left hd]

theorem toList_top (h : m.regs.WellFormed) {n : Nat} (hn : n ≤ 4) (hd : n ≤ m.regs.depth) :
    (m.regs.top n).toList = m.stack.take n := by
  rw [toList_top_eq_take m.regs hn, take_stack h hn hd]

theorem stack_eq_take_append (h : m.regs.WellFormed) {n : Nat} (hn : n ≤ 4)
    (hd : n ≤ m.regs.depth) : m.stack = m.regs.window.take n ++ m.stack.drop n := by
  rw [← take_stack h hn hd, List.take_append_drop]

theorem window_setTop (r : Registers) {n : Nat} (cells : Cells n) (hn : n ≤ 4) :
    (r.setTop cells).window = cells.toList ++ r.window.drop n := by
  obtain ⟨⟨l⟩, hl⟩ := cells
  subst hl
  match l, hn with
  | [], _ | [_], _ | [_, _], _ | [_, _, _], _ | [_, _, _, _], _ => rfl

theorem cell_setTop (r : Registers) {n : Nat} (cells : Cells n) {i : Nat} (hi : i < 4)
    (hni : n ≤ i) : (r.setTop cells).cell i = r.cell i := by
  have hget : ∀ d, cells.getD i d = d := fun d => by
    rw [Vector.getD, Array.getD_eq_getD_getElem?, Array.getElem?_eq_none]
    · rfl
    · rw [cells.size_toArray]
      exact hni
  match i with
  | 0 | 1 | 2 | 3 => exact hget _

theorem wellFormed_setTop (h : m.regs.WellFormed) {n : Nat} (cells : Cells n)
    (hd : n ≤ m.regs.depth) : (m.regs.setTop cells).WellFormed where
  sr_eq := h.sr_eq
  vacant i hi hlt := by
    have hsr := h.sr_eq
    have hle : m.regs.sr ≤ i := hi
    rw [cell_setTop _ _ hlt (by omega)]
    exact h.vacant i hle hlt
  sm_eq := h.sm_eq
  pc_eq := h.pc_eq

theorem stack_setTop (h : m.regs.WellFormed) {n : Nat} (cells : Cells n) (hn : n ≤ 4)
    (hd : n ≤ m.regs.depth) :
    { m with regs := m.regs.setTop cells }.stack = cells.toList ++ m.stack.drop n := by
  have hnew : { m with regs := m.regs.setTop cells }.regs.WellFormed :=
    wellFormed_setTop h cells hd
  have hlen : n ≤ (m.regs.window.take m.regs.depth).length := by
    simp only [Registers.window, List.length_take, List.length_cons, List.length_nil]
    omega
  have hdepth : (m.regs.setTop cells).depth = m.regs.depth := rfl
  rw [stack_eq hnew, stack_eq h, List.drop_append_of_le_length hlen, ← List.append_assoc, hdepth,
    window_setTop _ _ hn]
  congr 1
  rw [List.take_append, List.take_of_length_le, Vector.length_toList, List.drop_take]
  rw [Vector.length_toList]
  exact hd

end Machine

end StackComputer
