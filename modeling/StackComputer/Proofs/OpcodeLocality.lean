import StackComputer.Proofs.Reachable

/-!
# Opcodes are local

A stack opcode turns its operands, X and the status word into results, and
never sees the cells below. However deep the stack is and wherever its cells
lie, the results stand in place of the operands.
-/

namespace StackComputer

/-- The first `n` words of a list as cells. -/
def Cells.ofList (n : Nat) (ws : List Word) : Cells n := .ofFn fun i => ws.getD i 0

theorem Cells.ofList_toList {n : Nat} (cells : Cells n) : ofList n cells.toList = cells := by
  apply Vector.ext
  intro i hi
  rw [ofList, Vector.getElem_ofFn, List.getD_eq_getElem?_getD, List.getElem?_eq_getElem,
    Option.getD_some, Vector.getElem_toList]
  rw [Vector.length_toList]
  exact hi

namespace Effect

/-- What an effect makes of the cells it looks at, the topmost first, and of the
latches. -/
def result (s : List Word) (l : Latches) : Effect → List Word × Latches
  | undefined => (s, l)
  | latch f => (s, f l)
  | update n f => ((f (.ofList n s) l).1.toList, (f (.ofList n s) l).2)
  | extend n f => ((f (.ofList n s) l).pushed.reverse ++ s, (f (.ofList n s) l).latches)
  | replace n f => ((f (.ofList n s) l).pushed.reverse, (f (.ofList n s) l).latches)
  | dropSecond => (s.eraseIdx 1, l)

/-- The effect looks at registers alone and leaves at most two cells more than
there were. -/
def Bounded : Effect → Prop
  | undefined | latch _ | dropSecond => True
  | update n _ => n ≤ 4
  | extend n f => n ≤ 4 ∧ ∀ cells l, (f cells l).pushed.length ≤ 2
  | replace n f => n ≤ 4 ∧ ∀ cells l, (f cells l).pushed.length ≤ n + 2

end Effect

namespace Outcome

theorem length_word (w : Word) (l : Latches) : (word w l).pushed.length ≤ 2 := by
  rw [word]
  exact Nat.le_succ 1

theorem length_double (d : Dword) (l : Latches) : (double d l).pushed.length ≤ 2 := by
  rw [double]
  exact Nat.le_refl 2

theorem length_nothing (l : Latches) : (nothing l).pushed.length ≤ 2 := by
  rw [nothing]
  exact Nat.zero_le 2

theorem length_quotient (q r : Word) (overflow : Bool) (l : Latches) :
    (quotient q r overflow l).pushed.length ≤ 2 := by
  rw [quotient]
  exact Nat.le_refl 2

theorem length_real (r : Except RealWord.RangeError Dword) (l : Latches) :
    (real r l).pushed.length ≤ 2 := by
  cases r with
  | ok d => exact length_double d _
  | error cause => exact Nat.le_refl 2

theorem length_integer (n : Int) (l : Latches) : (integer n l).pushed.length ≤ 2 := by
  rw [integer]
  split <;> exact length_double _ _

theorem length_divide (a b : Word) (l : Latches) : (divide a b l).pushed.length ≤ 2 := by
  rw [divide]
  split <;> exact length_quotient _ _ _ _

theorem length_divideLong (a : Dword) (b : Word) (l : Latches) :
    (divideLong a b l).pushed.length ≤ 2 := by
  rw [divideLong]
  split <;> exact length_quotient _ _ _ _

theorem length_divideLogical (a : Dword) (b : Word) (l : Latches) :
    (divideLogical a b l).pushed.length ≤ 2 := by
  rw [divideLogical]
  split <;> exact length_quotient _ _ _ _

end Outcome

namespace Effect

theorem bounded_replace {n : Nat} {f : Cells n → Latches → Outcome} (hn : n ≤ 4)
    (hf : ∀ cells l, (f cells l).pushed.length ≤ 2) : (replace n f).Bounded :=
  ⟨hn, fun cells l => Nat.le_trans (hf cells l) (Nat.le_add_left 2 n)⟩

theorem bounded_real {n : Nat} (hn : n ≤ 4) (f : Cells n → Except RealWord.RangeError Dword) :
    (replace n fun cells => .real (f cells)).Bounded :=
  bounded_replace hn fun cells l => Outcome.length_real (f cells) l

theorem bounded_integer {n : Nat} (hn : n ≤ 4) (f : Cells n → Int) :
    (replace n fun cells => .integer (f cells)).Bounded :=
  bounded_replace hn fun cells l => Outcome.length_integer (f cells) l

end Effect

open Effect Outcome in
theorem StackOp.bounded_effect (op : StackOp) : op.effect.Bounded := by
  cases op with
  | unk | nop | delb | zrox | incx | decx => trivial
  | cab => exact show 3 ≤ 4 by decide
  | xax | adxa | neg | inca | deca | not | test | btst => exact show 1 ≤ 4 by decide
  | xch | zrob | ldxb | stbx | xbx | adbx | adxb | incb | decb | dneg | dtst | fneg =>
      exact show 2 ≤ 4 by decide
  | dup => exact ⟨by decide, fun _ _ => length_word _ _⟩
  | ddup => exact ⟨by decide, fun _ _ => length_double _ _⟩
  | dxch => exact ⟨by decide, fun _ _ => show 4 ≤ 4 + 2 by decide⟩
  | del | ddel | stax | adax | cmp | lcmp | dcmp | fcmp =>
      exact bounded_replace (by decide) fun _ _ => length_nothing _
  | zero | ldxa | add | sub | mpy | ladd | lsub | or | xor | and =>
      exact bounded_replace (by decide) fun _ _ => length_word _ _
  | dzro | mpyl | dadd | dsub | lmpy =>
      exact bounded_replace (by decide) fun _ _ => length_double _ _
  | div => exact bounded_replace (by decide) fun _ _ => length_divide _ _ _
  | divl => exact bounded_replace (by decide) fun _ _ => length_divideLong _ _ _
  | ldiv => exact bounded_replace (by decide) fun _ _ => length_divideLogical _ _ _
  | flt | dflt | fadd | fsub | fmpy | fdiv => exact bounded_real (by decide) _
  | fixr | fixt => exact bounded_integer (by decide) _

namespace Machine

/-- The second machine is the first one with `result` in place of the top `k`
cells and of the latches. -/
structure LocalStep (before : Machine) (k : Nat) (result : List Word × Latches)
    (after : Machine) : Prop where
  stack_eq : after.stack = result.1 ++ before.stack.drop k
  latches_eq : after.latches = result.2
  frame_eq : after.frame = { before.frame with x := after.regs.x, sta := after.regs.sta }
  sameBut : Memory.SameBut (before.regs.depth - 2) before.memory after.memory

variable {m : Machine}

theorem latches_settle (m : Machine) (o : Outcome) : (m.settle o).latches = o.latches := rfl

theorem latches_eq_of_frame {m m' : Machine} (h : m'.frame = m.frame) : m'.latches = m.latches := by
  have hx : m'.regs.x = m.regs.x := congrArg Frame.x h
  have hsta : m'.regs.sta = m.regs.sta := congrArg Frame.sta h
  rw [latches, latches, hx, hsta]

theorem stack_settle (h : m.regs.WellFormed) {o : Outcome}
    (hd : m.regs.depth + o.pushed.length ≤ 0x8004) :
    (m.settle o).stack = o.pushed.reverse ++ m.stack := by
  rw [settle]
  cases o.range with
  | none => exact stack_pushCells h hd
  | some cause =>
      have hrecord : (m.record (.outOfRange m.regs.pc cause)).regs.WellFormed := h
      exact stack_pushCells hrecord hd

theorem sameBut_settle (h : m.regs.WellFormed) {o : Outcome} {n : Nat}
    (hn : m.regs.depth + o.pushed.length ≤ n + 4) :
    Memory.SameBut n m.memory (m.settle o).memory := by
  rw [settle]
  cases o.range with
  | none => exact sameBut_pushCells h hn
  | some cause =>
      have hrecord : (m.record (.outOfRange m.regs.pc cause)).regs.WellFormed := h
      exact sameBut_pushCells hrecord hn

theorem top_eq_ofList (h : m.regs.WellFormed) {n : Nat} (hn : n ≤ 4) (hd : n ≤ m.regs.depth) :
    m.regs.top n = .ofList n (m.stack.take n) := by
  rw [← toList_top h hn hd, Cells.ofList_toList]

theorem depth_dropCells (m : Machine) (n : Nat) :
    (m.dropCells n).regs.depth = m.regs.depth - n := by
  induction n generalizing m with
  | zero => rfl
  | succ n ih =>
      rw [dropCells, ih, depth_dropCell]
      omega

section

variable (h : m.regs.WellFormed) {n : Nat} (hn : n ≤ 4) (hk : n ≤ m.regs.depth)
include h hn hk

theorem localStep_update {f : Cells n → Latches → Cells n × Latches} :
    m.LocalStep n ((Effect.update n f).result (m.stack.take n) m.latches)
      ((Effect.update n f).act m) where
  stack_eq := by
    rw [Effect.result, ← top_eq_ofList h hn hk]
    exact stack_setTop h _ hn hk
  latches_eq := by
    rw [Effect.result, ← top_eq_ofList h hn hk]
    rfl
  frame_eq := Effect.frame_act _ m
  sameBut := Memory.SameBut.refl _ _

variable {f : Cells n → Latches → Outcome}

theorem localStep_extend (hf : ∀ cells l, (f cells l).pushed.length ≤ 2)
    (hd : m.regs.depth ≤ 0x8000) :
    m.LocalStep n ((Effect.extend n f).result (m.stack.take n) m.latches)
      ((Effect.extend n f).act m) := by
  have hlen := hf (m.regs.top n) m.latches
  refine ⟨?_, ?_, Effect.frame_act _ m, sameBut_settle h (by omega)⟩
  · rw [Effect.act, stack_settle h (by omega), Effect.result, ← top_eq_ofList h hn hk,
      List.append_assoc, List.take_append_drop]
  · rw [Effect.act, latches_settle, Effect.result, ← top_eq_ofList h hn hk]

/-- The operands make room for their results. -/
theorem localStep_replace (hf : ∀ cells l, (f cells l).pushed.length ≤ n + 2)
    (hd : m.regs.depth ≤ 0x8000) :
    m.LocalStep n ((Effect.replace n f).result (m.stack.take n) m.latches)
      ((Effect.replace n f).act m) := by
  have hdrop := wellFormed_dropCells h hk
  have hdepth := depth_dropCells m n
  have hlen := hf (m.regs.top n) m.latches
  have hact : (Effect.replace n f).act m = (m.dropCells n).settle (f (m.regs.top n) m.latches) := by
    rw [Effect.act, latches_eq_of_frame (frame_dropCells m n)]
  have hresult : (Effect.replace n f).result (m.stack.take n) m.latches =
      ((f (m.regs.top n) m.latches).pushed.reverse, (f (m.regs.top n) m.latches).latches) := by
    rw [Effect.result, ← top_eq_ofList h hn hk]
  refine ⟨?_, ?_, Effect.frame_act _ m, ?_⟩
  · rw [hact, hresult, stack_settle hdrop (by omega), stack_dropCells h hk]
  · rw [hact, hresult, latches_settle]
  · rw [hact, ← memory_dropCells m n]
    exact sameBut_settle hdrop (by omega)

end

theorem localStep_dropSecond (h : m.regs.WellFormed) (hk : 2 ≤ m.regs.depth) :
    m.LocalStep 2 (Effect.dropSecond.result (m.stack.take 2) m.latches)
      (Effect.dropSecond.act m) where
  stack_eq := by
    have hlen : 1 < (m.stack.take 2).length := by
      rw [List.length_take, length_stack h, Nat.min_eq_left hk]
      decide
    have hsplit := List.eraseIdx_append_of_lt_length hlen (m.stack.drop 2)
    rw [List.take_append_drop] at hsplit
    exact (stack_dropSecondCell h hk).trans hsplit
  latches_eq := latches_eq_of_frame (frame_dropSecondCell m)
  frame_eq := Effect.frame_act _ m
  sameBut := by
    rw [Effect.act, memory_dropSecondCell]
    exact Memory.SameBut.refl _ _

/-- An effect on registers is local while the spill area has room. -/
theorem localStep_act (h : m.regs.WellFormed) {e : Effect} (he : e.Bounded)
    (hk : e.guard.getD 0 ≤ m.regs.depth) (hd : m.regs.depth ≤ 0x8000) :
    m.LocalStep (e.guard.getD 0) (e.result (m.stack.take (e.guard.getD 0)) m.latches)
      (e.act m) := by
  cases e with
  | undefined | latch f => exact ⟨rfl, rfl, rfl, Memory.SameBut.refl _ _⟩
  | update n f => exact localStep_update h he hk
  | extend n f => exact localStep_extend h he.1 hk he.2 hd
  | replace n f => exact localStep_replace h he.1 hk he.2 hd
  | dropSecond => exact localStep_dropSecond h hk

end Machine

/-- What an opcode makes of its operands, the topmost first, and of the latches. -/
def StackOp.result (op : StackOp) (s : List Word) (l : Latches) : List Word × Latches :=
  op.effect.result s l

namespace Machine

theorem localStep_stackOp {m : Machine} (h : m.Reachable) (hrun : m.isRunning = true)
    {op : StackOp} (hop : op ≠ .unk) (hk : op.operands ≤ m.regs.depth)
    (hd : m.regs.depth ≤ 0x8000) :
    ∃ m', (stackOp op).perform m = (.ok (), m') ∧
      m.LocalStep op.operands (op.result (m.stack.take op.operands) m.latches) m' := by
  have hguard := op.getD_guard_effect
  refine ⟨op.effect.act m, ?_, ?_⟩
  · rw [StackOp.perform_stackOp hrun hop, h.wellFormed.available_eq,
      if_neg (Nat.not_lt.mpr hk)]
  · rw [← hguard] at hk ⊢
    exact localStep_act h.wellFormed op.bounded_effect hk hd

/-- What an opcode does to the cells it takes, X and the status word does not
depend on the cells below, which stay, nor on where any of them lie. -/
theorem opcodes_are_local {op : StackOp} (hop : op ≠ .unk) {m : Machine} (h : m.Reachable)
    (hrun : m.isRunning = true) (hk : op.operands ≤ m.regs.depth) (hd : m.regs.depth ≤ 0x8000) :
    ∃ m', (stackOp op).perform m = (.ok (), m') ∧
      m.LocalStep op.operands (op.result (m.stack.take op.operands) m.latches) m' ∧
      ∀ n : Machine, n.Reachable → n.isRunning = true → op.operands ≤ n.regs.depth →
        n.regs.depth ≤ 0x8000 → n.stack.take op.operands = m.stack.take op.operands →
        n.latches = m.latches →
        ∃ n' r, (stackOp op).perform n = (.ok (), n') ∧
          m'.stack = r ++ m.stack.drop op.operands ∧
          n'.stack = r ++ n.stack.drop op.operands ∧ n'.latches = m'.latches := by
  obtain ⟨m', hm', hstep⟩ := localStep_stackOp h hrun hop hk hd
  refine ⟨m', hm', hstep, ?_⟩
  intro n hn hrunning hkn hdn htake hlatches
  obtain ⟨n', hn', hstep'⟩ := localStep_stackOp hn hrunning hop hkn hdn
  rw [htake, hlatches] at hstep'
  exact ⟨n', _, hn', hstep.stack_eq, hstep'.stack_eq,
    hstep'.latches_eq.trans hstep.latches_eq.symm⟩

/-- A rotation of the top of six cells, two of them in memory, and of three
cells alone. -/
theorem opcodes_are_local_cab :
    let deep := (StackRequest.answerAll Machine.answer
      [.push 1, .push 2, .push 3, .push 4, .push 5, .push 6] {}).2
    let shallow := (StackRequest.answerAll Machine.answer [.push 4, .push 5, .push 6] {}).2
    ∃ m' n', (stackOp .cab).perform deep = (.ok (), m') ∧ m'.stack = [4, 6, 5, 3, 2, 1] ∧
      (stackOp .cab).perform shallow = (.ok (), n') ∧ n'.latches = m'.latches := by
  intro deep shallow
  have hpushed : deep = ({} : Machine).pushCells [1, 2, 3, 4, 5, 6] := rfl
  have hcells : deep.stack = [6, 5, 4, 3, 2, 1] := by
    rw [hpushed]
    exact stack_pushCells (Registers.wellFormed_start 0) (show 0 + 6 ≤ 0x8004 by decide)
  have hdeep : deep.Reachable := Reachable.answerAll (.fresh .new) _
  have hshallow : shallow.Reachable := Reachable.answerAll (.fresh .new) _
  obtain ⟨m', hm', hstep, hsame⟩ := opcodes_are_local (show StackOp.cab ≠ .unk by decide) hdeep
    (by decide) (by decide) (by decide)
  obtain ⟨n', r, hn', -, -, hlatches⟩ := hsame shallow hshallow (by decide) (by decide) (by decide)
    (by decide) (by decide)
  have hrotated := hstep.stack_eq
  rw [hcells] at hrotated
  exact ⟨m', n', hm', hrotated, hn', hlatches⟩

end Machine

end StackComputer
