import Mathlib.Data.List.Infix
import StackComputer.Proofs.BaseAddress
import StackComputer.Proofs.Reachable

/-!
# Nested calls

A call leaves the address to return to on the operand stack, where a return
finds it again under whatever was pushed and popped meanwhile. As long as the
code between them keeps to the cells above that address, calls and returns nest
like brackets, at any depth the stack has room for.
-/

namespace StackComputer

/-- The machine runs on, with `j` cells in place of its top `k`. -/
structure Machine.Replaces (k j : Nat) (before after : Machine) : Prop where
  running : after.isRunning = true
  wellFormed : after.regs.WellFormed
  le_depth : j ≤ after.regs.depth
  drop_stack : after.stack.drop j = before.stack.drop k

namespace Machine.Replaces

variable {k j l : Nat} {m m' m'' : Machine}

theorem trans (h : m.Replaces k j m') (h' : m'.Replaces j l m'') : m.Replaces k l m'' :=
  ⟨h'.running, h'.wellFormed, h'.le_depth, h'.drop_stack.trans h.drop_stack⟩

/-- The cells below those that are replaced may be counted in. -/
theorem widen (h : m.Replaces k j m') (hm : m.regs.WellFormed) {n : Nat}
    (hn : k + n ≤ m.regs.depth) : m.Replaces (k + n) (j + n) m' where
  running := h.running
  wellFormed := h.wellFormed
  le_depth := by
    have hlength := congrArg List.length h.drop_stack
    rw [List.length_drop, List.length_drop, length_stack hm, length_stack h.wellFormed] at hlength
    have hj := h.le_depth
    omega
  drop_stack := by rw [← List.drop_drop, ← List.drop_drop, h.drop_stack]

end Machine.Replaces

/-! ## What is done between calls -/

/-- How many cells a request leaves in place of those it needs. -/
def StackRequest.leaves : StackRequest → Nat
  | pop | popDouble => 0
  | push _ | peek | dropSecond | replaceTop _ => 1
  | peekSecond | replaceSecond _ | pushDouble _ | peekDouble | replaceDouble _ => 2

theorem StackRequest.drop_onCells {r : StackRequest} {s s' : List Word} {x : StackAnswer}
    (h : r.onCells s = some (x, s')) :
    r.leaves ≤ s'.length ∧ s'.drop r.leaves = s.drop r.needs := by
  rcases s with _ | ⟨a, _ | ⟨b, s⟩⟩ <;> cases r <;> cases h <;> exact ⟨by simp [leaves], rfl⟩

/-- Something done to a machine: an operation on its stack, or an instruction
executed. -/
inductive Move where
  | request (r : StackRequest)
  | execute (i : Instruction)

namespace Move

/-- A load, a branch or an operation on the stack, which all act on cells at the
top of the stack. -/
def isPlain : Move → Bool
  | request _ | execute (.load _ _) | execute (.ldi _) => true
  | execute i => i.isBranch

/-- The cells at the top that have to be there. -/
def needs : Move → Nat
  | request r => r.needs
  | execute i => i.guard.getD 0

/-- How many cells a plain move leaves in place of those it needs. -/
def leaves : Move → Nat
  | request r => r.leaves
  | execute (.load _ _) | execute (.ldi _) => 1
  | execute (.count op _ _) => op.guard.getD 0
  | execute _ => 0

def isSimple : Move → Bool
  | request _ => true
  | execute i => i.isSimple

def act (m : Machine) : Move → Machine
  | request r => (r.act m).2
  | execute i => i.act m

variable {β : Type} [Bus β]

def exchange : Move → Exchange β Unit
  | request r => Exchange.machine do
    let _ ← r.action
  | execute i => i.execute

/-- The moves in turn, up to the first that is refused. -/
def exchangeAll : List Move → Exchange β Unit
  | [] => pure ()
  | x :: xs => do
    x.exchange
    exchangeAll xs

variable {x : Move} {xs : List Move} {m m' : Machine} {b b' : β}

theorem exchangeAll_cons (h : x.exchange.perform m b = (.ok (), m', b')) :
    (exchangeAll (x :: xs)).perform m b = (exchangeAll xs).perform m' b' := by
  rw [exchangeAll, Exchange.perform_bind, h]

theorem exchangeAll_append (h : (exchangeAll xs).perform m b = (.ok (), m', b'))
    (ys : List Move) :
    (exchangeAll (xs ++ ys)).perform m b = (exchangeAll ys).perform m' b' := by
  induction xs generalizing m b with
  | nil =>
      cases h
      rfl
  | cons x xs ih =>
      rw [exchangeAll, Exchange.perform_bind] at h
      rw [List.cons_append, exchangeAll, Exchange.perform_bind]
      rcases hx : x.exchange.perform m b with ⟨cause | ⟨⟩, m₁, b₁⟩
      · rw [hx] at h
        cases h
      · rw [hx] at h
        exact ih h

theorem isSimple_of_isPlain (h : x.isPlain = true) : x.isSimple = true := by
  cases x with
  | request r => rfl
  | execute i =>
      cases i with
      | rio device | wio device | pair first second => exact h
      | _ => rfl

theorem perform_of_enough (hx : x.isSimple = true) (hrun : m.isRunning = true)
    (hm : m.regs.WellFormed) (hneeds : x.needs ≤ m.regs.depth) :
    x.exchange.perform m b = (.ok (), x.act m, b) := by
  rw [← hm.available_eq] at hneeds
  cases x with
  | request r =>
      have haction : (do let _ ← r.action : Action Unit) =
          Machine.checked r.needs fun m => ((), (r.act m).2) := by
        rw [r.action_eq]
        exact Machine.checked_bind_eq fun m _ _ => rfl
      have henough : r.needs ≤ m.regs.available := hneeds
      rw [exchange, haction, Exchange.perform_machine, Machine.perform_checked_ok hrun henough]
      rfl
  | execute i =>
      rw [exchange, Instruction.perform_execute hx hrun]
      exact if_neg (Nat.not_lt.mpr hneeds)

end Move

namespace Machine

variable {m : Machine}

theorem replaces_of_stack_eq {m' : Machine} (hrun : m'.isRunning = true)
    (hm' : m'.regs.WellFormed) (hstack : m'.stack = m.stack) : m.Replaces 0 0 m' :=
  ⟨hrun, hm', Nat.zero_le _, hstack⟩

theorem replaces_of_stack_eq_cons {m' : Machine} {w : Word} (hrun : m'.isRunning = true)
    (hm' : m'.regs.WellFormed) (hstack : m'.stack = w :: m.stack) : m.Replaces 0 1 m' where
  running := hrun
  wellFormed := hm'
  le_depth := by
    rw [← length_stack hm', hstack]
    exact Nat.le_add_left 1 _
  drop_stack := by rw [hstack]; rfl

theorem replaces_request (hrun : m.isRunning = true) (hm : m.regs.WellFormed) (r : StackRequest)
    (hneeds : r.needs ≤ m.regs.depth) (hroom : (r.act m).2.regs.depth ≤ 0x8004) :
    m.Replaces r.needs r.leaves (r.act m).2 := by
  obtain ⟨hlength, hdrop⟩ := StackRequest.drop_onCells (r.onCells_stack hm hneeds hroom)
  have hwell := r.wellFormed_act hm hneeds
  refine ⟨?_, hwell, ?_, hdrop⟩
  · rw [isRunning, r.state_act]
    exact hrun
  · rw [← length_stack hwell]
    exact hlength

theorem replaces_flagBranch (hrun : m.isRunning = true) (hm : m.regs.WellFormed) (op : FlagOp)
    (d : Displacement) (s : Suffixes) : m.Replaces 0 0 (flagBranch op d s m) := by
  have htaken : ∀ sta (taken : Bool), m.Replaces 0 0
      (if taken then (m.setStatus sta).branch d s else m.setStatus sta) := by
    intro sta taken
    have hset : (m.setStatus sta).regs.WellFormed := hm.latches _ sta
    split
    · exact replaces_of_stack_eq hrun (wellFormed_branch hset d s) rfl
    · exact replaces_of_stack_eq hrun hset rfl
  cases op <;> exact htaken _ _

theorem replaces_countAct (hrun : m.isRunning = true) (hm : m.regs.WellFormed) (op : CountOp)
    (hneeds : op.guard.getD 0 ≤ m.regs.depth) :
    m.Replaces (op.guard.getD 0) (op.guard.getD 0) (m.countAct op).2 := by
  have hwell := wellFormed_countAct hm hneeds
  cases op with
  | iabz =>
      refine ⟨hrun, hwell, hneeds, ?_⟩
      have hstack := stack_setTop hm (.one (m.regs.ra + 1)) (by decide) hneeds
      rw [countAct, hstack]
      rfl
  | ixbz | dxbz => exact replaces_of_stack_eq hrun hwell rfl

theorem replaces_dropCell (hrun : m.isRunning = true) (hm : m.regs.WellFormed)
    (hpos : 1 ≤ m.regs.depth) : m.Replaces 1 0 m.dropCell where
  running := (isRunning_dropCell m).trans hrun
  wellFormed := wellFormed_dropCell hm hpos
  le_depth := Nat.zero_le _
  drop_stack := by rw [stack_dropCell hm hpos, List.drop_zero, List.drop_one]

theorem Replaces.branch {k j : Nat} {m' : Machine} (h : m.Replaces k j m') (d : Displacement)
    (s : Suffixes) : m.Replaces k j (m'.branch d s) :=
  ⟨h.running, wellFormed_branch h.wellFormed d s, h.le_depth, h.drop_stack⟩

theorem replaces_plain (hrun : m.isRunning = true) (hm : m.regs.WellFormed) {x : Move}
    (hx : x.isPlain = true) (hneeds : x.needs ≤ m.regs.depth)
    (hroom : (x.act m).regs.depth ≤ 0x8004) : m.Replaces x.needs x.leaves (x.act m) := by
  cases x with
  | request r => exact replaces_request hrun hm r hneeds hroom
  | execute i =>
      have hwell := Instruction.wellFormed_act hm hneeds
      cases i with
      | load target s => exact replaces_of_stack_eq_cons hrun hwell (stack_pushCell hm hroom _)
      | ldi value => exact replaces_of_stack_eq_cons hrun hwell (stack_pushCell hm hroom _)
      | br d s => exact replaces_of_stack_eq hrun hwell rfl
      | bcc selector d indirect =>
          refine replaces_of_stack_eq ?_ hwell ?_
          · rw [Move.act, Instruction.act]
            split <;> exact hrun
          · rw [Move.act, Instruction.act]
            split <;> rfl
      | count op d indirect =>
          have hcount := replaces_countAct hrun hm op hneeds
          simp only [Move.act, Instruction.act]
          split
          · exact hcount.branch _ _
          · exact hcount
      | flag op d indirect => exact replaces_flagBranch hrun hm op _ _
      | bro d =>
          have hdrop := replaces_dropCell hrun hm hneeds
          simp only [Move.act, Instruction.act]
          split
          · exact hdrop.branch _ _
          · exact hdrop
      | _ => exact absurd hx Bool.false_ne_true

end Machine

/-! ## Calls and returns -/

/-- The cells a call takes before it leaves the return address: its label, if that
is on the stack. -/
def callLabels (n : Byte) : Nat := if n = 0 then 1 else 0

namespace Machine

variable {m : Machine} {n : Byte}

/-- A call leaves P on the stack, in place of its label. -/
theorem replaces_call (hrun : m.isRunning = true) (hm : m.regs.WellFormed)
    (hlabel : callLabels n ≤ m.regs.depth)
    (hroom : (Instruction.act m (.scal n)).regs.depth ≤ 0x8004) :
    m.Replaces (callLabels n) 1 (Instruction.act m (.scal n)) ∧
      (Instruction.act m (.scal n)).stack = m.regs.pc :: m.stack.drop (callLabels n) := by
  have hwell : (Instruction.act m (.scal n)).regs.WellFormed := Instruction.wellFormed_act hm hlabel
  obtain ⟨m', hdrop, hcall⟩ : ∃ m', m.Replaces (callLabels n) 0 m' ∧
      (if n = 0 then m.dropCell else m) = m' := by
    rw [callLabels] at hlabel ⊢
    by_cases hzero : n = 0
    · rw [if_pos hzero] at hlabel ⊢
      exact ⟨_, replaces_dropCell hrun hm hlabel, if_pos hzero⟩
    · rw [if_neg hzero]
      exact ⟨m, replaces_of_stack_eq hrun hm rfl, if_neg hzero⟩
  have hact : Instruction.act m (.scal n) =
      (m'.pushCell m.regs.pc).jump (m.regs.pb + (m.callLabel n).address) := by
    rw [Instruction.act, hcall]
  have hpush : (Instruction.act m (.scal n)).stack = m.regs.pc :: m'.stack := by
    rw [hact] at hroom ⊢
    exact stack_pushCell hdrop.wellFormed hroom _
  have hrunning : (Instruction.act m (.scal n)).isRunning = true := by
    rw [hact]
    exact hdrop.running
  refine ⟨hdrop.trans (replaces_of_stack_eq_cons hrunning hwell hpush), ?_⟩
  rw [hpush]
  exact congrArg _ hdrop.drop_stack

/-- A return takes the return address and the parameters below it. -/
theorem replaces_exit (hrun : m.isRunning = true) (hm : m.regs.WellFormed)
    (hneeds : n.toNat + 1 ≤ m.regs.depth) :
    m.Replaces (1 + n.toNat) 0 (Instruction.act m (.sxit n)) ∧
      (Instruction.act m (.sxit n)).regs.pc = m.regs.ra.address := by
  refine ⟨⟨?_, Instruction.wellFormed_act hm hneeds, Nat.zero_le _, ?_⟩, rfl⟩
  · have hframe := congrArg (fun frame : Frame => frame.state.isRunning)
      (frame_dropCells m (n.toNat + 1))
    exact hframe.trans hrun
  · rw [Nat.add_comm 1]
    exact stack_dropCells hm hneeds

/-- A return after a call finds P as the call left it, if the stack is as the call
left it. -/
theorem replaces_bracket (hrun : m.isRunning = true) (hm : m.regs.WellFormed) {k : Byte}
    (hk : callLabels n + k.toNat ≤ m.regs.depth)
    (hroom : (Instruction.act m (.scal n)).regs.depth ≤ 0x8004) {m' : Machine}
    (hbody : (Instruction.act m (.scal n)).Replaces 0 0 m') :
    k.toNat + 1 ≤ m'.regs.depth ∧
      m.Replaces (callLabels n + k.toNat) 0 (Instruction.act m' (.sxit k)) ∧
      (Instruction.act m' (.sxit k)).regs.pc = m.regs.pc := by
  obtain ⟨hcalled, htop⟩ := replaces_call hrun hm (Nat.le_trans (Nat.le_add_right _ _) hk) hroom
  have hstack : m'.stack = m.regs.pc :: m.stack.drop (callLabels n) := hbody.drop_stack.trans htop
  have hdepth : m'.regs.depth = m.regs.depth - callLabels n + 1 := by
    rw [← length_stack hbody.wellFormed, hstack, List.length_cons, List.length_drop,
      length_stack hm]
  have hneeds : k.toNat + 1 ≤ m'.regs.depth := by omega
  have hra : m'.regs.ra = m.regs.pc := by
    have hcons := stack_eq_cons hbody.wellFormed (by omega)
    rw [hstack] at hcons
    exact (List.cons.inj hcons).1.symm
  obtain ⟨hexited, hpc⟩ := replaces_exit hbody.running hbody.wellFormed hneeds
  refine ⟨hneeds, ⟨hexited.running, hexited.wellFormed, Nat.zero_le _, ?_⟩, ?_⟩
  · rw [hexited.drop_stack, hstack, Nat.add_comm 1, List.drop_succ_cons, List.drop_drop]
  · rw [hpc, hra, hm.pc_eq]

end Machine

/-- A call, what is done until it returns, and its return. -/
def Move.bracket (n : Byte) (body : List Move) (k : Byte) : List Move :=
  .execute (.scal n) :: (body ++ [.execute (.sxit k)])

/-- A sequence of moves that takes `k` cells from the top of the stack and leaves
`j` in their place, without reaching below them. A return may take parameters from
below its return address, where they are cells of the caller. -/
inductive Balanced : Nat → List Move → Nat → Prop
  | nil (k : Nat) : Balanced k [] k
  | plain {rest j : Nat} {xs : List Move} (x : Move) (hx : x.isPlain = true)
      (hxs : Balanced (x.leaves + rest) xs j) : Balanced (x.needs + rest) (x :: xs) j
  | call {rest j : Nat} {body xs : List Move} (n k : Byte) (hbody : Balanced 0 body 0)
      (hxs : Balanced rest xs j) :
      Balanced (callLabels n + k.toNat + rest) (Move.bracket n body k ++ xs) j

namespace Machine

variable {β : Type} [Bus β]

/-- Every return in the sequence sets P to what P was at the call it belongs to.
The return addresses of the open calls are given, the innermost first. -/
def Returns (callers : List Word) (m : Machine) (b : β) : List Move → Prop
  | [] => True
  | x :: xs =>
    let (_, after, b) := x.exchange.perform m b
    match x, callers with
    | .execute (.scal _), _ => Returns (m.regs.pc :: callers) after b xs
    | .execute (.sxit _), caller :: callers =>
      after.regs.pc = caller ∧ Returns callers after b xs
    | _, _ => Returns callers after b xs

/-- At no point of the sequence the stack is too deep for the spill area. -/
def HasRoom (m : Machine) (b : β) (xs : List Move) : Prop :=
  ∀ ys, ys <+: xs → ((Move.exchangeAll ys).perform m b).2.1.regs.depth ≤ 0x8004

/-- The sequence is carried out, replaces `k` cells by `j`, and its returns lead
back to its calls, whatever calls are open around it. -/
structure Completes (b : β) (k j : Nat) (m : Machine) (xs : List Move) (m' : Machine) : Prop where
  perform_eq : (Move.exchangeAll xs).perform m b = (.ok (), m', b)
  replaces : m.Replaces k j m'
  returns : ∀ callers ys, Returns callers m' b ys → Returns callers m b (xs ++ ys)

variable {m m' m'' : Machine} {b b' : β} {xs ys : List Move}

theorem HasRoom.left (h : m.HasRoom b (xs ++ ys)) : m.HasRoom b xs :=
  fun _ hzs => h _ (hzs.trans (List.prefix_append xs ys))

theorem HasRoom.right (h : m.HasRoom b (xs ++ ys))
    (hxs : (Move.exchangeAll xs).perform m b = (.ok (), m', b')) : m'.HasRoom b' ys := by
  intro zs hzs
  rw [← Move.exchangeAll_append hxs]
  exact h _ ((List.prefix_append_right_inj xs).mpr hzs)

theorem HasRoom.depth_le (h : m.HasRoom b xs)
    (hxs : (Move.exchangeAll xs).perform m b = (.ok (), m', b')) : m'.regs.depth ≤ 0x8004 := by
  have hdepth := h xs List.prefix_rfl
  rw [hxs] at hdepth
  exact hdepth

namespace Completes

variable {k j l : Nat}

theorem append (h : Completes b k j m xs m') (h' : Completes b j l m' ys m'') :
    Completes b k l m (xs ++ ys) m'' where
  perform_eq := by rw [Move.exchangeAll_append h.perform_eq, h'.perform_eq]
  replaces := h.replaces.trans h'.replaces
  returns callers zs hzs := by
    rw [List.append_assoc]
    exact h.returns callers _ (h'.returns callers zs hzs)

theorem widen (h : Completes b k j m xs m') (hm : m.regs.WellFormed) {n : Nat}
    (hn : k + n ≤ m.regs.depth) : Completes b (k + n) (j + n) m xs m' :=
  ⟨h.perform_eq, h.replaces.widen hm hn, h.returns⟩

end Completes

theorem returns_plain {x : Move} (hx : x.isPlain = true)
    (hdone : x.exchange.perform m b = (.ok (), m', b)) {callers : List Word} :
    Returns callers m b (x :: xs) ↔ Returns callers m' b xs := by
  rw [Returns, hdone]
  cases x with
  | request r => rfl
  | execute i =>
      cases i with
      | scal n | sxit n => exact absurd hx Bool.false_ne_true
      | _ => rfl

theorem completes_plain (hrun : m.isRunning = true) (hm : m.regs.WellFormed) {x : Move}
    (hx : x.isPlain = true) (hneeds : x.needs ≤ m.regs.depth) (hroom : m.HasRoom b [x]) :
    Completes b x.needs x.leaves m [x] (x.act m) := by
  have hdone := Move.perform_of_enough (b := b) (Move.isSimple_of_isPlain hx) hrun hm hneeds
  have hsingle : (Move.exchangeAll [x]).perform m b = (.ok (), x.act m, b) :=
    Move.exchangeAll_cons hdone
  refine ⟨hsingle, replaces_plain hrun hm hx hneeds (hroom.depth_le hsingle), ?_⟩
  exact fun callers ys hys => (returns_plain hx hdone).mpr hys

/-- A call of something that leaves the stack alone ends where it began, without
its label and its parameters. -/
theorem completes_bracket {n k : Byte} {body : List Move} (hrun : m.isRunning = true)
    (hm : m.regs.WellFormed) (hk : callLabels n + k.toNat ≤ m.regs.depth)
    (hroom : m.HasRoom b (Move.bracket n body k))
    (hbody : ∀ m : Machine, m.isRunning = true → m.regs.WellFormed → m.HasRoom b body →
      ∃ m', Completes b 0 0 m body m') :
    ∃ m', Completes b (callLabels n + k.toNat) 0 m (Move.bracket n body k) m' ∧
      m'.regs.pc = m.regs.pc := by
  have hlabel : callLabels n ≤ m.regs.depth := Nat.le_trans (Nat.le_add_right _ _) hk
  have hcall : (Move.execute (.scal n)).exchange.perform m b =
      (.ok (), Instruction.act m (.scal n), b) := Move.perform_of_enough rfl hrun hm hlabel
  have hsingle : (Move.exchangeAll [.execute (.scal n)]).perform m b =
      (.ok (), Instruction.act m (.scal n), b) := Move.exchangeAll_cons hcall
  rw [Move.bracket, ← List.singleton_append] at hroom
  have hdeep := hroom.left.depth_le hsingle
  obtain ⟨hcalled, -⟩ := replaces_call hrun hm hlabel hdeep
  -- The body may use none of the cells below, so the return finds them in place.
  obtain ⟨m', hinside⟩ :=
    hbody _ hcalled.running hcalled.wellFormed (hroom.right hsingle).left
  obtain ⟨hneeds, hreplaces, hpc⟩ := replaces_bracket hrun hm hk hdeep hinside.replaces
  have hexit : (Move.execute (.sxit k)).exchange.perform m' b =
      (.ok (), Instruction.act m' (.sxit k), b) :=
    Move.perform_of_enough rfl hinside.replaces.running hinside.replaces.wellFormed hneeds
  refine ⟨Instruction.act m' (.sxit k), ⟨?_, hreplaces, ?_⟩, hpc⟩
  · rw [Move.bracket, Move.exchangeAll_cons hcall, Move.exchangeAll_append hinside.perform_eq]
    exact Move.exchangeAll_cons hexit
  -- To the returns inside, the call is one more that is open.
  · intro callers ys hys
    rw [Move.bracket, List.cons_append, List.append_assoc, Returns, hcall]
    apply hinside.returns
    rw [List.singleton_append, Returns, hexit]
    exact ⟨hpc, hys⟩

theorem Completes.of_balanced {k j : Nat} (hxs : Balanced k xs j) (hrun : m.isRunning = true)
    (hm : m.regs.WellFormed) (hk : k ≤ m.regs.depth) (hroom : m.HasRoom b xs) :
    ∃ m', Completes b k j m xs m' := by
  -- A plain move and a whole bracket both replace cells of this level, and what
  -- follows finds the level as they leave it.
  induction hxs generalizing m with
  | nil k => exact ⟨m, rfl, ⟨hrun, hm, hk, rfl⟩, fun _ _ h => h⟩
  | plain x hx _ ih =>
      rw [← List.singleton_append] at hroom
      have hfirst := (completes_plain hrun hm hx (Nat.le_trans (Nat.le_add_right _ _) hk)
        hroom.left).widen hm hk
      have hstep := hfirst.replaces
      obtain ⟨m', hrest⟩ := ih hstep.running hstep.wellFormed hstep.le_depth
        (hroom.right hfirst.perform_eq)
      exact ⟨m', hfirst.append hrest⟩
  | call n k _ _ ihbody ih =>
      obtain ⟨m₁, hbracket, -⟩ := completes_bracket hrun hm
        (Nat.le_trans (Nat.le_add_right _ _) hk) hroom.left
        fun m hrun hm hroom => ihbody hrun hm (Nat.zero_le _) hroom
      have hfirst := hbracket.widen hm hk
      rw [Nat.zero_add] at hfirst
      have hstep := hfirst.replaces
      obtain ⟨m', hrest⟩ := ih hstep.running hstep.wellFormed hstep.le_depth
        (hroom.right hfirst.perform_eq)
      exact ⟨m', hfirst.append hrest⟩

/-- In a balanced sequence of calls, returns, branches, pushes and pops every
return sets P to what it was at its call, and the stack in the end is the stack
before without the cells the sequence may take: as it was, if these are none. A
single call takes its label, if that is on the stack, and the parameters its return
asks for. -/
theorem calls_nest (h : m.Reachable) (hrun : m.isRunning = true) (b : β) :
    (∀ (k : Nat) (xs : List Move), Balanced k xs 0 → k ≤ m.regs.depth → m.HasRoom b xs →
      ∃ m', (Move.exchangeAll xs).perform m b = (.ok (), m', b) ∧ m'.isRunning = true ∧
        m'.stack = m.stack.drop k ∧ Returns [] m b xs) ∧
    ∀ (n k : Byte) (body : List Move), Balanced 0 body 0 →
      callLabels n + k.toNat ≤ m.regs.depth → m.HasRoom b (Move.bracket n body k) →
      ∃ m', (Move.exchangeAll (Move.bracket n body k)).perform m b = (.ok (), m', b) ∧
        m'.isRunning = true ∧ m'.regs.pc = m.regs.pc ∧
        m'.stack = m.stack.drop (callLabels n + k.toNat) := by
  refine ⟨fun k xs hxs hk hroom => ?_, fun n k body hbody hk hroom => ?_⟩
  · obtain ⟨m', hdone⟩ := Completes.of_balanced hxs hrun h.wellFormed hk hroom
    have hreturns := hdone.returns [] [] trivial
    rw [List.append_nil] at hreturns
    exact ⟨m', hdone.perform_eq, hdone.replaces.running, hdone.replaces.drop_stack, hreturns⟩
  · obtain ⟨m', hdone, hpc⟩ := completes_bracket hrun h.wellFormed hk hroom
      fun m hrun hm hroom => Completes.of_balanced hbody hrun hm (Nat.zero_le _) hroom
    exact ⟨m', hdone.perform_eq, hdone.replaces.running, hpc, hdone.replaces.drop_stack⟩

theorem hasRoom_of_inits
    (h : ∀ ys ∈ xs.inits, ((Move.exchangeAll ys).perform m b).2.1.regs.depth ≤ 0x8004) :
    m.HasRoom b xs :=
  fun ys hys => h ys ((List.mem_inits ys xs).mpr hys)

def starting : Machine := ({} : Machine).reset 0x40

/-- A machine with a parameter and the label of a procedure on its stack. -/
def calling : Machine := (StackRequest.answerAll answer [.push 5, .push 0x20] starting).2

/-- A procedure that calls another and counts in a cell of its own. -/
def nestedCall : List Move :=
  .execute (.ldi 3) :: (Move.bracket 1 [] 0 ++
    [.execute (.count .iabz ⟨false, 8⟩ false), .execute (.bro ⟨true, 2⟩)])

theorem calls_nest_calling :
    calling.Reachable ∧ calling.stack = [0x20, 5] ∧
      ∃ m', (Move.exchangeAll (Move.bracket 0 nestedCall 1)).perform calling EmptyBus.mk =
          (.ok (), m', EmptyBus.mk) ∧
        m'.regs.pc = 0x40 ∧ m'.stack = [] ∧
        Returns [] calling EmptyBus.mk (Move.bracket 0 nestedCall 1) := by
  have hreach : calling.Reachable := Reachable.answerAll (.fresh (.reset _ _)) _
  have hstack : calling.stack = [0x20, 5] := by decide
  have hbody : Balanced 0 nestedCall 0 :=
    @Balanced.plain 0 0 _ (.execute (.ldi 3)) rfl <| @Balanced.call 1 0 _ _ 1 0 (.nil 0) <|
      @Balanced.plain 0 0 _ (.execute (.count .iabz _ _)) rfl <|
        @Balanced.plain 0 0 _ (.execute (.bro _)) rfl (.nil 0)
  have hroom : calling.HasRoom EmptyBus.mk (Move.bracket 0 nestedCall 1) :=
    hasRoom_of_inits (by decide)
  obtain ⟨hsequence, hcall⟩ := calls_nest hreach rfl EmptyBus.mk
  obtain ⟨m', hdone, -, hcells, hreturns⟩ :=
    hsequence 2 _ (.call 0 1 hbody (.nil 0)) (by decide) hroom
  obtain ⟨m'', hdone', -, hpc, -⟩ := hcall 0 1 _ hbody (by decide) hroom
  have hsame : m'' = m' := congrArg (·.2.1) (hdone'.symm.trans hdone)
  rw [hsame] at hpc
  exact ⟨hreach, hstack, m', hdone, hpc, by rw [hcells, hstack]; rfl, hreturns⟩

/-- A call of a procedure that counts in the cell of its return address. -/
def countingCall : List Move :=
  Move.bracket 1 [.execute (.count .iabz ⟨false, 0⟩ false)] 0

/-- A branch may count in the cell of a return address without popping it, and so
change where the return goes. -/
theorem branch_changes_return :
    starting.Reachable ∧ starting.isRunning = true ∧
      (Instruction.count .iabz ⟨false, 0⟩ false).isBranch = true ∧
      starting.HasRoom EmptyBus.mk countingCall ∧
      ((Move.exchangeAll countingCall).perform starting EmptyBus.mk).1 = .ok () ∧
      starting.regs.pc = 0x40 ∧
      ((Move.exchangeAll countingCall).perform starting EmptyBus.mk).2.1.regs.pc = 0x41 ∧
      ¬ Returns [] starting EmptyBus.mk countingCall := by
  refine ⟨.fresh (.reset _ _), rfl, rfl, hasRoom_of_inits (by decide), rfl, rfl, rfl, ?_⟩
  intro hreturns
  have hback : (0x41 : Word) = 0x40 := hreturns.1
  exact absurd hback (by decide)

end Machine

end StackComputer
