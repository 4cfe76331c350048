import StackComputer.Proofs.FixedArithmetic
import StackComputer.Proofs.OpcodeLocality

/-!
# Execution in fields of fixed width

An instruction does what it does to the machine, as long as the depth of the stack
fits in its field. Nothing else it does can trap, and it pushes four cells at most.
-/

namespace StackComputer.FixedWidth

/-! ## Results met -/

section

variable {α : Type} {d d' : Nat} {m m' : Machine} {x : α}

/-- The second result leaves the machine `m`, whose stack is no deeper than `d`. The
first is the same; or `d` is too much for the depth, and it is a trap. -/
inductive Meets (d : Nat) (m : Machine) : Trapping α → α → Prop
  | ok {x : α} (hd : m.regs.depth ≤ d) : Meets d m (.ok x) x
  | deep {x : α} (hd : m.regs.depth ≤ d) (htrap : 2 ^ 32 ≤ d) : Meets d m (.error .depth) x

theorem Meets.of_eq {x? : Trapping α} (hx : x? = .ok x) (hd : m.regs.depth ≤ d) :
    Meets d m x? x := hx ▸ .ok hd

theorem Meets.depth_le {x? : Trapping α} (h : Meets d m x? x) : m.regs.depth ≤ d := by
  cases h <;> assumption

theorem Meets.mono {x? : Trapping α} (h : Meets d m x? x) (hd : d ≤ d') : Meets d' m x? x := by
  cases h with
  | ok hm => exact .ok (hm.trans hd)
  | deep hm htrap => exact .deep (hm.trans hd) (htrap.trans hd)

theorem Meets.bind {γ : Type} {x? : Trapping α} {f : α → Trapping γ} {y : γ}
    (h : Meets d m x? x) (hd : d ≤ d') (hf : m.regs.depth ≤ d → Meets d' m' (f x) y) :
    Meets d' m' (x? >>= f) y := by
  cases h with
  | ok hm => exact hf hm
  | deep hm htrap => exact .deep (hf hm).depth_le (htrap.trans hd)

/-- What is done to the machine afterwards and leaves its stack alone. -/
theorem Meets.map {m? : Trapping Machine} (h : Meets d m m? m) (f : Machine → Machine)
    (hf : (f m).regs.depth = m.regs.depth) : Meets d (f m) (do return f (← m?)) (f m) :=
  h.bind le_rfl fun hd => .ok (hf ▸ hd)

end

/-! ## The stack -/

variable {m : Machine} {d n : Nat}

theorem pushCell_eq (hsr : m.regs.sr ≤ 4) (w : Word) :
    pushCell m w = if m.regs.depth + 1 < 2 ^ 32 then .ok (m.pushCell w) else .error .depth := by
  have hmemory : spill m (m.pushCell w).regs.sm = .ok (m.pushCell w).memory := by
    rw [spill, write_eq]
    simp only [Machine.pushCell]
    split <;> rfl
  have hoccupied : natural .occupied 8 (m.regs.sr + 1) = .ok (m.regs.sr + 1) :=
    natural_eq (by omega)
  have hpush : pushCell m w = (do
      let memory ← spill m (m.pushCell w).regs.sm
      let sr ← natural .occupied 8 (m.regs.sr + 1)
      let depth ← natural .depth 32 (m.regs.depth + 1)
      return { m.pushCell w with
        regs := { (m.pushCell w).regs with sr := min sr 4, depth }
        memory }) := rfl
  rw [hpush, hmemory, ok_bind, hoccupied, ok_bind, natural_eq_ite]
  split <;> rfl

theorem meets_pushCell (h : m.regs.WellFormed) (w : Word) :
    Meets (m.regs.depth + 1) (m.pushCell w) (pushCell m w) (m.pushCell w) := by
  have hsr := h.sr_eq
  rw [pushCell_eq (by omega)]
  split
  · exact .ok le_rfl
  · next hdeep => exact .deep le_rfl (Nat.le_of_not_lt hdeep)

theorem refill_eq (h : 1 ≤ m.regs.sr) : refill m = .ok m.refill := by
  rw [refill, Machine.refill]
  split
  · rw [read_eq]
    rfl
  · rw [difference_eq h]
    rfl

theorem dropCell_eq (h : m.regs.WellFormed) (hn : 1 ≤ m.regs.depth) :
    dropCell m = .ok m.dropCell := by
  have hsr := h.sr_eq
  exact refill_eq (by dsimp only; omega)

theorem dropSecondCell_eq (h : m.regs.WellFormed) (hn : 2 ≤ m.regs.depth) :
    dropSecondCell m = .ok m.dropSecondCell := by
  have hsr := h.sr_eq
  exact refill_eq (by dsimp only; omega)

theorem dropCells_eq (h : m.regs.WellFormed) (hn : n ≤ m.regs.depth) :
    dropCells m n = .ok (m.dropCells n) := by
  induction n generalizing m with
  | zero => rfl
  | succ n ih =>
      have hpos : 1 ≤ m.regs.depth := by omega
      have hrest : n ≤ m.dropCell.regs.depth := by
        rw [Machine.depth_dropCell]
        omega
      rw [dropCells, dropCell_eq h hpos, ok_bind]
      exact ih (Machine.wellFormed_dropCell h hpos) hrest

theorem meets_pushCells (h : m.regs.WellFormed) (ws : List Word) :
    Meets (m.regs.depth + ws.length) (m.pushCells ws) (pushCells m ws) (m.pushCells ws) := by
  induction ws generalizing m with
  | nil => exact .ok le_rfl
  | cons w ws ih =>
      have hfirst := meets_pushCell h w
      have hdepth : (m.pushCell w).regs.depth + ws.length = m.regs.depth + (w :: ws).length := by
        rw [List.length_cons, Nat.add_comm ws.length]
        exact Nat.add_assoc _ _ _
      rw [pushCells, List.foldlM_cons, ← hdepth]
      apply hfirst.bind (Nat.le_add_right _ _)
      intro _
      exact ih (Machine.wellFormed_pushCell h w)

theorem meets_pushDouble (h : m.regs.WellFormed) (w : Dword) :
    Meets (m.regs.depth + 2) ((m.pushCells [w.high, w.low]).sense w)
      (do return (← pushCells m [w.high, w.low]).sense w)
      ((m.pushCells [w.high, w.low]).sense w) := by
  have hpush : Meets (m.regs.depth + 2) (m.pushCells [w.high, w.low])
      (pushCells m [w.high, w.low]) (m.pushCells [w.high, w.low]) :=
    meets_pushCells h [w.high, w.low]
  exact hpush.map (·.sense w) rfl

theorem meets_settle (h : m.regs.WellFormed) (o : Outcome) :
    Meets (m.regs.depth + o.pushed.length) (m.settle o) (settle m o) (m.settle o) := by
  have hpushed : ∀ m : Machine, m.regs.WellFormed →
      Meets (m.regs.depth + o.pushed.length) ((m.pushCells o.pushed).setLatches o.latches)
        (do return (← pushCells m o.pushed).setLatches o.latches)
        ((m.pushCells o.pushed).setLatches o.latches) :=
    fun m h => (meets_pushCells h o.pushed).map (·.setLatches o.latches) rfl
  rw [settle, Machine.settle]
  cases o.range with
  | none => exact hpushed m h
  | some cause => exact hpushed (m.record (.outOfRange m.regs.pc cause)) h

/-! ## Changes -/

theorem meets_always {f? : Machine → Trapping Machine} {f : Machine → Machine}
    (h : Meets d (f m) (f? m) (f m)) :
    Meets d ((Machine.guarded none fun m => ((), f m)).perform m).2 (always f? m)
      ((Machine.guarded none fun m => ((), f m)).perform m) :=
  h.bind le_rfl .ok

section

variable {needs : Nat} {f? : Machine → Trapping Machine}

theorem after_of_enough (hrun : m.isRunning = true) (hn : needs ≤ m.regs.available) :
    after needs f? m = always f? m := by
  have hrequire : (Machine.require needs).perform m = (.ok (), m) := by
    change (if !m.isRunning then _ else if m.regs.available < needs then _ else _) = _
    rw [hrun, if_neg (by decide), if_neg (Nat.not_lt.mpr hn)]
  rw [after, hrequire]

theorem meets_after {f : Machine → Machine} (hm : m.regs.WellFormed) (hd : m.regs.depth ≤ d)
    (h : needs ≤ m.regs.depth → Meets d (f m) (f? m) (f m)) :
    Meets d ((Machine.checked needs fun m => ((), f m)).perform m).2 (after needs f? m)
      ((Machine.checked needs fun m => ((), f m)).perform m) := by
  have hrequire : (Machine.require needs).perform m =
      if !m.isRunning then (.error (.notRunning m.state.phase), m)
      else if m.regs.available < needs then (.error .stackUnderflow, m.fault .stackUnderflow)
      else (.ok (), m) := rfl
  rcases Bool.eq_false_or_eq_true m.isRunning with hrun | hstop
  · by_cases hfew : m.regs.available < needs
    · rw [after, hrequire, hrun, if_neg (by decide), if_pos hfew,
        Machine.perform_checked_underflow hrun hfew]
      apply Meets.ok
      rw [Machine.regs_fault]
      exact hd
    · have henough := Nat.le_of_not_lt hfew
      rw [after_of_enough hrun henough, Machine.perform_checked_ok hrun henough]
      exact meets_always (h (hm.available_eq ▸ henough))
  · rw [after, hrequire, hstop, if_pos (by decide), Machine.perform_checked_stopped hstop]
    exact .ok hd

end

/-- The change does what the action does, and pushes `n` cells at most on the way. -/
def Agrees (n : Nat) (change : Change) (a : Action Unit) : Prop :=
  ∀ m : Machine, m.regs.WellFormed →
    Meets (m.regs.depth + n) (a.perform m).2 (change m) (a.perform m)

theorem agrees_always {f? : Machine → Trapping Machine} {f : Machine → Machine}
    (h : ∀ m : Machine, m.regs.WellFormed → Meets (m.regs.depth + n) (f m) (f? m) (f m)) :
    Agrees n (always f?) (Machine.guarded none fun m => ((), f m)) :=
  fun m hm => meets_always (h m hm)

theorem agrees_after {needs : Nat} {f? : Machine → Trapping Machine} {f : Machine → Machine}
    (h : ∀ m : Machine, m.regs.WellFormed → needs ≤ m.regs.depth →
      Meets (m.regs.depth + n) (f m) (f? m) (f m)) :
    Agrees n (after needs f?) (Machine.checked needs fun m => ((), f m)) :=
  fun m hm => meets_after hm (Nat.le_add_right _ _) (h m hm)

/-! ## Opcodes -/

theorem replace_congr {f? : Cells n → Latches → Trapping Outcome}
    {f : Cells n → Latches → Outcome} (h : ∀ cells l, f? cells l = .ok (f cells l)) :
    replace n f? = apply (.replace n f) :=
  congrArg (replace n) (funext fun cells => funext fun l => h cells l)

theorem update_congr {f? : Cells n → Latches → Trapping (Cells n × Latches)}
    {f : Cells n → Latches → Cells n × Latches} (h : ∀ cells l, f? cells l = .ok (f cells l)) :
    update n f? = apply (.update n f) :=
  congrArg (update n) (funext fun cells => funext fun l => h cells l)

/-- What the opcodes compute fits, whatever the cells. -/
theorem stackOp_eq (op : StackOp) : stackOp op = apply op.effect := by
  unfold stackOp StackOp.effect
  cases op with
  | mpy => exact replace_congr fun _ l => multiply_eq l _ _
  | mpyl => exact replace_congr fun _ l => multiplyLong_eq l _ _
  | lmpy => exact replace_congr fun _ l => multiplyLogical_eq l _ _
  | div => exact replace_congr fun _ l => divide_eq l _ _
  | divl => exact replace_congr fun _ l => divideLong_eq l _ _
  | ldiv => exact replace_congr fun _ l => divideLogical_eq l _ _
  | flt | dflt => exact replace_congr fun _ l => real_eq l _
  | fadd | fsub | fmpy => exact replace_congr fun _ l => realBinary_eq l _ _ _
  | fdiv => exact replace_congr fun _ l => realDivide_eq l _ _
  | fcmp => exact replace_congr fun _ l => realCompare_eq l _ _
  | fixr | fixt => exact replace_congr fun _ l => realFix_eq l _ _
  | _ => rfl

theorem depth_dropSecondCell (m : Machine) :
    m.dropSecondCell.regs.depth = m.regs.depth - 1 := by
  simp only [Machine.dropSecondCell, Machine.refill]
  split <;> rfl

theorem agrees_apply {e : Effect} (he : e.Bounded) : Agrees 2 (apply e) (Machine.apply e) := by
  cases e with
  | undefined => exact fun _ _ => .ok (Nat.le_add_right _ _)
  | latch f => exact agrees_always fun _ _ => .ok (Nat.le_add_right _ _)
  | update k f =>
      rw [Effect.apply_eq Effect.noConfusion]
      exact agrees_after fun _ _ _ => .ok (Nat.le_add_right _ _)
  | extend k f =>
      rw [Effect.apply_eq Effect.noConfusion]
      apply agrees_after
      intro m hm _
      have hpushed := he.2 (m.regs.top k) m.latches
      exact (meets_settle hm _).mono (Nat.add_le_add_left hpushed _)
  | replace k f =>
      rw [Effect.apply_eq Effect.noConfusion]
      apply agrees_after
      intro m hm hk
      have hpushed := he.2 (m.regs.top k) (m.dropCells k).latches
      have hdepth := Machine.depth_dropCells m k
      have hsettle := meets_settle (Machine.wellFormed_dropCells hm hk)
        (f (m.regs.top k) (m.dropCells k).latches)
      rw [dropCells_eq hm hk, ok_bind]
      exact hsettle.mono (by omega)
  | dropSecond =>
      rw [Effect.apply_eq Effect.noConfusion]
      apply agrees_after
      intro m hm hk
      have hdepth : m.dropSecondCell.regs.depth ≤ m.regs.depth + 2 := by
        rw [depth_dropSecondCell]
        omega
      exact .of_eq (dropSecondCell_eq hm hk) hdepth

theorem agrees_stackOp (op : StackOp) : Agrees 2 (stackOp op) (Machine.stackOp op) := by
  rw [stackOp_eq]
  exact agrees_apply op.bounded_effect

theorem agrees_pair (first second : StackOp) :
    Agrees 4 (pair first second) (Machine.pair first second) := by
  intro m hm
  have hfirst := agrees_stackOp first m hm
  have hwell := Machine.wellFormed_stackOp hm first
  rcases hperform : (Machine.stackOp first).perform m with ⟨cause | ⟨⟩, m'⟩
  · rw [Machine.perform_pair_error hperform]
    rw [hperform] at hfirst
    exact hfirst.bind (by omega) fun hd => .ok (hd.trans (by omega))
  · rw [Machine.perform_pair_ok hperform]
    rw [hperform] at hfirst hwell
    apply hfirst.bind (by omega)
    intro (hd : m'.regs.depth ≤ m.regs.depth + 2)
    dsimp only
    split
    · exact (agrees_stackOp second m' hwell).mono (by omega)
    · exact .ok (hd.trans (by omega))

/-! ## Instructions -/

theorem resolve_eq (m : Machine) (base : Word) (s : Suffixes) :
    resolve m base s = .ok (m.resolve base s) := by
  rw [resolve, read_eq, Machine.resolve]
  split <;> rfl

theorem branchIf_eq (taken : Bool) (m : Machine) (d : Displacement) (s : Suffixes) :
    branchIf taken m d s = .ok (if taken then m.branch d s else m) := by
  rw [branchIf, branch, resolve_eq]
  split <;> rfl

theorem store_eq (m : Machine) (a w : Word) : store m a w = .ok (m.store a w) := by
  rw [store, write_eq]
  rfl

theorem callLabel_eq {n : Byte} (hm : m.regs.WellFormed)
    (hn : (if n = 0 then 1 else 0) ≤ m.regs.depth) :
    callLabel n m = .ok (m.callLabel n, if n = 0 then m.dropCell else m) := by
  rw [callLabel, Machine.callLabel]
  split at hn
  · next hzero =>
      rw [if_pos hzero, if_pos hzero, if_pos hzero, dropCell_eq hm hn]
      rfl
  · next hlabel =>
      rw [if_neg hlabel, if_neg hlabel, if_neg hlabel, read_eq]
      rfl

theorem agrees_call (n : Byte) : Agrees 1 (call n) (Machine.call n) := by
  rw [Machine.call_eq]
  apply agrees_after
  intro m hm hn
  rw [callLabel_eq hm hn, ok_bind]
  dsimp only
  have hrest : (if n = 0 then m.dropCell else m).regs.WellFormed ∧
      (if n = 0 then m.dropCell else m).regs.depth ≤ m.regs.depth := by
    split at hn
    · next hzero =>
        rw [if_pos hzero, Machine.depth_dropCell]
        exact ⟨Machine.wellFormed_dropCell hm hn, Nat.sub_le _ _⟩
    · next hlabel =>
        rw [if_neg hlabel]
        exact ⟨hm, le_rfl⟩
  have hpush := (meets_pushCell hrest.1 m.regs.pc).mono (Nat.add_le_add_right hrest.2 1)
  exact hpush.map (·.jump (m.regs.pb + (m.callLabel n).address)) rfl

theorem agrees_exit (n : Byte) : Agrees 0 (exit n) (Machine.exit n) := by
  have hexit : Machine.exit n = Machine.checked (n.toNat + 1) fun m =>
      ((), (m.dropCells (n.toNat + 1)).jump m.regs.ra) := rfl
  have hparameters : natural .sum 32 (n.toNat + 1) = .ok (n.toNat + 1) := natural_eq (by omega)
  rw [hexit]
  intro m hm
  rw [exit, hparameters, ok_bind]
  apply meets_after hm le_rfl
  intro hn
  have hdepth := Machine.depth_dropCells m (n.toNat + 1)
  rw [dropCells_eq hm hn]
  exact .ok (show (m.dropCells (n.toNat + 1)).regs.depth ≤ _ by omega)

theorem shift_eq (op : ShiftOp) (count : Byte) (indexed : Bool) (m : Machine) :
    shift op count indexed m = apply (Effect.shift op (m.shiftCount count indexed)) m := by
  rw [shift, shiftCount_eq, ok_bind, Effect.shift]
  split
  · rw [Effect.topDouble, ← update_congr]
    intro cells l
    rw [shifted_eq l _ (by decide)]
    rfl
  · rw [Effect.top, ← update_congr]
    intro cells l
    rw [shifted_eq l _ (by decide)]
    rfl

theorem bounded_shift (op : ShiftOp) (n : Nat) : (Effect.shift op n).Bounded := by
  rw [Effect.shift]
  split
  · exact show 2 ≤ 4 by decide
  · exact show 1 ≤ 4 by decide

theorem agrees_shift (op : ShiftOp) (count : Byte) (indexed : Bool) :
    Agrees 2 (shift op count indexed) (Machine.shift op count indexed) := by
  intro m hm
  rw [shift_eq]
  exact agrees_apply (bounded_shift op (m.shiftCount count indexed)) m hm

theorem agrees_memoryReference (op : MemoryOp) (displacement : Word) (s : Suffixes) :
    Agrees 2 (memoryReference op displacement s) (Machine.memoryReference op displacement s) := by
  rw [Machine.memoryReference_eq]
  intro m hm
  rw [memoryReference, resolve_eq, ok_bind]
  have hroom : m.regs.depth ≤ m.regs.depth + 2 := Nat.le_add_right _ _
  cases op with
  | incm | decm =>
      apply meets_always
      rw [read_eq, ok_bind]
      dsimp only
      rw [store_eq]
      exact .ok hroom
  | stor =>
      apply meets_after hm hroom
      intro hn
      have hdepth := Machine.depth_dropCell m
      rw [dropCell_eq hm hn, ok_bind, store_eq]
      exact .ok (show m.dropCell.regs.depth ≤ _ by omega)
  | ldd =>
      dsimp only
      rw [read_eq, ok_bind, read_eq, ok_bind]
      apply meets_after hm hroom
      intro _
      exact meets_pushDouble hm _
  | std =>
      apply meets_after hm hroom
      intro hn
      have hdepth := Machine.depth_dropCells m 2
      rw [dropCells_eq hm hn, ok_bind, store_eq, ok_bind, store_eq]
      exact .ok (show (m.dropCells 2).regs.depth ≤ _ by omega)

theorem agrees_load (w : Word) : Agrees 1 (load w) (Machine.load w) := by
  rw [Machine.load_eq]
  apply agrees_after
  intro m hm _
  exact (meets_pushCell hm w).map (·.sense w) rfl

theorem agrees_loadFrom (target : LoadTarget) (s : Suffixes) :
    Agrees 1 (loadFrom target s) (Machine.loadFrom target s) := by
  rw [Machine.loadFrom_eq]
  intro m hm
  unfold loadFrom
  dsimp only
  rw [resolve_eq, ok_bind, read_eq, ok_bind]
  apply meets_after hm (Nat.le_add_right _ _)
  intro _
  exact (meets_pushCell hm _).map (·.sense _) rfl

theorem meets_branchIf (hd : m.regs.depth ≤ d) (taken : Bool) (target : Displacement)
    (s : Suffixes) :
    Meets d (if taken then m.branch target s else m) (branchIf taken m target s)
      (if taken then m.branch target s else m) := by
  apply Meets.of_eq (branchIf_eq taken m target s)
  split <;> exact hd

theorem agrees_countBranch (op : CountOp) (target : Displacement) (s : Suffixes) :
    Agrees 0 (countBranch op target s) (Machine.countBranch op target s) := by
  have hzero : ∀ (m : Machine) (w : Word),
      Meets m.regs.depth (if w = 0 then m.branch target s else m)
        (branchIf (w == 0) m target s) (if w = 0 then m.branch target s else m) := by
    intro m w
    have hbranch := meets_branchIf (le_refl m.regs.depth) (w == 0) target s
    simpa only [beq_iff_eq] using hbranch
  rw [Machine.countBranch_eq]
  cases op with
  | iabz => exact agrees_after fun m _ _ => hzero (m.countAct .iabz).2 (m.countAct .iabz).1
  | ixbz => exact agrees_always fun m _ => hzero (m.countAct .ixbz).2 (m.countAct .ixbz).1
  | dxbz => exact agrees_always fun m _ => hzero (m.countAct .dxbz).2 (m.countAct .dxbz).1

theorem agrees_flagBranch (op : FlagOp) (target : Displacement) (s : Suffixes) :
    Agrees 0 (flagBranch op target s) (modify (Machine.flagBranch op target s)) := by
  apply agrees_always
  intro m _
  have hflag : ∀ taken sta, Meets m.regs.depth
      (if taken then (m.setStatus sta).branch target s else m.setStatus sta)
      (branchIf taken (m.setStatus sta) target s)
      (if taken then (m.setStatus sta).branch target s else m.setStatus sta) :=
    fun taken sta => meets_branchIf (m := m.setStatus sta) le_rfl taken target s
  cases op <;> exact hflag _ _

theorem agrees_modify {f : Machine → Machine} (h : ∀ m, (f m).regs.depth = m.regs.depth) :
    Agrees 0 (always fun m => return f m) (modify f) :=
  agrees_always fun m _ => .ok (h m).le

theorem agrees_branch (target : Displacement) (s : Suffixes) :
    Agrees 0 (always fun m => branch m target s) (modify fun m => m.branch target s) :=
  agrees_always fun m _ => meets_branchIf (m := m) le_rfl true target s

theorem agrees_codeBranch (selector : Byte) (target : Displacement) (s : Suffixes) :
    Agrees 0
      (always fun m => branchIf (Machine.accepts selector m.regs.sta.cc) m target s)
      (Machine.guarded none fun m =>
        ((), if Machine.accepts selector m.regs.sta.cc then m.branch target s else m)) :=
  agrees_always fun m _ => meets_branchIf (m := m) le_rfl _ target s

theorem ddiv_eq : (replace 4 fun cells => divideDouble cells.lowerDouble cells.double) =
    apply (.binaryDouble .divideDouble) :=
  replace_congr fun _ l => divideDouble_eq l _ _

theorem length_divideDouble (a b : Dword) (l : Latches) :
    (Outcome.divideDouble a b l).pushed.length ≤ 4 + 2 := by
  unfold Outcome.divideDouble
  dsimp only
  split
  · exact Nat.le_add_right 4 2
  · exact Nat.le_add_right 4 2

theorem bounded_binaryDouble {f : Dword → Dword → Latches → Outcome}
    (hf : ∀ a b l, (f a b l).pushed.length ≤ 4 + 2) : (Effect.binaryDouble f).Bounded :=
  ⟨le_rfl, fun cells l => hf cells.lowerDouble cells.double l⟩

theorem agrees_ddiv :
    Agrees 2 (replace 4 fun cells => divideDouble cells.lowerDouble cells.double)
      (Machine.apply (.binaryDouble .divideDouble)) := by
  rw [ddiv_eq]
  exact agrees_apply (bounded_binaryDouble length_divideDouble)

theorem agrees_oddBranch (target : Displacement) :
    Agrees 0 (after 1 fun m => do branchIf (m.regs.ra.getLsbD 0) (← dropCell m) target {})
      (Machine.oddBranch target) := by
  rw [Machine.oddBranch_eq]
  apply agrees_after
  intro m hm hone
  have hdepth := Machine.depth_dropCell m
  rw [dropCell_eq hm hone]
  exact meets_branchIf (by omega) _ target {}

/-! ## Exchanges -/

section

variable {β : Type} [Bus β]

omit [Bus β] in
theorem Agrees.alone {change : Change} {a : Action Unit} (h : Agrees n change a) {k : Nat}
    (hn : n ≤ k) (hm : m.regs.WellFormed) (b : β) :
    Meets (m.regs.depth + k) ((Exchange.machine a).perform m b).2.1 (alone change m b)
      ((Exchange.machine a).perform m b) :=
  (h m hm).bind (Nat.add_le_add_left hn _) fun hd => .ok (hd.trans (Nat.add_le_add_left hn _))

theorem agrees_deliver (w : Word) (cc : ConditionCode) :
    Agrees 1 (deliver w cc) (Exchange.deliver w cc) := by
  rw [Exchange.deliver_eq]
  apply agrees_after
  intro m hm _
  exact (meets_pushCell hm w).map (·.setCode cc) rfl

theorem meets_receive (hm : m.regs.WellFormed) (device : Byte) (b : β) :
    Meets (m.regs.depth + 1) ((Exchange.receive device).perform m b).2.1 (receive device m b)
      ((Exchange.receive device).perform m b) := by
  rw [receive]
  dsimp only
  cases hpoll : (Bus.readStatus b device).answer with
  | none =>
      rw [Exchange.perform_receive_absent hpoll]
      exact .ok (Nat.le_succ _)
  | some status =>
      dsimp only
      cases hready : Bus.isReady status with
      | false =>
          rw [Exchange.perform_receive_busy hpoll hready]
          exact (agrees_deliver _ _).alone (m := m.hear _) le_rfl hm _
      | true =>
          rw [Exchange.perform_receive_ready hpoll hready]
          exact (agrees_deliver _ _).alone (m := (m.hear _).hear _) le_rfl hm _

theorem agrees_taken :
    Agrees 0 (after 1 fun m => return (← dropCell m).setCode .equal)
      (Machine.checked 1 fun m => ((), m.taken)) := by
  apply agrees_after
  intro m hm hone
  have hdepth := Machine.depth_dropCell m
  rw [dropCell_eq hm hone]
  exact .ok (show m.dropCell.regs.depth ≤ m.regs.depth by omega)

theorem meets_send (hm : m.regs.WellFormed) (device : Byte) (b : β) :
    Meets (m.regs.depth + 1) ((Exchange.send device).perform m b).2.1 (send device m b)
      ((Exchange.send device).perform m b) := by
  have hroom : m.regs.depth ≤ m.regs.depth + 1 := Nat.le_succ _
  rw [send]
  dsimp only
  cases hpoll : (Bus.readStatus b device).answer with
  | none =>
      rw [Exchange.perform_send_absent hpoll]
      exact .ok hroom
  | some status =>
      dsimp only
      cases hready : Bus.isReady status with
      | false =>
          rw [Exchange.perform_send_busy hpoll hready]
          exact (agrees_deliver _ _).alone (m := m.hear _) le_rfl hm _
      | true =>
          have hpeek : Machine.peek = Machine.guarded (some 1) fun m => (m.regs.ra, m) :=
            Machine.peek_eq
          have hheard : hear m (Bus.readStatus b device).events =
            m.hear (Bus.readStatus b device).events := rfl
          rw [if_pos rfl, hheard, hpeek]
          rcases Machine.perform_guarded_cases (some 1) (fun m => (m.regs.ra, m))
            (m.hear (Bus.readStatus b device).events) with hstop | hshort | ⟨-, hok⟩
          · rw [Exchange.perform_send_failed hpoll hready (hpeek ▸ hstop), hstop]
            exact .ok hroom
          · rw [Exchange.perform_send_failed hpoll hready (hpeek ▸ hshort), hshort]
            apply Meets.ok
            rw [Machine.regs_fault]
            exact hroom
          · rw [Exchange.perform_send_ready hpoll hready (hpeek ▸ hok), hok]
            dsimp only
            generalize Bus.writeWord (Bus.readStatus b device).bus device
              (m.hear (Bus.readStatus b device).events).regs.ra = reply
            rcases reply with ⟨cause | ⟨⟩, bus, events⟩
            · exact .ok hroom
            · exact agrees_taken.alone (m := (m.hear _).hear _) (Nat.zero_le 1) hm _

theorem meets_execute (hm : m.regs.WellFormed) (i : Instruction) (b : β) :
    Meets (m.regs.depth + 4) (i.execute.perform m b).2.1 (execute i m b)
      (i.execute.perform m b) := by
  cases i with
  | rio device => exact (meets_receive hm device b).mono (Nat.le_add_right _ 3)
  | wio device => exact (meets_send hm device b).mono (Nat.le_add_right _ 3)
  | pair first second => exact (agrees_pair first second).alone le_rfl hm b
  | scal n => exact (agrees_call n).alone (by decide) hm b
  | sxit n => exact (agrees_exit n).alone (by decide) hm b
  | shift op n indexed => exact (agrees_shift op n indexed).alone (by decide) hm b
  | memory op displacement s =>
      exact (agrees_memoryReference op displacement s).alone (by decide) hm b
  | load target s => exact (agrees_loadFrom target s).alone (by decide) hm b
  | ldi value => exact (agrees_load _).alone (by decide) hm b
  | ldxi value =>
      have hload : Agrees 0
          (always fun m => return m.setLatches (m.latches.setX (value.setWidth 16)))
          (modify fun m => m.setLatches (m.latches.setX (value.setWidth 16))) :=
        agrees_modify fun _ => rfl
      exact hload.alone (by decide) hm b
  | ddiv => exact agrees_ddiv.alone (by decide) hm b
  | count op displacement indirect => exact (agrees_countBranch op _ _).alone (by decide) hm b
  | flag op displacement indirect => exact (agrees_flagBranch op _ _).alone (by decide) hm b
  | bro displacement => exact (agrees_oddBranch displacement).alone (by decide) hm b
  | br displacement s => exact (agrees_branch displacement s).alone (by decide) hm b
  | bcc selector displacement indirect =>
      rw [Instruction.execute_eq rfl]
      exact (agrees_codeBranch selector displacement _).alone (by decide) hm b
  | halt code =>
      have hhalt : Agrees 0 (always fun m =>
            return m.halt ("HALT ".toList ++ Text.decimal code.toNat))
          (modify fun m => m.halt ("HALT ".toList ++ Text.decimal code.toNat)) := by
        apply agrees_modify
        intro m
        rw [Machine.halt]
        split <;> rfl
      exact hhalt.alone (by decide) hm b

end

end StackComputer.FixedWidth
