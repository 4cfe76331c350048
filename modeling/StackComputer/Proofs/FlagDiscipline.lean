import StackComputer.Proofs.FaultAtomicity
import StackComputer.Proofs.FlagSets

/-!
# Flag discipline

Execution touches the flags of the opcode or instruction and leaves the bases,
the rest of the status word and the count of fetches alone. A machine that was
started and runs never has mode bits set or an indeterminate condition code.
-/

namespace StackComputer

namespace Machine

/-- What execution keeps when it may set the flags of a set. -/
structure Keeps (f : FlagSet) (m m' : Machine) : Prop where
  db_eq : m'.regs.db = m.regs.db
  pb_eq : m'.regs.pb = m.regs.pb
  pl_eq : m'.regs.pl = m.regs.pl
  cycles_eq : m'.cycles = m.cycles
  last_eq : m'.last = m.last
  sta : m.regs.sta.Within f m'.regs.sta

variable {f g : FlagSet} {m m' m'' : Machine}

theorem Keeps.refl (f : FlagSet) (m : Machine) : m.Keeps f m :=
  ⟨rfl, rfl, rfl, rfl, rfl, .refl f m.regs.sta⟩

theorem Keeps.trans (h : m.Keeps f m') (h' : m'.Keeps f m'') : m.Keeps f m'' where
  db_eq := h'.db_eq.trans h.db_eq
  pb_eq := h'.pb_eq.trans h.pb_eq
  pl_eq := h'.pl_eq.trans h.pl_eq
  cycles_eq := h'.cycles_eq.trans h.cycles_eq
  last_eq := h'.last_eq.trans h.last_eq
  sta := h.sta.trans h'.sta

theorem Keeps.union_left (h : m.Keeps f m') (g : FlagSet) : m.Keeps (f.union g) m' :=
  { h with sta := h.sta.union_left g }

theorem Keeps.union_right (h : m.Keeps g m') (f : FlagSet) : m.Keeps (f.union g) m' :=
  { h with sta := h.sta.union_right f }

theorem keeps_of_frame {pc x : Word} {sta : Status} {state : RunState}
    (h : m'.frame = { m.frame with pc := pc, x := x, sta := sta, state := state })
    (hsta : m.regs.sta.Within f sta) : m.Keeps f m' where
  db_eq := congrArg Frame.db h
  pb_eq := congrArg Frame.pb h
  pl_eq := congrArg Frame.pl h
  cycles_eq := congrArg Frame.cycles h
  last_eq := congrArg Frame.last h
  sta := by
    have heq : m'.regs.sta = sta := congrArg Frame.sta h
    rw [heq]
    exact hsta

theorem keeps_of_frame_eq (h : m'.frame = m.frame) : m.Keeps f m' :=
  keeps_of_frame h (.refl f m.regs.sta)

theorem keeps_jump (m : Machine) (a : Word) : m.Keeps f (m.jump a) :=
  keeps_of_frame rfl (.refl f _)

theorem keeps_setStatus {sta : Status} (h : m.regs.sta.Within f sta) :
    m.Keeps f (m.setStatus sta) :=
  keeps_of_frame rfl h

theorem keeps_setLatches {l : Latches} (h : m.regs.sta.Within f l.sta) :
    m.Keeps f (m.setLatches l) :=
  keeps_of_frame rfl h

theorem keeps_settle {o : Outcome} (h : m.regs.sta.Within f o.latches.sta) :
    m.Keeps f (m.settle o) :=
  keeps_of_frame (frame_settle m o) h

theorem keeps_fault (m : Machine) (e : ExecError) : m.Keeps f (m.fault e) := by
  rw [fault]
  split
  · exact keeps_of_frame rfl (.refl f _)
  · exact .refl f m

theorem keeps_dropCell (m : Machine) : m.Keeps f m.dropCell :=
  keeps_of_frame_eq (frame_dropCell m)

theorem keeps_dropCells (m : Machine) (n : Nat) : m.Keeps f (m.dropCells n) :=
  keeps_of_frame_eq (frame_dropCells m n)

theorem keeps_pushCells (m : Machine) (ws : List Word) : m.Keeps f (m.pushCells ws) :=
  keeps_of_frame_eq (frame_pushCells m ws)

theorem keeps_loaded (m : Machine) (w : Word) : m.Keeps { code := true } ((m.pushCell w).sense w) :=
  (keeps_pushCells m [w]).trans (keeps_setStatus (Status.within_sense _ w))

theorem keeps_branch_of (c : Prop) [Decidable c] (m : Machine) (d : Displacement) (s : Suffixes) :
    m.Keeps f (if c then m.branch d s else m) := by
  split
  · exact keeps_jump m _
  · exact .refl f m

theorem keeps_memoryAct (m : Machine) (op : MemoryOp) (a : Word) :
    m.Keeps op.flags (m.memoryAct op a) := by
  cases op with
  | incm | decm => exact keeps_of_frame rfl (Status.within_latch _ _)
  | stor =>
      have hstore : m.dropCell.Keeps {} (m.dropCell.store a m.regs.ra) := keeps_of_frame_eq rfl
      exact (keeps_dropCell m).trans hstore
  | ldd => exact (keeps_pushCells m _).trans (keeps_setStatus (Status.within_sense _ _))
  | std =>
      apply (keeps_dropCells m 2).trans
      exact keeps_of_frame_eq rfl

theorem keeps_countAct (m : Machine) (op : CountOp) : m.Keeps {} (m.countAct op).2 := by
  cases op <;> exact keeps_of_frame rfl (.refl {} _)

theorem within_clear (op : FlagOp) (s : Status) : s.Within op.flags (op.clear s) := by
  cases op with
  | bcy | bncy => exact ⟨rfl, rfl, nofun, fun _ => rfl, fun _ => rfl, id⟩
  | bov | bnov => exact ⟨rfl, rfl, fun _ => rfl, nofun, fun _ => rfl, id⟩

theorem keeps_flagBranch (m : Machine) (op : FlagOp) (d : Displacement) (s : Suffixes) :
    m.Keeps op.flags (m.flagBranch op d s) := by
  have hclear : m.Keeps op.flags (m.setStatus (op.clear m.regs.sta)) :=
    keeps_setStatus (within_clear op m.regs.sta)
  rw [Instruction.flagBranch_eq]
  split
  · exact hclear.trans (keeps_jump _ _)
  · exact hclear

theorem keeps_guarded {α : Type} {n : Option Nat} {act : Machine → α × Machine}
    (h : m.Keeps f (act m).2) : m.Keeps f ((guarded n act).perform m).2 := by
  rcases perform_guarded_cases n act m with hstop | hshort | ⟨-, hok⟩
  · rw [hstop]
    exact .refl f m
  · rw [hshort]
    exact keeps_fault m _
  · rw [hok]
    exact h

end Machine

open Machine

theorem Effect.keeps_act {f : FlagSet} {e : Effect} (he : e.Sets f) (m : Machine) :
    m.Keeps f (e.act m) := by
  cases e with
  | undefined => exact .refl f m
  | latch g => exact keeps_setLatches (he m.latches)
  | update n g => exact keeps_of_frame rfl (he (m.regs.top n) m.latches)
  | extend n g => exact keeps_settle (he (m.regs.top n) m.latches)
  | replace n g =>
      apply (keeps_dropCells m n).trans
      exact keeps_settle (he (m.regs.top n) (m.dropCells n).latches)
  | dropSecond => exact keeps_of_frame_eq (frame_dropSecondCell m)

/-- One instruction that acts on the machine alone, constructor by constructor. -/
theorem Instruction.keeps_act (m : Machine) (i : Instruction) : m.Keeps i.flags (i.act m) := by
  cases i with
  | rio device | wio device | pair first second => exact .refl _ m
  | halt code =>
      rw [act, Machine.halt]
      split
      · exact keeps_of_frame rfl (.refl _ _)
      · exact .refl _ m
  | scal n =>
      have hlabel : m.Keeps {} (if n = 0 then m.dropCell else m) := by
        split
        · exact keeps_dropCell m
        · exact .refl _ m
      exact (hlabel.trans (keeps_pushCells _ [m.regs.pc])).trans (keeps_jump _ _)
  | sxit n => exact (keeps_dropCells m _).trans (keeps_jump _ _)
  | shift op n indexed => exact Effect.keeps_act (Effect.sets_shift op _) m
  | memory op displacement s => exact keeps_memoryAct m op _
  | load target s => exact keeps_loaded m _
  | ldi value => exact keeps_loaded m _
  | ldxi value => exact keeps_setLatches (.refl _ _)
  | ddiv => exact Effect.keeps_act Effect.sets_divideDouble m
  | br displacement s => exact keeps_jump m _
  | bcc selector displacement indirect => exact keeps_branch_of _ m _ _
  | count op displacement indirect => exact (keeps_countAct m op).trans (keeps_branch_of _ _ _ _)
  | flag op displacement indirect => exact keeps_flagBranch m op _ _
  | bro displacement => exact (keeps_dropCell m).trans (keeps_branch_of _ _ _ _)

namespace Machine

theorem keeps_stackOp (m : Machine) (op : StackOp) :
    m.Keeps op.flags ((stackOp op).perform m).2 := by
  by_cases hop : op = .unk
  · rw [hop]
    exact .refl _ m
  · rw [stackOp, Effect.apply_eq (StackOp.effect_ne_undefined hop)]
    exact keeps_guarded (Effect.keeps_act (StackOp.sets_effect op) m)

/-- The halves of a packed pair, of which the second may not be reached. -/
theorem keeps_pair (m : Machine) (first second : StackOp) :
    m.Keeps (first.flags.union second.flags) ((pair first second).perform m).2 := by
  have hfirst := (keeps_stackOp m first).union_left second.flags
  rcases hrun : (stackOp first).perform m with ⟨cause | ⟨⟩, m'⟩
  · rw [hrun] at hfirst
    rw [perform_pair_error hrun]
    exact hfirst
  · rw [hrun] at hfirst
    rw [perform_pair_ok hrun]
    split
    · exact hfirst.trans ((keeps_stackOp m' second).union_right first.flags)
    · exact hfirst

theorem keeps_hear (m : Machine) (events : List Event) : m.Keeps f (m.hear events) :=
  keeps_of_frame_eq rfl

theorem keeps_setCode (m : Machine) {cc : ConditionCode} (hcc : cc ≠ .indeterminate) :
    m.Keeps { code := true } (m.setCode cc) :=
  keeps_setStatus (Status.within_setCode _ hcc)

theorem keeps_delivered (m : Machine) (w : Word) {cc : ConditionCode}
    (hcc : cc ≠ .indeterminate) : m.Keeps { code := true } (m.delivered w cc) :=
  (keeps_pushCells m [w]).trans (keeps_setCode _ hcc)

theorem keeps_refused (m : Machine) (device : Byte) (cause : DeviceError) :
    m.Keeps { code := true } (m.refused device cause) :=
  keeps_of_frame rfl (Status.within_setCode _ (by decide))

theorem stable_keeps (m : Machine) : Exchange.Stable (m.Keeps { code := true }) where
  hear h events := h.trans (keeps_hear _ events)
  setCode h := h.trans (keeps_setCode _ (by decide))
  fault h := h.trans (keeps_fault _ _)
  delivered h w _ hcc := h.trans (keeps_delivered _ w hcc)
  taken h _ := (h.trans (keeps_dropCell _)).trans (keeps_setCode _ (by decide))
  refused h device cause := h.trans (keeps_refused _ device cause)

end Machine

/-! ## Runs -/

/-- A status word as a machine starts with: no mode bit set, and a condition code
that says something. -/
structure Status.Settled (s : Status) : Prop where
  mode_eq : s.mode = 0
  determinate : s.cc ≠ .indeterminate

theorem Status.Within.settled {f : FlagSet} {s s' : Status} (h : s.Within f s')
    (hs : s.Settled) : s'.Settled :=
  ⟨h.mode_eq.trans hs.mode_eq, h.determinate hs.determinate⟩

theorem StackRequest.frame_act (r : StackRequest) (m : Machine) : (r.act m).2.frame = m.frame := by
  cases r with
  | pop => exact frame_dropCell m
  | dropSecond => exact frame_dropSecondCell m
  | popDouble => exact frame_dropCells m 2
  | push w | peek | peekSecond | replaceTop w | replaceSecond w | pushDouble d | peekDouble
  | replaceDouble d => rfl

namespace Machine

theorem keeps_answer (m : Machine) (r : StackRequest) : m.Keeps {} (m.answer r).2 := by
  rw [answer, r.action_eq]
  exact keeps_guarded (n := some r.needs) (keeps_of_frame_eq (r.frame_act m))

variable {β : Type} [Bus β] {m : Machine}

theorem keeps_execute (m : Machine) (i : Instruction) (b : β) :
    m.Keeps i.flags (i.execute.perform m b).2.1 := by
  cases i with
  | rio device => exact (stable_keeps m).receive (.refl _ m) device b
  | wio device => exact (stable_keeps m).send (.refl _ m) device b
  | pair first second => exact keeps_pair m first second
  | _ =>
      rw [Instruction.execute_eq rfl, Exchange.perform_machine]
      exact keeps_guarded (Instruction.keeps_act m _)

omit [Bus β] in
theorem keeps_stopped {f : FlagSet} {r : Except ExecError Unit × Machine × β}
    (h : m.Keeps f r.2.1) : m.Keeps f (Exchange.stopped r) := by
  rcases r with ⟨cause | ⟨⟩, m', b⟩
  · exact h.trans (keeps_fault _ _)
  · exact h

/-- A step is counted and then does what an instruction may do. -/
theorem exists_keeps_step (hrun : m.isRunning = true) (b : β) :
    ∃ fetched f, fetched.cycles = m.cycles + 1 ∧ fetched.regs.sta = m.regs.sta ∧
      Keeps f fetched (m.step b).1 := by
  rcases step_cases m b with ⟨hstop, -⟩ | ⟨-, hstep⟩ | ⟨i, -, hstep⟩
  · exact absurd (hrun.symm.trans hstop) Bool.noConfusion
  · rw [hstep]
    exact ⟨m.fetch, {}, rfl, rfl, keeps_fault _ _⟩
  · rw [hstep]
    exact ⟨m.fetching i, i.flags, rfl, rfl, keeps_stopped (keeps_execute _ i b)⟩

theorem settled_step (h : m.regs.sta.Settled) (b : β) : (m.step b).1.regs.sta.Settled := by
  rcases Bool.eq_false_or_eq_true m.isRunning with hrun | hstop
  · obtain ⟨fetched, f, -, hsta, hkeeps⟩ := exists_keeps_step hrun b
    rw [← hsta] at h
    exact hkeeps.sta.settled h
  · rw [step_of_stopped hstop]
    exact h

theorem settled_runFrom (h : m.regs.sta.Settled) (b : β) (count budget : Nat) :
    (m.runFrom count b budget).2.1.regs.sta.Settled :=
  runFrom_preserves (P := fun m => m.regs.sta.Settled) (fun _ b hm => settled_step hm b) h b
    count budget

/-- The states of a machine that was started and whose status word nobody set
from outside. -/
inductive Started : Machine → Prop
  | fresh {m : Machine} : Fresh m → Started m
  | preset {m : Machine} (memory : Memory) (x db pb pl : Word) : Started m →
      Started { m with
        memory := memory, regs := { m.regs with x := x, db := db, pb := pb, pl := pl } }
  | answer {m : Machine} (r : StackRequest) : Started m → Started (m.answer r).2
  | stackOp {m : Machine} (op : StackOp) : Started m → Started ((stackOp op).perform m).2
  | execute {m : Machine} {β : Type} [Bus β] (i : Instruction) (b : β) :
      Started m → Started (i.execute.perform m b).2.1
  | step {m : Machine} {β : Type} [Bus β] (b : β) : Started m → Started (m.step b).1
  | run {m : Machine} {β : Type} [Bus β] (b : β) (budget : Nat) :
      Started m → Started (m.run b budget).2.1
  | halt {m : Machine} (reason : Text) : Started m → Started (m.halt reason)

theorem Fresh.settled (h : m.Fresh) : m.regs.sta.Settled := by
  have hstart : ({} : Status).Settled := ⟨rfl, by decide⟩
  cases h <;> exact hstart

theorem Started.settled (h : m.Started) : m.regs.sta.Settled := by
  induction h with
  | fresh h => exact h.settled
  | preset memory x db pb pl _ ih => exact ih
  | answer r _ ih => exact (keeps_answer _ r).sta.settled ih
  | stackOp op _ ih => exact (keeps_stackOp _ op).sta.settled ih
  | execute i b _ ih => exact (keeps_execute _ i b).sta.settled ih
  | step b _ ih => exact settled_step ih b
  | run b budget _ ih => exact settled_runFrom ih b 0 budget
  | halt reason _ ih =>
      rw [Machine.halt]
      split <;> exact ih

/-- Instructions and opcodes leave the bases and the mode bits alone and set the
flags of their group at most, the whole status word staying as it is where the
group is empty. In a machine that was started and runs, no mode bit is ever set
and the condition code is never indeterminate. -/
theorem flags_keep_discipline :
    (∀ {β : Type} [Bus β] (m : Machine) (i : Instruction) (b : β),
      m.Keeps i.flags (i.execute.perform m b).2.1 ∧
      (i.flags = {} → (i.execute.perform m b).2.1.regs.sta = m.regs.sta)) ∧
    (∀ (m : Machine) (op : StackOp), m.Keeps op.flags ((stackOp op).perform m).2 ∧
      (op.flags = {} → ((stackOp op).perform m).2.regs.sta = m.regs.sta)) ∧
    ∀ m : Machine, m.Started → m.regs.sta.mode = 0 ∧ m.regs.sta.cc ≠ .indeterminate := by
  refine ⟨?_, ?_, fun m h => ⟨h.settled.mode_eq, h.settled.determinate⟩⟩
  · intro β _ m i b
    have hkeeps := keeps_execute m i b
    refine ⟨hkeeps, fun hnone => ?_⟩
    rw [hnone] at hkeeps
    exact hkeeps.sta.eq
  · intro m op
    have hkeeps := keeps_stackOp m op
    refine ⟨hkeeps, fun hnone => ?_⟩
    rw [hnone] at hkeeps
    exact hkeeps.sta.eq

/-- A program that takes one from nothing and then tests for the borrow. -/
def borrowing : Machine :=
  { memory := ((Memory.zero.write 0 (Instruction.ldi 1).encode).write 1
      (Instruction.pair .neg .nop).encode).write 2
      (Instruction.flag .bcy ⟨false, 6⟩ false).encode }

theorem flags_keep_discipline_borrowing :
    (borrowing.run EmptyBus.mk 2).2.1.Started ∧
    (borrowing.run EmptyBus.mk 2).2.1.regs.sta.carry = true ∧
    (borrowing.run EmptyBus.mk 2).2.1.regs.sta.cc ≠ .indeterminate ∧
    (Instruction.ldxi 3).flags = {} ∧
    ((Instruction.ldxi 3).execute.perform (borrowing.run EmptyBus.mk 2).2.1
      EmptyBus.mk).2.1.regs.sta.carry = true := by
  have hstarted : (borrowing.run EmptyBus.mk 2).2.1.Started :=
    .run EmptyBus.mk 2 (.preset borrowing.memory 0 0 0 0 (.fresh .new))
  have hcarry : (borrowing.run EmptyBus.mk 2).2.1.regs.sta.carry = true := by decide +kernel
  obtain ⟨hexecute, -, hsettled⟩ := flags_keep_discipline
  refine ⟨hstarted, hcarry, (hsettled _ hstarted).2, rfl, ?_⟩
  rw [(hexecute _ (.ldxi 3) EmptyBus.mk).2 rfl]
  exact hcarry

end Machine

end StackComputer
