import StackComputer.CommandLine
import StackComputer.Proofs.Coupling

/-!
# Traced runs

A trace puts lines between the bytes that devices send to the terminal. It
changes neither the machine nor anything a device can see, so a traced run ends
as the run without a trace does.
-/

namespace StackComputer

/-! ## Lines between the bytes of a terminal -/

/-- The bytes of the second list are those of the first with the lines put in. -/
inductive Woven : List Text → List Byte → List Byte → Prop
  | nil : Woven [] [] []
  | byte {lines : List Text} {plain traced : List Byte} (b : Byte) (h : Woven lines plain traced) :
      Woven lines (plain ++ [b]) (traced ++ [b])
  | line {lines : List Text} {plain traced : List Byte} (t : Text) (h : Woven lines plain traced) :
      Woven (lines ++ [t]) plain (traced ++ Text.toBytes t)

variable {lines : List Text}

theorem Woven.append {plain traced : List Byte} (h : Woven lines plain traced)
    (bytes : List Byte) : Woven lines (plain ++ bytes) (traced ++ bytes) := by
  induction bytes generalizing plain traced with
  | nil => simpa using h
  | cons b bytes ih => simpa using ih (h.byte b)

theorem Woven.refl (bytes : List Byte) : Woven [] bytes bytes := by
  simpa using Woven.nil.append bytes

namespace Host

@[simp] theorem output_send (h : Host) (b : Byte) : (h.send b).output = h.output ++ [b] := by
  simp [output, send]

@[simp] theorem files_send (h : Host) (b : Byte) : (h.send b).files = h.files := rfl

theorem files_print (h : Host) (t : Text) : (h.print t).files = h.files := by
  rw [print]
  induction Text.toBytes t generalizing h with
  | nil => rfl
  | cons b bytes ih => rw [List.foldl_cons, ih, files_send]

theorem output_print (h : Host) (t : Text) :
    (h.print t).output = h.output ++ Text.toBytes t := by
  rw [print]
  induction Text.toBytes t generalizing h with
  | nil => simp
  | cons b bytes ih => rw [List.foldl_cons, ih, output_send, List.append_assoc, List.cons_append,
      List.nil_append]

/-- The second host has the files of the first, and the lines on its terminal
besides. -/
structure Shows (lines : List Text) (plain traced : Host) : Prop where
  files : traced.files = plain.files
  woven : Woven lines plain.output traced.output

variable {plain traced : Host}

theorem Shows.refl (h : Host) : Shows [] h h := ⟨rfl, .refl _⟩

theorem Shows.send (h : Shows lines plain traced) (b : Byte) :
    Shows lines (plain.send b) (traced.send b) :=
  ⟨h.files, by simpa using h.woven.byte b⟩

theorem Shows.print (h : Shows lines plain traced) (t : Text) :
    Shows lines (plain.print t) (traced.print t) where
  files := by rw [files_print, files_print, h.files]
  woven := by
    rw [output_print, output_print]
    exact h.woven.append _

theorem Shows.line (h : Shows lines plain traced) (t : Text) :
    Shows (lines ++ [t]) plain (traced.print t) where
  files := by rw [files_print, h.files]
  woven := by
    rw [output_print]
    exact h.woven.line t

end Host

/-! ## Devices -/

namespace Device

theorem coupled_printing (p : Printer) (o : Printer.Operation Unit) :
    Coupled (Beside (Host.Shows lines)) Eq (printing p o) (printing p o) := by
  rintro ⟨d, plain⟩ ⟨_, traced⟩ ⟨rfl, hshows⟩
  have hrun : ∀ h : Host, (ExceptT.run (printing p o)).run (d, h) =
      ((o.perform p h.files).1, printer (o.perform p h.files).2.1,
        { h with files := (o.perform p h.files).2.2 }) := fun _ => rfl
  have hfiles := hshows.files
  dsimp only at hfiles
  rw [hrun, hrun, hfiles]
  exact .of_eq rfl ⟨rfl, rfl, hshows.woven⟩

theorem coupled_write (w : Word) :
    Coupled (Beside (Host.Shows lines)) Eq (write w) (write w) := by
  refine coupled_get_bind ?_
  rintro ⟨d, plain⟩ ⟨_, traced⟩ ⟨rfl, -⟩
  cases d with
  | console input => exact coupled_modify fun _ _ h => ⟨h.1, h.2.send _⟩
  | printer p => exact coupled_printing p _
  | plain label => exact coupled_throw _

theorem coupled_flush : Coupled (Beside (Host.Shows lines)) Eq flush flush := by
  refine coupled_get_bind ?_
  rintro ⟨d, plain⟩ ⟨_, traced⟩ ⟨rfl, -⟩
  cases d with
  | printer p => exact coupled_printing p _
  | console input => exact coupled_pure rfl
  | plain label => exact coupled_pure rfl

end Device

namespace Registry

theorem coupled_onDevice (name : Text) (d : Device) {o : Device.Operation Unit}
    (ho : Coupled (Beside (Host.Shows lines)) Eq o o) :
    Coupled (Beside (Host.Shows lines)) Eq (onDevice name d o) (onDevice name d o) := by
  rintro ⟨r, plain⟩ ⟨_, traced⟩ ⟨rfl, hshows⟩
  have hends := ho (show Beside (Host.Shows lines) (d, plain) (d, traced) from ⟨rfl, hshows⟩)
  exact .of_eq hends.answer_eq ⟨congrArg (r.put name) hends.state.1, hends.state.2⟩

theorem coupled_onPrinter (name : Text) (o : Printer.Operation Unit) :
    Coupled (Beside (Host.Shows lines)) Eq (onPrinter name o) (onPrinter name o) := by
  refine coupled_get_bind ?_
  rintro ⟨r, plain⟩ ⟨_, traced⟩ ⟨rfl, -⟩
  dsimp only
  split
  · exact coupled_throw _
  · exact coupled_onDevice _ _ (Device.coupled_printing _ _)
  · exact coupled_throw _

theorem coupled_flushEach (devices : List (Text × Device)) :
    Coupled (Beside (Host.Shows lines)) Eq (flushEach devices) (flushEach devices) := by
  induction devices with
  | nil => exact coupled_pure rfl
  | cons device rest ih =>
      exact (coupled_onDevice _ _ Device.coupled_flush).bind_eq fun _ => ih

theorem coupled_flushAll : Coupled (Beside (Host.Shows lines)) Eq flushAll flushAll := by
  refine coupled_get_bind ?_
  rintro ⟨r, plain⟩ ⟨_, traced⟩ ⟨rfl, -⟩
  exact coupled_flushEach _

end Registry

namespace DeviceBus

/-- The second bus differs from the first only by the lines on its terminal. -/
structure Shows (lines : List Text) (plain traced : DeviceBus) : Prop where
  registry : traced.registry = plain.registry
  missing : traced.missing = plain.missing
  host : plain.host.Shows lines traced.host

variable {plain traced : DeviceBus}

theorem Shows.refl (b : DeviceBus) : Shows [] b b := ⟨rfl, rfl, .refl _⟩

theorem Shows.line (h : Shows lines plain traced) (t : Text) :
    Shows (lines ++ [t]) plain { traced with host := traced.host.print t } :=
  ⟨h.registry, h.missing, h.host.line t⟩

theorem Shows.perform {α : Type} {o : Registry.Operation α}
    (ho : Coupled (Beside (Host.Shows lines)) Eq o o) (h : Shows lines plain traced) :
    (plain.perform o).1 = (traced.perform o).1 ∧
      Shows lines (plain.perform o).2 (traced.perform o).2 := by
  have hends := ho (show Beside (Host.Shows lines) (plain.registry, plain.host)
    (traced.registry, traced.host) from ⟨h.registry.symm, h.host⟩)
  exact ⟨hends.answer_eq, hends.state.1.symm, h.missing, hends.state.2⟩

theorem Shows.device? (h : Shows lines plain traced) (code : Byte) :
    traced.device? code = plain.device? code := by
  rw [DeviceBus.device?, DeviceBus.device?, h.registry]

theorem Shows.miss (h : Shows lines plain traced) (code : Byte) :
    Shows lines (plain.miss code).1 (traced.miss code).1 ∧
      (plain.miss code).2 = (traced.miss code).2 := by
  rw [DeviceBus.miss, DeviceBus.miss, h.missing]
  split
  · exact ⟨h, rfl⟩
  · exact ⟨⟨h.registry, rfl, h.host⟩, rfl⟩

theorem respects_shows : Bus.Respects (Shows lines) where
  readStatus h code := by
    rw [Bus.readStatus, instBus]
    dsimp only
    rw [h.device? code]
    split
    · exact ⟨rfl, rfl, h⟩
    · exact ⟨rfl, (h.miss code).2, (h.miss code).1⟩
  writeWord h code w := by
    rw [Bus.writeWord, instBus]
    dsimp only
    rw [h.device? code]
    split
    next name d _ =>
      have hwrite := h.perform (Registry.coupled_onDevice name d (Device.coupled_write w))
      exact ⟨hwrite.1, rfl, hwrite.2⟩
    · exact ⟨rfl, (h.miss code).2, (h.miss code).1⟩
  readByte h code := by
    rw [Bus.readByte, instBus]
    dsimp only
    rw [h.device? code]
    split
    next name d _ =>
      exact ⟨rfl, rfl, congrArg (·.put name d.readByte.2) h.registry, h.missing, h.host⟩
    · exact ⟨rfl, (h.miss code).2, (h.miss code).1⟩

end DeviceBus

/-! ## The loop and the command -/

namespace CommandLine

/-- The lines of a trace, one for each step taken. -/
def traceLines (m : Machine) (b : DeviceBus) : Nat → List Text
  | 0 => []
  | budget + 1 =>
    traceLine m.regs.pc (m.memory.read m.regs.pc) (m.step b).1.regs ::
      if (m.step b).1.isRunning then traceLines (m.step b).1 (m.step b).2 budget else []

/-- The traced loop keeps step with the plain one on a bus without the lines. -/
theorem runTraced_eq (m : Machine) {plain traced : DeviceBus} (h : plain.Shows lines traced)
    (count budget : Nat) :
    ∃ bus, runTraced count m traced budget =
        ((m.runFrom count plain budget).1, (m.runFrom count plain budget).2.1, bus) ∧
      (m.runFrom count plain budget).2.2.Shows (lines ++ traceLines m plain budget) bus := by
  induction budget generalizing count m lines plain traced with
  | zero => exact ⟨traced, rfl, by simpa [Machine.runFrom, traceLines] using h⟩
  | succ budget ih =>
      -- The lines printed so far make no difference to the step.
      obtain ⟨hmachine, hbus⟩ := m.beside_step DeviceBus.respects_shows h
      rw [runTraced, Machine.runFrom, traceLines]
      generalize m.step traced = next at hmachine hbus ⊢
      obtain ⟨_, b⟩ := next
      dsimp only at hmachine hbus ⊢
      subst hmachine
      have hline := hbus.line
        (traceLine m.regs.pc (m.memory.read m.regs.pc) (m.step plain).1.regs)
      split
      · simpa using ih (m.step plain).1 hline (count + 1)
      · exact ⟨_, rfl, hline⟩

/-- Sessions with the same complaints and files, where the second shows further
lines. -/
structure Session.Alike (plain traced : Session) : Prop where
  complaints : traced.complaints = plain.complaints
  host : ∃ lines, plain.host.Shows lines traced.host

theorem Session.Alike.refl (s : Session) : s.Alike s := ⟨rfl, [], .refl _⟩

theorem coupled_complain (t : Text) : Coupled Session.Alike Eq (complain t) (complain t) :=
  coupled_modify fun _ _ h => ⟨congrArg (· ++ lineOf t) h.complaints, h.host⟩

theorem coupled_print (t : Text) : Coupled Session.Alike Eq (print t) (print t) := by
  refine coupled_modify fun _ _ h => ?_
  obtain ⟨hcomplaints, lines, hshows⟩ := h
  exact ⟨hcomplaints, lines, hshows.print t⟩

theorem coupled_setHost {plain traced : DeviceBus} (h : plain.Shows lines traced) :
    Coupled Session.Alike Eq (modify fun s => { s with host := plain.host } : Task Unit)
      (modify fun s => { s with host := traced.host }) :=
  coupled_modify fun _ _ hst => ⟨hst.complaints, lines, h.host⟩

theorem coupled_complainOf (answer : Except DeviceError Unit) (context : Text) {α : Type}
    {Q : α → α → Prop} {x y : Task α} (h : Coupled Session.Alike Q x y) :
    Coupled Session.Alike Q
      (do
        if let .error e := answer then complain (context ++ e.message)
        x)
      (do
        if let .error e := answer then complain (context ++ e.message)
        y) := by
  rcases answer with cause | ⟨⟩
  · exact (coupled_complain _).bind_eq fun _ => h
  · exact h

theorem coupled_shutDown {plain traced : DeviceBus} (h : plain.Shows lines traced)
    (printer : Option Text) :
    Coupled Session.Alike (DeviceBus.Shows lines) (shutDown plain printer)
      (shutDown traced printer) := by
  obtain ⟨hflushed, hshows⟩ := h.perform Registry.coupled_flushAll
  obtain ⟨hdetached, hshows'⟩ := hshows.perform
    (Registry.coupled_onPrinter "lpt".toList Printer.detach)
  rw [shutDown, shutDown]
  dsimp only
  rw [← hflushed]
  refine coupled_complainOf _ _ ?_
  split
  · rw [Registry.detach, ← hdetached]
    exact coupled_complainOf _ _ (coupled_pure hshows')
  · exact coupled_pure hshows

theorem coupled_conclude {plain traced : DeviceBus} (h : plain.Shows lines traced)
    (o : RunOptions) (steps : Nat) (m : Machine) :
    Coupled Session.Alike Eq (conclude o (steps, m, plain)) (conclude o (steps, m, traced)) := by
  refine (coupled_shutDown h o.printer).bind fun plain traced h => ?_
  refine (coupled_setHost h).bind_eq fun _ => ?_
  have hreport : Coupled Session.Alike Eq
      (do
        print (if o.json then lineOf (jsonReport m steps) else summary m steps o.maxSteps)
        if m.state.phase = .error then throw 1 : Task Unit)
      (do
        print (if o.json then lineOf (jsonReport m steps) else summary m steps o.maxSteps)
        if m.state.phase = .error then throw 1) := by
    refine (coupled_print _).bind_eq fun _ => ?_
    split
    · exact coupled_throw _
    · exact coupled_pure rfl
  rw [h.missing]
  dsimp only
  split
  · exact (coupled_complain _).bind_eq fun _ => hreport
  · exact hreport

theorem endAlike_runProgram (o : RunOptions) (s : Session) :
    EndAlike Session.Alike Eq ((ExceptT.run (runProgram { o with trace := false })).run s)
      ((ExceptT.run (runProgram { o with trace := true })).run s) := by
  rw [runProgram, runProgram]
  refine endAlike_bind .refl _ (fun program s => ?_) s
  have hrest : ∀ s, EndAlike Session.Alike Eq
      ((ExceptT.run (do
        let bus ← attachDevices o.printer
        conclude { o with trace := false } ((boot program o.start).run bus o.maxSteps))).run s)
      ((ExceptT.run (do
        let bus ← attachDevices o.printer
        conclude { o with trace := true }
          (runTraced 0 (boot program o.start) bus o.maxSteps))).run s) := by
    refine endAlike_bind .refl _ fun bus s => ?_
    obtain ⟨traced, heq, hshows⟩ :=
      runTraced_eq (boot program o.start) (.refl bus) 0 o.maxSteps
    rw [heq]
    exact coupled_conclude hshows o _ _ (.refl s)
  dsimp only
  split
  · exact endAlike_bind .refl _ (fun _ s => hrest s) s
  · exact hrest s

/-- A trace of a run is its lines on the terminal: the run takes the same steps
without it and leaves the same machine, devices, files and missing codes. A command
with a trace ends with the exit code, the complaints and the files of the command
without it, and shows the same besides the lines. -/
theorem tracing_only_prints :
    (∀ (m : Machine) (b : DeviceBus) (budget : Nat),
      let plain := m.run b budget
      let traced := runTraced 0 m b budget
      traced.1 = plain.1 ∧ traced.2.1 = plain.2.1 ∧
        plain.2.2.Shows (traceLines m b budget) traced.2.2 ∧
        jsonReport traced.2.1 traced.1 = jsonReport plain.2.1 plain.1) ∧
    ∀ (o : RunOptions) (h : Host),
      let plain := (Command.run { o with trace := false }).perform h
      let traced := (Command.run { o with trace := true }).perform h
      traced.1 = plain.1 ∧ plain.2.Alike traced.2 := by
  refine ⟨fun m b budget => ?_, fun o h => ?_⟩
  · obtain ⟨bus, heq, hshows⟩ := runTraced_eq m (.refl b) 0 budget
    dsimp only
    rw [heq]
    exact ⟨rfl, rfl, hshows, rfl⟩
  · have hends := endAlike_runProgram o { host := h }
    simp only [Command.perform, Command.task]
    generalize (ExceptT.run (runProgram { o with trace := false })).run { host := h } = p at hends ⊢
    generalize (ExceptT.run (runProgram { o with trace := true })).run { host := h } = q at hends ⊢
    cases hends with
    | ok answer state => exact ⟨rfl, state⟩
    | error cause state => exact ⟨rfl, state⟩

end CommandLine

end StackComputer
