import Mathlib.Data.List.Count
import Mathlib.Data.List.Nodup
import StackComputer.Proofs.NumeralText
import StackComputer.Proofs.PrinterOperation

/-!
# Device codes

A code leads to the device last added under its name, as the uses of the code have
left it. A code used without a device behind it is told of the first time, and is
among the missing codes from then on, whatever devices are added later.
-/

namespace StackComputer

/-! ## Registries -/

namespace Registry

/-- This needs no order of the names: an insertion replaces the first entry under
the name or comes before it. -/
theorem lookup_insertSorted (k k' : Text) (d : Device) (devices : List (Text × Device)) :
    (insertSorted k d devices).lookup k' = if k' = k then some d else devices.lookup k' := by
  have hcons : ∀ (k'' : Text) (d : Device) (rest : List (Text × Device)),
      ((k'', d) :: rest).lookup k' = if k' = k'' then some d else rest.lookup k' := by
    intro k'' d rest
    rw [List.lookup_cons]
    split
    · next heq => rw [if_pos (beq_iff_eq.mp heq)]
    · next hne => rw [if_neg (beq_eq_false_iff_ne.mp hne)]
  induction devices with
  | nil => exact hcons k d []
  | cons entry rest ih =>
      obtain ⟨k'', d''⟩ := entry
      rw [insertSorted, hcons]
      split
      · next heq =>
          subst heq
          rw [hcons]
          split <;> rfl
      · next hne =>
          split
          · rw [hcons, hcons]
          · rw [hcons, ih]
            split
            · next heq => rw [if_neg fun h => hne (h.symm.trans heq)]
            · rfl

theorem get?_put (r : Registry) (name name' : Text) (d : Device) :
    (r.put name d).get? name' = if key name' = key name then some d else r.get? name' :=
  lookup_insertSorted _ _ _ _

end Registry

namespace DeviceBus

/-! ## Calls -/

/-- A use of a device code. -/
inductive Access where
  | readStatus
  | writeWord (w : Word)
  | readByte

/-- A device is registered under a name, or a code is used. -/
inductive Call where
  | add (name : Text) (d : Device)
  | access (code : Byte) (a : Access)

inductive Answer where
  | added (result : Except DeviceError Unit)
  | status (word : Option Word)
  | written (result : Except DeviceError Unit)
  | byte (b : Byte)

namespace Access

def ask (code : Byte) : Access → DeviceBus → Reply DeviceBus Answer
  | readStatus, b =>
    let reply := Bus.readStatus b code
    ⟨.status reply.answer, reply.bus, reply.events⟩
  | writeWord w, b =>
    let reply := Bus.writeWord b code w
    ⟨.written reply.answer, reply.bus, reply.events⟩
  | readByte, b =>
    let reply := Bus.readByte b code
    ⟨.byte reply.answer, reply.bus, reply.events⟩

/-- What a device answers to an access, with the device and the host after it. -/
def reach : Access → Device → Host → Answer × Device × Host
  | readStatus, d, h => (.status d.statusWord, d, h)
  | writeWord w, d, h =>
    let (answer, d, h) := (Device.write w).perform d h
    (.written answer, d, h)
  | readByte, d, h =>
    let (b, d) := d.readByte
    (.byte b, d, h)

/-- The answer where there is no device. -/
def inVain (code : Byte) : Access → Answer
  | readStatus => .status none
  | writeWord _ => .written (.error (.noDevice code))
  | readByte => .byte 0

/-- A device after an access, for which it does not matter what is on the host. -/
def leaves (a : Access) (d : Device) : Device := (a.reach d {}).2.1

/-- The answer to the use of a code, and the host after it, if this device or none
is behind the code. -/
def outcome (code : Byte) (a : Access) (h : Host) : Option Device → Answer × Host
  | some d => ((a.reach d h).1, (a.reach d h).2.2)
  | none => (a.inVain code, h)

end Access

def Call.perform : Call → DeviceBus → Reply DeviceBus Answer
  | add name d, b =>
    let (answer, b) := b.perform (Registry.register name d)
    ⟨.added answer, b, []⟩
  | access code a, b => a.ask code b

/-! ## Histories, the newest call first -/

/-- A new bus after a history of calls. -/
def after (h : Host) : List Call → DeviceBus
  | [] => { host := h }
  | call :: earlier => (call.perform (after h earlier)).bus

/-- What the calls of a history had to tell, in order. -/
def told (h : Host) : List Call → List Event
  | [] => []
  | call :: earlier => told h earlier ++ (call.perform (after h earlier)).events

/-- The lines logged over a history. -/
def logged (h : Host) (history : List Call) : List Text :=
  (Journal.addAll { recording := true } (told h history)).lines

/-- The name is that of a code: `tty` that of 0 and `lpt` that of 1, in any letter
case and between any blanks. -/
def Names (code : Byte) (name : Text) : Prop :=
  code = 0 ∧ Text.lower (Text.trim name) = "tty".toList ∨
    code = 1 ∧ Text.lower (Text.trim name) = "lpt".toList

instance (code : Byte) (name : Text) : Decidable (Names code name) :=
  inferInstanceAs (Decidable (_ ∨ _))

/-- The device last added under the name of a code, as the uses of the code since
then have left it. -/
def behind? (code : Byte) : List Call → Option Device
  | [] => none
  | .add name d :: earlier => if Names code name then some d else behind? code earlier
  | .access used a :: earlier =>
    if used = code then (behind? code earlier).map a.leaves else behind? code earlier

/-- At some point of the history the code was used with no device behind it. -/
def Missed (code : Byte) (history : List Call) : Prop :=
  ∃ a earlier, Call.access code a :: earlier <:+ history ∧ behind? code earlier = none

/-- The line logged for a missed code. -/
def warning (code : Byte) : Text := "WARN no device for code ".toList ++ Text.decimal code.toNat

/-! ## Devices behind codes -/

variable {b b' : DeviceBus} {code code' : Byte} {d : Device} {name : Text}

theorem Access.reach_host (a : Access) (d : Device) (h : Host) :
    (a.reach d h).2.1 = a.leaves d := by
  cases a with
  | readStatus | readByte => rfl
  | writeWord w =>
      cases d with
      | console | plain => rfl
      | printer p =>
          have hprinter : ∀ t t', ((Printer.write w).perform p t).2.1 =
              ((Printer.write w).perform p t').2.1 := by
            intro t t'
            simp only [Printer.perform_write, Printer.perform_endLine]
            split
            · rfl
            · split
              · cases p.print t <;> cases p.print t' <;> rfl
              · split <;> rfl
          exact congrArg Device.printer (hprinter h.files _)

theorem deviceName?_eq_some_iff :
    deviceName? code = some name ↔
      code = 0 ∧ name = "tty".toList ∨ code = 1 ∧ name = "lpt".toList := by
  constructor
  · intro h
    rw [deviceName?] at h
    split at h
    · next hcode => exact .inl ⟨hcode, (Option.some.inj h).symm⟩
    · rw [Option.ite_none_right_eq_some] at h
      exact .inr ⟨h.1, (Option.some.inj h.2).symm⟩
  · rintro (⟨rfl, rfl⟩ | ⟨rfl, rfl⟩) <;> rfl

theorem names_iff : Names code name ↔ deviceName? code = some (Registry.key name) :=
  deviceName?_eq_some_iff.symm

theorem key_deviceName (h : deviceName? code = some name) : Registry.key name = name := by
  rcases deviceName?_eq_some_iff.mp h with ⟨-, rfl⟩ | ⟨-, rfl⟩ <;> decide

/-- The name of a code is that of no other one. -/
theorem names_deviceName (h : deviceName? code = some name) : Names code' name ↔ code' = code := by
  rw [names_iff, key_deviceName h]
  refine ⟨fun h' => ?_, fun h' => h' ▸ h⟩
  rcases deviceName?_eq_some_iff.mp h with ⟨rfl, rfl⟩ | ⟨rfl, rfl⟩ <;>
    rcases deviceName?_eq_some_iff.mp h' with ⟨rfl, heq⟩ | ⟨rfl, heq⟩
  · rfl
  · exact absurd heq (by decide)
  · exact absurd heq (by decide)
  · rfl

theorem names_of_trim_eq_nil (h : Text.trim name = []) : ¬ Names code name := by
  rw [Names, h]
  rintro (⟨-, heq⟩ | ⟨-, heq⟩) <;> exact absurd heq (by decide)

/-- The device behind a code. -/
def at? (b : DeviceBus) (code : Byte) : Option Device := (b.device? code).map Prod.snd

theorem at?_eq (b : DeviceBus) (code : Byte) :
    b.at? code = (deviceName? code).bind b.registry.get? := by
  rw [at?, device?]
  cases deviceName? code with
  | none => rfl
  | some name =>
      cases hget : b.registry.get? name <;> simp [hget]

theorem device?_eq_some (h : b.device? code = some (name, d)) :
    deviceName? code = some name ∧ b.registry.get? name = some d := by
  rw [device?, Option.bind_eq_bind, Option.bind_eq_some_iff] at h
  obtain ⟨name', hname, h⟩ := h
  obtain ⟨d', hget, h⟩ := Option.bind_eq_some_iff.mp h
  cases h
  exact ⟨hname, hget⟩

/-- A device that is put under a name comes to stand behind the code of this name
and behind no other code. -/
theorem at?_of_get? (hget : ∀ name', b'.registry.get? name' =
      if Registry.key name' = Registry.key name then some d else b.registry.get? name')
    (code : Byte) : b'.at? code = if Names code name then some d else b.at? code := by
  rw [at?_eq, at?_eq]
  cases hname : deviceName? code with
  | none => rw [if_neg (by simp [names_iff, hname])]; rfl
  | some name' =>
      simp only [Option.bind_some, hget, names_iff, hname, key_deviceName hname, Option.some_inj]

theorem perform_add (b : DeviceBus) (name : Text) (d : Device) :
    ((Call.add name d).perform b).bus =
      if (Text.trim name).isEmpty then b else { b with registry := b.registry.put name d } := by
  have hbus : ((Call.add name d).perform b).bus = (b.perform (Registry.register name d)).2 := rfl
  rw [hbus, perform, Registry.Operation.perform, Registry.register, ExceptT.run_mk, StateT.run]
  cases hblank : (Text.trim name).isEmpty with
  | true => simp only [Registry.add, hblank, if_true]
  | false => simp only [Registry.add, hblank, Bool.false_eq_true, if_false]

theorem at?_add (b : DeviceBus) (name : Text) (d : Device) (code : Byte) :
    ((Call.add name d).perform b).bus.at? code =
      if Names code name then some d else b.at? code := by
  rw [perform_add]
  split
  -- A blank name is refused, and it is the name of no code.
  · next hblank => rw [if_neg (names_of_trim_eq_nil (List.isEmpty_iff.mp hblank))]
  · exact at?_of_get? (fun name' => b.registry.get?_put name name' d) code

theorem ask_of_none (h : b.device? code = none) (a : Access) :
    a.ask code b = ⟨a.inVain code, (b.miss code).1, (b.miss code).2⟩ := by
  cases a <;> simp only [Access.ask, Bus.readStatus, Bus.writeWord, Bus.readByte, h] <;> rfl

theorem ask_of_some (h : b.device? code = some (name, d)) (a : Access) :
    ∃ registry : Registry,
      a.ask code b =
        ⟨(a.reach d b.host).1, { b with registry, host := (a.reach d b.host).2.2 }, []⟩ ∧
      ∀ name', registry.get? name' =
        if Registry.key name' = Registry.key name then some (a.leaves d)
        else b.registry.get? name' := by
  obtain ⟨-, hget⟩ := device?_eq_some h
  cases a with
  -- A device that was only asked for its status is not put back.
  | readStatus =>
      refine ⟨b.registry, ?_, fun name' => ?_⟩
      · simp only [Access.ask, Bus.readStatus, h]
        rfl
      · split
        · next hkey =>
            rw [Registry.get?, hkey]
            exact hget
        · rfl
  | writeWord w =>
      refine ⟨b.registry.put name ((Access.writeWord w).reach d b.host).2.1, ?_, fun name' => ?_⟩
      · simp only [Access.ask, Bus.writeWord, h]
        rfl
      · rw [Registry.get?_put, Access.reach_host]
  | readByte =>
      refine ⟨b.registry.put name (Access.readByte.reach d b.host).2.1, ?_, fun name' => ?_⟩
      · simp only [Access.ask, Bus.readByte, h]
        rfl
      · rw [Registry.get?_put, Access.reach_host]

/-! ## Codes used in vain -/

variable {history : List Call} {events : List Event} {codes : List Byte}

theorem insertCode_perm (code : Byte) (codes : List Byte) :
    (insertCode code codes).Perm (code :: codes) := by
  induction codes with
  | nil => exact .refl _
  | cons c rest ih =>
      rw [insertCode]
      split
      · exact .refl _
      · exact (ih.cons c).trans (.swap code c rest)

theorem pairwise_insertCode (h : codes.Pairwise (· < ·)) (hnew : code ∉ codes) :
    (insertCode code codes).Pairwise (· < ·) := by
  induction codes with
  | nil => exact List.pairwise_singleton _ _
  | cons c rest ih =>
      obtain ⟨hc, hrest⟩ := List.pairwise_cons.mp h
      obtain ⟨hne, hnot⟩ : code ≠ c ∧ code ∉ rest := by simpa using hnew
      rw [insertCode]
      split
      · next hle =>
          have hlt : code < c := BitVec.lt_of_le_ne hle hne
          exact List.pairwise_cons.mpr
            ⟨List.forall_mem_cons.mpr ⟨hlt, fun c' hc' => BitVec.lt_trans hlt (hc c' hc')⟩, h⟩
      · next hle =>
          refine List.pairwise_cons.mpr ⟨fun c' hc' => ?_, ih hrest hnot⟩
          rcases List.mem_cons.mp ((insertCode_perm code rest).mem_iff.mp hc') with rfl | hmem
          · exact BitVec.not_le.mp hle
          · exact hc c' hmem

theorem missed_cons {call : Call} :
    Missed code (call :: history) ↔
      (∃ a, call = .access code a) ∧ behind? code history = none ∨ Missed code history := by
  constructor
  · rintro ⟨a, earlier, hsuffix, hnone⟩
    rcases List.suffix_cons_iff.mp hsuffix with heq | hsuffix
    · obtain ⟨rfl, rfl⟩ := List.cons.inj heq
      exact .inl ⟨⟨a, rfl⟩, hnone⟩
    · exact .inr ⟨a, earlier, hsuffix, hnone⟩
  · rintro (⟨⟨a, rfl⟩, hnone⟩ | ⟨a, earlier, hsuffix, hnone⟩)
    · exact ⟨a, history, List.suffix_refl _, hnone⟩
    · exact ⟨a, earlier, List.suffix_cons_iff.mpr (.inr hsuffix), hnone⟩

/-- What a bus and all it told have to do with the calls made to it. -/
structure Tracks (history : List Call) (b : DeviceBus) (events : List Event) : Prop where
  device : ∀ code, b.at? code = behind? code history
  missing : ∀ code, code ∈ b.missing ↔ Missed code history
  ascending : b.missing.Pairwise (· < ·)
  events : events.Perm (b.missing.map .missing)

theorem Tracks.add (h : Tracks history b events) (name : Text) (d : Device) :
    Tracks (.add name d :: history) ((Call.add name d).perform b).bus events := by
  have hmissing : ((Call.add name d).perform b).bus.missing = b.missing := by
    rw [perform_add]
    split <;> rfl
  constructor
  case device =>
    intro code
    rw [at?_add, h.device]
    rfl
  case missing =>
    intro code
    rw [hmissing, h.missing, missed_cons, or_iff_right]
    rintro ⟨⟨-, ⟨⟩⟩, -⟩
  case ascending => exact hmissing ▸ h.ascending
  case events => exact hmissing ▸ h.events

theorem Tracks.reach (h : Tracks history b events) (hdevice : b.device? code = some (name, d))
    (a : Access) : Tracks (.access code a :: history) (a.ask code b).bus events := by
  obtain ⟨registry, hask, hget⟩ := ask_of_some hdevice a
  obtain ⟨hname, -⟩ := device?_eq_some hdevice
  have hsome : behind? code history = some d := by
    rw [← h.device, at?, hdevice]
    rfl
  rw [hask]
  constructor
  case device =>
    intro code'
    rw [at?_of_get? hget, h.device, behind?]
    by_cases hcode : code' = code
    · subst hcode
      rw [if_pos ((names_deviceName hname).mpr rfl), if_pos rfl, hsome]
      rfl
    · rw [if_neg (mt (names_deviceName hname).mp hcode), if_neg (Ne.symm hcode)]
  case missing =>
    intro code'
    rw [missed_cons, ← h.missing, or_iff_right]
    rintro ⟨⟨-, ⟨⟩⟩, hnone⟩
    rw [hsome] at hnone
    cases hnone
  case ascending => exact h.ascending
  case events => exact h.events

/-- A code is told of and becomes missing unless it is missing already. -/
theorem Tracks.miss (h : Tracks history b events) (hdevice : b.device? code = none) (a : Access) :
    Tracks (.access code a :: history) (b.miss code).1 (events ++ (b.miss code).2) := by
  have hnone : behind? code history = none := by
    rw [← h.device, at?, hdevice]
    rfl
  have hdevices : ∀ code', b.at? code' = behind? code' (.access code a :: history) := by
    intro code'
    rw [h.device, behind?]
    split
    · next hcode => rw [← hcode, hnone]; rfl
    · rfl
  have hmissed : ∀ code', Missed code' (.access code a :: history) ↔
      code' = code ∨ code' ∈ b.missing := by
    intro code'
    rw [missed_cons, h.missing]
    refine or_congr_left ⟨?_, ?_⟩
    · rintro ⟨⟨-, ⟨⟩⟩, -⟩
      rfl
    · rintro rfl
      exact ⟨⟨a, rfl⟩, hnone⟩
  rw [DeviceBus.miss]
  split
  · next hmem =>
      have hmem : code ∈ b.missing := List.contains_iff_mem.mp hmem
      refine ⟨hdevices, fun code' => ?_, h.ascending, ?_⟩
      · rw [hmissed, iff_or_self]
        rintro rfl
        exact hmem
      · rw [List.append_nil]
        exact h.events
  · next hnew =>
      have hnew : code ∉ b.missing := fun hmem => hnew (List.contains_iff_mem.mpr hmem)
      refine ⟨hdevices, fun code' => ?_, pairwise_insertCode h.ascending hnew, ?_⟩
      · rw [hmissed, (insertCode_perm code b.missing).mem_iff, List.mem_cons]
      · have hold : (events ++ [Event.missing code]).Perm
            (.missing code :: b.missing.map .missing) :=
          (List.perm_append_singleton _ _).trans (h.events.cons _)
        exact hold.trans ((insertCode_perm code b.missing).map Event.missing).symm

theorem Tracks.step (h : Tracks history b events) (call : Call) :
    Tracks (call :: history) (call.perform b).bus (events ++ (call.perform b).events) := by
  cases call with
  | add name d =>
      have hadd := h.add name d
      rwa [← List.append_nil events] at hadd
  | access code a =>
      rw [Call.perform]
      cases hdevice : b.device? code with
      | none =>
          rw [ask_of_none hdevice]
          exact h.miss hdevice a
      | some found =>
          obtain ⟨registry, hask, -⟩ := ask_of_some hdevice a
          have hreach := h.reach hdevice a
          rw [hask] at hreach ⊢
          rwa [List.append_nil]

theorem tracks_after (h : Host) (history : List Call) :
    Tracks history (after h history) (told h history) := by
  induction history with
  | nil =>
      refine ⟨fun code => ?_, fun code => ?_, .nil, .nil⟩
      · rw [at?_eq]
        cases deviceName? code <;> rfl
      · refine iff_of_false List.not_mem_nil ?_
        rintro ⟨a, earlier, hsuffix, -⟩
        cases List.suffix_nil.mp hsuffix
  | cons call earlier ih => exact ih.step call

/-! ## The log -/

theorem lines_addAll {j : Journal} (hj : j.recording = true) (events : List Event) :
    (j.addAll events).lines = j.lines ++ events.map Event.line := by
  induction events generalizing j with
  | nil => rw [List.map_nil, List.append_nil]; rfl
  | cons e rest ih =>
      have hadd : j.add e = { j with events := e :: j.events } := if_pos hj
      have hrest : ((j.add e).addAll rest).lines = (j.add e).lines ++ rest.map Event.line :=
        ih (hadd ▸ hj)
      have hnext : (j.addAll (e :: rest)).lines = ((j.add e).addAll rest).lines := rfl
      rw [hnext, hrest, hadd]
      simp [Journal.lines]

theorem warning_injective : Function.Injective warning := by
  intro code code' h
  have hdecimal := List.append_cancel_left h
  have hvalue := Text.ofDigits_toDigits (b := 10) (by decide) (by decide) code.toNat
  rw [← Text.decimal, hdecimal, Text.decimal, Text.ofDigits_toDigits (by decide) (by decide)]
    at hvalue
  exact BitVec.eq_of_toNat_eq hvalue.symm

theorem logged_perm (h : Host) (history : List Call) :
    (logged h history).Perm ((after h history).missing.map warning) := by
  rw [logged, lines_addAll rfl]
  have hline : Event.line ∘ Event.missing = warning := rfl
  have hlines := (tracks_after h history).events.map Event.line
  rwa [List.map_map, hline] at hlines

/-- After any calls, in any order, a code leads to the device last added under its
name, and a code with no such device, as are all but two, is answered without one.
The missing codes are those that were ever used in vain, in ascending order. Each of
them was told of once, and nothing else was told. -/
theorem codes_resolve_and_warn_once (h : Host) (history : List Call) :
    (∀ code a, (((Call.access code a).perform (after h history)).answer,
        ((Call.access code a).perform (after h history)).bus.host) =
      a.outcome code (after h history).host (behind? code history)) ∧
    (∀ code, code = 0 ∨ code = 1 ∨ behind? code history = none) ∧
    (after h history).missing.Pairwise (· < ·) ∧
    (∀ code, code ∈ (after h history).missing ↔ Missed code history) ∧
    (∀ code, Missed code history ∧ (logged h history).count (warning code) = 1 ∨
      ¬ Missed code history ∧ (logged h history).count (warning code) = 0) ∧
    (logged h history).Perm ((after h history).missing.map warning) := by
  have htracks := tracks_after h history
  have hlog := logged_perm h history
  refine ⟨fun code a => ?_, fun code => ?_, htracks.ascending, htracks.missing,
    fun code => ?_, hlog⟩
  · rw [← htracks.device, at?, Call.perform]
    cases hdevice : (after h history).device? code with
    | none =>
        rw [ask_of_none hdevice, DeviceBus.miss]
        split <;> rfl
    | some found =>
        obtain ⟨registry, hask, -⟩ := ask_of_some hdevice a
        rw [hask]
        rfl
  · rw [← htracks.device, at?_eq]
    cases hname : deviceName? code with
    | none => exact .inr (.inr rfl)
    | some name =>
        rcases deviceName?_eq_some_iff.mp hname with ⟨hcode, -⟩ | ⟨hcode, -⟩
        · exact .inl hcode
        · exact .inr (.inl hcode)
  · rw [hlog.count_eq, List.count_map_of_injective _ _ warning_injective, ← htracks.missing]
    by_cases hmem : code ∈ (after h history).missing
    · have hnodup : (after h history).missing.Nodup := htracks.ascending.imp BitVec.ne_of_lt
      exact .inl ⟨hmem, List.count_eq_one_of_mem hnodup hmem⟩
    · exact .inr ⟨hmem, List.count_eq_zero_of_not_mem hmem⟩

example : (after {} [.add " Lpt".toList (.printer {}), .access 1 .readStatus,
    .access 7 .readByte, .access 7 (.writeWord 1)]).missing = [1, 7] := by decide +kernel

end DeviceBus

end StackComputer
