import StackComputer.Device.Bus
import StackComputer.Proofs.DeviceTransfers

/-!
# Operations of a line printer

A request either ends the pending line, which is then appended to the file, or
changes the printer alone. The pending line is given up before it is printed, so
that it is lost when the file cannot be changed.
-/

namespace StackComputer.Printer

variable {p p' : Printer} {t t' : FileTree} {path : Text} {e : DeviceError}

/-- What a printer can be asked for. -/
inductive Request where
  | attach (path : Text) (createNew : Bool)
  | write (w : Word)
  | flush
  | detach
deriving DecidableEq, Repr

namespace Request

def operation : Request → Operation Unit
  | attach path createNew => Printer.attach path createNew
  | write w => Printer.write w
  | flush => Printer.flush
  | detach => Printer.detach

def perform (r : Request) (p : Printer) (t : FileTree) :
    Except DeviceError Unit × Printer × FileTree :=
  r.operation.perform p t

end Request

/-- The printer with no line pending. -/
def cleared (p : Printer) : Printer := { p with pending := [] }

/-- The pending line as it is printed. -/
def lineText (p : Printer) : Text := Text.ofBytes p.pending ++ ['\n']

/-- The files after the pending line was printed. -/
def print (p : Printer) (t : FileTree) : Except DeviceError FileTree :=
  match p.path with
  | some path => (t.append path p.lineText).mapError .file
  | none => .error (.notAttached name)

/-! ## Single operations -/

theorem perform_onFiles (f : FileTree → Except FileError Unit × FileTree) (p : Printer)
    (t : FileTree) : (onFiles f).perform p t = ((f t).1.mapError .file, p, (f t).2) := rfl

theorem perform_onFiles_bind (f : FileTree → Except FileError Unit × FileTree)
    (o : Unit → Operation Unit) (p : Printer) (t : FileTree) :
    Operation.perform (onFiles f >>= o) p t =
      match f t with
      | (.ok (), t') => (o ()).perform p t'
      | (.error e, t') => (.error (.file e), p, t') := by
  rcases hf : f t with ⟨e | ⟨⟩, t'⟩
  · have hrun : (ExceptT.run (onFiles f)).run (p, t) = (.error (.file e), p, t') := by
      rw [← Operation.perform, perform_onFiles, hf]
      rfl
    exact run_bind_error hrun o
  · have hrun : (ExceptT.run (onFiles f)).run (p, t) = (.ok (), p, t') := by
      rw [← Operation.perform, perform_onFiles, hf]
      rfl
    exact run_bind_ok hrun o

theorem perform_endLine (p : Printer) (t : FileTree) :
    endLine.perform p t =
      match p.print t with
      | .ok t' => (.ok (), p.cleared, t')
      | .error e => (.error e, p.cleared, t) := by
  obtain ⟨_ | path, pending⟩ := p
  · rfl
  · have hline : endLine.perform ⟨some path, pending⟩ t =
        (onFiles (orKeep (·.append path (lineText ⟨some path, pending⟩)))).perform
          ⟨some path, []⟩ t := rfl
    rw [hline, perform_onFiles, print, orKeep]
    dsimp only
    cases t.append path (lineText ⟨some path, pending⟩) <;> rfl

theorem perform_write (w : Word) (p : Printer) (t : FileTree) :
    (write w).perform p t =
      if p.path = none then (.error (.notAttached name), p, t)
      else if (w.setWidth 8 : Byte) = 0x0A then endLine.perform p t
      else if (w.setWidth 8 : Byte) = 0x0D then (.ok (), p, t)
      else (.ok (), { p with pending := p.pending ++ [w.setWidth 8] }, t) := by
  obtain ⟨_ | path, pending⟩ := p
  · rfl
  · have hbyte : (write w).perform ⟨some path, pending⟩ t =
        Operation.perform (if (w.setWidth 8 : Byte) = 0x0A then endLine
          else if (w.setWidth 8 : Byte) = 0x0D then pure ()
          else modifyPrinter fun p => { p with pending := p.pending ++ [w.setWidth 8] })
          ⟨some path, pending⟩ t := rfl
    rw [if_neg (Option.some_ne_none path), hbyte]
    split
    · rfl
    · split <;> rfl

theorem perform_flush (p : Printer) (t : FileTree) :
    flush.perform p t = if p.pending = [] then (.ok (), p, t) else endLine.perform p t := by
  obtain ⟨path, _ | ⟨b, rest⟩⟩ := p
  · rfl
  · rfl

theorem perform_detach (p : Printer) (t : FileTree) :
    detach.perform p t =
      if p.path = none ∨ p.pending = [] then (.ok (), { p with path := none }, t)
      else match p.print t with
      | .ok t' => (.ok (), {}, t')
      | .error e => (.error e, p.cleared, t) := by
  obtain ⟨_ | path, _ | ⟨b, rest⟩⟩ := p
  · rfl
  · rfl
  · rfl
  · have hflush := perform_flush ⟨some path, b :: rest⟩ t
    rw [if_neg (List.cons_ne_nil b rest), perform_endLine] at hflush
    have hdetach : detach.perform ⟨some path, b :: rest⟩ t =
        (ExceptT.run (flush >>= fun _ => modifyPrinter fun p => { p with path := none })).run
          (⟨some path, b :: rest⟩, t) := rfl
    rw [if_neg (by simp), hdetach]
    cases hprint : (⟨some path, b :: rest⟩ : Printer).print t with
    | ok t' =>
        rw [hprint] at hflush
        exact run_bind_ok hflush _
    | error e =>
        rw [hprint] at hflush
        exact run_bind_error hflush _

/-- Makes a path ready for a printer: removes the file if a new one is wanted, and
makes the directories above it. -/
def makeWay (path : Text) (createNew : Bool) (t : FileTree) : Except FileError Unit × FileTree :=
  match if createNew && t.contains path then orKeep (·.remove path) t else (.ok (), t) with
  | (.ok (), t) => t.makeParents path
  | (.error e, t) => (.error e, t)

/-- A refused attachment leaves the printer as it was. -/
theorem perform_attach (hpath : path ≠ []) (createNew : Bool) (p : Printer) (t : FileTree) :
    (attach path createNew).perform p t =
      match makeWay path createNew t with
      | (.ok (), t') => (.ok (), { p with path := some path }, t')
      | (.error e, t') => (.error (.file e), p, t') := by
  obtain ⟨c, rest, rfl⟩ := List.exists_cons_of_ne_nil hpath
  have hattach : (attach (c :: rest) createNew).perform p t = Operation.perform (do
      if createNew && t.contains (c :: rest) then onFiles (orKeep (·.remove (c :: rest)))
      onFiles (·.makeParents (c :: rest))
      modifyPrinter fun p => { p with path := some (c :: rest) }) p t := rfl
  have hway : ∀ t, Operation.perform (do
      onFiles (·.makeParents (c :: rest))
      modifyPrinter fun p => { p with path := some (c :: rest) }) p t =
      match t.makeParents (c :: rest) with
      | (.ok (), t') => (.ok (), { p with path := some (c :: rest) }, t')
      | (.error e, t') => (.error (.file e), p, t') := fun t => by
    rw [perform_onFiles_bind]
    rfl
  rw [hattach, makeWay]
  split
  · rw [perform_onFiles_bind]
    rcases orKeep (·.remove (c :: rest)) t with ⟨e | ⟨⟩, t'⟩
    · rfl
    · exact hway t'
  · exact hway t

/-! ## Requests -/

namespace Request

/-- The request has the pending line printed, which may be empty. -/
def endsLine (p : Printer) : Request → Bool
  | attach _ _ => false
  | write w => p.path.isSome && (w.setWidth 8 : Byte) == 0x0A
  | flush => !p.pending.isEmpty
  | detach => p.path.isSome && !p.pending.isEmpty

/-- The request is refused before anything is tried. -/
def isRefused (p : Printer) : Request → Bool
  | attach path _ => path.isEmpty
  | write _ => p.path.isNone
  | flush | detach => false

/-- The printer after a request that was granted. -/
def after (p : Printer) : Request → Printer
  | attach path _ => { p with path := some path }
  | write w =>
    if (w.setWidth 8 : Byte) = 0x0A then p.cleared
    else if (w.setWidth 8 : Byte) = 0x0D then p
    else { p with pending := p.pending ++ [w.setWidth 8] }
  | flush => p.cleared
  | detach => if p.path.isSome then {} else p

end Request

variable {r : Request}

theorem perform_of_endsLine (h : r.endsLine p = true) (t : FileTree) :
    r.perform p t =
      match p.print t with
      | .ok t' => (.ok (), r.after p, t')
      | .error e => (.error e, p.cleared, t) := by
  obtain ⟨path, pending⟩ := p
  cases r with
  | attach path createNew => cases h
  | write w =>
      obtain ⟨hpath, hfeed⟩ := Bool.and_eq_true_iff.mp h
      obtain ⟨path, rfl⟩ := Option.isSome_iff_exists.mp hpath
      rw [Request.perform, Request.operation, perform_write, if_neg (Option.some_ne_none path),
        if_pos (beq_iff_eq.mp hfeed), perform_endLine, Request.after, if_pos (beq_iff_eq.mp hfeed)]
  | flush =>
      cases pending with
      | nil => cases h
      | cons b rest =>
          rw [Request.perform, Request.operation, perform_flush, if_neg (List.cons_ne_nil b rest),
            perform_endLine]
          rfl
  | detach =>
      obtain ⟨hpath, hpending⟩ := Bool.and_eq_true_iff.mp h
      obtain ⟨path, rfl⟩ := Option.isSome_iff_exists.mp hpath
      cases pending with
      | nil => cases hpending
      | cons b rest =>
          rw [Request.perform, Request.operation, perform_detach, if_neg (by simp)]
          rfl

theorem perform_of_append (hends : r.endsLine p = true) (hpath : p.path = some path)
    (happend : t.append path p.lineText = .ok t') : r.perform p t = (.ok (), r.after p, t') := by
  rw [perform_of_endsLine hends, print, hpath]
  dsimp only
  rw [happend]
  rfl

theorem perform_of_append_error {cause : FileError} (hends : r.endsLine p = true)
    (hpath : p.path = some path) (happend : t.append path p.lineText = .error cause) :
    r.perform p t = (.error (.file cause), p.cleared, t) := by
  rw [perform_of_endsLine hends, print, hpath]
  dsimp only
  rw [happend]
  rfl

/-- A request that prints nothing changes no file, unless it makes the way for
a new one. -/
theorem perform_of_quiet (h : r.endsLine p = false) (hrefused : r.isRefused p = false)
    (hattach : ∀ path createNew, r ≠ .attach path createNew) (t : FileTree) :
    r.perform p t = (.ok (), r.after p, t) := by
  obtain ⟨path, pending⟩ := p
  cases r with
  | attach path createNew => exact absurd rfl (hattach path createNew)
  | write w =>
      cases path with
      | none => cases hrefused
      | some path =>
          have hfeed : (w.setWidth 8 : Byte) ≠ 0x0A := beq_eq_false_iff_ne.mp h
          rw [Request.perform, Request.operation, perform_write,
            if_neg (Option.some_ne_none path), if_neg hfeed, Request.after, if_neg hfeed]
          split <;> rfl
  | flush =>
      cases pending with
      | nil => rfl
      | cons b rest => cases h
  | detach =>
      cases path with
      | none => rfl
      | some path =>
          cases pending with
          | nil => rfl
          | cons b rest => cases h

theorem perform_of_isRefused (h : r.isRefused p = true) (t : FileTree) :
    ∃ e, (∀ cause, e ≠ .file cause) ∧ r.perform p t = (.error e, p, t) := by
  obtain ⟨path, pending⟩ := p
  cases r with
  | attach path createNew =>
      cases path with
      | nil => exact ⟨.emptyPath, nofun, rfl⟩
      | cons c rest => cases h
  | write w =>
      cases path with
      | none => exact ⟨.notAttached name, nofun, rfl⟩
      | some path => cases h
  | flush | detach => cases h

theorem pending_after (h : r.endsLine p = true) : (r.after p).pending = [] := by
  cases r with
  | attach path createNew => cases h
  | write w =>
      obtain ⟨-, hfeed⟩ := Bool.and_eq_true_iff.mp h
      rw [Request.after, if_pos (beq_iff_eq.mp hfeed)]
      rfl
  | flush => rfl
  | detach =>
      obtain ⟨hpath, -⟩ := Bool.and_eq_true_iff.mp h
      rw [Request.after, if_pos hpath]

/-! ## Failures -/

theorem cleared_eq_iff (hrefused : r.isRefused p = false) :
    p.cleared = p ↔ p.pending = [] ∨ p.path = none ∧ ∃ w, r = .write w := by
  obtain ⟨path, pending⟩ := p
  have hattached : ¬ (path = none ∧ ∃ w, r = .write w) := by
    rintro ⟨rfl, w, rfl⟩
    cases hrefused
  simp [cleared, eq_comm, hattached]

/-- A failed request was refused before anything was tried, or the line it ends
could not be printed. -/
theorem failed_cases (h : r.perform p t = (.error e, p', t'))
    (hattach : ∀ path createNew, r ≠ .attach path createNew) :
    t' = t ∧ (p' = p ∧ p.path = none ∧ (∃ w, r = .write w) ∨
      p' = p.cleared ∧ r.endsLine p = true ∧ r.isRefused p = false) := by
  cases hrefused : r.isRefused p with
  | true =>
      obtain ⟨_, -, hperform⟩ := perform_of_isRefused hrefused t
      cases h.symm.trans hperform
      cases r with
      | attach path createNew => exact absurd rfl (hattach path createNew)
      | write w => exact ⟨rfl, .inl ⟨rfl, Option.isNone_iff_eq_none.mp hrefused, w, rfl⟩⟩
      | flush | detach => cases hrefused
  | false =>
      cases hends : r.endsLine p with
      | false =>
          rw [perform_of_quiet hends hrefused hattach] at h
          cases h
      | true =>
          rw [perform_of_endsLine hends] at h
          split at h
          · cases h
          · cases h
            exact ⟨rfl, .inr ⟨rfl, rfl, rfl⟩⟩

/-- When a line cannot be printed, it is lost with the request that ended it. A
failed request keeps what was pending only if there was nothing, or if it was
refused because no file is attached. The word that the machine was about to
print stays on the stack in any case. -/
theorem failed_request (h : r.perform p t = (.error e, p', t'))
    (hattach : ∀ path createNew, r ≠ .attach path createNew) :
    (t' = t ∧ p'.path = p.path ∧
      (p' = p ↔ p.pending = [] ∨ p.path = none ∧ ∃ w, r = .write w) ∧
      (p' ≠ p → p'.pending = []) ∧
      (p' = p → ∀ path t₁ t₂, p.path = some path →
        t₁.append path (Text.ofBytes p.pending ++ ['\n']) = .ok t₂ →
        ∃ p'', r.perform p' t₁ = (.ok (), p'', t₂) ∧ p''.pending = [])) ∧
    ∀ (m : Machine) (b : DeviceBus) (device : Byte) (w : Word) (cause : DeviceError),
      m.regs.WellFormed → .writeWord device w (.error cause) ∈ m.calls b →
      m.stack.head? = some w ∧ (m.step b).1.stack = m.stack := by
  constructor
  · obtain ⟨rfl, ⟨rfl, hpath, hwrite⟩ | ⟨rfl, hends, hrefused⟩⟩ := failed_cases h hattach
    · refine ⟨rfl, rfl, iff_of_true rfl (.inr ⟨hpath, hwrite⟩), fun hne => absurd rfl hne, ?_⟩
      intro _ path _ _ hsome
      rw [hpath] at hsome
      cases hsome
    · refine ⟨rfl, rfl, cleared_eq_iff hrefused, fun _ => rfl, ?_⟩
      intro hkept path t₁ t₂ hpath happend
      rw [hkept]
      exact ⟨r.after p, perform_of_append hends hpath happend, pending_after hends⟩
  · intro m b device w cause hm hcall
    obtain ⟨hhead, hstack, -⟩ :=
      ((m.lawful_passage b).onStack hm).refused device w cause hcall
    exact ⟨hhead, hstack⟩

/-- A directory in the place of the file. -/
def blockedTree : FileTree := ⟨[(["d".toList], .directory)]⟩

theorem flush_blocked : Request.flush.perform ⟨some "d".toList, [0x41]⟩ blockedTree =
    (.error (.file .isDirectory), ⟨some "d".toList, []⟩, blockedTree) := by rfl

theorem failed_request_blocked :
    ∃ e p', Request.flush.perform ⟨some "d".toList, [0x41]⟩ blockedTree =
        (.error e, p', blockedTree) ∧
      p'.path = some "d".toList ∧ p'.pending = [] := by
  obtain ⟨⟨-, hpath, hkept, hlost, -⟩, -⟩ := failed_request flush_blocked nofun
  refine ⟨_, _, flush_blocked, hpath, hlost ?_⟩
  rw [ne_eq, hkept]
  simp

/-- So a failed request does not keep the pending line. -/
theorem failed_request_loses_line :
    ¬ ∀ {r : Request} {p p' : Printer} {t t' : FileTree} {e : DeviceError},
      r.perform p t = (.error e, p', t') → (∀ path createNew, r ≠ .attach path createNew) →
      p'.path = p.path ∧ p'.pending = p.pending := by
  intro hkeeps
  obtain ⟨-, hpending⟩ := hkeeps flush_blocked nofun
  cases hpending

end StackComputer.Printer
