import StackComputer.Proofs.PrinterOperation

/-!
# Sessions of a line printer

Over any sequence of requests the bytes that were accepted are those printed and
those pending, in order. A byte is printed to the file it was written to, unless
the printer was attached to another file while its line was pending.
-/

namespace StackComputer.Printer

/-! ## Requests that succeed -/

/-- A line is pending only while a file is attached. -/
def Sane (p : Printer) : Prop := p.path = none → p.pending = []

/-- What a request can do if no operation on a file fails. -/
inductive Outcome (p : Printer) (t : FileTree) :
    Request → Except DeviceError Unit × Printer × FileTree → Prop
  | attached {path : Text} {createNew : Bool} {t' : FileTree} (hpath : path ≠ [])
      (hway : makeWay path createNew t = (.ok (), t')) :
      Outcome p t (.attach path createNew) (.ok (), { p with path := some path }, t')
  | refused {r : Request} {e : DeviceError} (hrefused : r.isRefused p = true) :
      Outcome p t r (.error e, p, t)
  | printed {r : Request} {path : Text} {t' : FileTree} (hends : r.endsLine p = true)
      (hpath : p.path = some path) (happend : t.append path p.lineText = .ok t') :
      Outcome p t r (.ok (), r.after p, t')
  | quiet {r : Request} (hends : r.endsLine p = false) (hrefused : r.isRefused p = false)
      (hattach : ∀ path createNew, r ≠ .attach path createNew) :
      Outcome p t r (.ok (), r.after p, t)

variable {p p' : Printer} {t t' : FileTree} {r : Request} {a : Except DeviceError Unit}

theorem endsLine_of_isRefused (h : r.isRefused p = true) : r.endsLine p = false := by
  cases r with
  | attach path createNew => rfl
  | write w =>
      have hnone : p.path = none := Option.isNone_iff_eq_none.mp h
      rw [Request.endsLine, hnone]
      rfl
  | flush | detach => cases h

theorem path_of_endsLine (hp : p.Sane) (h : r.endsLine p = true) : ∃ path, p.path = some path := by
  cases hpath : p.path with
  | some path => exact ⟨path, rfl⟩
  | none =>
      have hpending := hp hpath
      cases r with
      | attach path createNew => cases h
      | write w | detach =>
          rw [Request.endsLine, hpath] at h
          cases h
      | flush =>
          rw [Request.endsLine, hpending] at h
          cases h

theorem outcome (hp : p.Sane) (hfiles : ∀ cause, (r.perform p t).1 ≠ .error (.file cause)) :
    Outcome p t r (r.perform p t) := by
  cases hrefused : r.isRefused p with
  | true =>
      obtain ⟨e, -, hperform⟩ := perform_of_isRefused hrefused t
      rw [hperform]
      exact .refused hrefused
  | false =>
      cases hends : r.endsLine p with
      | true =>
          obtain ⟨path, hpath⟩ := path_of_endsLine hp hends
          cases happend : t.append path p.lineText with
          | ok t' =>
              rw [perform_of_append hends hpath happend]
              exact .printed hends hpath happend
          | error cause =>
              rw [perform_of_append_error hends hpath happend] at hfiles
              exact absurd rfl (hfiles cause)
      | false =>
          cases r with
          | attach path createNew =>
              have hpath : path ≠ [] := mt List.isEmpty_iff.mpr (Bool.eq_false_iff.mp hrefused)
              rw [Request.perform, Request.operation, perform_attach hpath] at hfiles ⊢
              rcases hway : makeWay path createNew t with ⟨cause | ⟨⟩, t'⟩
              · rw [hway] at hfiles
                exact absurd rfl (hfiles cause)
              · exact .attached hpath hway
          | write w | flush | detach =>
              rw [perform_of_quiet hends hrefused fun _ _ => Request.noConfusion]
              exact .quiet hends hrefused fun _ _ => Request.noConfusion

/-! ## Turns -/

/-- The pending bytes with the path they would be printed to. -/
def tagged (p : Printer) : List (Text × Byte) := p.pending.map (p.path.getD [], ·)

/-- The bytes a request adds to the pending line if it is granted, with the path
attached then. -/
def Request.adds (p : Printer) : Request → List (Text × Byte)
  | write w =>
    if (w.setWidth 8 : Byte) = 0x0A ∨ (w.setWidth 8 : Byte) = 0x0D then []
    else [(p.path.getD [], w.setWidth 8)]
  | attach _ _ | flush | detach => []

/-- A request with its answer, and the printer and the files before and after. -/
structure Turn where
  request : Request
  before : Printer
  files : FileTree
  answer : Except DeviceError Unit
  after : Printer
  filesAfter : FileTree

namespace Turn

/-- The bytes that were accepted. -/
def accepted (x : Turn) : List (Text × Byte) :=
  match x.answer with
  | .ok () => x.request.adds x.before
  | .error _ => []

/-- The bytes that were printed. -/
def printed (x : Turn) : List (Text × Byte) :=
  match x.answer with
  | .ok () => if x.request.endsLine x.before then x.before.tagged else []
  | .error _ => []

/-- A line that ends is appended to the file, and nothing else is written. An
attachment only makes the way for its file. -/
structure Lawful (x : Turn) : Prop where
  ends : x.request.endsLine x.before = true → ∃ path, x.before.path = some path ∧
    x.files.append path (Text.ofBytes x.before.pending ++ ['\n']) = .ok x.filesAfter ∧
    x.after.pending = []
  keeps : x.request.endsLine x.before = false →
    x.after.pending = x.before.pending ++ x.accepted.map Prod.snd ∧
    ((∀ path createNew, x.request ≠ .attach path createNew) → x.filesAfter = x.files)
  attaches : ∀ path createNew, x.request = .attach path createNew →
    x.filesAfter = x.files ∨ makeWay path createNew x.files = (.ok (), x.filesAfter)

/-- Another file is attached while a line is pending. -/
def movesLine (x : Turn) : Bool :=
  match x.request, x.answer with
  | .attach path _, .ok () => !x.before.pending.isEmpty && x.before.path != some path
  | _, _ => false

/-- An operation on a file failed. -/
def fails (x : Turn) : Bool := x.answer matches .error (.file _)

end Turn

theorem map_snd_tagged (p : Printer) : p.tagged.map Prod.snd = p.pending := by
  simp [tagged, Function.comp_def]

theorem tagged_of_pending (h : p.pending = []) : p.tagged = [] := by
  rw [tagged, h, List.map_nil]

/-- A request that ends no line keeps what is pending under its path. -/
theorem tagged_after (hends : r.endsLine p = false) (hrefused : r.isRefused p = false)
    (hattach : ∀ path createNew, r ≠ .attach path createNew) :
    (r.after p).tagged = p.tagged ++ r.adds p ∧
      (r.after p).pending = p.pending ++ (r.adds p).map Prod.snd := by
  obtain ⟨path, pending⟩ := p
  cases r with
  | attach path createNew => exact absurd rfl (hattach path createNew)
  | write w =>
      cases path with
      | none => cases hrefused
      | some path =>
          have hfeed : (w.setWidth 8 : Byte) ≠ 0x0A := beq_eq_false_iff_ne.mp hends
          rw [Request.after, if_neg hfeed, Request.adds]
          by_cases hreturn : (w.setWidth 8 : Byte) = 0x0D
          · rw [if_pos hreturn, if_pos (.inr hreturn)]
            exact ⟨(List.append_nil _).symm, (List.append_nil _).symm⟩
          · rw [if_neg hreturn, if_neg (not_or.mpr ⟨hfeed, hreturn⟩)]
            exact ⟨List.map_append, rfl⟩
  | flush =>
      cases pending with
      | nil => exact ⟨rfl, rfl⟩
      | cons b rest => cases hends
  | detach =>
      cases path with
      | none => exact ⟨(List.append_nil _).symm, (List.append_nil _).symm⟩
      | some path =>
          cases pending with
          | nil => exact ⟨rfl, rfl⟩
          | cons b rest => cases hends

/-- Attaching a file keeps the paths of what is pending only if it is the same file. -/
theorem tagged_attach_iff {path : Text} (hpath : path ≠ []) :
    ({ p with path := some path } : Printer).tagged = p.tagged ↔
      p.pending = [] ∨ p.path = some path := by
  obtain ⟨attached, pending⟩ := p
  cases pending with
  | nil => exact iff_of_true rfl (.inl rfl)
  | cons b rest =>
      constructor
      · intro htagged
        have hpaths : path = attached.getD [] :=
          (Prod.mk.inj (List.cons.inj htagged).1).1
        cases attached with
        | none => exact absurd hpaths hpath
        | some _ => exact .inr (congrArg some hpaths.symm)
      · rintro (hnil | hsame)
        · cases hnil
        · cases hsame
          rfl

theorem sane_after (hp : p.Sane) (hrefused : r.isRefused p = false) : (r.after p).Sane := by
  cases r with
  | attach path createNew => exact nofun
  | write w =>
      have hpath : (Request.after p (.write w)).path = p.path := by
        rw [Request.after]
        split
        · rfl
        · split <;> rfl
      intro hnone
      rw [hpath] at hnone
      rw [Request.isRefused, hnone] at hrefused
      cases hrefused
  | flush => exact fun _ => rfl
  | detach =>
      rw [Request.after]
      split
      · exact fun _ => rfl
      · exact hp

theorem adds_of_endsLine (h : r.endsLine p = true) : r.adds p = [] := by
  cases r with
  | write w => exact if_pos (.inl (beq_iff_eq.mp (Bool.and_eq_true_iff.mp h).2))
  | attach path createNew | flush | detach => rfl

namespace Outcome

theorem sane (h : Outcome p t r (a, p', t')) (hp : p.Sane) : p'.Sane := by
  cases h with
  | attached hpath hway => exact nofun
  | refused hrefused => exact hp
  | printed hends hpath happend => exact fun _ => pending_after hends
  | quiet hends hrefused hattach => exact sane_after hp hrefused

theorem lawful (h : Outcome p t r (a, p', t')) : (⟨r, p, t, a, p', t'⟩ : Turn).Lawful := by
  cases h with
  | attached hpath hway =>
      refine ⟨nofun, fun _ => ⟨(List.append_nil _).symm, ?_⟩, ?_⟩
      · intro hattach
        exact absurd rfl (hattach _ _)
      · rintro _ _ ⟨⟩
        exact .inr hway
  | refused hrefused =>
      refine ⟨?_, fun _ => ⟨(List.append_nil _).symm, fun _ => rfl⟩, fun _ _ _ => .inl rfl⟩
      intro hends
      exact absurd hends (Bool.eq_false_iff.mp (endsLine_of_isRefused hrefused))
  | printed hends hpath happend =>
      refine ⟨fun _ => ⟨_, hpath, happend, pending_after hends⟩, ?_, ?_⟩
      · intro hquiet
        exact absurd hends (Bool.eq_false_iff.mp hquiet)
      · rintro _ _ rfl
        cases hends
  | quiet hends hrefused hattach =>
      refine ⟨?_, fun _ => ⟨(tagged_after hends hrefused hattach).2, fun _ => rfl⟩,
        fun _ _ _ => .inl rfl⟩
      intro hquiet
      exact absurd hquiet (Bool.eq_false_iff.mp hends)

/-- What was pending is printed or still pending, and what was accepted is added
to it. -/
theorem conserves (h : Outcome p t r (a, p', t')) :
    (⟨r, p, t, a, p', t'⟩ : Turn).printed.map Prod.snd ++ p'.pending =
      p.pending ++ (⟨r, p, t, a, p', t'⟩ : Turn).accepted.map Prod.snd := by
  cases h with
  | attached | refused => exact (List.append_nil _).symm
  | printed hends hpath happend =>
      rw [Turn.printed, Turn.accepted]
      dsimp only
      rw [if_pos hends, map_snd_tagged, pending_after hends, adds_of_endsLine hends, List.map_nil]
  | quiet hends hrefused hattach =>
      rw [Turn.printed, Turn.accepted]
      dsimp only
      rw [if_neg (Bool.eq_false_iff.mp hends), (tagged_after hends hrefused hattach).2,
        List.map_nil, List.nil_append]

/-- With the paths, that is so unless another file is attached to a pending line. -/
theorem conserves_tagged_iff (h : Outcome p t r (a, p', t')) :
    (⟨r, p, t, a, p', t'⟩ : Turn).movesLine = false ↔
      (⟨r, p, t, a, p', t'⟩ : Turn).printed ++ p'.tagged =
        p.tagged ++ (⟨r, p, t, a, p', t'⟩ : Turn).accepted := by
  cases h with
  | @attached path createNew t' hpath hway =>
      have hmoves : (⟨.attach path createNew, p, t, .ok (), { p with path := some path }, t'⟩ :
          Turn).movesLine = false ↔ p.pending = [] ∨ p.path = some path := by
        simp [Turn.movesLine, Decidable.or_iff_not_imp_left]
      rw [hmoves, ← tagged_attach_iff hpath, Turn.printed, Turn.accepted]
      exact Iff.of_eq (congrArg (_ = ·) (List.append_nil _).symm)
  | refused hrefused =>
      refine iff_of_true ?_ (List.append_nil _).symm
      cases r <;> rfl
  | printed hends hpath happend =>
      refine iff_of_true ?_ ?_
      · cases r with
        | attach path createNew => cases hends
        | write w | flush | detach => rfl
      · rw [Turn.printed, Turn.accepted]
        dsimp only
        rw [if_pos hends, tagged_of_pending (pending_after hends), adds_of_endsLine hends]
  | quiet hends hrefused hattach =>
      refine iff_of_true ?_ ?_
      · cases r with
        | attach path createNew => exact absurd rfl (hattach path createNew)
        | write w | flush | detach => rfl
      · rw [Turn.printed, Turn.accepted]
        dsimp only
        rw [if_neg (Bool.eq_false_iff.mp hends), (tagged_after hends hrefused hattach).1,
          List.nil_append]

end Outcome

/-! ## Sessions -/

/-- The turns of some requests, one after the other. -/
def session (p : Printer) (t : FileTree) : List Request → List Turn
  | [] => []
  | r :: rest =>
    let (answer, p', t') := r.perform p t
    ⟨r, p, t, answer, p', t'⟩ :: session p' t' rest

/-- The printer and the files after some requests. -/
def final (p : Printer) (t : FileTree) : List Request → Printer × FileTree
  | [] => (p, t)
  | r :: rest =>
    let (_, p', t') := r.perform p t
    final p' t' rest

/-- No operation on a file fails. -/
def Smooth (xs : List Turn) : Prop := ∀ x ∈ xs, x.fails = false

instance : DecidablePred Smooth := fun xs => inferInstanceAs (Decidable (∀ x ∈ xs, _))

variable {rs : List Request}

/-- A session that is smooth starts with an outcome and goes on smoothly. -/
theorem exists_outcome (hp : p.Sane) (hok : Smooth (session p t (r :: rs))) :
    ∃ a p' t', r.perform p t = (a, p', t') ∧ Outcome p t r (a, p', t') ∧ p'.Sane ∧
      Smooth (session p' t' rs) ∧
      session p t (r :: rs) = ⟨r, p, t, a, p', t'⟩ :: session p' t' rs := by
  rcases hperform : r.perform p t with ⟨a, p', t'⟩
  have hsession : session p t (r :: rs) = ⟨r, p, t, a, p', t'⟩ :: session p' t' rs := by
    rw [session, hperform]
  rw [hsession] at hok
  obtain ⟨hfirst, hrest⟩ := List.forall_mem_cons.mp hok
  have houtcome : Outcome p t r (a, p', t') := by
    rw [← hperform]
    refine outcome hp ?_
    rw [hperform]
    rintro cause rfl
    cases hfirst
  exact ⟨a, p', t', rfl, houtcome, houtcome.sane hp, hrest, hsession⟩

theorem lawful_session (hp : p.Sane) (hok : Smooth (session p t rs)) :
    ∀ x ∈ session p t rs, x.Lawful := by
  induction rs generalizing p t with
  | nil => exact List.forall_mem_nil _
  | cons r rs ih =>
      obtain ⟨a, p', t', -, houtcome, hp', hrest, hsession⟩ := exists_outcome hp hok
      rw [hsession]
      exact List.forall_mem_cons.mpr ⟨houtcome.lawful, ih hp' hrest⟩

theorem conserves_session (hp : p.Sane) (hok : Smooth (session p t rs)) :
    ((session p t rs).flatMap Turn.printed).map Prod.snd ++ (final p t rs).1.pending =
      p.pending ++ ((session p t rs).flatMap Turn.accepted).map Prod.snd := by
  induction rs generalizing p t with
  | nil => exact (List.append_nil _).symm
  | cons r rs ih =>
      obtain ⟨a, p', t', hperform, houtcome, hp', hrest, hsession⟩ := exists_outcome hp hok
      have hfinal : final p t (r :: rs) = final p' t' rs := by rw [final, hperform]
      rw [hsession, hfinal, List.flatMap_cons, List.flatMap_cons, List.map_append, List.map_append,
        List.append_assoc, ih hp' hrest, ← List.append_assoc, houtcome.conserves,
        List.append_assoc]

/-- With their paths, the bytes accepted so far are those printed and those
pending. -/
def Tagged (p : Printer) (t : FileTree) (rs : List Request) : Prop :=
  (session p t rs).flatMap Turn.printed ++ (final p t rs).1.tagged =
    p.tagged ++ (session p t rs).flatMap Turn.accepted

/-- No line is moved to another file just when all bytes keep their paths, at
every point of the session. By induction on the requests: the first of them
cancels on both sides. -/
theorem no_line_moved_iff (hp : p.Sane) (hok : Smooth (session p t rs)) :
    (∀ x ∈ session p t rs, x.movesLine = false) ↔
      ∀ front back, rs = front ++ back → Tagged p t front := by
  induction rs generalizing p t with
  | nil =>
      refine iff_of_true (List.forall_mem_nil _) ?_
      intro front back hnil
      obtain ⟨rfl, -⟩ := List.append_eq_nil_iff.mp hnil.symm
      exact (List.append_nil _).symm
  | cons r rs ih =>
      obtain ⟨a, p', t', hperform, houtcome, hp', hrest, hsession⟩ := exists_outcome hp hok
      have hcons : ∀ front, Tagged p t (r :: front) ↔
          (⟨r, p, t, a, p', t'⟩ : Turn).printed ++
              ((session p' t' front).flatMap Turn.printed ++ (final p' t' front).1.tagged) =
            p.tagged ++ ((⟨r, p, t, a, p', t'⟩ : Turn).accepted ++
              (session p' t' front).flatMap Turn.accepted) := by
        intro front
        rw [Tagged, session, final, hperform]
        dsimp only
        rw [List.flatMap_cons, List.flatMap_cons, List.append_assoc]
      rw [hsession, List.forall_mem_cons, ih hp' hrest, houtcome.conserves_tagged_iff]
      constructor
      · rintro ⟨hfirst, hlater⟩ front back hsplit
        cases front with
        | nil => exact (List.append_nil _).symm
        | cons r' front =>
            obtain ⟨rfl, hback⟩ := List.cons.inj hsplit
            have hfront : _ = _ := hlater front back hback
            rw [hcons, hfront, ← List.append_assoc, hfirst, List.append_assoc]
      · intro htagged
        have hfirst := (hcons []).mp (htagged [r] rs rfl)
        simp only [session, final, List.flatMap_nil, List.nil_append, List.append_nil] at hfirst
        refine ⟨hfirst, ?_⟩
        intro front back hsplit
        have hfront := (hcons front).mp (htagged (r :: front) back (congrArg (r :: ·) hsplit))
        rw [← List.append_assoc p.tagged, ← hfirst, List.append_assoc] at hfront
        exact List.append_cancel_left hfront

/-- Every byte accepted is printed in its turn, or still pending. That all of them
are printed to the file attached when they were accepted holds at every point of
the session just when no file is attached in place of another while a line is
pending. -/
theorem session_prints_in_place (hp : p.pending = []) (hok : Smooth (session p t rs)) :
    (∀ x ∈ session p t rs, x.Lawful) ∧
    ((session p t rs).flatMap Turn.printed).map Prod.snd ++ (final p t rs).1.pending =
      ((session p t rs).flatMap Turn.accepted).map Prod.snd ∧
    ((∀ x ∈ session p t rs, x.movesLine = false) ↔ ∀ front back, rs = front ++ back →
      (session p t front).flatMap Turn.printed ++ (final p t front).1.tagged =
        (session p t front).flatMap Turn.accepted) := by
  have hsane : p.Sane := fun _ => hp
  refine ⟨lawful_session hsane hok, ?_, ?_⟩
  · rw [conserves_session hsane hok, hp, List.nil_append]
  · rw [no_line_moved_iff hsane hok]
    simp only [Tagged, tagged_of_pending hp, List.nil_append]

/-- A letter to one file, and another to the next after the first was let go. -/
def twoFiles : List Request :=
  [.attach "a".toList true, .write 0x41, .detach, .attach "b".toList true, .write 0x42, .flush]

theorem session_prints_in_place_twoFiles :
    (session {} {} twoFiles).flatMap Turn.printed =
      [("a".toList, 0x41), ("b".toList, 0x42)] ∧
    ((final {} {} twoFiles).2.read "a".toList).toOption = some "A\n".toList := by
  have hok : Smooth (session {} {} twoFiles) := by decide +kernel
  obtain ⟨-, -, hplaces⟩ := session_prints_in_place rfl hok
  have hall := hplaces.mp (by decide +kernel) twoFiles [] (List.append_nil _).symm
  have htagged : (final {} {} twoFiles).1.tagged = [] := by decide +kernel
  rw [htagged, List.append_nil] at hall
  exact ⟨hall.trans (by decide +kernel), by decide +kernel⟩

/-- A letter that is still pending when the printer is attached to another file. -/
def movedLetter : List Request :=
  [.attach "a".toList true, .write 0x41, .attach "b".toList true, .flush]

/-- So what was accepted for one file may be printed to another. -/
theorem session_prints_out_of_place :
    ¬ ∀ {p : Printer} {t : FileTree} {rs : List Request}, p.pending = [] →
      Smooth (session p t rs) →
      (session p t rs).flatMap Turn.printed <+: (session p t rs).flatMap Turn.accepted := by
  intro hplaces
  have hok : Smooth (session {} {} movedLetter) := by decide +kernel
  have hprefix := hplaces rfl hok
  revert hprefix
  decide +kernel

end StackComputer.Printer
