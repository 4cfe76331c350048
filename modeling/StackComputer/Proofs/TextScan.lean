import StackComputer.Text.Blank

/-!
# Scanning text

Cutting and splitting a text that was put together from pieces gives the pieces
back, as long as no piece holds a separator. A text is tight when it has no
blank at either end, so that trimming leaves it alone.
-/

namespace StackComputer.Text

variable {p : Char → Bool} {c : Char} {s t : Text}

theorem beq_eq_false_of_notMem (h : c ∉ t) : ∀ d ∈ t, (d == c) = false := fun _ hd =>
  beq_eq_false_iff_ne.mpr fun heq => h (heq ▸ hd)

theorem cutAt?_eq_none (h : ∀ c ∈ t, p c = false) : cutAt? p t = none := by
  induction t with
  | nil => rfl
  | cons c t ih =>
      rw [List.forall_mem_cons] at h
      rw [cutAt?, h.1, ih h.2]
      rfl

theorem cutAt?_append (hs : ∀ c ∈ s, p c = false) (hc : p c = true) (t : Text) :
    cutAt? p (s ++ c :: t) = some (s, t) := by
  induction s with
  | nil => exact if_pos hc
  | cons a s ih =>
      rw [List.forall_mem_cons] at hs
      rw [List.cons_append, cutAt?, hs.1, ih hs.2]
      rfl

theorem splitAt_eq_singleton (h : ∀ c ∈ t, p c = false) : splitAt p t = [t] := by
  induction t with
  | nil => rfl
  | cons c t ih =>
      rw [List.forall_mem_cons] at h
      rw [splitAt, h.1, ih h.2]
      rfl

theorem splitAt_append (hs : ∀ c ∈ s, p c = false) (hc : p c = true) (t : Text) :
    splitAt p (s ++ c :: t) = s :: splitAt p t := by
  induction s with
  | nil => exact if_pos hc
  | cons a s ih =>
      rw [List.forall_mem_cons] at hs
      rw [List.cons_append, splitAt, hs.1, ih hs.2]
      rfl

/-! ## Lines -/

theorem splitAt_joinWith (hc : p c = true) {ts : List Text} (hne : ts ≠ [])
    (h : ∀ t ∈ ts, ∀ c ∈ t, p c = false) : splitAt p (joinWith [c] ts) = ts := by
  induction ts with
  | nil => exact absurd rfl hne
  | cons t ts ih =>
      rw [List.forall_mem_cons] at h
      cases ts with
      | nil => exact splitAt_eq_singleton h.1
      | cons u rest =>
          rw [joinWith, List.append_assoc, List.singleton_append, splitAt_append h.1 hc,
            ih (List.cons_ne_nil u rest) h.2]

theorem joinWith_cons (separator t : Text) (ts : List Text) :
    joinWith separator (t :: ts) = t ++ ts.flatMap (separator ++ ·) := by
  induction ts generalizing t with
  | nil => simp [joinWith]
  | cons u rest ih => simp [joinWith, ih]

theorem joinWith_splitAt (c : Char) (t : Text) : joinWith [c] (splitAt (· == c) t) = t := by
  induction t with
  | nil => rfl
  | cons a t ih =>
      rw [splitAt]
      cases hpieces : splitAt (· == c) t with
      | nil =>
          rw [hpieces] at ih
          subst ih
          cases hpieces
      | cons piece rest =>
          rw [hpieces, joinWith_cons] at ih
          split
          · next hac => simpa [joinWith, joinWith_cons, beq_iff_eq.mp hac] using ih
          · simpa [joinWith_cons] using ih

theorem dropReturn_eq_self (h : '\r' ∉ t) : dropReturn t = t := by
  induction t with
  | nil => rfl
  | cons c t ih =>
      rw [List.mem_cons, not_or] at h
      rw [dropReturn, ih h.2]
      rintro rfl rfl
      exact h.1 rfl

theorem linesOfPieces_append {ts : List Text} (h : ∀ t ∈ ts, '\r' ∉ t) (last : Text) :
    linesOfPieces (ts ++ [last]) = ts ++ if last.isEmpty then [] else [last] := by
  induction ts with
  | nil => rfl
  | cons t ts ih =>
      rw [List.forall_mem_cons] at h
      obtain ⟨u, rest, hrest⟩ : ∃ u rest, ts ++ [last] = u :: rest :=
        List.exists_cons_of_ne_nil
          (List.append_ne_nil_of_right_ne_nil ts (List.cons_ne_nil last []))
      rw [List.cons_append, List.cons_append, ← ih h.2, hrest, linesOfPieces,
        dropReturn_eq_self h.1]
      exact List.cons_ne_nil u rest

theorem joinWith_concat (separator : Text) {ts : List Text} (hne : ts ≠ []) (last : Text) :
    joinWith separator (ts ++ [last]) = joinWith separator ts ++ separator ++ last := by
  induction ts with
  | nil => exact absurd rfl hne
  | cons t ts ih =>
      cases ts with
      | nil => rfl
      | cons u rest =>
          have hrest := ih (List.cons_ne_nil u rest)
          simp only [List.cons_append] at hrest
          simp only [List.cons_append, joinWith, hrest, List.append_assoc]

/-- The lines of joined lines, whether or not the last of them was ended. -/
theorem lines_joinWith {ts : List Text} (hne : ts ≠ [])
    (h : ∀ t ∈ ts, t ≠ [] ∧ '\n' ∉ t ∧ '\r' ∉ t) (ended : Bool) :
    lines (joinWith ['\n'] ts ++ if ended then ['\n'] else []) = ts := by
  have hfeed : ∀ t ∈ ts, ∀ c ∈ t, (c == '\n') = false := fun t ht =>
    beq_eq_false_of_notMem (h t ht).2.1
  have hreturn : ∀ t ∈ ts, '\r' ∉ t := fun t ht => (h t ht).2.2
  cases ended with
  | true =>
      have hpieces : ∀ t ∈ ts ++ [[]], ∀ c ∈ t, (c == '\n') = false := by
        intro t ht
        rcases List.mem_append.mp ht with ht | ht
        · exact hfeed t ht
        · rw [List.mem_singleton.mp ht]
          exact List.forall_mem_nil _
      have hjoin := joinWith_concat ['\n'] hne []
      rw [List.append_nil] at hjoin
      rw [if_pos rfl, ← hjoin, lines,
        splitAt_joinWith rfl (List.append_ne_nil_of_left_ne_nil hne _) hpieces,
        linesOfPieces_append hreturn]
      exact List.append_nil ts
  | false =>
      obtain ⟨init, last, rfl⟩ : ∃ init last, ts = init ++ [last] :=
        ⟨ts.dropLast, ts.getLast hne, (List.dropLast_concat_getLast hne).symm⟩
      have hlast : last ≠ [] := (h last (List.mem_append_right init (List.mem_singleton.mpr rfl))).1
      rw [if_neg Bool.false_ne_true, List.append_nil, lines, splitAt_joinWith rfl hne hfeed,
        linesOfPieces_append fun t ht => hreturn t (List.mem_append_left _ ht),
        if_neg (mt List.isEmpty_iff.mp hlast)]

theorem lines_eq_singleton (hne : t ≠ []) (h : '\n' ∉ t) : lines t = [t] := by
  rw [lines, splitAt_eq_singleton (beq_eq_false_of_notMem h), linesOfPieces, if_neg (mt List.isEmpty_iff.mp hne)]

/-! ## Blanks at the ends -/

/-- Neither end of the text is a blank. -/
def Tight (t : Text) : Prop :=
  (∀ c ∈ t.head?, isBlank c = false) ∧ ∀ c ∈ t.getLast?, isBlank c = false

theorem trimLeft_eq_self (h : ∀ c ∈ t.head?, isBlank c = false) : trimLeft t = t := by
  cases t with
  | nil => rfl
  | cons c t => exact List.dropWhile_cons_of_neg (Bool.eq_false_iff.mp (h c rfl))

theorem Tight.trim_eq (h : Tight t) : trim t = t := by
  have hright : ∀ c ∈ t.reverse.head?, isBlank c = false := by
    rw [List.head?_reverse]
    exact h.2
  rw [trim, trimLeft_eq_self h.1, trimRight, ← trimLeft, trimLeft_eq_self hright,
    List.reverse_reverse]

theorem tight_of_solid (h : ∀ c ∈ t, isBlank c = false) : Tight t :=
  ⟨fun c hc => h c (List.mem_of_head? hc), fun c hc => h c (List.mem_of_getLast? hc)⟩

theorem Tight.append (hs : Tight s) (ht : Tight t) (hsne : s ≠ []) (htne : t ≠ []) (u : Text) :
    Tight (s ++ u ++ t) := by
  obtain ⟨a, s, rfl⟩ := List.exists_cons_of_ne_nil hsne
  obtain ⟨b, hb⟩ := Option.ne_none_iff_exists'.mp (mt List.getLast?_eq_none_iff.mp htne)
  refine ⟨fun c hc => hs.1 c hc, fun c hc => ht.2 c ?_⟩
  rw [List.getLast?_append, hb] at hc
  exact hb.trans hc

theorem firstWord_eq_self (h : ∀ c ∈ t, isBlank c = false) : firstWord t = (t, []) := by
  rw [firstWord, (tight_of_solid h).trim_eq, cutAt?_eq_none h]

theorem tight_append_blank (hs : ∀ c ∈ s, isBlank c = false) (hsne : s ≠ []) (ht : Tight t)
    (htne : t ≠ []) : Tight (s ++ ' ' :: t) := by
  have happend := (tight_of_solid hs).append ht hsne htne [' ']
  rwa [List.append_assoc] at happend

/-- A word, a single blank and a tight rest are told apart again. -/
theorem firstWord_append (hs : ∀ c ∈ s, isBlank c = false) (hsne : s ≠ []) (ht : Tight t)
    (htne : t ≠ []) : firstWord (s ++ ' ' :: t) = (s, t) := by
  rw [firstWord, (tight_append_blank hs hsne ht htne).trim_eq, cutAt?_append hs rfl]
  exact congrArg (Prod.mk s) ht.trim_eq

theorem squeeze_eq_self (h : ∀ c ∈ t, isBlank c = false) : squeeze t = t := by
  rw [squeeze, List.filter_eq_self]
  intro c hc
  rw [h c hc]
  rfl

/-! ## Plain text -/

/-- Blanks, digits, capitals and marks, except those that start a comment or end
a label or a quotation. -/
def isPlain (c : Char) : Bool :=
  0x20 ≤ c.toNat && c.toNat ≤ 0x5A && c != '"' && c != ':' && c != ';'

/-- Plain characters but the blank. -/
def isSolid (c : Char) : Bool := isPlain c && c != ' '

/-- Plain characters inside a name or a number. -/
def isInner (c : Char) : Bool := isSolid c && c != ','

theorem isPlain_of_isSolid (h : isSolid c = true) : isPlain c = true :=
  (Bool.and_eq_true_iff.mp h).1

theorem isSolid_of_isInner (h : isInner c = true) : isSolid c = true :=
  (Bool.and_eq_true_iff.mp h).1

theorem isPlain_of_isInner (h : isInner c = true) : isPlain c = true :=
  isPlain_of_isSolid (isSolid_of_isInner h)

theorem toNat_of_isPlain (h : isPlain c = true) : 0x20 ≤ c.toNat ∧ c.toNat ≤ 0x5A := by
  simp only [isPlain, Bool.and_eq_true, decide_eq_true_eq] at h
  exact h.1.1.1

theorem ne_comma_of_isInner (h : isInner c = true) : (c == ',') = false :=
  beq_eq_false_iff_ne.mpr (bne_iff_ne.mp (Bool.and_eq_true_iff.mp h).2)

theorem isBlank_of_isSolid (h : isSolid c = true) : isBlank c = false := by
  have hrange := toNat_of_isPlain (isPlain_of_isSolid h)
  have hspace : c.toNat ≠ 0x20 := by
    intro heq
    have hc : c = ' ' := Char.toNat_inj.mp heq
    rw [hc] at h
    exact absurd h (by decide)
  simp only [isBlank, Bool.or_eq_false_iff, Bool.and_eq_false_iff, beq_eq_false_iff_ne,
    decide_eq_false_iff_not]
  omega

theorem isBlank_of_isInner (h : isInner c = true) : isBlank c = false :=
  isBlank_of_isSolid (isSolid_of_isInner h)

theorem isPlain_ne (h : isPlain c = true) : c ≠ '\n' ∧ c ≠ '\r' ∧ c ≠ ';' ∧ c ≠ ':' := by
  refine ⟨?_, ?_, ?_, ?_⟩ <;> rintro rfl <;> exact absurd h (by decide)

theorem upper_eq_self (h : ∀ c ∈ t, isPlain c = true) : upper t = t := by
  have hupper : ∀ c ∈ t, c.toUpper = c := by
    intro c hc
    have hrange := toNat_of_isPlain (h c hc)
    refine dif_neg fun hlower => ?_
    have hle : 97 ≤ c.toNat := hlower.1
    omega
  exact (List.map_congr_left hupper).trans t.map_id

end StackComputer.Text
