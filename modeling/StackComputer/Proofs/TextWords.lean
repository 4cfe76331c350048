import Mathlib
import StackComputer.Proofs.TextScan

/-!
# Words of a text

The first word of a text does not depend on the blanks around it, and letter
case changes neither the words of a text nor its pieces.
-/

namespace StackComputer.Text

/-! ## Letter case -/

theorem isLower_iff {c : Char} : c.isLower = true ↔ 97 ≤ c.toNat ∧ c.toNat ≤ 122 := by
  rw [Char.isLower, Bool.and_eq_true, decide_eq_true_iff, decide_eq_true_iff]
  exact Iff.rfl

/-- Small letters are moved, everything else stays. -/
theorem toNat_toUpper (c : Char) :
    (97 ≤ c.toNat ∧ c.toNat ≤ 122) ∧ c.toUpper.toNat = c.toNat - 32 ∨
      ¬ (97 ≤ c.toNat ∧ c.toNat ≤ 122) ∧ c.toUpper.toNat = c.toNat := by
  by_cases hlower : c.isLower = true
  · have hbounds := isLower_iff.mp hlower
    have hvalid : (c.toNat - 32).isValidChar := .inl (by omega)
    refine .inl ⟨hbounds, ?_⟩
    rw [Char.toUpper_eq_of_isLower hlower, Char.toNat_ofNat, if_pos hvalid]
  · have hsame := Char.toUpper_eq_of_not_isLower hlower
    exact .inr ⟨mt isLower_iff.mpr hlower, congrArg Char.toNat hsame⟩

theorem toUpper_eq_iff {c d : Char} (hd : d.toNat < 65 ∨ 90 < d.toNat ∧ d.toNat < 97 ∨
    122 < d.toNat) : c.toUpper = d ↔ c = d := by
  rw [← Char.toNat_inj, ← Char.toNat_inj]
  rcases toNat_toUpper c with ⟨hlower, hc⟩ | ⟨hlower, hc⟩ <;> omega

theorem upper_append (s t : Text) : upper (s ++ t) = upper s ++ upper t := List.map_append

@[simp] theorem upper_upper (t : Text) : upper (upper t) = upper t := by
  simp [upper]

@[simp] theorem sameLetters_upper (s t : Text) : sameLetters (upper s) t = sameLetters s t := by
  rw [sameLetters, upper_upper, sameLetters]

/-! ## Pieces -/

theorem splitAt_map {p : Char → Bool} {f : Char → Char} (h : ∀ c, p (f c) = p c) (t : Text) :
    splitAt p (t.map f) = (splitAt p t).map (List.map f) := by
  induction t with
  | nil => rfl
  | cons c t ih =>
      rw [List.map_cons, splitAt, splitAt, h, ih]
      split
      · rfl
      · cases splitAt p t with
        | nil => rfl
        | cons piece rest => rfl

theorem isComma_toUpper (c : Char) : (c.toUpper == ',') = (c == ',') := by
  rw [Bool.eq_iff_iff, beq_iff_eq, beq_iff_eq, toUpper_eq_iff (by decide)]

theorem exists_first_or (p : Char → Bool) (t : Text) :
    (∀ c ∈ t, p c = false) ∨
      ∃ x c rest, t = x ++ c :: rest ∧ p c = true ∧ ∀ d ∈ x, p d = false := by
  induction t with
  | nil => exact .inl (List.forall_mem_nil _)
  | cons a t ih =>
      cases ha : p a with
      | true => exact .inr ⟨[], a, t, rfl, ha, List.forall_mem_nil _⟩
      | false =>
          rcases ih with hnone | ⟨x, c, rest, rfl, hc, hx⟩
          · exact .inl (List.forall_mem_cons.mpr ⟨ha, hnone⟩)
          · exact .inr ⟨a :: x, c, rest, rfl, hc, List.forall_mem_cons.mpr ⟨ha, hx⟩⟩

theorem exists_of_cutAt? {p : Char → Bool} {t a b : Text} (h : cutAt? p t = some (a, b)) :
    ∃ c, t = a ++ c :: b ∧ p c = true ∧ ∀ d ∈ a, p d = false := by
  rcases exists_first_or p t with hnone | ⟨x, c, rest, rfl, hc, hx⟩
  · rw [cutAt?_eq_none hnone] at h
    cases h
  · rw [cutAt?_append hx hc] at h
    cases h
    exact ⟨c, rfl, hc, hx⟩

theorem squeeze_append (s t : Text) : squeeze (s ++ t) = squeeze s ++ squeeze t :=
  List.filter_append _ _

/-! ## Trimmed text -/

theorem isBlank_toUpper (c : Char) : isBlank c.toUpper = isBlank c := by
  rw [Bool.eq_iff_iff]
  simp only [isBlank, Bool.or_eq_true, Bool.and_eq_true, beq_iff_eq, decide_eq_true_eq]
  rcases toNat_toUpper c with ⟨hlower, hc⟩ | ⟨-, hc⟩ <;> omega

theorem solid_upper {t : Text} (h : ∀ c ∈ t, isBlank c = false) :
    ∀ c ∈ upper t, isBlank c = false := by
  simpa [upper, isBlank_toUpper] using h

theorem trim_append_left {x : Text} (hx : ∀ c ∈ x, isBlank c = true) (t : Text) :
    trim (x ++ t) = trim t := by
  rw [trim, trim, trimLeft, trimLeft, List.dropWhile_append_of_pos hx]

theorem trim_cons {b : Char} (hb : isBlank b = true) (t : Text) : trim (b :: t) = trim t :=
  trim_append_left (x := [b]) (by simpa using hb) t

theorem trim_eq_nil {x : Text} (hx : ∀ c ∈ x, isBlank c = true) : trim x = [] := by
  have hnil := trim_append_left hx []
  rwa [List.append_nil] at hnil

theorem trimRight_append_blanks {y : Text} (hy : ∀ c ∈ y, isBlank c = true) (t : Text) :
    trimRight (t ++ y) = trimRight t := by
  have hreverse : ∀ c ∈ y.reverse, isBlank c = true := by simpa using hy
  rw [trimRight, trimRight, List.reverse_append, List.dropWhile_append_of_pos hreverse]

theorem trim_append_right {y : Text} (hy : ∀ c ∈ y, isBlank c = true) (t : Text) :
    trim (t ++ y) = trim t := by
  rw [trim, trim, trimLeft, List.dropWhile_append]
  split
  · next hempty =>
      have hleft : trimLeft t = [] := List.isEmpty_iff.mp hempty
      rw [hleft]
      exact trim_eq_nil hy
  · exact trimRight_append_blanks hy _

theorem trim_trimLeft (t : Text) : trim (trimLeft t) = trim t := by
  have hblank : ∀ c ∈ t.takeWhile isBlank, isBlank c = true := fun _ => List.mem_takeWhile_imp
  have hsplit := trim_append_left hblank (trimLeft t)
  rwa [trimLeft, List.takeWhile_append_dropWhile, eq_comm] at hsplit

theorem exists_append_trimRight (t : Text) :
    ∃ y, t = trimRight t ++ y ∧ ∀ c ∈ y, isBlank c = true := by
  refine ⟨(t.reverse.takeWhile isBlank).reverse, ?_, ?_⟩
  · rw [trimRight, ← List.reverse_append, List.takeWhile_append_dropWhile, List.reverse_reverse]
  · intro c hc
    exact List.mem_takeWhile_imp (List.mem_reverse.mp hc)

theorem trim_trimRight (t : Text) : trim (trimRight t) = trim t := by
  obtain ⟨y, ht, hy⟩ := exists_append_trimRight t
  have hsplit := trim_append_right hy (trimRight t)
  rwa [← ht, eq_comm] at hsplit

@[simp] theorem trim_trim (t : Text) : trim (trim t) = trim t :=
  (trim_trimRight _).trans (trim_trimLeft t)

theorem trimLeft_append_cons {c : Char} (hc : isBlank c = false) (s t : Text) :
    trimLeft (s ++ c :: t) = trimLeft s ++ c :: t := by
  have hdrop : (c :: t).dropWhile isBlank = c :: t := List.dropWhile_cons_of_neg (by simp [hc])
  rw [trimLeft, trimLeft, List.dropWhile_append, hdrop]
  split
  · next hempty => rw [List.isEmpty_iff.mp hempty, List.nil_append]
  · rfl

theorem trimRight_append_cons {c : Char} (hc : isBlank c = false) (s t : Text) :
    trimRight (s ++ c :: t) = s ++ c :: trimRight t := by
  have hleft := trimLeft_append_cons hc t.reverse s.reverse
  simp only [trimLeft] at hleft
  simp [trimRight, hleft]

theorem trimRight_append {s t : Text} (h : squeeze t ≠ []) :
    trimRight (s ++ t) = s ++ trimRight t := by
  obtain ⟨c, hmem⟩ := List.exists_mem_of_ne_nil _ h
  obtain ⟨ht, hc⟩ : c ∈ t ∧ isBlank c = false := by simpa [squeeze] using hmem
  obtain ⟨u, v, rfl⟩ := List.append_of_mem ht
  rw [← List.append_assoc, trimRight_append_cons hc, trimRight_append_cons hc, List.append_assoc]

theorem trim_append_cons {c : Char} (hc : isBlank c = false) (s t : Text) :
    trim (s ++ c :: t) = trimLeft s ++ c :: trimRight t := by
  rw [trim, trimLeft_append_cons hc, trimRight_append_cons hc]

theorem mem_trim {c : Char} {t : Text} (hc : isBlank c = false) (h : c ∈ t) : c ∈ trim t := by
  obtain ⟨s, u, rfl⟩ := List.append_of_mem h
  simp [trim_append_cons hc]

theorem trim_ne_nil {c : Char} {t : Text} (hc : isBlank c = false) (h : c ∈ t) : trim t ≠ [] :=
  List.ne_nil_of_mem (mem_trim hc h)

theorem of_trim_eq_nil {t : Text} (h : trim t = []) : ∀ c ∈ t, isBlank c = true := by
  intro c hc
  cases hblank : isBlank c with
  | true => rfl
  | false => exact absurd h (trim_ne_nil hblank hc)

theorem mem_of_mem_trim {c : Char} {t : Text} (h : c ∈ trim t) : c ∈ t := by
  obtain ⟨y, hy, -⟩ := exists_append_trimRight (trimLeft t)
  have hleft : c ∈ trimLeft t := by
    rw [hy]
    exact List.mem_append_left y h
  exact (List.dropWhile_sublist isBlank).subset hleft

theorem tight_trim (t : Text) : Tight (trim t) := by
  constructor
  · intro c hc
    cases hleft : trimLeft t with
    | nil =>
        rw [trim, hleft] at hc
        cases hc
    | cons d rest =>
        have hhead := List.head?_dropWhile_not isBlank t
        rw [← trimLeft, hleft] at hhead
        have hd : isBlank d = false := by simpa using hhead
        have hright : trimRight (d :: rest) = d :: trimRight rest :=
          trimRight_append_cons hd [] rest
        rw [trim, hleft, hright] at hc
        cases hc
        exact hd
  · intro c hc
    have hhead := List.head?_dropWhile_not isBlank (trimLeft t).reverse
    rw [trim, trimRight, List.getLast?_reverse] at hc
    rw [hc] at hhead
    simpa using hhead

/-- `s` is `t` without the blanks at its ends. -/
def IsTrimmed (t s : Text) : Prop :=
  ∃ x y, t = x ++ s ++ y ∧ (∀ c ∈ x, isBlank c = true) ∧ (∀ c ∈ y, isBlank c = true) ∧ Tight s

theorem trim_eq_iff {t s : Text} : trim t = s ↔ IsTrimmed t s := by
  constructor
  · rintro rfl
    obtain ⟨y, hy, hblank⟩ := exists_append_trimRight (trimLeft t)
    refine ⟨t.takeWhile isBlank, y, ?_, fun _ => List.mem_takeWhile_imp, hblank, tight_trim t⟩
    rw [List.append_assoc, trim, ← hy, trimLeft, List.takeWhile_append_dropWhile]
  · rintro ⟨x, y, rfl, hx, hy, htight⟩
    rw [trim_append_right hy, trim_append_left hx, htight.trim_eq]

/-! ## First words -/

theorem firstWord_trim (t : Text) : firstWord (trim t) = firstWord t := by
  rw [firstWord, firstWord, trim_trim]

theorem firstWord_congr {s t : Text} (h : trim s = trim t) : firstWord s = firstWord t := by
  rw [firstWord, firstWord, h]

theorem trim_append_blank {name t : Text} (hname : ∀ c ∈ name, isBlank c = false)
    (hne : name ≠ []) (b : Char) (ht : squeeze t ≠ []) :
    trim (name ++ b :: t) = name ++ b :: trimRight t := by
  have hleft : trimLeft (name ++ b :: t) = name ++ [b] ++ t := by
    obtain ⟨c, rest, rfl⟩ := List.exists_cons_of_ne_nil hne
    rw [List.append_assoc]
    exact trimLeft_eq_self fun d hd => hname d (by simp_all)
  rw [trim, hleft, trimRight_append ht, List.append_assoc]
  rfl

/-- Nothing or a blank, which ends the word before it. -/
def StartsBlank (t : Text) : Prop := t = [] ∨ ∃ b rest, t = b :: rest ∧ isBlank b = true

theorem startsBlank_cons {b : Char} (hb : isBlank b = true) (t : Text) : StartsBlank (b :: t) :=
  .inr ⟨b, t, rfl, hb⟩

theorem firstWord_append_tail {word tail : Text} (hword : ∀ c ∈ word, isBlank c = false)
    (hne : word ≠ []) (htail : StartsBlank tail) :
    firstWord (word ++ tail) = (word, trim tail) := by
  rcases htail with rfl | ⟨b, rest, rfl, hb⟩
  · rw [List.append_nil, firstWord_eq_self hword]
    rfl
  by_cases hrest : squeeze rest = []
  · have hblank : ∀ c ∈ b :: rest, isBlank c = true :=
      List.forall_mem_cons.mpr ⟨hb, by simpa [squeeze] using hrest⟩
    rw [firstWord_congr (trim_append_right hblank word), firstWord_eq_self hword,
      trim_eq_nil hblank]
  · rw [firstWord, trim_append_blank hword hne b hrest, cutAt?_append hword hb]
    exact congrArg (Prod.mk word) ((trim_trimRight rest).trans (trim_cons hb rest).symm)

/-- The first token of a text, up to the next blank. -/
def firstToken (t : Text) : Text := (trimLeft t).takeWhile fun c => !isBlank c

/-- The text after the first token, with the blank that ends the token. -/
def afterToken (t : Text) : Text := (trimLeft t).dropWhile fun c => !isBlank c

theorem firstToken_append_afterToken (t : Text) : firstToken t ++ afterToken t = trimLeft t :=
  List.takeWhile_append_dropWhile

theorem solid_firstToken {t : Text} : ∀ c ∈ firstToken t, isBlank c = false := by
  intro c hc
  simpa using List.mem_takeWhile_imp hc

theorem startsBlank_afterToken (t : Text) : StartsBlank (afterToken t) := by
  cases h : afterToken t with
  | nil => exact .inl rfl
  | cons b rest =>
      have hhead := List.head?_dropWhile_not (fun c => !isBlank c) (trimLeft t)
      rw [← afterToken, h] at hhead
      exact startsBlank_cons (by simpa using hhead) rest

theorem firstToken_cases (t : Text) :
    trimLeft t = [] ∨ ∃ c rest, trimLeft t = c :: rest ∧ isBlank c = false ∧ firstToken t ≠ [] := by
  cases h : trimLeft t with
  | nil => exact .inl rfl
  | cons c rest =>
      have hhead := List.head?_dropWhile_not isBlank t
      rw [← trimLeft, h] at hhead
      have hc : isBlank c = false := by simpa using hhead
      exact .inr ⟨c, rest, rfl, hc, by simp [firstToken, h, hc]⟩

theorem firstToken_ne_nil {c : Char} {t : Text} (hc : isBlank c = false) (h : c ∈ t) :
    firstToken t ≠ [] := by
  rcases firstToken_cases t with hnil | ⟨-, -, -, -, hne⟩
  · refine absurd ?_ (trim_ne_nil hc h)
    rw [trim, hnil]
    rfl
  · exact hne

theorem trimLeft_trim (t : Text) : trimLeft (trim t) = trim t := by
  rcases firstToken_cases t with hnil | ⟨c, rest, hrest, hc, -⟩
  · rw [trim, hnil]
    rfl
  · have hright : trimRight (c :: rest) = c :: trimRight rest := trimRight_append_cons hc [] rest
    rw [trim, hrest, hright]
    exact trimLeft_eq_self (by simp [hc])

/-- The first word is the first token, whatever blank ends it. -/
theorem firstWord_eq (t : Text) : firstWord t = (firstToken t, trim (afterToken t)) := by
  rw [← firstWord_congr (trim_trimLeft t)]
  rcases firstToken_cases t with hnil | ⟨-, -, -, -, hne⟩
  · rw [firstToken, afterToken, hnil]
    rfl
  · rw [← firstToken_append_afterToken]
    exact firstWord_append_tail solid_firstToken hne (startsBlank_afterToken t)

theorem firstToken_trim (t : Text) : firstToken (trim t) = firstToken t := by
  have hword := firstWord_trim t
  rw [firstWord_eq, firstWord_eq] at hword
  exact congrArg Prod.fst hword

theorem trim_eq_append (t : Text) : trim t = firstToken t ++ afterToken (trim t) := by
  rw [← firstToken_trim, firstToken_append_afterToken, trimLeft_trim]

/-- What follows the first token of a trimmed text is not all blank. -/
theorem trim_afterToken_ne_nil {t : Text} (h : afterToken (trim t) ≠ []) :
    trim (afterToken (trim t)) ≠ [] := by
  intro hnil
  have hshort := trim_append_right (of_trim_eq_nil hnil) (firstToken t)
  rw [← trim_eq_append, trim_trim, (tight_of_solid solid_firstToken).trim_eq] at hshort
  exact h (List.self_eq_append_right.mp (hshort.symm.trans (trim_eq_append t)))

end StackComputer.Text
