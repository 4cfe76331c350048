import StackComputer.Proofs.TextWords

/-!
# Lines of a text

A line is ended by a line feed, perhaps with a carriage return before it. Only
the last line may be without an end, and then it holds something.
-/

namespace StackComputer.Text

inductive LinesOf : Text → List Text → Prop
  | nil : LinesOf [] []
  | last {t : Text} (hne : t ≠ []) (hfeed : '\n' ∉ t) : LinesOf t [t]
  | feed {t rest : Text} {ls : List Text} (hfeed : '\n' ∉ t) (hreturn : t.getLast? ≠ some '\r')
      (h : LinesOf rest ls) : LinesOf (t ++ '\n' :: rest) (t :: ls)
  | returnFeed {t rest : Text} {ls : List Text} (hfeed : '\n' ∉ t) (h : LinesOf rest ls) :
      LinesOf (t ++ '\r' :: '\n' :: rest) (t :: ls)

variable {t rest : Text} {ls : List Text}

theorem splitAt_ne_nil (p : Char → Bool) (t : Text) : splitAt p t ≠ [] := by
  cases t with
  | nil => simp [splitAt]
  | cons c t =>
      rw [splitAt]
      split
      · simp
      · split <;> simp

theorem dropReturn_of_getLast? (h : t.getLast? ≠ some '\r') : dropReturn t = t := by
  induction t with
  | nil => rfl
  | cons c t ih =>
      cases t with
      | nil =>
          rw [dropReturn]
          · rfl
          · rintro rfl -
            exact h rfl
      | cons d t =>
          rw [List.getLast?_cons_cons] at h
          rw [dropReturn, ih h]
          simp

@[simp] theorem dropReturn_concat (t : Text) : dropReturn (t ++ ['\r']) = t := by
  induction t with
  | nil => rfl
  | cons c t ih => simp [dropReturn, ih]

theorem lines_append_feed (hfeed : '\n' ∉ t) (rest : Text) :
    lines (t ++ '\n' :: rest) = dropReturn t :: lines rest := by
  have hpieces := splitAt_append (beq_eq_false_of_notMem hfeed) (beq_self_eq_true '\n') rest
  obtain ⟨piece, more, hmore⟩ := List.exists_cons_of_ne_nil (splitAt_ne_nil (· == '\n') rest)
  simp [lines, hpieces, hmore, linesOfPieces]

theorem LinesOf.lines_eq (h : LinesOf t ls) : lines t = ls := by
  induction h with
  | nil => rfl
  | last hne hfeed => exact lines_eq_singleton hne hfeed
  | feed hfeed hreturn _ ih => rw [lines_append_feed hfeed, dropReturn_of_getLast? hreturn, ih]
  | @returnFeed t rest ls hfeed _ ih =>
      have hline := lines_append_feed (t := t ++ ['\r']) (by simpa using hfeed) rest
      simpa [ih] using hline

/-- Every text has lines, by induction on what follows its first line feed. -/
theorem linesOf_lines (t : Text) : LinesOf t (lines t) := by
  induction hn : t.length using Nat.strong_induction_on generalizing t with
  | _ n ih =>
      rcases exists_first_or (· == '\n') t with hnone | ⟨x, c, rest, rfl, hc, hx⟩
      · have hfeed : '\n' ∉ t := fun hmem => by simpa using hnone _ hmem
        by_cases hne : t = []
        · subst hne
          exact .nil
        · rw [lines_eq_singleton hne hfeed]
          exact .last hne hfeed
      · obtain rfl : c = '\n' := beq_iff_eq.mp hc
        have hfeed : '\n' ∉ x := fun hmem => by simpa using hx _ hmem
        have hrest : LinesOf rest (lines rest) := ih rest.length (by simp [← hn]; omega) rest rfl
        rw [lines_append_feed hfeed]
        by_cases hreturn : x.getLast? = some '\r'
        · obtain ⟨y, rfl⟩ := List.getLast?_eq_some_iff.mp hreturn
          rw [dropReturn_concat, List.append_assoc]
          exact .returnFeed (fun hmem => hfeed (by simp [hmem])) hrest
        · rw [dropReturn_of_getLast? hreturn]
          exact .feed hfeed hreturn hrest

theorem lines_eq_iff : lines t = ls ↔ LinesOf t ls :=
  ⟨fun h => h ▸ linesOf_lines t, LinesOf.lines_eq⟩

end StackComputer.Text
