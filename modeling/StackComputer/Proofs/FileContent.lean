import StackComputer.FileTree
import StackComputer.Proofs.Outcome

/-!
# Files read back

A file that was written is found by the same path with its new content, since
only the node at its end has changed.
-/

namespace StackComputer.FileTree

variable {t t' : FileTree} {names : List Text} {n : FileNode} {path : Text}

theorem lookup_filter_ne {other : List Text} (h : other ≠ names)
    (entries : List (List Text × FileNode)) :
    (entries.filter (·.1 != names)).lookup other = entries.lookup other := by
  induction entries with
  | nil => rfl
  | cons entry entries ih =>
      rw [List.filter_cons]
      split
      · rw [List.lookup_cons, List.lookup_cons, ih]
      · next hname =>
          have hsame : entry.1 = names :=
            Decidable.byContradiction fun hne => hname (bne_iff_ne.mpr hne)
          rw [ih, List.lookup_cons, hsame, beq_eq_false_iff_ne.mpr h]

theorem node?_put_of_ne {other : List Text} (h : other ≠ names) :
    (t.put names n).node? other = t.node? other := by
  rw [node?, node?, put, List.lookup_cons, beq_eq_false_iff_ne.mpr h]
  rw [lookup_filter_ne h]

theorem node?_put (h : t.node? names ≠ some .directory) : (t.put names n).node? names = some n := by
  rw [node?, if_neg fun htop => h (if_pos htop), put, List.lookup_cons_self]

theorem lookUp_eq_ok_iff {o : Option FileNode} :
    t.lookUp names = .ok o ↔
      (names.getLast?.any fun name => nameMax < (Text.toBytes name).length) = false ∧
        t.node? names = o := by
  rw [lookUp]
  split
  · next hlong => simp [hlong]
  · next hshort => simp [hshort]

theorem lookUp_put_of_ne {other : List Text} (h : other ≠ names) :
    (t.put names n).lookUp other = t.lookUp other := by
  rw [lookUp, lookUp, node?_put_of_ne h]

theorem lookUp_put {o : Option FileNode} (h : t.lookUp names = .ok o) (ho : o ≠ some .directory) :
    (t.put names n).lookUp names = .ok (some n) := by
  obtain ⟨hshort, rfl⟩ := lookUp_eq_ok_iff.mp h
  exact lookUp_eq_ok_iff.mpr ⟨hshort, node?_put ho⟩

/-- The directories of one tree are directories of another one. -/
def DirectoriesIn (t t' : FileTree) : Prop :=
  ∀ names, t.lookUp names = .ok (some .directory) → t'.lookUp names = .ok (some .directory)

theorem directoriesIn_put {o : Option FileNode} (h : t.lookUp names = .ok o)
    (ho : o ≠ some .directory) : t.DirectoriesIn (t.put names n) := by
  intro other hother
  rw [lookUp_put_of_ne, hother]
  rintro rfl
  exact ho (Except.ok.inj (h.symm.trans hother))

/-- The way to a place passes directories only. -/
theorem DirectoriesIn.follow (h : t.DirectoriesIn t') {current pieces : List Text} {p : Place}
    (hp : t.follow current pieces = .ok p) : t'.follow current pieces = .ok p := by
  induction pieces generalizing current with
  | nil => exact hp
  | cons name rest ih =>
      rw [FileTree.follow] at hp ⊢
      by_cases hidle : isIdle name
      · rw [if_pos hidle] at hp ⊢
        exact ih hp
      rw [if_neg hidle] at hp ⊢
      by_cases hup : name = up
      · rw [if_pos hup] at hp ⊢
        exact ih hp
      rw [if_neg hup] at hp ⊢
      by_cases hlast : rest.isEmpty = true
      · rw [if_pos hlast] at hp ⊢
        exact hp
      rw [if_neg hlast] at hp ⊢
      by_cases hslashes : rest.all (·.isEmpty) = true
      · rw [if_pos hslashes] at hp ⊢
        exact hp
      rw [if_neg hslashes] at hp ⊢
      split at hp
      · cases hp
      · next hdirectory =>
          rw [h _ hdirectory]
          exact ih hp
      · cases hp
      · cases hp

/-- Only where a path starts and what is on its way depends on the files. -/
theorem place_eq_ok_iff {p : Place} :
    t.place path = .ok p ↔
      (path.contains '\x00' = false ∧ path.isEmpty = false ∧
        (Text.toBytes path).length ≤ pathMax) ∧
      t.follow (if path.head? = some '/' then root else []) (Text.splitAt (· == '/') path) =
        .ok p := by
  constructor
  · intro h
    rw [place] at h
    split at h
    · cases h
    next hnul =>
      split at h
      · cases h
      next hempty =>
        split at h
        · cases h
        next hlength =>
          exact ⟨⟨Bool.eq_false_iff.mpr hnul, Bool.eq_false_iff.mpr hempty,
            Nat.not_lt.mp hlength⟩, h⟩
  · rintro ⟨⟨hnul, hempty, hlength⟩, hfollow⟩
    rw [place, if_neg (Bool.eq_false_iff.mp hnul), if_neg (Bool.eq_false_iff.mp hempty),
      if_neg (Nat.not_lt.mpr hlength), hfollow]

theorem DirectoriesIn.place (h : t.DirectoriesIn t') {p : Place} (hp : t.place path = .ok p) :
    t'.place path = .ok p := by
  obtain ⟨hpath, hfollow⟩ := place_eq_ok_iff.mp hp
  exact place_eq_ok_iff.mpr ⟨hpath, h.follow hfollow⟩

/-- The last piece of a path is a name, so that the path can be that of a file. -/
def EndsInName (path : Text) : Prop :=
  ∃ name, (Text.splitAt (· == '/') path).getLast? = some name ∧ isIdle name = false ∧ name ≠ up

theorem asDirectory_of_follow {current pieces : List Text} {p : Place} {name : Text}
    (hlast : pieces.getLast? = some name) (hidle : isIdle name = false) (hup : name ≠ up)
    (hp : t.follow current pieces = .ok p) : p.asDirectory = false := by
  induction pieces generalizing current with
  | nil => cases hlast
  | cons piece rest ih =>
      rcases rest with _ | ⟨next, rest⟩
      · obtain rfl : piece = name := Option.some.inj hlast
        rw [follow, if_neg (Bool.eq_false_iff.mp hidle), if_neg hup] at hp
        cases hp
        rfl
      · have hrest : (next :: rest).getLast? = some name := List.getLast?_cons_cons ▸ hlast
        rw [follow] at hp
        split at hp
        · exact ih hrest hp
        split at hp
        · exact ih hrest hp
        split at hp
        · next hempty => cases hempty
        split at hp
        · next hslashes =>
            have hnil := List.all_eq_true.mp hslashes name (List.mem_of_getLast? hrest)
            rw [List.isEmpty_iff.mp hnil] at hidle
            cases hidle
        split at hp
        · cases hp
        · exact ih hrest hp
        · cases hp
        · cases hp

theorem EndsInName.asDirectory (h : EndsInName path) {p : Place} (hp : t.place path = .ok p) :
    p.asDirectory = false := by
  obtain ⟨name, hlast, hidle, hup⟩ := h
  exact asDirectory_of_follow hlast hidle hup (place_eq_ok_iff.mp hp).2

theorem change_cases {f : Text → Text} (h : t.change path f = .ok t') :
    ∃ p o, t.place path = .ok p ∧ p.asDirectory = false ∧ t.lookUp p.names = .ok o ∧
      ((o = none ∧ t' = t.put p.names (.file (f []))) ∨
        ∃ content, o = some (.file content) ∧ t' = t.put p.names (.file (f content))) := by
  obtain ⟨p, hp, h⟩ := bind_eq_ok.mp h
  split at h
  · cases h
  · next hdirectory =>
      obtain ⟨o, ho, h⟩ := bind_eq_ok.mp h
      refine ⟨p, o, hp, Bool.eq_false_iff.mpr hdirectory, ho, ?_⟩
      split at h
      · cases h
      · next content => exact .inr ⟨content, rfl, (Except.ok.inj h).symm⟩
      · exact .inl ⟨rfl, (Except.ok.inj h).symm⟩

/-- The text of a file, or none if there is no file. -/
def content (t : FileTree) (path : Text) : Text := (t.read path).toOption.getD []

theorem read_eq_ok_iff {text : Text} :
    t.read path = .ok text ↔
      ∃ p, t.place path = .ok p ∧ p.asDirectory = false ∧
        t.lookUp p.names = .ok (some (.file text)) := by
  constructor
  · intro h
    obtain ⟨node, hfind, hnode⟩ := bind_eq_ok.mp h
    obtain ⟨p, hp, hfind⟩ := bind_eq_ok.mp hfind
    obtain ⟨o, ho, hfind⟩ := bind_eq_ok.mp hfind
    rcases o with _ | found | _
    · cases hfind
    · dsimp only at hfind
      split at hfind
      · cases hfind
      next hdirectory =>
        cases hfind
        cases hnode
        exact ⟨p, hp, Bool.eq_false_iff.mpr hdirectory, ho⟩
    · cases hfind
      cases hnode
  · rintro ⟨p, hp, hdirectory, hfile⟩
    refine bind_eq_ok.mpr ⟨.file text, ?_, rfl⟩
    refine bind_eq_ok.mpr ⟨p, hp, ?_⟩
    refine bind_eq_ok.mpr ⟨some (.file text), hfile, ?_⟩
    rw [hdirectory]
    rfl

theorem content_of_read {text : Text} (h : t.read path = .ok text) : t.content path = text := by
  rw [content, h]
  rfl

theorem content_of_lookUp_none {p : Place} (hp : t.place path = .ok p)
    (h : t.lookUp p.names = .ok none) : t.content path = [] := by
  rw [content]
  cases hread : t.read path with
  | error e => rfl
  | ok text =>
      obtain ⟨p', hp', -, hfile⟩ := read_eq_ok_iff.mp hread
      obtain rfl := Except.ok.inj (hp.symm.trans hp')
      cases Except.ok.inj (h.symm.trans hfile)

/-- A file that was changed holds the change of what it held. -/
theorem read_change {f : Text → Text} (h : t.change path f = .ok t') :
    t'.read path = .ok (f (t.content path)) := by
  obtain ⟨p, o, hp, hdirectory, ho, hput⟩ := change_cases h
  obtain ⟨hnode, rfl⟩ : o ≠ some .directory ∧ t' = t.put p.names (.file (f (t.content path))) := by
    rcases hput with ⟨rfl, hput⟩ | ⟨text, rfl, hput⟩
    · rw [content_of_lookUp_none hp ho]
      exact ⟨nofun, hput⟩
    · rw [content_of_read (read_eq_ok_iff.mpr ⟨p, hp, hdirectory, ho⟩)]
      exact ⟨nofun, hput⟩
  exact read_eq_ok_iff.mpr
    ⟨p, (directoriesIn_put ho hnode).place hp, hdirectory, lookUp_put ho hnode⟩

theorem read_write {content : Text} (h : t.write path content = .ok t') :
    t'.read path = .ok content :=
  read_change h

end StackComputer.FileTree
