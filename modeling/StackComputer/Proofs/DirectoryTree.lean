import StackComputer.Proofs.FileContent

/-!
# Directories

Every file and directory lies in a directory, and operations keep that so.
Directories are made only where nothing was: no file is changed by them, but they
may open the way to one.
-/

namespace StackComputer.FileTree

variable {t t' : FileTree} {names : List Text} {n : FileNode} {path : Text}

/-! ## Rooted trees -/

/-- Whatever is there lies in a directory. -/
def Rooted (t : FileTree) : Prop :=
  ∀ parent name, t.node? (parent ++ [name]) ≠ none → t.node? parent = some .directory

namespace Rooted

theorem node?_of_prefix (ht : t.Rooted) {more : List Text} (hmore : more ≠ [])
    (h : t.node? (names ++ more) ≠ none) : t.node? names = some .directory := by
  induction more generalizing names with
  | nil => exact absurd rfl hmore
  | cons name more ih =>
      have hcons : names ++ name :: more = (names ++ [name]) ++ more := by simp
      rw [hcons] at h
      by_cases hlast : more = []
      · rw [hlast, List.append_nil] at h
        exact ht names name h
      · exact ht names name (ih hlast h ▸ nofun)

theorem node?_above (ht : t.Rooted) (h : t.node? names = some .directory) :
    t.node? (above names) = some .directory := by
  rw [above]
  split
  · exact h
  split
  · next hups =>
      refine if_pos (.inr ?_)
      rw [List.all_cons, hups]
      rfl
  · rcases List.eq_nil_or_concat names with rfl | ⟨parent, name, rfl⟩
    · exact h
    · rw [List.concat_eq_append, List.dropLast_concat]
      rw [List.concat_eq_append] at h
      exact ht parent name (h ▸ nofun)

/-- A path that leads somewhere leads to a directory or into one. -/
theorem follow (ht : t.Rooted) {current pieces : List Text} {p : Place}
    (hcurrent : t.node? current = some .directory) (hp : t.follow current pieces = .ok p) :
    t.node? p.names = some .directory ∨
      ∃ parent name, p.names = parent ++ [name] ∧ t.node? parent = some .directory := by
  induction pieces generalizing current with
  | nil =>
      cases hp
      exact .inl hcurrent
  | cons name rest ih =>
      rw [FileTree.follow] at hp
      split at hp
      · exact ih hcurrent hp
      split at hp
      · exact ih (ht.node?_above hcurrent) hp
      split at hp
      · cases hp
        exact .inr ⟨current, name, rfl, hcurrent⟩
      split at hp
      · cases hp
        exact .inr ⟨current, name, rfl, hcurrent⟩
      split at hp
      · cases hp
      · next hdirectory => exact ih (lookUp_eq_ok_iff.mp hdirectory).2 hp
      · cases hp
      · cases hp

theorem exists_parent (ht : t.Rooted) {p : Place} (hp : t.place path = .ok p)
    (hnode : t.node? p.names ≠ some .directory) :
    ∃ parent name, p.names = parent ++ [name] ∧ t.node? parent = some .directory := by
  obtain ⟨-, hfollow⟩ := place_eq_ok_iff.mp hp
  have hstart : t.node? (if path.head? = some '/' then root else []) = some .directory := by
    split
    · exact if_pos (.inl rfl)
    · exact if_pos (.inr rfl)
  exact (ht.follow hstart hfollow).resolve_left hnode

theorem put (ht : t.Rooted) {p : Place} (hp : t.place path = .ok p)
    (hnode : t.node? p.names ≠ some .directory) (n : FileNode) : (t.put p.names n).Rooted := by
  obtain ⟨parent, name, hnames, hparent⟩ := ht.exists_parent hp hnode
  intro parent' name' h
  have hdirectory : t.node? parent' = some .directory := by
    by_cases hsame : parent' ++ [name'] = p.names
    · obtain ⟨rfl, -⟩ := List.append_inj' (hsame.trans hnames) rfl
      exact hparent
    · rw [node?_put_of_ne hsame] at h
      exact ht parent' name' h
  have hne : parent' ≠ p.names := by
    intro hsame
    exact hnode (by rw [← hsame, hdirectory])
  rw [node?_put_of_ne hne, hdirectory]

theorem change (ht : t.Rooted) {f : Text → Text} (h : t.change path f = .ok t') : t'.Rooted := by
  obtain ⟨p, o, hp, -, ho, hput⟩ := change_cases h
  obtain ⟨-, rfl⟩ := lookUp_eq_ok_iff.mp ho
  rcases hput with ⟨hnone, rfl⟩ | ⟨text, hfile, rfl⟩
  · exact ht.put hp (hnone ▸ nofun) _
  · exact ht.put hp (hfile ▸ nofun) _

end Rooted

theorem makeDirectory_eq_ok (h : t.makeDirectory path = .ok t') :
    ∃ p, t.place path = .ok p ∧ t.lookUp p.names = .ok none ∧ t' = t.put p.names .directory := by
  obtain ⟨p, hp, h⟩ := bind_eq_ok.mp h
  obtain ⟨o, ho, h⟩ := bind_eq_ok.mp h
  cases o with
  | none => exact ⟨p, hp, ho, (Except.ok.inj h).symm⟩
  | some n => cases h

/-- What making one directory preserves, making a whole way preserves. -/
theorem makeDirectories_preserves {P : FileTree → Prop} (paths : List Text)
    (hmake : ∀ {t t' : FileTree} {path : Text}, P t → t.makeDirectory path = .ok t' → P t')
    (ht : P t) : P (t.makeDirectories paths).2 := by
  induction paths generalizing t with
  | nil => exact ht
  | cons path above ih =>
      have habove := ih ht
      rw [makeDirectories]
      split
      · next hmade => exact hmake ht hmade
      · split
        · next hrefused => rwa [hrefused] at habove
        · next hmade =>
            rw [hmade] at habove
            split
            · next hmade => exact hmake habove hmade
            · dsimp only
              split <;> exact habove
      · dsimp only
        split <;> exact ht

theorem Rooted.makeParents (ht : t.Rooted) (path : Text) : (t.makeParents path).2.Rooted := by
  refine makeDirectories_preserves _ ?_ ht
  intro t t' path ht hmade
  obtain ⟨p, hp, hnone, rfl⟩ := makeDirectory_eq_ok hmade
  exact ht.put hp ((lookUp_eq_ok_iff.mp hnone).2 ▸ nofun) _

theorem Rooted.empty : Rooted {} := by
  intro parent name h
  by_cases htop : parent ++ [name] = root ∨ (parent ++ [name]).all (· == up) = true
  · refine if_pos (.inr ?_)
    rcases htop with hroot | hups
    · obtain ⟨rfl, -⟩ := List.append_inj' (hroot.trans (List.nil_append root).symm) rfl
      rfl
    · rw [List.all_append] at hups
      exact (Bool.and_eq_true_iff.mp hups).1
  · exact absurd (if_neg htop) h

theorem Rooted.ofFiles (files : List (Text × Text)) : (ofFiles files).Rooted := by
  have hfiles : ∀ t : FileTree, t.Rooted → (files.foldl (fun t file =>
      let t := (t.makeParents file.1).2
      (t.write file.1 file.2).toOption.getD t) t).Rooted := by
    induction files with
    | nil => exact fun t ht => ht
    | cons file files ih =>
        intro t ht
        apply ih
        have hparents := ht.makeParents file.1
        dsimp only
        cases hwrite : (t.makeParents file.1).2.write file.1 file.2 with
        | error e => exact hparents
        | ok t' => exact hparents.change hwrite
  exact hfiles {} .empty

/-- The second tree has more directories, and no file that the first one has not. -/
structure Grows (t t' : FileTree) : Prop where
  directories : t.DirectoriesIn t'
  files : ∀ names text, t'.lookUp names = .ok (some (.file text)) →
    t.lookUp names = .ok (some (.file text))

namespace Grows

theorem put (h : t.Grows t') (hnone : t'.lookUp names = .ok none) :
    t.Grows (t'.put names .directory) where
  directories other hother := directoriesIn_put hnone nofun other (h.directories other hother)
  files other text hfile := by
    apply h.files
    by_cases hsame : other = names
    · subst hsame
      rw [lookUp_put hnone nofun] at hfile
      cases hfile
    · rwa [lookUp_put_of_ne hsame] at hfile

theorem makeParents (t : FileTree) (path : Text) : t.Grows (t.makeParents path).2 := by
  refine makeDirectories_preserves (P := t.Grows) _ ?_ ⟨fun _ h => h, fun _ _ h => h⟩
  intro t₁ t₂ path h hmade
  obtain ⟨p, -, hnone, rfl⟩ := makeDirectory_eq_ok hmade
  exact h.put hnone

theorem read_of_place (h : t.Grows t') {p : Place} (hp : t.place path = .ok p) {text : Text}
    (hread : t'.read path = .ok text) : t.read path = .ok text := by
  obtain ⟨p', hp', hdirectory, hfile⟩ := read_eq_ok_iff.mp hread
  obtain rfl := Except.ok.inj ((h.directories.place hp).symm.trans hp')
  exact read_eq_ok_iff.mpr ⟨p, hp, hdirectory, h.files _ _ hfile⟩

end Grows

/-- A path that does not climb leads below where it starts. -/
theorem follow_prefix {current pieces : List Text} {p : Place} (hup : up ∉ pieces)
    (hp : t.follow current pieces = .ok p) : current <+: p.names := by
  induction pieces generalizing current with
  | nil =>
      cases hp
      exact List.prefix_rfl
  | cons name rest ih =>
      obtain ⟨hname, hrest⟩ := not_or.mp (mt List.mem_cons.mpr hup)
      rw [follow] at hp
      split at hp
      · exact ih hrest hp
      rw [if_neg (Ne.symm hname)] at hp
      split at hp
      · cases hp
        exact List.prefix_append _ _
      split at hp
      · cases hp
        exact List.prefix_append _ _
      split at hp
      · cases hp
      · exact (List.prefix_append _ _).trans (ih hrest hp)
      · cases hp
      · cases hp

/-- Every directory above a file is there, so new ones are on no way to it that does
not climb. -/
theorem Rooted.follow_of_file (ht : t.Rooted) {current pieces : List Text} {p : Place}
    {text : Text} (hup : up ∉ pieces) (hp : t'.follow current pieces = .ok p)
    (hfile : t.node? p.names = some (.file text))
    (hfile' : t'.lookUp p.names ≠ .ok (some .directory)) : t.follow current pieces = .ok p := by
  induction pieces generalizing current with
  | nil => exact hp
  | cons name rest ih =>
      obtain ⟨hname, hrest⟩ := not_or.mp (mt List.mem_cons.mpr hup)
      rw [FileTree.follow] at hp ⊢
      split at hp
      · next hidle =>
          rw [if_pos hidle]
          exact ih hrest hp
      next hidle =>
      rw [if_neg hidle]
      rw [if_neg (Ne.symm hname)] at hp ⊢
      split at hp
      · next hlast => rwa [if_pos hlast]
      next hlast =>
      rw [if_neg hlast]
      split at hp
      · next hslashes => rwa [if_pos hslashes]
      next hslashes =>
      rw [if_neg hslashes]
      split at hp
      · cases hp
      · next hdirectory =>
          obtain ⟨more, hmore⟩ := follow_prefix hrest hp
          have hne : more ≠ [] := by
            rintro rfl
            rw [List.append_nil] at hmore
            exact hfile' (hmore ▸ hdirectory)
          have hnode : t.node? (current ++ [name]) = some .directory := by
            refine ht.node?_of_prefix hne ?_
            rw [hmore, hfile]
            exact Option.some_ne_none _
          rw [lookUp_eq_ok_iff.mpr ⟨(lookUp_eq_ok_iff.mp hdirectory).1, hnode⟩]
          exact ih hrest hp
      · cases hp
      · cases hp

/-- A file is found after directories were made only if it was found before, except
that a path may climb out of a new directory. -/
theorem Grows.read (h : t.Grows t') (ht : t.Rooted)
    (hway : up ∉ Text.splitAt (· == '/') path ∨ ∃ p, t.place path = .ok p) {text : Text}
    (hread : t'.read path = .ok text) : t.read path = .ok text := by
  rcases hway with hup | ⟨p, hp⟩
  · obtain ⟨p, hp, hdirectory, hfile⟩ := read_eq_ok_iff.mp hread
    obtain ⟨hpath, hfollow⟩ := place_eq_ok_iff.mp hp
    have hfollow' := ht.follow_of_file hup hfollow
      (lookUp_eq_ok_iff.mp (h.files _ _ hfile)).2 (hfile ▸ nofun)
    exact h.read_of_place (place_eq_ok_iff.mpr ⟨hpath, hfollow'⟩) hread
  · exact h.read_of_place hp hread

end StackComputer.FileTree
