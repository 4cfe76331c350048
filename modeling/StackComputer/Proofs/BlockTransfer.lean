import Mathlib.Data.List.Induction
import Mathlib.Order.Bounds.Basic
import StackComputer.Program
import StackComputer.Proofs.Addresses

/-!
# Block transfers

A block wraps past the top of memory as often as its length makes it, so that
some of its words may be stored over others. What stays in a cell is the last word
meant for it, for blocks as for the scattered words of a program.
-/

namespace StackComputer.Memory

/-- The word in a cell. -/
def content (m : Memory) (c : Fin 0x8000) : Word := m.words.get c

/-- The cell `i` places after an address. -/
def cellAfter (a : Word) (i : Nat) : Fin 0x8000 :=
  ⟨(a.toNat + i) % 0x8000, Nat.mod_lt _ (by decide)⟩

/-- Where in a block of `n` words those stand that go to a cell. -/
def blockPositions (a : Word) (n : Nat) (c : Fin 0x8000) : Set Nat :=
  {i | i < n ∧ cellAfter a i = c}

/-- Where among words with their addresses those stand that go to a cell. -/
def positionsFor (cells : List (Word × Word)) (c : Fin 0x8000) : Set Nat :=
  {i | ∃ x, cells[i]? = some x ∧ cell x.1 = c}

/-- What is in a cell once words were stored in order, those at some positions in
this cell: the word at the greatest position or, if there is none, what was in the
cell before. -/
structure LastWord (positions : Set Nat) (words : List Word) (before after : Word) : Prop where
  last : ∀ i, IsGreatest positions i → words[i]? = some after
  untouched : positions = ∅ → after = before

/-! ## Addresses of a block -/

/-- The addresses of `n` words from `a` on. -/
def addressesFrom (a : Word) (n : Nat) : List Word :=
  (List.range n).map fun i => a + BitVec.ofNat 16 i

theorem addressesFrom_succ (a : Word) (n : Nat) :
    addressesFrom a (n + 1) = a :: addressesFrom (a + 1) n := by
  have hnext : ∀ i : Nat, a + BitVec.ofNat 16 (i + 1) = a + 1 + BitVec.ofNat 16 i := by
    intro i
    rw [BitVec.ofNat_add, BitVec.add_assoc, BitVec.add_comm 1]
    rfl
  rw [addressesFrom, List.range_succ_eq_map, List.map_cons, List.map_map, BitVec.ofNat_eq_ofNat,
    BitVec.add_zero]
  exact congrArg (a :: ·) (List.map_congr_left fun i _ => hnext i)

theorem cell_add (a : Word) (i : Nat) : cell (a + BitVec.ofNat 16 i) = cellAfter a i := by
  apply Fin.val_inj.mp
  simp only [cell, cellAfter, BitVec.toNat_add, BitVec.toNat_ofNat]
  omega

theorem address_eq_cell (a : Word) : a.address = BitVec.ofNat 16 (cell a) := by
  apply BitVec.eq_of_toNat_eq
  rw [Word.toNat_address, BitVec.toNat_ofNat, cell]
  dsimp only
  omega

theorem readBlock_eq (m : Memory) (a : Word) (n : Nat) :
    m.readBlock a n = (List.range n).map fun i => m.content (cellAfter a i) := by
  have haddresses : m.readBlock a n = (addressesFrom a n).map m.read := by
    induction n generalizing a with
    | zero => rfl
    | succ n ih => rw [readBlock, ih, addressesFrom_succ, List.map_cons]
  rw [haddresses, addressesFrom, List.map_map]
  refine List.map_congr_left fun i _ => ?_
  rw [← cell_add]
  rfl

theorem dump_eq (m : Memory) (a : Word) (n : Nat) :
    m.dump a n = (List.range n).map fun i =>
      (BitVec.ofNat 16 (cellAfter a i), m.content (cellAfter a i)) := by
  have haddresses : m.dump a n = (addressesFrom a n).map fun b => (b.address, m.read b) := by
    induction n generalizing a with
    | zero => rfl
    | succ n ih => rw [dump, ih, addressesFrom_succ, List.map_cons]
  rw [haddresses, addressesFrom, List.map_map]
  refine List.map_congr_left fun i _ => ?_
  rw [← cell_add, ← address_eq_cell]
  rfl

/-! ## The last word stored -/

variable {a : Word} {data : List Word} {cells : List (Word × Word)} {c : Fin 0x8000} {i : Nat}

theorem content_write (m : Memory) (a w : Word) (c : Fin 0x8000) :
    (m.write a w).content c = if cell a = c then w else m.content c := by
  have hset : (m.write a w).content c = (m.words.set (cell a) w)[c.val] := rfl
  rw [hset, Vector.getElem_set]
  simp only [Fin.val_inj]
  rfl

theorem lt_of_mem_positionsFor (h : i ∈ positionsFor cells c) : i < cells.length := by
  obtain ⟨x, hx, -⟩ := h
  exact (List.getElem?_eq_some_iff.mp hx).1

theorem mem_positionsFor_concat {x : Word × Word} :
    i ∈ positionsFor (cells ++ [x]) c ↔
      i ∈ positionsFor cells c ∨ i = cells.length ∧ cell x.1 = c := by
  rcases lt_trichotomy i cells.length with hi | rfl | hi
  · have hsame : (cells ++ [x])[i]? = cells[i]? := List.getElem?_append_left hi
    rw [positionsFor, Set.mem_ofPred_eq, hsame, or_iff_left fun h => hi.ne h.1]
    rfl
  · rw [or_iff_right fun h => (lt_of_mem_positionsFor h).false, positionsFor, Set.mem_ofPred_eq,
      List.getElem?_concat_length]
    simp
  · have hbeyond : (cells ++ [x]).length ≤ i := by simpa using Nat.succ_le_of_lt hi
    refine iff_of_false (fun h => (lt_of_mem_positionsFor h).not_ge hbeyond) ?_
    rintro (h | ⟨h, -⟩)
    · exact (lt_of_mem_positionsFor h).not_gt hi
    · exact hi.ne' h

/-- By induction on the words stored, the newest at the end: either it is the last
one meant for the cell, or it does not touch the cell. -/
theorem lastWord_store (m : Memory) (cells : List (Word × Word)) (c : Fin 0x8000) :
    LastWord (positionsFor cells c) (cells.map Prod.snd) (m.content c)
      ((m.store cells).content c) := by
  induction cells using List.reverseRecOn with
  | nil => exact ⟨fun i h => absurd h.1 (by simp [positionsFor]), fun _ => rfl⟩
  | append_singleton cells x ih =>
      have hstore : m.store (cells ++ [x]) = (m.store cells).write x.1 x.2 := List.foldl_append
      rw [hstore, content_write]
      split
      · next hx =>
          have hmem : cells.length ∈ positionsFor (cells ++ [x]) c :=
            mem_positionsFor_concat.mpr (.inr ⟨rfl, hx⟩)
          refine ⟨fun i h => ?_, fun hnone => absurd hmem (by simp [hnone])⟩
          have hi : i = cells.length :=
            le_antisymm (Nat.le_of_lt_succ (by simpa using lt_of_mem_positionsFor h.1)) (h.2 hmem)
          simp [hi]
      · next hx =>
          have hsame : positionsFor (cells ++ [x]) c = positionsFor cells c := by
            ext i
            rw [mem_positionsFor_concat, or_iff_left fun h => hx h.2]
          rw [hsame]
          refine ⟨fun i h => ?_, ih.untouched⟩
          have hi : i < (cells.map Prod.snd).length := by simpa using lt_of_mem_positionsFor h.1
          rw [List.map_append, List.getElem?_append_left hi]
          exact ih.last i h

theorem writeBlock_eq_store (m : Memory) (a : Word) (data : List Word) :
    m.writeBlock a data = m.store ((addressesFrom a data.length).zip data) := by
  induction data generalizing m a with
  | nil => rfl
  | cons w data ih => rw [writeBlock, ih, List.length_cons, addressesFrom_succ]; rfl

theorem positionsFor_block :
    positionsFor ((addressesFrom a data.length).zip data) c = blockPositions a data.length c := by
  ext i
  simp only [positionsFor, blockPositions, Set.mem_ofPred_eq, ← cell_add]
  by_cases hi : i < data.length
  · simp [addressesFrom, hi]
  · simp [hi]

theorem lastWord_writeBlock (m : Memory) (a : Word) (data : List Word) (c : Fin 0x8000) :
    LastWord (blockPositions a data.length c) data (m.content c)
      ((m.writeBlock a data).content c) := by
  have hstored := lastWord_store m ((addressesFrom a data.length).zip data) c
  rw [positionsFor_block, List.map_snd_zip (by simp [addressesFrom])] at hstored
  rwa [writeBlock_eq_store]

/-- A block that fits in memory does not meet itself, so that each of its words is
the last for its cell. -/
theorem isGreatest_blockPositions {n : Nat} (hn : n ≤ 0x8000) (hi : i < n) :
    IsGreatest (blockPositions a n (cellAfter a i)) i := by
  refine ⟨⟨hi, rfl⟩, fun j hj => ?_⟩
  have hcell := Fin.val_inj.mpr hj.2
  have hlt := hj.1
  simp only [cellAfter] at hcell
  omega

theorem readBlock_writeBlock (m : Memory) (a : Word) (h : data.length ≤ 0x8000) :
    (m.writeBlock a data).readBlock a data.length = data := by
  rw [readBlock_eq]
  refine List.ext_getElem (by simp) fun i hleft hright => ?_
  have hlast := (lastWord_writeBlock m a data (cellAfter a i)).last i
    (isGreatest_blockPositions h hright)
  rw [List.getElem?_eq_getElem hright] at hlast
  simpa using (Option.some.inj hlast).symm

/-- Whatever its length, a block leaves in each cell the last word meant for it,
and reading goes through the same cells. So a block that fits in memory is read
back as it was written and changes no other cell, and a program leaves at every
address the last word listed for it. -/
theorem block_transfers (m : Memory) (a : Word) (data : List Word) :
    (∀ c, LastWord (blockPositions a data.length c) data (m.content c)
      ((m.writeBlock a data).content c)) ∧
    m.load a data = m.writeBlock a data ∧
    (∀ count, m.readBlock a count = (List.range count).map fun i => m.content (cellAfter a i)) ∧
    (∀ count, m.dump a count = (List.range count).map fun i =>
      (BitVec.ofNat 16 (cellAfter a i), m.content (cellAfter a i))) ∧
    (data.length ≤ 0x8000 →
      (m.writeBlock a data).readBlock a data.length = data ∧
      ∀ c, (∀ i < data.length, cellAfter a i ≠ c) →
        (m.writeBlock a data).content c = m.content c) ∧
    ∀ (p : Program) (b : Word),
      LastWord (positionsFor p.words (cell b)) (p.words.map Prod.snd) (m.read b)
        ((p.loadInto m).read b) := by
  refine ⟨lastWord_writeBlock m a data, rfl, readBlock_eq m a, dump_eq m a, fun hfits => ?_,
    fun p b => lastWord_store m p.words (cell b)⟩
  refine ⟨readBlock_writeBlock m a hfits, fun c hc => ?_⟩
  exact (lastWord_writeBlock m a data c).untouched
    (Set.eq_empty_of_forall_notMem fun i hi => hc i hi.1 hi.2)

/-- A block longer than memory, of which the last word lies over the first, and a
short one that goes past the top. -/
theorem block_transfers_overlapping :
    (Memory.zero.writeBlock 0xFFFF (List.replicate 0x8000 1 ++ [2])).content 0x7FFF = 2 ∧
    ([1, 2, 3] : List Word).length ≤ 0x8000 ∧
    (Memory.zero.writeBlock 0xFFFE [1, 2, 3]).readBlock 0xFFFE 3 = [1, 2, 3] ∧
    (Memory.zero.writeBlock 0xFFFE [1, 2, 3]).content 1 = Memory.zero.content 1 := by
  have hlong := block_transfers .zero 0xFFFF (List.replicate 0x8000 1 ++ [2])
  have hshort := block_transfers .zero 0xFFFE [1, 2, 3]
  obtain ⟨-, -, -, -, hfits, -⟩ := hshort
  refine ⟨?_, by decide, (hfits (by decide)).1, (hfits (by decide)).2 1 (by decide)⟩
  have hlength : (List.replicate 0x8000 (1 : Word) ++ [2]).length = 0x8001 := by
    rw [List.length_append, List.length_replicate]
    rfl
  have hword : (List.replicate 0x8000 (1 : Word) ++ [2])[0x8000]? = some 2 := by
    rw [List.getElem?_append_right (by rw [List.length_replicate]), List.length_replicate]
    rfl
  have hgreatest : IsGreatest (blockPositions 0xFFFF 0x8001 0x7FFF) 0x8000 :=
    ⟨⟨by decide, by decide⟩, fun i hi => Nat.le_of_lt_succ hi.1⟩
  have hlast := (hlong.1 0x7FFF).last 0x8000 (hlength ▸ hgreatest)
  exact (Option.some.inj (hword.symm.trans hlast)).symm

end StackComputer.Memory
