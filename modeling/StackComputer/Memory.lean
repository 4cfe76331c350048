import StackComputer.Word

/-!
# Memory

A flat store of 32768 words. Only the 15 address bits of an address count,
so blocks wrap past the top of memory.
-/

namespace StackComputer

structure Memory where
  words : Vector Word 0x8000

namespace Memory

def zero : Memory := ⟨.replicate 0x8000 0⟩

/-- The cell an address selects. -/
def cell (a : Word) : Fin 0x8000 := ⟨a.toNat % 0x8000, Nat.mod_lt _ (by decide)⟩

def read (m : Memory) (a : Word) : Word := m.words[cell a]

def write (m : Memory) (a w : Word) : Memory := ⟨m.words.set (cell a) w⟩

theorem cell_eq_iff {a b : Word} : cell a = cell b ↔ a.address = b.address := by
  rw [← BitVec.toNat_inj, Word.toNat_address, Word.toNat_address, ← Fin.val_inj]
  rfl

theorem read_write (m : Memory) (a b w : Word) :
    (m.write a w).read b = if a.address = b.address then w else m.read b := by
  simp only [read, write, Fin.getElem_fin, Vector.getElem_set, Fin.val_inj, cell_eq_iff]

def readBlock (m : Memory) (a : Word) : Nat → List Word
  | 0 => []
  | n + 1 => m.read a :: m.readBlock (a + 1) n

def writeBlock (m : Memory) (a : Word) : List Word → Memory
  | [] => m
  | w :: ws => (m.write a w).writeBlock (a + 1) ws

/-- Loads the words of a program from its first address on. -/
def load (m : Memory) (start : Word) (program : List Word) : Memory := m.writeBlock start program

def dump (m : Memory) (a : Word) : Nat → List (Word × Word)
  | 0 => []
  | n + 1 => (a.address, m.read a) :: m.dump (a + 1) n

/-- Stores each word at its address, in order. -/
def store (m : Memory) (cells : List (Word × Word)) : Memory :=
  cells.foldl (fun m cell => m.write cell.1 cell.2) m

def nonzeroCount (m : Memory) : Nat := m.words.toList.countP (· != 0)

end Memory

end StackComputer
