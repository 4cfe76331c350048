import StackComputer.Cells
import StackComputer.Status

/-!
# Registers

RA to RD hold the top cells of the operand stack, RA the topmost. `sr` of
them are occupied; `depth` counts the whole stack, and the cells below the
registers live in memory from `sm` up.
-/

namespace StackComputer

/-- The spill pointer of an empty stack. -/
def spillBase : Word := 0x1000

structure Registers where
  /-- Address of the next word to fetch. -/
  pc : Word := 0
  ra : Word := 0
  rb : Word := 0
  rc : Word := 0
  rd : Word := 0
  sr : Nat := 0
  depth : Nat := 0
  sm : Word := spillBase
  /-- Index register. -/
  x : Word := 0
  /-- Data base. -/
  db : Word := 0
  /-- Procedure base. -/
  pb : Word := 0
  /-- Procedure limit. -/
  pl : Word := 0
  sta : Status := {}
deriving DecidableEq, Repr

namespace Registers

/-- The reset state, fetching from `a`. -/
def start (a : Word) : Registers := { pc := a.address }

def advance (r : Registers) : Registers := { r with pc := (r.pc + 1).address }

def jump (r : Registers) (a : Word) : Registers := { r with pc := a.address }

/-- The word at a position of the window, the top at zero. -/
def cell (r : Registers) : Nat → Word
  | 0 => r.ra
  | 1 => r.rb
  | 2 => r.rc
  | _ => r.rd

def window (r : Registers) : List Word := [r.ra, r.rb, r.rc, r.rd]

def top (r : Registers) (n : Nat) : Cells n := .ofFn fun i => r.cell i

def setTop (r : Registers) {n : Nat} (cells : Cells n) : Registers :=
  { r with
    ra := cells.getD 0 r.ra
    rb := cells.getD 1 r.rb
    rc := cells.getD 2 r.rc
    rd := cells.getD 3 r.rd }

/-- Cells that can be popped. A full window may have more below it, and counts
as four whatever the depth. -/
def available (r : Registers) : Nat := if r.sr = 4 then max r.depth 4 else r.sr

end Registers

end StackComputer
