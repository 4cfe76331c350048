import StackComputer.Word

/-!
# Cells

Some cells from the top of the operand stack, the topmost at position zero.
They go by the names of the registers that hold them.
-/

namespace StackComputer

abbrev Cells (n : Nat) := Vector Word n

namespace Cells

variable {n : Nat}

def a (cells : Cells (n + 1)) : Word := cells.get ⟨0, Nat.succ_pos n⟩

def b (cells : Cells (n + 2)) : Word := cells.get ⟨1, Nat.succ_lt_succ (Nat.succ_pos n)⟩

def c (cells : Cells (n + 3)) : Word :=
  cells.get ⟨2, Nat.succ_lt_succ (Nat.succ_lt_succ (Nat.succ_pos n))⟩

def d (cells : Cells (n + 4)) : Word :=
  cells.get ⟨3, Nat.succ_lt_succ (Nat.succ_lt_succ (Nat.succ_lt_succ (Nat.succ_pos n)))⟩

def double (cells : Cells (n + 2)) : Dword := .join cells.b cells.a

def lowerDouble (cells : Cells (n + 4)) : Dword := .join cells.d cells.c

def one (a : Word) : Cells 1 := #v[a]

def two (a b : Word) : Cells 2 := #v[a, b]

def three (a b c : Word) : Cells 3 := #v[a, b, c]

def ofDouble (w : Dword) : Cells 2 := two w.low w.high

@[simp] theorem a_one (w : Word) : (one w).a = w := rfl

@[simp] theorem a_two (v w : Word) : (two v w).a = v := rfl

@[simp] theorem b_two (v w : Word) : (two v w).b = w := rfl

@[simp] theorem double_ofDouble (w : Dword) : (ofDouble w).double = w := Dword.join_high_low w

end Cells

end StackComputer
