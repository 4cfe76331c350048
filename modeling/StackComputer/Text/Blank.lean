import StackComputer.Text

/-!
# Blanks

The characters with the Unicode property White_Space, and trimming by them.
-/

namespace StackComputer.Text

def isBlank (c : Char) : Bool :=
  c.toNat == 0x20 || 0x09 ≤ c.toNat && c.toNat ≤ 0x0D ||
  c.toNat == 0x85 || c.toNat == 0xA0 || c.toNat == 0x1680 ||
  0x2000 ≤ c.toNat && c.toNat ≤ 0x200A ||
  c.toNat == 0x2028 || c.toNat == 0x2029 || c.toNat == 0x202F ||
  c.toNat == 0x205F || c.toNat == 0x3000

def trimLeft (t : Text) : Text := t.dropWhile isBlank

def trimRight (t : Text) : Text := (t.reverse.dropWhile isBlank).reverse

def trim (t : Text) : Text := trimRight (trimLeft t)

def squeeze (t : Text) : Text := t.filter fun c => !isBlank c

/-- The first word, and the trimmed text after the blank that ends it. -/
def firstWord (t : Text) : Text × Text :=
  match cutAt? isBlank (trim t) with
  | some (word, rest) => (word, trim rest)
  | none => (trim t, [])

end StackComputer.Text
