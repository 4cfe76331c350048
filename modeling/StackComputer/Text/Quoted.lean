import StackComputer.Text.Numeral
import StackComputer.Text.Visible

/-!
# Quoted text

A text between double quotes, on one line and without hidden characters.
-/

namespace StackComputer.Text

def quotedChar (c : Char) : Text :=
  if c = '"' ∨ c = '\\' then ['\\', c]
  else if c = '\t' then ['\\', 't']
  else if c = '\r' then ['\\', 'r']
  else if c = '\n' then ['\\', 'n']
  else if c.toNat = 0 then ['\\', '0']
  else if isVisible c then [c]
  else ['\\', 'u', '\x7b'] ++ hexadecimal c.toNat ++ ['\x7d']

def quoted (t : Text) : Text := '"' :: t.flatMap quotedChar ++ ['"']

end StackComputer.Text
