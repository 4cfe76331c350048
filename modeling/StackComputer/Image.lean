import StackComputer.Program
import StackComputer.Text.Blank
import StackComputer.Text.Quoted

/-!
# Program images

A text with one `ADDRESS: WORD` pair a line, both in octal. A semicolon starts
a comment and blank lines are ignored. Execution starts at the first address.
-/

namespace StackComputer.Image

inductive ParseError where
  | missingColon
  | invalidOctal (text : Text)
  | addressRange (address : Word)
deriving DecidableEq, Repr

def ParseError.detail : ParseError → Text
  | missingColon => "expected ADDRESS: WORD".toList
  | invalidOctal text => "invalid octal value: ".toList ++ Text.quoted text
  | addressRange address => "address ".toList ++ Text.octal address.toNat ++ " out of range".toList

structure Error where
  line : Nat
  cause : ParseError
deriving DecidableEq, Repr

def Error.message (e : Error) : Text :=
  "parse error on line ".toList ++ Text.decimal e.line ++ ": ".toList ++ e.cause.detail

/-- An octal number of 16 bits, perhaps after a plus sign. -/
def octalWord? (t : Text) : Option Word :=
  let digits := match t with
    | '+' :: digits => digits
    | digits => digits
  ((Text.numeral? 8 digits).filter (· < 0x10000)).map (BitVec.ofNat 16)

def parseOctal (t : Text) : Except ParseError Word :=
  match octalWord? (Text.trim t) with
  | some w => .ok w
  | none => .error (.invalidOctal (Text.trim t))

/-- The part of a line before its comment, trimmed. -/
def body (t : Text) : Text := Text.trim (t.takeWhile (· != ';'))

/-- The pair of a line, if it holds one. -/
def parseLine (t : Text) : Except ParseError (Option (Word × Word)) :=
  let t := body t
  if t.isEmpty then .ok none else
  match Text.cutAt? (· == ':') t with
  | none => .error .missingColon
  | some (first, second) => do
    let address ← parseOctal first
    if 0x7FFF < address.toNat then throw (.addressRange address)
    return some (address, ← parseOctal second)

/-- The pairs of lines, the first of which has the given number. -/
def parseLines (line : Nat) : List Text → Except Error (List (Word × Word))
  | [] => .ok []
  | t :: rest =>
    match parseLine t with
    | .error cause => .error ⟨line, cause⟩
    | .ok pair => do return pair.toList ++ (← parseLines (line + 1) rest)

def parse (t : Text) : Except Error Program := do
  let words ← parseLines 1 (Text.lines t)
  return { origin := (words.head?.map Prod.fst).getD 0, words }

def pairLine (cell : Word × Word) : Text :=
  Text.octalPadded 6 cell.1.toNat ++ ": ".toList ++ Text.octalPadded 6 cell.2.toNat ++ ['\n']

def render (p : Program) : Text :=
  "; HP 3000 program image\n; ".toList ++ Text.decimal p.words.length ++ " words, origin ".toList ++
    Text.octalPadded 6 p.origin.toNat ++ ['\n'] ++ p.words.flatMap pairLine

end StackComputer.Image
