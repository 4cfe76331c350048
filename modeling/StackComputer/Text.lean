/-!
# Text

Text is a list of characters, so that scanning is recursion on the data.
Letter case is that of the ASCII letters alone.
-/

namespace StackComputer

abbrev Text := List Char

namespace Text

def upper (t : Text) : Text := t.map Char.toUpper

def lower (t : Text) : Text := t.map Char.toLower

def sameLetters (s t : Text) : Bool := upper s == upper t

/-- Cuts at the first character satisfying `p`, which belongs to neither part. -/
def cutAt? (p : Char → Bool) : Text → Option (Text × Text)
  | [] => none
  | c :: t => if p c then some ([], t) else (cutAt? p t).map fun (a, b) => (c :: a, b)

/-- All the pieces between characters satisfying `p`; there is always one. -/
def splitAt (p : Char → Bool) : Text → List Text
  | [] => [[]]
  | c :: t =>
    if p c then [] :: splitAt p t else
    match splitAt p t with
    | [] => [[c]]
    | piece :: rest => (c :: piece) :: rest

def dropReturn : Text → Text
  | [] => []
  | ['\r'] => []
  | c :: t => c :: dropReturn t

/-- Pieces between line feeds as lines: each but the last was ended by a line
feed, and the last counts only if it holds something. -/
def linesOfPieces : List Text → List Text
  | [] => []
  | [last] => if last.isEmpty then [] else [last]
  | piece :: rest => dropReturn piece :: linesOfPieces rest

/-- The lines of a text. A line feed ends a line, and one carriage return
before it is dropped. -/
def lines (t : Text) : List Text := linesOfPieces (splitAt (· == '\n') t)

def joinWith (separator : Text) : List Text → Text
  | [] => []
  | [t] => t
  | t :: u :: rest => t ++ separator ++ joinWith separator (u :: rest)

/-- Fills up with blanks on the right to `width` characters. -/
def padRight (width : Nat) (t : Text) : Text := t ++ List.replicate (width - t.length) ' '

end Text

end StackComputer
