import StackComputer.Machine.Description
import StackComputer.Machine.Run

/-!
# Reports

How the command line shows a machine: a line for each step of a trace, and the
final state in words or as JSON.
-/

namespace StackComputer.CommandLine

def lineOf (t : Text) : Text := t ++ ['\n']

def showOctal (label : String) (width : Nat) (w : Word) : Text :=
  label.toList ++ Text.octalPadded width w.toNat

def showNumber (label : String) (n : Nat) : Text := label.toList ++ Text.decimal n

/-- A fetched word and the registers after its instruction. -/
def traceLine (address word : Word) (r : Registers) : Text :=
  lineOf (Text.padRight 32 (Instruction.listingLine address word) ++ showNumber " SR=" r.sr ++
    showOctal " RA=" 6 r.ra ++ showOctal " RB=" 6 r.rb ++ showOctal " X=" 6 r.x ++
    ' ' :: r.sta.text)

/-- The final state in words. -/
def summary (m : Machine) (steps budget : Nat) : Text :=
  let r := m.regs
  lineOf [] ++ lineOf "━━━ Result ━━━".toList ++
    lineOf (showNumber "Steps: " steps) ++ lineOf ("State: ".toList ++ m.state.phase.name) ++
    (match m.state.reason? with
      | some reason => lineOf ("Reason: ".toList ++ reason)
      | none => []) ++
    lineOf (showOctal "P=" 5 r.pc ++ showOctal "  X=" 6 r.x ++ "  STA=".toList ++ r.sta.text) ++
    lineOf (showNumber "SR=" r.sr ++ showNumber "  depth=" r.depth ++ showOctal "  RA=" 6 r.ra ++
      showOctal " RB=" 6 r.rb ++ showOctal " RC=" 6 r.rc ++ showOctal " RD=" 6 r.rd) ++
    if m.isRunning then
      lineOf (showNumber "Step budget of " budget ++ " exhausted".toList)
    else []

/-- A text that needs no escapes, in quotes. -/
def jsonText (t : Text) : Text := '"' :: t ++ ['"']

def jsonObject (indent : Text) (members : List (String × Text)) : Text :=
  let inner := indent ++ "  ".toList
  let member (name : String) (value : Text) : Text :=
    '\n' :: inner ++ jsonText name.toList ++ ": ".toList ++ value
  '\x7b' :: Text.joinWith [','] (members.map fun m => member m.1 m.2) ++ '\n' :: indent ++ ['\x7d']

/-- The final state as JSON. A machine stops for reasons that need no escapes. -/
def jsonReport (m : Machine) (steps : Nat) : Text :=
  jsonObject [] [
    ("state", jsonText m.state.phase.name),
    ("halt_reason", match m.state.reason? with
      | some reason => jsonText reason
      | none => "null".toList),
    ("steps", Text.decimal steps),
    ("cycles", Text.decimal m.cycles),
    ("registers", jsonObject "  ".toList
      (m.regs.values.map fun r => (r.1, Text.decimal r.2)))]

end StackComputer.CommandLine
