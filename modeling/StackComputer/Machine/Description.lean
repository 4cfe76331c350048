import StackComputer.Machine

/-!
# Descriptions

A machine and its memory described for a reader in a hurry: the state and the
registers, and how much of memory is in use.
-/

namespace StackComputer

/-- A record with the names of its fields. -/
def describeRecord (name : String) (fields : List (String × Text)) : Text :=
  name.toList ++ " \x7b ".toList ++
    Text.joinWith ", ".toList (fields.map fun f => f.1.toList ++ ": ".toList ++ f.2) ++
    " \x7d".toList

def Memory.description (m : Memory) : Text :=
  describeRecord "Memory" [
    ("non_zero_words", Text.decimal m.nonzeroCount),
    ("total_words", Text.decimal 0x8000)]

/-- Registers with their names and values, in the order of reports. -/
def Registers.values (r : Registers) : List (String × Nat) :=
  [("pc", r.pc.toNat), ("ra", r.ra.toNat), ("rb", r.rb.toNat), ("rc", r.rc.toNat),
    ("rd", r.rd.toNat), ("sr", r.sr), ("depth", r.depth), ("sm", r.sm.toNat), ("x", r.x.toNat),
    ("db", r.db.toNat), ("pb", r.pb.toNat), ("pl", r.pl.toNat), ("sta", r.sta.toWord.toNat)]

/-- The status word is shown as a value of its own kind. -/
def Registers.description (r : Registers) : Text :=
  describeRecord "Registers" (r.values.map fun (name, value) =>
    let digits := Text.decimal value
    (name, if name = "sta" then "Status(".toList ++ digits ++ ")".toList else digits))

def describeOption : Option Text → Text
  | some t => "Some(".toList ++ Text.quoted t ++ ")".toList
  | none => "None".toList

def Machine.description (m : Machine) : Text :=
  describeRecord "Cpu" [
    ("state", m.state.phase.name),
    ("halt_reason", describeOption m.state.reason?),
    ("cycles", Text.decimal m.cycles),
    ("regs", m.regs.description)]

end StackComputer
