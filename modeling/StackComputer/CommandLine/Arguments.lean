import StackComputer.Image

/-!
# Command line arguments

A command, then its options and paths in any order. An option is written
`--name value`, `--name=value`, `-n value`, `-nvalue` or `-n=value`; short
ones without a value may be run together, and two dashes end the options. No
option may come twice.
-/

namespace StackComputer.CommandLine

structure RunOptions where
  program : Text
  /-- Start address, instead of the origin of the program. -/
  start : Option Word := none
  maxSteps : Nat := 10000
  trace : Bool := false
  json : Bool := false
  /-- File for the line printer. -/
  printer : Option Text := none
deriving DecidableEq, Repr

inductive Command where
  | run (options : RunOptions)
  | assemble (source : Text) (output : Option Text)
  | disassemble (image : Text)
deriving DecidableEq, Repr

structure OptionName where
  long : Text
  short : Option Char
  takesValue : Bool
deriving DecidableEq, Repr

/-- Options with their values, and the other arguments in order. -/
structure Arguments where
  options : List (Text × Text) := []
  others : List Text := []
deriving DecidableEq, Repr

namespace Arguments

def set? (a : Arguments) (o : OptionName) (value : Text) : Option Arguments :=
  if (a.options.lookup o.long).isSome then none
  else some { a with options := (o.long, value) :: a.options }

def value? (a : Arguments) (long : String) : Option Text := a.options.lookup long.toList

/-- Whether an argument can be the value of an option. -/
def isValue : Text → Bool
  | '-' :: _ :: _ => false
  | _ => true

/-- Reads short options run together; the last may be left waiting for its
value. -/
def cluster (names : List OptionName) (a : Arguments) :
    Text → Option (Arguments × Option OptionName)
  | [] => some (a, none)
  | c :: rest => do
    let o ← names.find? (·.short == some c)
    if o.takesValue then
      match rest with
      | [] => some (a, some o)
      | '=' :: value => return (← a.set? o value, none)
      | value => return (← a.set? o value, none)
    else cluster names (← a.set? o []) rest

/-- Reads a long option, which may be left waiting for its value. -/
def long (names : List OptionName) (a : Arguments) (t : Text) :
    Option (Arguments × Option OptionName) :=
  match Text.cutAt? (· == '=') t with
  | some (name, value) => do
    let o ← names.find? (·.long == name)
    if o.takesValue then return (← a.set? o value, none) else none
  | none => do
    let o ← names.find? (·.long == t)
    if o.takesValue then some (a, some o) else return (← a.set? o [], none)

/-- Reads arguments, the first of them as the value of a waiting option. -/
def read (names : List OptionName) (a : Arguments) (waiting : Option OptionName) :
    List Text → Option Arguments
  | [] => if waiting.isSome then none else some a
  | t :: rest =>
    match waiting with
    | some o => do
      if isValue t then read names (← a.set? o t) none rest else none
    | none =>
      match t with
      | ['-', '-'] => some { a with others := a.others ++ rest }
      | '-' :: '-' :: body => do
        let (a, waiting) ← long names a body
        read names a waiting rest
      | '-' :: c :: body => do
        let (a, waiting) ← cluster names a (c :: body)
        read names a waiting rest
      | _ => read names { a with others := a.others ++ [t] } none rest

def only? (a : Arguments) : Option Text :=
  match a.others with
  | [t] => if t.isEmpty then none else some t
  | _ => none

/-- The value of an option that names a file. -/
def path? (a : Arguments) (long : String) : Option (Option Text) :=
  match a.value? long with
  | some [] => none
  | some path => some (some path)
  | none => some none

end Arguments

/-- An octal address, perhaps after a plus sign. -/
def address? (t : Text) : Option Word := (Image.octalWord? t).filter fun w => w.toNat ≤ 0x7FFF

/-- A decimal number of 64 bits, perhaps after a plus sign. -/
def stepCount? (t : Text) : Option Nat :=
  let digits := match t with
    | '+' :: digits => digits
    | digits => digits
  (Text.numeral? 10 digits).filter (· < 0x10000000000000000)

def runNames : List OptionName :=
  [⟨"start".toList, some 's', true⟩,
    ⟨"max-steps".toList, some 'm', true⟩,
    ⟨"trace".toList, some 't', false⟩,
    ⟨"json".toList, none, false⟩,
    ⟨"lpt".toList, none, true⟩]

def outputNames : List OptionName := [⟨"output".toList, some 'o', true⟩]

def runOptions? (args : List Text) : Option RunOptions := do
  let a ← Arguments.read runNames {} none args
  let program ← a.only?
  let start ← match a.value? "start" with
    | some t => (address? t).map some
    | none => some none
  let maxSteps ← match a.value? "max-steps" with
    | some t => stepCount? t
    | none => some 10000
  let printer ← a.path? "lpt"
  return {
    program, start, maxSteps, printer
    trace := (a.value? "trace").isSome
    json := (a.value? "json").isSome }

def command? : List Text → Option Command
  | [] => none
  | name :: args =>
    if name = "run".toList then Command.run <$> runOptions? args
    else if name = "asm".toList then do
      let a ← Arguments.read outputNames {} none args
      return .assemble (← a.only?) (← a.path? "output")
    else if name = "disasm".toList then do
      let a ← Arguments.read [] {} none args
      return .disassemble (← a.only?)
    else none

end StackComputer.CommandLine
