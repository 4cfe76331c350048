import StackComputer.Assembler.Operand
import StackComputer.Instruction.Encoding
import StackComputer.Instruction.Mnemonic
import StackComputer.Text.Quoted

/-!
# From operand to instruction word

Each mnemonic takes an operand of one form with fields of a certain width. A
number that does not fit is refused, never cut down.
-/

namespace StackComputer.Assembler

inductive EncodeError where
  | unknownMnemonic (name : Text)
  | missingOperand (name : Text)
  | unexpectedOperand (name : Text)
  /-- The text is no operand. -/
  | malformed (text : Text)
  /-- The mnemonic refers to the data base only. -/
  | ownAddress (name : Text)
  /-- The mnemonic takes an address of another form. -/
  | wrongForm (address : Address)
  | badSuffix (name : Text) (suffix : Char)
  | outOfRange (value max : Nat)
  | unresolvedSymbol (name : Text)
deriving DecidableEq, Repr

def Value.text : Value → Text
  | number n => "Number(".toList ++ Text.decimal n ++ ")".toList
  | symbol name => "Symbol(".toList ++ Text.quoted name ++ ")".toList

def Address.text : Address → Text
  | own back magnitude =>
    "Relative \x7b back: ".toList ++ (if back then "true" else "false").toList ++
      ", magnitude: ".toList ++ Text.decimal magnitude ++ " \x7d".toList
  | db value => "Db(".toList ++ value.text ++ ")".toList
  | plain value => "Plain(".toList ++ value.text ++ ")".toList

def EncodeError.message : EncodeError → Text
  | unknownMnemonic name => "unknown mnemonic: ".toList ++ name
  | missingOperand name => name ++ " requires an operand".toList
  | unexpectedOperand name => name ++ " takes no operand".toList
  | malformed text => "invalid operand: ".toList ++ text
  | ownAddress name => "invalid operand: ".toList ++ name
  | wrongForm address => "invalid operand: ".toList ++ address.text
  | badSuffix name suffix => name ++ " does not accept ,".toList ++ [suffix]
  | outOfRange value max =>
    "value ".toList ++ Text.octal value ++ " exceeds ".toList ++ Text.octal max
  | unresolvedSymbol name => "unresolved symbol: ".toList ++ name

abbrev Encoding := Except EncodeError

def required (name : Text) : Option Operand → Encoding Operand
  | some o => .ok o
  | none => .error (.missingOperand name)

/-- Refuses the suffixes a mnemonic does not take, the indirect one first. -/
def allow (name : Text) (o : Operand) (indirect indexed : Bool) : Encoding Unit :=
  if o.suffixes.indirect && !indirect then .error (.badSuffix name 'I')
  else if o.suffixes.indexed && !indexed then .error (.badSuffix name 'X')
  else .ok ()

def number (max : Nat) : Value → Encoding Nat
  | .number n => if n ≤ max then .ok n else .error (.outOfRange n max)
  | .symbol name => .error (.unresolvedSymbol name)

/-- The number of an address without a base. -/
def plainNumber (o : Operand) (max : Nat) : Encoding Nat :=
  match o.address with
  | .plain v => number max v
  | address => .error (.wrongForm address)

def numberOperand (name : Text) (operand : Option Operand) (max : Nat) : Encoding Nat := do
  let o ← required name operand
  allow name o false false
  plainNumber o max

def displacement (o : Operand) (max : Nat) : Encoding Displacement :=
  match o.address with
  | .own back magnitude =>
    if magnitude ≤ max then .ok ⟨back, BitVec.ofNat 16 magnitude⟩
    else .error (.outOfRange magnitude max)
  | address => .error (.wrongForm address)

/-- The distance of a branch that may be indirect but not indexed. -/
def shortBranch (name : Text) (operand : Option Operand) (indirect : Bool) :
    Encoding (Displacement × Bool) := do
  let o ← required name operand
  allow name o indirect false
  return (← displacement o Instruction.shortMax, o.suffixes.indirect)

def byteOperand (name : Text) (operand : Option Operand) (max : Nat) : Encoding Byte :=
  (numberOperand name operand max).map (BitVec.ofNat 8)

def noOperand (name : Text) (operand : Option Operand) (i : Instruction) : Encoding Instruction :=
  match operand with
  | some _ => .error (.unexpectedOperand name)
  | none => .ok i

/-- The instruction of a mnemonic and its operand. A stack opcode alone is the
second half of a pair. -/
def instruction (m : Mnemonic) (operand : Option Operand) : Encoding Instruction :=
  let name := m.name
  match m with
  | .stack op => noOperand name operand (.pair .nop op)
  | .ddiv => noOperand name operand .ddiv
  | .halt =>
    match operand with
    | some o => .halt <$> byteOperand name (some o) Instruction.deviceMax
    | none => .ok (.halt 0)
  | .rio => .rio <$> byteOperand name operand Instruction.deviceMax
  | .wio => .wio <$> byteOperand name operand Instruction.deviceMax
  | .scal => .scal <$> byteOperand name operand Instruction.byteMax
  | .sxit => .sxit <$> byteOperand name operand Instruction.byteMax
  | .ldi => .ldi <$> byteOperand name operand Instruction.byteMax
  | .ldxi => .ldxi <$> byteOperand name operand Instruction.byteMax
  | .br => do
    let o ← required name operand
    return .br (← displacement o Instruction.longMax) o.suffixes
  | .bro => do
    let (d, _) ← shortBranch name operand false
    return .bro d
  | .load => do
    let o ← required name operand
    let target ← match o.address with
      | .own _ _ => .own <$> displacement o Instruction.longMax
      | .db v | .plain v => (.db ∘ BitVec.ofNat 16) <$> number Instruction.dbMax v
    return .load target o.suffixes
  | .shift op => do
    let o ← required name operand
    allow name o false op.acceptsIndex
    let n ← plainNumber o Instruction.shiftMax
    return .shift op (BitVec.ofNat 8 n) o.suffixes.indexed
  | .memory op => do
    let o ← required name operand
    let n ← match o.address with
      | .db v | .plain v => number Instruction.dbMax v
      | .own _ _ => .error (.ownAddress name)
    return .memory op (BitVec.ofNat 16 n) o.suffixes
  | .count op => do
    let (d, indirect) ← shortBranch name operand true
    return .count op d indirect
  | .flag op => do
    let (d, indirect) ← shortBranch name operand true
    return .flag op d indirect
  | .bcc selector => do
    let (d, indirect) ← shortBranch name operand true
    return .bcc (BitVec.ofNat 8 selector) d indirect

def dataName : Text := "DATA".toList

/-- The word of a mnemonic in any letter case and its operand, whose symbols
have been resolved. -/
def encodeOperand (mnemonic : Text) (operand : Option Operand) : Encoding Word :=
  let name := Text.upper (Text.trim mnemonic)
  if name = dataName then BitVec.ofNat 16 <$> numberOperand name operand 0xFFFF else
  match Mnemonic.named? name with
  | some m => Instruction.encode <$> instruction m operand
  | none => .error (.unknownMnemonic name)

end StackComputer.Assembler
