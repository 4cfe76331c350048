import StackComputer.Assembler.Line
import StackComputer.Program
import StackComputer.Text.Bytes

/-!
# Assembler sources

A line holds a label, a statement and a comment, each of them optional. The
lines are first laid out: every statement gets its address and every label its
value. Then the statements are encoded in order.
-/

namespace StackComputer.Assembler

inductive SourceError where
  | invalidValue (text : Text)
  | unquotedText
  | unknownMnemonic (name : Text)
  | invalidOperand (cause : EncodeError)
  | undefinedLabel (name : Text)
  | duplicateLabel (name : Text)
  /-- A value outside the range of its directive. -/
  | outOfRange (value : Int)
  /-- A number too large for its field in an instruction. -/
  | fieldOverflow (value : Nat)
deriving DecidableEq, Repr

namespace SourceError

def title : SourceError → Text
  | invalidValue _ | unquotedText => "syntax error".toList
  | unknownMnemonic _ => "unknown mnemonic".toList
  | invalidOperand _ => "invalid operand".toList
  | undefinedLabel _ => "undefined label".toList
  | duplicateLabel _ => "duplicate label".toList
  | outOfRange _ | fieldOverflow _ => "value out of range".toList

/-- Where exactly the fault lies. A field is shown in octal. -/
def detail : SourceError → Text
  | invalidValue text => "invalid value: ".toList ++ text
  | unquotedText => "TXT requires a quoted string".toList
  | unknownMnemonic name => name
  | invalidOperand cause => cause.message
  | undefinedLabel name => name
  | duplicateLabel name => name
  | outOfRange value => Text.decimalInt value
  | fieldOverflow value => Text.octal value

end SourceError

structure AssemblyError where
  line : Nat
  cause : SourceError
deriving DecidableEq, Repr

def AssemblyError.message (e : AssemblyError) : Text :=
  e.cause.title ++ " on line ".toList ++ Text.decimal e.line ++ ": ".toList ++ e.cause.detail

def SourceError.ofEncodeError : EncodeError → SourceError
  | .unknownMnemonic name => unknownMnemonic name
  | .outOfRange value _ => fieldOverflow value
  | .unresolvedSymbol name => undefinedLabel name
  | cause => invalidOperand cause

/-- Labels in upper case with their addresses. -/
abbrev Symbols := List (Text × Word)

abbrev Scan := Except SourceError

def Symbols.find (s : Symbols) (name : Text) : Scan Word :=
  match s.lookup (Text.upper name) with
  | some a => .ok a
  | none => .error (.undefinedLabel name)

/-- The value of a literal, a label, or `.` for the address `here`. -/
def evaluate (s : Symbols) (here : Word) (t : Text) : Scan Int :=
  let t := Text.trim t
  if t = ['.'] then .ok here.toNat else
  match signedLiteral? t with
  | some n => .ok n
  | none =>
    if isSymbol t then (fun a : Word => (a.toNat : Int)) <$> s.find t
    else .error (.invalidValue t)

/-- The low bits of a value in a range. -/
def narrow (width : Nat) (least greatest : Int) (n : Int) : Scan (BitVec width) :=
  if least ≤ n ∧ n ≤ greatest then .ok (BitVec.ofInt width n) else .error (.outOfRange n)

/-- A value that is signed or unsigned in `width` bits. -/
def evaluateIn (width : Nat) (s : Symbols) (here : Word) (t : Text) : Scan (BitVec width) := do
  let span : Nat := 1 <<< width
  narrow width (-(span / 2 : Nat)) (span - 1) (← evaluate s here t)

/-- What a statement puts into memory. -/
inductive Content where
  | words (values : List Text)
  | double (value : Text)
  | quad (value : Text)
  | text (bytes : List Byte)
  /-- The mnemonic is in upper case. -/
  | instruction (mnemonic operand : Text)
deriving DecidableEq, Repr

/-- The values of a list, where empty items do not count. -/
def listValues (t : Text) : List Text :=
  ((Text.splitAt (· == ',') t).map Text.trim).filter (!·.isEmpty)

/-- The text between the first and the last character, if both are quotes. -/
def unquote? (t : Text) : Option Text :=
  match Text.trim t with
  | '"' :: rest => if rest.getLast? = some '"' then some rest.dropLast else none
  | _ => none

def content (mnemonic operand : Text) : Scan Content :=
  if mnemonic = "DW".toList then .ok (.words (listValues operand))
  else if mnemonic = "DD".toList then .ok (.double operand)
  else if mnemonic = "DQ".toList then .ok (.quad operand)
  else if mnemonic = "TXT".toList then
    match unquote? operand with
    | some t => .ok (.text (Text.toBytes t))
    | none => .error .unquotedText
  else .ok (.instruction mnemonic operand)

def Content.size : Content → Nat
  | words values => values.length
  | double _ => 2
  | quad _ => 4
  | text bytes => (bytes.length + 1) / 2
  | instruction _ _ => 1

structure Statement where
  line : Nat
  address : Word
  content : Content
deriving DecidableEq, Repr

/-- The state of the first pass. -/
structure Layout where
  /-- Address of the next statement. -/
  counter : Word := 0
  /-- Address of the first statement or ORG. -/
  origin : Option Word := none
  symbols : Symbols := []
  /-- The newest statement first. -/
  statements : List Statement := []

namespace Layout

def define (l : Layout) (name : Text) : Scan Layout :=
  let key := Text.upper name
  if (l.symbols.lookup key).isSome then .error (.duplicateLabel name)
  else .ok { l with symbols := (key, l.counter) :: l.symbols }

def moveTo (l : Layout) (a : Word) : Layout :=
  { l with counter := a, origin := l.origin <|> some a }

def place (l : Layout) (line : Nat) (c : Content) : Layout :=
  { l with
    counter := (l.counter + BitVec.ofNat 16 c.size).address
    origin := l.origin <|> some l.counter
    statements := ⟨line, l.counter, c⟩ :: l.statements }

end Layout

/-- A line without its comment, which starts at a semicolon outside quotes. -/
def withoutComment (inQuotes : Bool) : Text → Text
  | [] => []
  | c :: t =>
    if c = ';' ∧ !inQuotes then [] else c :: withoutComment (inQuotes != (c == '"')) t

/-- The label of a line and the statement after it. A colon that does not
follow a symbol belongs to the statement. -/
def splitLabel (t : Text) : Option Text × Text :=
  match Text.cutAt? (· == ':') t with
  | some (head, rest) =>
    if isSymbol (Text.trim head) then (some (Text.trim head), Text.trim rest) else (none, t)
  | none => (none, t)

namespace Layout

/-- Lays out the statement of a line; ORG only moves the location counter. -/
def scanStatement (l : Layout) (line : Nat) (t : Text) : Scan Layout :=
  if t.isEmpty then .ok l else
  let (word, operand) := Text.firstWord t
  let mnemonic := Text.upper word
  if mnemonic = "ORG".toList then do
    let a ← narrow 16 0 0x7FFF (← evaluate l.symbols l.counter operand)
    return l.moveTo a
  else do
    let c ← content mnemonic operand
    return l.place line c

def scanLine (l : Layout) (line : Nat) (t : Text) : Scan Layout :=
  match splitLabel (Text.trim (withoutComment false t)) with
  | (some name, statement) => do (← l.define name).scanStatement line statement
  | (none, statement) => l.scanStatement line statement

/-- Lays out lines, the first of which has the given number. -/
def scanLines (l : Layout) (line : Nat) : List Text → Except AssemblyError Layout
  | [] => .ok l
  | t :: rest =>
    match l.scanLine line t with
    | .ok l => scanLines l (line + 1) rest
    | .error cause => .error ⟨line, cause⟩

end Layout

/-- An operand with its symbol replaced by an address: by the distance from
`here` for a relative mnemonic. -/
def resolveOperand (s : Symbols) (here : Word) (relative : Bool) (o : Operand) : Scan Operand :=
  match o.address with
  | .plain (.symbol name) => do
    let target ← s.find name
    let offset : Int := target.toNat - here.toNat
    return { o with address :=
      if relative then .own (decide (offset < 0)) offset.natAbs else .plain (.number target.toNat) }
  | .db (.symbol name) => do
    let target ← s.find name
    return { o with address := .db (.number target.toNat) }
  | _ => .ok o

def isRelativeName (mnemonic : Text) : Bool :=
  (Mnemonic.named? mnemonic).any (·.isRelative)

def encodeInstruction (s : Symbols) (here : Word) (mnemonic operand : Text) : Scan Word :=
  match pair? (mnemonic ++ ' ' :: operand) with
  | some w => .ok w
  | none =>
    if operand.isEmpty then (encodeOperand mnemonic none).mapError .ofEncodeError else
    match operand? operand with
    | none => .error (.invalidOperand (.malformed operand))
    | some o => do
      let o ← resolveOperand s here (isRelativeName mnemonic) o
      (encodeOperand mnemonic (some o)).mapError .ofEncodeError

/-- The words of a list, each evaluated at its own address. -/
def encodeValues (s : Symbols) (here : Word) : List Text → Scan (List Word)
  | [] => .ok []
  | t :: rest => do
    let w ← evaluateIn 16 s here t
    return w :: (← encodeValues s (here + 1).address rest)

/-- Two bytes to a word, the last word filled up with a zero. -/
def packBytes : List Byte → List Word
  | [] => []
  | [a] => [a.setWidth 16 <<< 8]
  | a :: b :: rest => (a.setWidth 16 <<< 8 ||| b.setWidth 16) :: packBytes rest

def Content.encode (s : Symbols) (here : Word) : Content → Scan (List Word)
  | words values => encodeValues s here values
  | double value => do
    let d ← evaluateIn 32 s here value
    return [d.extractLsb' 16 16, d.extractLsb' 0 16]
  | quad value => do
    let q ← evaluateIn 64 s here value
    return [q.extractLsb' 48 16, q.extractLsb' 32 16, q.extractLsb' 16 16, q.extractLsb' 0 16]
  | text bytes => .ok (packBytes bytes)
  | instruction mnemonic operand => do return [← encodeInstruction s here mnemonic operand]

def placeWords (a : Word) : List Word → List (Word × Word)
  | [] => []
  | w :: ws => (a.address, w) :: placeWords (a + 1) ws

def emit (s : Symbols) : List Statement → Except AssemblyError (List (Word × Word))
  | [] => .ok []
  | statement :: rest =>
    match statement.content.encode s statement.address with
    | .error cause => .error ⟨statement.line, cause⟩
    | .ok words => do return placeWords statement.address words ++ (← emit s rest)

def assemble (source : Text) : Except AssemblyError Program := do
  let l ← Layout.scanLines {} 1 (Text.lines source)
  let words ← emit l.symbols l.statements.reverse
  return { origin := l.origin.getD 0, words }

end StackComputer.Assembler
