import StackComputer.Instruction

/-!
# Instruction words

An instruction word is the base of its format with the operand fields in the
bits outside the format's mask. Fields wider than their slot are cut down to
it. No word belongs to two formats.
-/

namespace StackComputer

inductive Format where
  | halt
  | rio
  | wio
  | scal
  | sxit
  | shift (op : ShiftOp)
  | memory (op : MemoryOp)
  | ddiv
  | ldi
  | ldxi
  | count (op : CountOp)
  | bcc
  | flag (op : FlagOp)
  | bro
  | br
  | load
  | pair
deriving DecidableEq, Repr

namespace Format

def all : List Format :=
  [halt, rio, wio, scal, sxit] ++ ShiftOp.all.map shift ++ MemoryOp.all.map memory ++
    [ddiv, ldi, ldxi] ++ CountOp.all.map count ++ [bcc] ++ FlagOp.all.map flag ++
    [bro, br, load, pair]

/-- The bits that tell a format apart. -/
def mask : Format → Word
  | halt | rio | wio => 0xFFF0
  | scal | sxit | ldi | ldxi => 0xFF00
  | shift op => if op.acceptsIndex then 0xFDC0 else 0xFFC0
  | memory _ | br => 0xF200
  | ddiv => 0xFFFF
  | count _ | flag _ => 0xF7C0
  | bcc => 0xFA00
  | bro => 0xFFC0
  | load | pair => 0xF000

def base : Format → Word
  | halt => 0x30F0
  | rio => 0x3080
  | wio => 0x3090
  | scal => 0x3100
  | sxit => 0x3400
  | shift .asl => 0x1000
  | shift .asr => 0x1040
  | shift .lsl => 0x1080
  | shift .lsr => 0x10C0
  | shift .dasl => 0x1400
  | shift .dasr => 0x1440
  | shift .dlsl => 0x1480
  | shift .dlsr => 0x14C0
  | memory .incm => 0xA200
  | memory .decm => 0xB200
  | memory .stor => 0x5200
  | memory .ldd => 0xD200
  | memory .std => 0xE200
  | ddiv => 0x2179
  | ldi => 0x2200
  | ldxi => 0x2300
  | count .iabz => 0x11C0
  | count .ixbz => 0x1280
  | count .dxbz => 0x12C0
  | bcc => 0xC200
  | flag .bcy => 0x1300
  | flag .bncy => 0x1340
  | flag .bov => 0x1600
  | flag .bnov => 0x1640
  | bro => 0x1780
  | br => 0xC000
  | load => 0x4000
  | pair => 0x0000

def admits (f : Format) (w : Word) : Bool := w &&& f.mask == f.base

end Format

namespace Instruction

/-- Largest values of the operand fields. -/
def shortMax : Nat := 0x1F

def longMax : Nat := 0xFF

def dbMax : Nat := 0x1FF

def deviceMax : Nat := 0xF

def byteMax : Nat := 0xFF

def shiftMax : Nat := 0x3F

def bit (on : Bool) (mask : Word) : Word := if on then mask else 0

/-- A five-bit magnitude below its sign. -/
def shortField (d : Displacement) : Word := bit d.back 0x20 ||| d.magnitude &&& 0x1F

/-- An eight-bit magnitude below its sign. -/
def longField (d : Displacement) : Word := bit d.back 0x100 ||| d.magnitude &&& 0xFF

def suffixField (s : Suffixes) : Word := bit s.indexed 0x800 ||| bit s.indirect 0x400

def format : Instruction → Format
  | .halt _ => .halt
  | .rio _ => .rio
  | .wio _ => .wio
  | .scal _ => .scal
  | .sxit _ => .sxit
  | .shift op _ _ => .shift op
  | .memory op _ _ => .memory op
  | .load _ _ => .load
  | .ldi _ => .ldi
  | .ldxi _ => .ldxi
  | .ddiv => .ddiv
  | .br _ _ => .br
  | .bcc _ _ _ => .bcc
  | .count op _ _ => .count op
  | .flag op _ _ => .flag op
  | .bro _ => .bro
  | .pair _ _ => .pair

/-- The operand fields in their slots. Count and flag branches carry their
indirect bit where others carry the index bit. -/
def fields : Instruction → Word
  | .halt n | .rio n | .wio n => n.setWidth 16 &&& 0xF
  | .scal n | .sxit n | .ldi n | .ldxi n => n.setWidth 16
  | .shift op n indexed => bit (indexed && op.acceptsIndex) 0x200 ||| n.setWidth 16 &&& 0x3F
  | .memory _ displacement suffixes => suffixField suffixes ||| displacement &&& 0x1FF
  | .load (.db displacement) suffixes =>
    suffixField suffixes ||| (0x200 ||| displacement &&& 0x1FF)
  | .load (.own displacement) suffixes => suffixField suffixes ||| longField displacement
  | .ddiv => 0
  | .br displacement suffixes => suffixField suffixes ||| longField displacement
  | .bcc selector displacement indirect =>
    bit indirect 0x400 ||| ((selector.setWidth 16 &&& 7) <<< 6 ||| shortField displacement)
  | .count _ displacement indirect | .flag _ displacement indirect =>
    bit indirect 0x800 ||| shortField displacement
  | .bro displacement => shortField displacement
  | .pair first second => first.code.setWidth 16 <<< 6 ||| second.code.setWidth 16

def encode (i : Instruction) : Word := i.format.base ||| i.fields

def hasBit (w mask : Word) : Bool := w &&& mask != 0

def shortOf (w : Word) : Displacement := ⟨hasBit w 0x20, w &&& 0x1F⟩

def longOf (w : Word) : Displacement := ⟨hasBit w 0x100, w &&& 0xFF⟩

def suffixesOf (w : Word) : Suffixes := ⟨hasBit w 0x400, hasBit w 0x800⟩

/-- Reads the operand fields of a word of the given format. -/
def ofFormat (w : Word) : Format → Instruction
  | .halt => .halt (w.setWidth 8 &&& 0xF)
  | .rio => .rio (w.setWidth 8 &&& 0xF)
  | .wio => .wio (w.setWidth 8 &&& 0xF)
  | .scal => .scal (w.setWidth 8)
  | .sxit => .sxit (w.setWidth 8)
  | .shift op => .shift op (w.setWidth 8 &&& 0x3F) (op.acceptsIndex && hasBit w 0x200)
  | .memory op => .memory op (w &&& 0x1FF) (suffixesOf w)
  | .ddiv => .ddiv
  | .ldi => .ldi (w.setWidth 8)
  | .ldxi => .ldxi (w.setWidth 8)
  | .count op => .count op (shortOf w) (hasBit w 0x800)
  | .bcc => .bcc ((w >>> 6).setWidth 8 &&& 7) (shortOf w) (hasBit w 0x400)
  | .flag op => .flag op (shortOf w) (hasBit w 0x800)
  | .bro => .bro (shortOf w)
  | .br => .br (longOf w) (suffixesOf w)
  | .load =>
    .load (if hasBit w 0x200 then .db (w &&& 0x1FF) else .own (longOf w)) (suffixesOf w)
  | .pair => .pair (.ofCode ((w >>> 6).setWidth 6)) (.ofCode (w.setWidth 6))

/-- The instruction a word holds, if it is of some format. -/
def decode? (w : Word) : Option Instruction :=
  (Format.all.find? (·.admits w)).map (ofFormat w)

end Instruction

end StackComputer
