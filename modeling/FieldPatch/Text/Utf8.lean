/-! Bytes read as UTF-8. Bytes that are no UTF-8 are cut into maximal sequences that start like
a character, so that each of them can be reported or replaced as one. -/

namespace FieldPatch

/-- Bytes that are not UTF-8: a sequence of `width` bytes from byte `index` on, or one that
the end cuts short. -/
inductive Utf8Fault where
  | invalid (width index : Nat)
  | incomplete (index : Nat)
  deriving DecidableEq

def Utf8Fault.message : Utf8Fault → String
  | .invalid width index =>
    "invalid utf-8 sequence of " ++ toString width ++ " bytes from index " ++ toString index
  | .incomplete index => "incomplete utf-8 byte sequence from index " ++ toString index

namespace Utf8

/-- What must follow a lead byte: how many bytes, and the range of the first of them. -/
structure Tail where
  count : Nat
  low : Nat
  high : Nat

def tail? (lead : Nat) : Option Tail :=
  if 0xC2 ≤ lead && lead ≤ 0xDF then some ⟨1, 0x80, 0xBF⟩
  else if lead == 0xE0 then some ⟨2, 0xA0, 0xBF⟩
  else if lead == 0xED then some ⟨2, 0x80, 0x9F⟩
  else if 0xE1 ≤ lead && lead ≤ 0xEF then some ⟨2, 0x80, 0xBF⟩
  else if lead == 0xF0 then some ⟨3, 0x90, 0xBF⟩
  else if lead == 0xF4 then some ⟨3, 0x80, 0x8F⟩
  else if 0xF1 ≤ lead && lead ≤ 0xF3 then some ⟨3, 0x80, 0xBF⟩
  else none

/-- One character, or a stretch that is none. -/
inductive Sequence where
  | char (c : Char) (width : Nat)
  | invalid (width : Nat)
  | incomplete (width : Nat)

def Sequence.width : Sequence → Nat
  | .char _ w => w
  | .invalid w => w
  | .incomplete w => w

/-- The payload bits of the lead byte of a sequence with `count` more bytes. -/
def leadBits (lead count : Nat) : Nat := lead % (0x40 >>> count)

/-- The sequence whose first `width` bytes carry `value`, `count` bytes missing. -/
def completed (value width : Nat) : Nat → Nat → Nat → List UInt8 → Sequence
  | 0, _, _, _ => .char (Char.ofNat value) width
  | _ + 1, _, _, [] => .incomplete width
  | count + 1, low, high, b :: bytes =>
    if low ≤ b.toNat && b.toNat ≤ high then
      completed (value * 64 + b.toNat % 64) (width + 1) count 0x80 0xBF bytes
    else .invalid width

def firstSequence (lead : Nat) (bytes : List UInt8) : Sequence :=
  if lead < 0x80 then .char (Char.ofNat lead) 1
  else match tail? lead with
    | none => .invalid 1
    | some t => completed (leadBits lead t.count) 1 t.count t.low t.high bytes

/-- The first `fuel` sequences of the bytes; each takes at least one byte. -/
def firstSequences : Nat → List UInt8 → List Sequence
  | 0, _ => []
  | _ + 1, [] => []
  | fuel + 1, b :: bytes =>
    let s := firstSequence b.toNat bytes
    s :: firstSequences fuel (bytes.drop (s.width - 1))

def sequences (bytes : List UInt8) : List Sequence := firstSequences bytes.length bytes

/-- The characters of the bytes, the replacement character for each stretch that is none. -/
def lossy (bytes : List UInt8) : String :=
  String.ofList ((sequences bytes).map fun s => match s with
    | .char c _ => c
    | _ => '\ufffd')

def charsFrom (index : Nat) : List Sequence → Except Utf8Fault (List Char)
  | [] => .ok []
  | .char c width :: rest => do return c :: (← charsFrom (index + width) rest)
  | .invalid width :: _ => .error (.invalid width index)
  | .incomplete _ :: _ => .error (.incomplete index)

def decode (bytes : List UInt8) : Except Utf8Fault String :=
  (charsFrom 0 (sequences bytes)).map String.ofList

def encode (text : String) : List UInt8 := text.toUTF8.toList

end Utf8

end FieldPatch
