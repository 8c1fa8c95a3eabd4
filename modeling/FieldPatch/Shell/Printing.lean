import FieldPatch.Shell.Script

/-! What `echo` and `printf` make of their arguments. -/

namespace FieldPatch.Shell

def isOctal (c : Char) : Bool := '0' ≤ c && c ≤ '7'

def digitsValue (base : Nat) (digits : List Char) : Nat :=
  digits.foldl (fun n c => n * base + (c.toNat - '0'.toNat)) 0

/-- The character that a letter behind a backslash stands for. -/
def escapedLetter? : Char → Option Char
  | 'a' => some '\x07'
  | 'b' => some '\x08'
  | 'f' => some '\x0c'
  | 'n' => some '\n'
  | 'r' => some '\r'
  | 't' => some '\t'
  | 'v' => some '\x0b'
  | '\\' => some '\\'
  | _ => none

/-- The character of an octal number of at most so many digits, and how many there are. -/
def octal (most : Nat) (cs : Text) : Char × Nat :=
  let digits := (cs.takeWhile isOctal).take most
  (Char.ofNat (digitsValue 8 digits % 256), digits.length)

/-- An escape behind its backslash: what it stands for, and how many characters it takes. -/
def escape (cs : Text) : Text × Nat :=
  match cs with
  | [] => (['\\'], 0)
  | c :: _ =>
    if isOctal c then
      let (value, count) := octal 3 cs
      ([value], count)
    else match escapedLetter? c with
      | some e => ([e], 1)
      | none => (['\\', c], 1)

/-- Replaces escapes, once `skip` characters are passed over. An octal number may start with one
more zero, and `\c` ends the text. Says whether it did. -/
def unescape : Nat → Text → Text × Bool
  | _, [] => ([], false)
  | skip + 1, _ :: cs => unescape skip cs
  | 0, '\\' :: 'c' :: _ => ([], true)
  | 0, '\\' :: '0' :: cs =>
    let (value, count) := octal 3 cs
    let (rest, ended) := unescape count cs
    (value :: rest, ended)
  | 0, '\\' :: cs =>
    let (value, count) := escape cs
    let (rest, ended) := unescape count cs
    (value ++ rest, ended)
  | 0, c :: cs =>
    let (rest, ended) := unescape 0 cs
    (c :: rest, ended)

def joinWith (separator : Text) (texts : List Text) : Text := (texts.intersperse separator).flatten

def echo (arguments : List Text) : Text :=
  let (arguments, line) := match arguments with
    | ['-', 'n'] :: more => (more, [])
    | all => (all, ['\n'])
  let (text, ended) := unescape 0 (joinWith [' '] arguments)
  if ended then text else text ++ line

/-- A directive of a format. -/
inductive Directive where
  | text (s : Text)
  | conversion (flags : Text) (width : Nat) (precision : Option Nat) (kind : Char)

/-- The conversion behind a percent sign, and how many characters it takes. -/
def conversion (cs : Text) : Directive × Nat :=
  let flags := cs.takeWhile fun c => "-+ #0".contains c
  let rest := cs.drop flags.length
  let width := rest.takeWhile Char.isDigit
  let rest := rest.drop width.length
  let (precision, taken, rest) := match rest with
    | '.' :: more =>
      let digits := more.takeWhile Char.isDigit
      (some (digitsValue 10 digits), digits.length + 1, more.drop digits.length)
    | more => (none, 0, more)
  let length := flags.length + width.length + taken
  match rest with
  | [] => (.text ('%' :: cs), cs.length)
  | '%' :: _ => (.text ['%'], length + 1)
  | kind :: _ => (.conversion flags (digitsValue 10 width) precision kind, length + 1)

/-- The directives of a format, once `skip` characters are passed over. -/
def directives : Nat → Text → List Directive
  | _, [] => []
  | skip + 1, _ :: cs => directives skip cs
  | 0, '%' :: cs => (conversion cs).1 :: directives (conversion cs).2 cs
  | 0, '\\' :: cs => .text (escape cs).1 :: directives (escape cs).2 cs
  | 0, c :: cs => .text [c] :: directives 0 cs

def isConversion : Directive → Bool
  | .text _ => false
  | .conversion .. => true

def pad (flags : Text) (width : Nat) (filler : Char) (s : Text) : Text :=
  let missing := List.replicate (width - s.length) filler
  if flags.contains '-' then s ++ List.replicate (width - s.length) ' ' else missing ++ s

/-- The number that an argument is. A missing one is zero. -/
def number? (s : Text) : Option Int :=
  match s with
  | [] => some 0
  | '+' :: digits => (String.ofList digits).toNat?.map Int.ofNat
  | '\'' :: c :: _ => some c.toNat
  | s => (String.ofList s).toInt?

/-- A number with its sign, padded with zeros behind the sign if the flags say so. -/
def formatNumber (flags : Text) (width : Nat) (precision : Option Nat) (base : Nat) (n : Int) :
    Text :=
  let sign := if n < 0 then ['-'] else flags.filter (· == '+')
  let digits := Nat.toDigits base n.natAbs
  let zeros := List.replicate (precision.getD 0 - digits.length) '0'
  if flags.contains '0' && !flags.contains '-' && precision.isNone then
    sign ++ pad [] (width - sign.length) '0' digits
  else pad flags width ' ' (sign ++ zeros ++ digits)

/-- What printing comes to. -/
structure Printed where
  text : Text
  /-- The arguments that are no numbers where numbers are wanted. -/
  faulty : List Text
  ended : Bool

def Printed.append (p q : Printed) : Printed :=
  if p.ended then p else ⟨p.text ++ q.text, p.faulty ++ q.faulty, q.ended⟩

def convert (flags : Text) (width : Nat) (precision : Option Nat) (kind : Char) (argument : Text) :
    Printed :=
  let cut (s : Text) : Text := pad flags width ' ' (s.take (precision.getD s.length))
  match kind with
  | 's' => ⟨cut argument, [], false⟩
  | 'b' =>
    let (s, ended) := unescape 0 argument
    ⟨cut s, [], ended⟩
  | 'c' => ⟨pad flags width ' ' (argument.take 1), [], false⟩
  | _ =>
    let base := match kind with | 'o' => 8 | 'x' => 16 | 'X' => 16 | _ => 10
    let text := formatNumber flags width precision base ((number? argument).getD 0)
    let text := if kind == 'X' then text.map Char.toUpper else text
    ⟨text, if (number? argument).isNone then [argument] else [], false⟩

/-- One run through a format, and the arguments that are left. -/
def printOnce : List Directive → List Text → Printed × List Text
  | [], arguments => (⟨[], [], false⟩, arguments)
  | .text s :: ds, arguments =>
    let (rest, left) := printOnce ds arguments
    (Printed.append ⟨s, [], false⟩ rest, left)
  | .conversion flags width precision kind :: ds, arguments =>
    let (rest, left) := printOnce ds arguments.tail
    ((convert flags width precision kind (arguments.headD [])).append rest, left)

/-- The format used again for more arguments, at most `fuel` times. -/
def printAgain (ds : List Directive) : Nat → List Text → Printed
  | 0, _ => ⟨[], [], false⟩
  | fuel + 1, arguments =>
    let (first, left) := printOnce ds arguments
    if left.isEmpty then first else first.append (printAgain ds fuel left)

def printf (format : Text) (arguments : List Text) : Printed :=
  let ds := directives 0 format
  if ds.any isConversion then printAgain ds (arguments.length + 1) arguments
  else (printOnce ds []).1

end FieldPatch.Shell
