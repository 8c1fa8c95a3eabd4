import FieldPatch.Shell.Printing

/-! Sums and products of integers, as in `$((2 * (n + 1)))`. -/

namespace FieldPatch.Shell.Arithmetic

/-- The text up to the two brackets that close, and what is behind them. -/
def enclosed (depth : Nat) : Text → Option (Text × Text)
  | [] => none
  | ')' :: cs =>
    if depth = 0 then
      match cs with
      | ')' :: rest => some ([], rest)
      | _ => none
    else (enclosed (depth - 1) cs).map fun (s, rest) => (')' :: s, rest)
  | '(' :: cs => (enclosed (depth + 1) cs).map fun (s, rest) => ('(' :: s, rest)
  | c :: cs => (enclosed depth cs).map fun (s, rest) => (c :: s, rest)

def isNameChar (c : Char) : Bool := c.isAlphanum || c == '_'

/-- The number that a name or a row of digits stands for. -/
def operand (valueOf : String → Text) (name : Text) : Int :=
  if name.all Char.isDigit then digitsValue 10 name
  else (number? (valueOf (String.ofList name))).getD 0

mutual

def factor (valueOf : String → Text) (n : Nat) (cs : Text) : Option (Int × Text) :=
  match n with
  | 0 => none
  | n + 1 =>
    match cs with
    | ' ' :: cs => factor valueOf n cs
    | '-' :: cs => (factor valueOf n cs).map fun (x, rest) => (-x, rest)
    | '$' :: cs => factor valueOf n cs
    | '(' :: cs => do
      match ← sum valueOf n cs with
      | (x, ')' :: rest) => return (x, rest)
      | _ => none
    | cs =>
      let name := cs.takeWhile isNameChar
      if name.isEmpty then none else some (operand valueOf name, cs.drop name.length)

/-- A product that goes on behind a value. -/
def productFrom (valueOf : String → Text) (n : Nat) (x : Int) (cs : Text) : Option (Int × Text) :=
  match n with
  | 0 => none
  | n + 1 =>
    match cs with
    | ' ' :: cs => productFrom valueOf n x cs
    | '*' :: cs => do
      let (y, rest) ← factor valueOf n cs
      productFrom valueOf n (x * y) rest
    | '/' :: cs => do
      let (y, rest) ← factor valueOf n cs
      if y = 0 then none else productFrom valueOf n (x.tdiv y) rest
    | '%' :: cs => do
      let (y, rest) ← factor valueOf n cs
      if y = 0 then none else productFrom valueOf n (x.tmod y) rest
    | cs => some (x, cs)

/-- A sum that goes on behind a value. -/
def sumFrom (valueOf : String → Text) (n : Nat) (x : Int) (cs : Text) : Option (Int × Text) :=
  match n with
  | 0 => none
  | n + 1 =>
    match cs with
    | '+' :: cs => do
      let (y, rest) ← factor valueOf n cs
      let (y, rest) ← productFrom valueOf n y rest
      sumFrom valueOf n (x + y) rest
    | '-' :: cs => do
      let (y, rest) ← factor valueOf n cs
      let (y, rest) ← productFrom valueOf n y rest
      sumFrom valueOf n (x - y) rest
    | cs => some (x, cs)

def sum (valueOf : String → Text) (n : Nat) (cs : Text) : Option (Int × Text) :=
  match n with
  | 0 => none
  | n + 1 => do
    let (x, rest) ← factor valueOf n cs
    let (x, rest) ← productFrom valueOf n x rest
    sumFrom valueOf n x rest

end

/-- The value of an expression. Every reader takes a character before it comes to itself
again. -/
def value? (valueOf : String → Text) (cs : Text) : Option Int :=
  match sum valueOf (4 * (cs.length + 1)) cs with
  | some (x, []) => some x
  | _ => none

end FieldPatch.Shell.Arithmetic
