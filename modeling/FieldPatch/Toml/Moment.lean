import FieldPatch.Number.Reading

/-! Dates, times of day, and both together with or without an offset. -/

namespace FieldPatch.Toml

structure Date where
  year : Nat
  month : Nat
  day : Nat
  deriving DecidableEq

structure Time where
  hour : Nat
  minute : Nat
  second : Nat
  nanosecond : Nat
  deriving DecidableEq

/-- The distance from universal time. -/
inductive Offset where
  | zulu
  | minutes (n : Int)
  deriving DecidableEq

inductive Moment where
  | date (d : Date)
  | time (t : Time)
  | local (d : Date) (t : Time)
  | absolute (d : Date) (t : Time) (o : Offset)
  deriving DecidableEq

def padded (width n : Nat) : String :=
  let digits := toString n
  String.ofList (List.replicate (width - digits.length) '0') ++ digits

def Date.render (d : Date) : String :=
  padded 4 d.year ++ "-" ++ padded 2 d.month ++ "-" ++ padded 2 d.day

/-- Digits without the zeros at their end. -/
def trimZeros (cs : List Char) : List Char := (cs.reverse.dropWhile (· == '0')).reverse

def Time.render (t : Time) : String :=
  let fraction :=
    if t.nanosecond = 0 then ""
    else "." ++ String.ofList (trimZeros (padded 9 t.nanosecond).toList)
  padded 2 t.hour ++ ":" ++ padded 2 t.minute ++ ":" ++ padded 2 t.second ++ fraction

def Offset.render : Offset → String
  | .zulu => "Z"
  | .minutes n =>
    (if n < 0 then "-" else "+") ++ padded 2 (n.natAbs / 60) ++ ":" ++ padded 2 (n.natAbs % 60)

def Moment.render : Moment → String
  | .date d => d.render
  | .time t => t.render
  | .local d t => d.render ++ "T" ++ t.render
  | .absolute d t o => d.render ++ "T" ++ t.render ++ o.render

def daysIn (year month : Nat) : Nat :=
  if month = 2 then
    if year % 4 = 0 ∧ (year % 100 ≠ 0 ∨ year % 400 = 0) then 29 else 28
  else if month = 4 ∨ month = 6 ∨ month = 9 ∨ month = 11 then 30
  else 31

/-- A number of exactly `width` digits. -/
def digits? (width : Nat) (cs : List Char) : Option (Nat × List Char) :=
  let digits := cs.take width
  if digits.length = width && digits.all Char.isDigit then some (Digits.value 0 digits, cs.drop width)
  else none

def strip? (c : Char) : List Char → Option (List Char)
  | d :: cs => if d = c then some cs else none
  | [] => none

def date? (cs : List Char) : Option (Date × List Char) := do
  let (year, cs) ← digits? 4 cs
  let (month, cs) ← digits? 2 (← strip? '-' cs)
  let (day, cs) ← digits? 2 (← strip? '-' cs)
  guard (1 ≤ month && month ≤ 12 && 1 ≤ day && day ≤ daysIn year month)
  return (⟨year, month, day⟩, cs)

/-- A fraction of a second in nanoseconds; further digits are dropped. -/
def fraction : List Char → Nat × List Char
  | '.' :: cs =>
    let (digits, rest) := Digits.split cs
    if digits.isEmpty then (0, '.' :: cs)
    else
      let kept := digits.take 9
      (Digits.value 0 kept * tenToThe (9 - kept.length), rest)
  | cs => (0, cs)

def time? (cs : List Char) : Option (Time × List Char) := do
  let (hour, cs) ← digits? 2 cs
  let (minute, cs) ← digits? 2 (← strip? ':' cs)
  let (second, cs) ← digits? 2 (← strip? ':' cs)
  guard (hour ≤ 23 && minute ≤ 59 && second ≤ 60)
  let (nanosecond, cs) := fraction cs
  return (⟨hour, minute, second, nanosecond⟩, cs)

def offset? : List Char → Option (Offset × List Char)
  | [] => none
  | c :: cs =>
    if c == 'Z' || c == 'z' then some (.zulu, cs)
    else if c == '+' || c == '-' then do
      let (hours, cs) ← digits? 2 cs
      let (minutes, cs) ← digits? 2 (← strip? ':' cs)
      guard (hours ≤ 23 && minutes ≤ 59)
      let n : Int := (hours * 60 + minutes : Nat)
      return (.minutes (if c == '-' then -n else n), cs)
    else none

/-- The time behind a date and its separator. -/
def timeBehindDate? : List Char → Option (Time × List Char)
  | c :: cs => if c == 'T' || c == 't' || c == ' ' then time? cs else none
  | [] => none

def moment? (cs : List Char) : Option (Moment × List Char) :=
  match date? cs with
  | none => (time? cs).map fun (t, rest) => (.time t, rest)
  | some (d, cs) =>
    match timeBehindDate? cs with
    | none => some (.date d, cs)
    | some (t, cs) =>
      match offset? cs with
      | none => some (.local d t, cs)
      | some (o, cs) => some (.absolute d t o, cs)

end FieldPatch.Toml
