import FieldPatch.Shell.Condition

/-! The commands that scripts may call. What they return is their status. -/

namespace FieldPatch.Shell

namespace Tool

def wrote (s : Text) : Action Nat := do
  Action.print s
  return 0

/-- A line about what a tool of the shell refuses. -/
def refuse (line : Nat) (message : String) (status : Nat) : Action Nat := do
  let path := Text.toString (← get).path
  Action.complain (path ++ ": " ++ toString line ++ ": " ++ message)
  return status

def printf (line : Nat) : List Text → Action Nat
  | [] => refuse line "printf: usage: printf format [arg ...]" 2
  | format :: arguments => do
    let p := Shell.printf format arguments
    Action.print p.text
    if p.faulty.isEmpty then return 0
    else
      for s in p.faulty do
        let _ ← refuse line ("printf: " ++ Text.toString s ++ ": expected numeric value") 1
      return 1

/-- Prints the input. -/
def copyInput : Action Nat := do
  let st ← get
  set { st with input := [] }
  wrote st.input

def copyFile (path : Text) : Action Nat := do
  match entryAt (← get) path with
  | some (.file content _) => wrote (Text.ofBytes content)
  | some .directory =>
    Action.complain ("cat: " ++ Text.toString path ++ ": Is a directory")
    return 1
  | none =>
    Action.complain ("cat: " ++ Text.toString path ++ ": No such file or directory")
    return 1

def cat : List Text → Action Nat
  | [] => copyInput
  | paths => do
    let statuses ← paths.mapM fun path => if path = ['-'] then copyInput else copyFile path
    return statuses.foldl max 0

def exit (line : Nat) : List Text → Action Nat
  | [] => do throw (.exited (← get).status)
  | code :: _ =>
    match (String.ofList code).toNat? with
    | some n => throw (.exited (n % 256))
    | none => do
      let _ ← refuse line ("exit: Illegal number: " ++ Text.toString code) 2
      throw (.exited 2)

/-- The number of a signal, by its number or its name. -/
def signal? (s : Text) : Option Nat :=
  match (String.ofList s).toNat? with
  | some n => some n
  | none =>
    let name := String.ofList s
    (ExitStatus.signalNames.findIdx? fun full => full == name || full == "SIG" ++ name).map (· + 1)

def kill (line : Nat) (arguments : List Text) : Action Nat := do
  let (signal, targets) := match arguments with
    | ['-', 's'] :: name :: more => (signal? name, more)
    | ('-' :: name) :: more => (signal? name, more)
    | more => (some 15, more)
  match signal with
  | none => refuse line "kill: invalid signal" 2
  | some n =>
    if targets.contains (toString processNumber).toList then
      if n = 0 then return 0 else throw (.killed n)
    else refuse line "kill: No such process" 1

def condition (line : Nat) (name : String) (arguments : List Text) : Action Nat := do
  match holds? (← get) arguments with
  | some true => return 0
  | some false => return 1
  | none => refuse line (name ++ ": unexpected operator") 2

def bracket (line : Nat) (arguments : List Text) : Action Nat :=
  if arguments.getLast? = some [']'] then condition line "[" arguments.dropLast
  else refuse line "[: missing ]" 2

def shift (line : Nat) (arguments : List Text) : Action Nat := do
  let count := (arguments.head?.bind fun s => (String.ofList s).toNat?).getD 1
  let st ← get
  if st.arguments.length < count then
    let _ ← refuse line "shift: can't shift that many" 2
    throw (.exited 2)
  else
    set { st with arguments := st.arguments.drop count }
    return 0

def assign (name : String) (s : Text) : Action Unit :=
  modify fun st => { st with bindings := Entries.put name s st.bindings }

/-- New arguments for the script. Options have no effect. -/
def setArguments (arguments : List Text) : Action Nat := do
  if arguments.head? = some ['-', '-'] then
    modify fun st => { st with arguments := arguments.drop 1 }
  return 0

/-- Assignments among the arguments. -/
def exportAll (arguments : List Text) : Action Nat := do
  for a in arguments do
    if a.contains '=' then
      assign (String.ofList (a.takeWhile (· ≠ '='))) ((a.dropWhile (· ≠ '=')).drop 1)
  return 0

def unset (names : List Text) : Action Nat := do
  modify fun st =>
    { st with bindings := st.bindings.filter fun (k, _) => !names.contains k.toList }
  return 0

/-- The fields of a line for so many names; the last one takes all that is left. -/
def cutLine : List String → Text → List (String × Text)
  | [], _ => []
  | [name], s => [(name, ((s.dropWhile (· == ' ')).reverse.dropWhile (· == ' ')).reverse)]
  | name :: names, s =>
    let s := s.dropWhile (· == ' ')
    (name, s.takeWhile (· ≠ ' ')) :: cutLine names (s.dropWhile (· ≠ ' '))

/-- Reads a line of the input into variables. There is no more of it if the line does not end. -/
def read (arguments : List Text) : Action Nat := do
  let names := (arguments.filter (·.head? ≠ some '-')).map String.ofList
  let st ← get
  let line := st.input.takeWhile (· ≠ '\n')
  let rest := st.input.dropWhile (· ≠ '\n')
  set { st with input := rest.drop 1 }
  for (name, s) in cutLine names line do
    assign name s
  return if rest.isEmpty then 1 else 0

/-- The characters of a set for `tr`. -/
def charSet : Text → List Char
  | [] => []
  | '\\' :: c :: cs => ((escapedLetter? c).getD c) :: charSet cs
  | a :: '-' :: b :: cs =>
    (List.range' a.toNat (b.toNat + 1 - a.toNat)).map Char.ofNat ++ charSet cs
  | c :: cs => c :: charSet cs

/-- Classes of characters by their names. -/
def classes : List (String × String) :=
  [("[:upper:]", "A-Z"), ("[:lower:]", "a-z"), ("[:digit:]", "0-9"), ("[:alpha:]", "A-Za-z"),
    ("[:alnum:]", "0-9A-Za-z"), ("[:space:]", "\\t\\n\\v\\f\\r ")]

def setOf (s : Text) : List Char :=
  match classes.lookup (String.ofList s) with
  | some ranges => charSet ranges.toList
  | none => charSet s

/-- A character of the first set as the one of the second set in its place, or the last one. -/
def translate (source target : List Char) (c : Char) : Char :=
  match source.idxOf? c with
  | some i => (target[i]?).getD (target.getLast?.getD c)
  | none => c

/-- Lines with their ends. -/
def splitLines : Text → List Text
  | [] => []
  | '\n' :: cs => ['\n'] :: splitLines cs
  | c :: cs =>
    match splitLines cs with
    | [] => [[c]]
    | line :: more => (c :: line) :: more

def tr (arguments : List Text) : Action Nat := do
  let st ← get
  set { st with input := [] }
  match arguments with
  | [['-', 'd'], s] => wrote (st.input.filter fun c => !(setOf s).contains c)
  | [a, b] => wrote (st.input.map (translate (setOf a) (setOf b)))
  | _ =>
    Action.complain "tr: missing operand"
    return 1

def head (arguments : List Text) : Action Nat := do
  let st ← get
  set { st with input := [] }
  let count (s : Text) : Nat := ((String.ofList s).toNat?).getD 0
  let lines (n : Nat) : Text := ((splitLines st.input).take n).flatten
  match arguments with
  | [] => wrote (lines 10)
  | [['-', 'n'], s] => wrote (lines (count s))
  | [['-', 'c'], s] => wrote (st.input.take (count s))
  | ('-' :: s) :: _ => wrote (lines (count s))
  | _ => return 1

/-- Counts lines, words or bytes of the input. -/
def wc (arguments : List Text) : Action Nat := do
  let st ← get
  set { st with input := [] }
  let words := (st.input.splitBy fun a b => a.isWhitespace == b.isWhitespace).filter
    fun w => !(w.all Char.isWhitespace)
  match arguments with
  | [['-', 'l']] => wrote (toString (st.input.count '\n') ++ "\n").toList
  | [['-', 'w']] => wrote (toString words.length ++ "\n").toList
  | [['-', 'c']] => wrote (toString st.input.length ++ "\n").toList
  | _ => return 1

def workingDirectory : Action Nat := do
  wrote (Text.ofString ("/" ++ "/".intercalate (← get).directory ++ "\n"))

def run (line : Nat) (name : Text) (arguments : List Text) : Action Nat :=
  match Text.toString name with
  | ":" => return 0
  | "true" => return 0
  | "false" => return 1
  | "echo" => wrote (echo arguments)
  | "printf" => printf line arguments
  | "cat" => cat arguments
  | "exit" => exit line arguments
  | "kill" => kill line arguments
  | "test" => condition line "test" arguments
  | "[" => bracket line arguments
  | "shift" => shift line arguments
  | "export" => exportAll arguments
  | "unset" => unset arguments
  | "set" => setArguments arguments
  | "read" => read arguments
  | "tr" => tr arguments
  | "head" => head arguments
  | "wc" => wc arguments
  | "sleep" => return 0
  | "pwd" => workingDirectory
  | other => refuse line (other ++ ": not found") 127

/-- Calls a command that is on the given line, perhaps as the last one of the script. -/
def call (line : Nat) (name : Text) (arguments : List Text) : Action Nat := do
  if name = "exec".toList then
    match arguments with
    | [] => return 0
    | name :: arguments => throw (.exited (← run line name arguments))
  else run line name arguments

end Tool

end FieldPatch.Shell
