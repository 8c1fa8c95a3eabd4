/-! What can be asked for on the command line, read off its arguments. Options may stand anywhere in
front of `--`, each of them once. -/

namespace FieldPatch

inductive Request where
  /-- Print the value that a selector leads to. -/
  | get (file selector : String) (format : Option String)
  /-- Write a value at the place of a selector. -/
  | set (file selector value : String) (format : Option String) (inPlace : Bool)
  /-- Print what a source comes to. -/
  | eval (config : String) (document home : Option String)
  /-- Carry out changes. -/
  | apply (config file : String) (tag : Option String) (inPlace : Bool) (home : Option String)
  deriving DecidableEq

inductive Operand where
  | text
  /-- The path of a file, which is not empty. -/
  | path
  deriving DecidableEq

def Operand.allows (o : Operand) (value : String) : Bool := o = .text || !value.isEmpty

structure Switch where
  long : String
  short : Option Char
  /-- What follows, if anything does. -/
  value : Option Operand

structure Form where
  name : String
  operands : List Operand
  switches : List Switch

/-- Why there is no request. -/
inductive Refusal where
  | misuse
  | help
  | version

namespace Form

def inputFormat : Switch := ⟨"input-format", some 'p', some .text⟩

def inPlace : Switch := ⟨"in-place", some 'i', none⟩

def cloudHome : Switch := ⟨"cloud-home", none, some .path⟩

def all : List Form := [
  ⟨"get", [.path, .text], [inputFormat]⟩,
  ⟨"set", [.path, .text, .text], [inputFormat, inPlace]⟩,
  ⟨"eval", [.path], [⟨"document", none, some .path⟩, cloudHome]⟩,
  ⟨"apply", [.path, .path], [⟨"tag", none, some .text⟩, inPlace, cloudHome]⟩]

end Form

/-- What was given so far. -/
structure Given where
  operands : List String
  /-- Options by their long names; those without a value have an empty one. -/
  switches : List (String × String)

namespace Given

def value? (g : Given) (long : String) : Option String := g.switches.lookup long

def has (g : Given) (long : String) : Bool := (g.value? long).isSome

def addSwitch (g : Given) (s : Switch) (value : String) : Except Refusal Given :=
  if g.has s.long || !(s.value.all fun o => o.allows value) then .error .misuse
  else .ok { g with switches := g.switches ++ [(s.long, value)] }

def addOperand (form : Form) (g : Given) (value : String) : Except Refusal Given :=
  match form.operands[g.operands.length]? with
  | some o =>
    if o.allows value then .ok { g with operands := g.operands ++ [value] } else .error .misuse
  | none => .error .misuse

/-- An argument behind two dashes, and the option that waits for a value after it. -/
def addLong (form : Form) (g : Given) (cs : List Char) : Except Refusal (Given × Option Switch) :=
  let name := String.ofList (cs.takeWhile (· ≠ '='))
  let attached := match cs.dropWhile (· ≠ '=') with
    | _ :: value => some (String.ofList value)
    | [] => none
  match form.switches.find? (·.long = name), attached with
  | some s, some value =>
    if s.value.isSome then do return (← g.addSwitch s value, none) else .error .misuse
  | some s, none =>
    if s.value.isSome then .ok (g, some s) else do return (← g.addSwitch s "", none)
  | none, none => .error (if name = "help" then .help else .misuse)
  | none, some _ => .error .misuse

/-- An argument of one-letter options behind a dash. A value may follow its letter at once. -/
def addShort (form : Form) (g : Given) : List Char → Except Refusal (Given × Option Switch)
  | [] => .ok (g, none)
  | c :: cs =>
    match form.switches.find? (·.short = some c) with
    | none => .error (if c = 'h' then .help else .misuse)
    | some s =>
      if s.value.isSome then
        match cs with
        | [] => .ok (g, some s)
        | '=' :: value => do return (← g.addSwitch s (String.ofList value), none)
        | value => do return (← g.addSwitch s (String.ofList value), none)
      else do addShort form (← g.addSwitch s "") cs

/-- Reads arguments, while an option may wait for its value. -/
def read (form : Form) : Given → Option Switch → List String → Except Refusal Given
  | g, none, [] => .ok g
  | _, some _, [] => .error .misuse
  | g, waiting, a :: more =>
    match a.toList, waiting with
    | ['-', '-'], none => more.foldlM (addOperand form) g
    | '-' :: '-' :: cs, none => do
      let (g, waiting) ← g.addLong form cs
      read form g waiting more
    | '-' :: c :: cs, none => do
      let (g, waiting) ← g.addShort form (c :: cs)
      read form g waiting more
    | '-' :: _ :: _, some _ => .error .misuse
    | _, some s => do read form (← g.addSwitch s a) none more
    | _, none => do read form (← g.addOperand form a) none more

/-- The request of a command, if it has all its operands. -/
def request? (command : String) (g : Given) : Option Request :=
  match command, g.operands with
  | "get", [file, selector] => some (.get file selector (g.value? "input-format"))
  | "set", [file, selector, value] =>
    some (.set file selector value (g.value? "input-format") (g.has "in-place"))
  | "eval", [config] => some (.eval config (g.value? "document") (g.value? "cloud-home"))
  | "apply", [config, file] =>
    some (.apply config file (g.value? "tag") (g.has "in-place") (g.value? "cloud-home"))
  | _, _ => none

end Given

namespace Request

/-- What is asked in front of all commands. -/
def general (cs : List Char) : Refusal :=
  match cs with
  | 'h' :: _ => .help
  | 'V' :: _ => .version
  | ['-', 'h', 'e', 'l', 'p'] => .help
  | ['-', 'v', 'e', 'r', 's', 'i', 'o', 'n'] => .version
  | _ => .misuse

def isCommand (name : String) : Bool := name = "help" || Form.all.any (·.name = name)

def ofArguments : List String → Except Refusal Request
  | [] => .error .misuse
  | "help" :: names => .error (if names.all isCommand && names.length ≤ 1 then .help else .misuse)
  | name :: more =>
    match Form.all.find? (·.name = name) with
    | none =>
      match name.toList with
      | '-' :: cs => .error (general cs)
      | _ => .error .misuse
    | some form => do
      match (← Given.read form ⟨[], []⟩ none more).request? form.name with
      | some r => return r
      | none => throw .misuse

end Request

end FieldPatch
