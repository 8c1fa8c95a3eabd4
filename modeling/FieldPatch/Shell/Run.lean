import FieldPatch.Shell.Fields
import FieldPatch.Shell.Reader
import FieldPatch.Shell.Tool

/-! Scripts run: words expanded, simple commands called, and their status followed. -/

namespace FieldPatch.Shell

def valueOf (st : State) : Parameter → Option Text
  | .variable name => Entries.get? name st.bindings
  | .argument 0 => some st.path
  | .argument (n + 1) => st.arguments[n]?
  | .arguments _ => if st.arguments.isEmpty then none else some (joinWith [' '] st.arguments)
  | .count => some (toString st.arguments.length).toList
  | .status => some (toString st.status).toList
  | .process => some (toString processNumber).toList

def fragment (quoted : Bool) (s : Text) : Fragment := if quoted then .solid s else .loose s

/-- The fragments of a value. All arguments are as many fields, unless they are joined between
quotes. -/
def fragmentsOf (st : State) (quoted : Bool) : Parameter → List Fragment
  | .arguments joined =>
    if joined && quoted then [.solid (joinWith [' '] st.arguments)]
    else (st.arguments.map (fragment quoted)).intersperse .gap
  | p => [fragment quoted ((valueOf st p).getD [])]

def withoutNewlines (s : Text) : Text := (s.reverse.dropWhile (· == '\n')).reverse

/-- Where the streams lead. -/
structure Channels where
  target : Stream → Stream
  input : Option Text

def Channels.plain : Channels := ⟨id, none⟩

/-- What a simple command consists of, once it is expanded. -/
structure Expanded where
  fields : List Text
  assignments : List (String × Text)
  /-- Where the streams lead, or the message about a file that cannot be opened. -/
  channels : Except String Channels

def Expanded.empty : Expanded := ⟨[], [], .ok .plain⟩

def readFrom (st : State) (path : Text) (c : Channels) : Except String Channels :=
  match entryAt st path with
  | some (.file content _) => .ok { c with input := some (Text.ofBytes content) }
  | some .directory => .ok { c with input := some [] }
  | none =>
    if path = "/dev/null".toList then .ok { c with input := some [] }
    else .error ("cannot open " ++ Text.toString path ++ ": No such file")

def writeTo (stream : Stream) (path : Text) (c : Channels) : Except String Channels :=
  let lead (s : Stream) : Except String Channels :=
    .ok { c with target := fun t => if t = stream then s else c.target t }
  match Text.toString path with
  | "/dev/null" => lead .nowhere
  | "/dev/stdout" => lead (c.target .output)
  | "/dev/stderr" => lead (c.target .errors)
  | other => .error ("cannot create " ++ other ++ ": Permission denied")

def copyTo (stream target : Stream) (c : Channels) : Channels :=
  { c with target := fun t => if t = stream then c.target target else c.target t }

/-- The line of a command behind which the script has so many more. -/
def lineOf (linesBehind : Nat) : Action Nat := do
  return (← get).lines - linesBehind

def setStatus (status : Nat) : Action Unit := modify fun st => { st with status }

/-- An action with its streams redirected. -/
def through (line : Nat) (channels : Except String Channels) (a : Action Unit) : Action Unit :=
  match channels with
  | .ok c => Action.redirect c.target (c.input.elim a fun s => Action.withInput s a)
  | .error message => do setStatus (← Tool.refuse line message 2)

/-- Gives a variable the value it had among others. -/
def restore (before : Entries Text) (name : String) : Action Unit :=
  match Entries.get? name before with
  | some s => Tool.assign name s
  | none => modify fun st => { st with bindings := st.bindings.filter (·.1 ≠ name) }

/-- Calls what an expanded command names; its assignments hold no longer than the call. Without a
name they stay. -/
def perform (line : Nat) (e : Expanded) : Action Unit := do
  let before := (← get).bindings
  for (name, s) in e.assignments do
    Tool.assign name s
  match e.fields with
  | [] => through line e.channels (setStatus 0)
  | name :: arguments =>
    through line e.channels (do setStatus (← Tool.call line name arguments))
    for (name, _) in e.assignments do
      restore before name

/-- The body of a loop for each value in turn. -/
def loop (name : String) (body : Action Unit) : List Text → Action Unit
  | [] => return
  | v :: vs => do
    Tool.assign name v
    body
    loop name body vs

/-- A body run as long as a condition comes to `holds`, at most so many times. -/
def repeated (holds : Bool) (condition body : Action Unit) : Nat → Action Unit
  | 0 => return
  | fuel + 1 => do
    condition
    if ((← get).status = 0) = holds then
      body
      repeated holds condition body fuel
    else setStatus 0

/-- No loop runs more often. -/
def mostRuns : Nat := 1000000

mutual

def Word.expand : Word → Action (List Fragment)
  | .done => return []
  | .text s rest => do return .solid s :: (← rest.expand)
  | .value quoted p rest => do return fragmentsOf (← get) quoted p ++ (← rest.expand)
  | .valueOr quoted p orEmpty fallback rest => do
    let st ← get
    let given := (valueOf st p).any fun v => !(v.isEmpty && orEmpty)
    let here ← if given then pure (fragmentsOf st quoted p) else fallback.expand
    return here ++ (← rest.expand)
  | .output quoted c rest => do
    let s ← Action.capture c.run
    return fragment quoted (withoutNewlines s) :: (← rest.expand)
  | .arithmetic expression rest => do
    let st ← get
    match Arithmetic.value? (fun name => (Entries.get? name st.bindings).getD []) expression with
    | some x => return .solid (toString x).toList :: (← rest.expand)
    | none => throw (.exited (← Tool.refuse 0 "arithmetic expression" 2))

/-- Adds the parts to those that are expanded already. -/
def Parts.expand : Parts → Expanded → Action Expanded
  | .done, e => return e
  | .word w rest, e => do
    rest.expand { e with fields := e.fields ++ fieldsOf (← w.expand) }
  | .assignment name w rest, e => do
    rest.expand { e with assignments := e.assignments ++ [(name, joined (← w.expand))] }
  | .readFrom w rest, e => do
    let path := joined (← w.expand)
    let st ← get
    rest.expand { e with channels := e.channels >>= readFrom st path }
  | .writeTo stream w rest, e => do
    let path := joined (← w.expand)
    rest.expand { e with channels := e.channels >>= writeTo stream path }
  | .copyTo stream target rest, e =>
    rest.expand { e with channels := e.channels.map (copyTo stream target) }

def Command.run : Command → Action Unit
  | .nothing => return
  | .simple linesBehind parts => do
    perform (← lineOf linesBehind) (← parts.expand .empty)
  | .sequence a b => do
    a.run
    b.run
  | .both a b => do
    a.run
    if (← get).status = 0 then b.run
  | .either a b => do
    a.run
    if (← get).status ≠ 0 then b.run
  | .negated c => do
    c.run
    setStatus (if (← get).status = 0 then 1 else 0)
  | .pipe a b => do
    let s ← Action.capture a.run
    Action.isolate (Action.withInput s b.run)
  | .choice condition yes no => do
    condition.run
    if (← get).status = 0 then yes.run
    else
      setStatus 0
      no.run
  | .each name values body => do
    loop name body.run (← values.expand .empty).fields
  | .repeated holds condition body => repeated holds condition.run body.run mostRuns
  | .isolated c => Action.isolate c.run
  | .redirected c parts => do
    let e ← parts.expand .empty
    through 0 e.channels c.run

end

/-- A script about to run, with the variables that every script has. -/
def start (files : Files) (i : Invocation) : State :=
  let directory := "/" ++ "/".intercalate i.directory
  let given := [("PATH", "/usr/bin:/bin"), ("PWD", directory)] ++ i.environment
  { path := Text.ofString i.path
    lines := (Text.ofBytes i.program).count '\n' + 1
    files
    directory := i.directory
    bindings := (Entries.ofPairs given).map fun (k, v) => (k, Text.ofString v)
    arguments := i.arguments.map Text.ofString
    input := Text.ofBytes i.input
    log := []
    status := 0 }

/-- The script that a program text holds, or one that only says that there is none. -/
def scriptOf (program : Text) : Action Unit :=
  match read? program with
  | some c => c.run
  | none => do setStatus (← Tool.refuse 1 "Syntax error" 2)

def ending (status : ExitStatus) (st : State) : Ending :=
  { status
    output := Text.toBytes (writtenTo .output st.log)
    errors := Text.toBytes (writtenTo .errors st.log) }

/-- What running a script leaves behind. -/
def run (files : Files) (i : Invocation) : Ending :=
  match (scriptOf (Text.ofBytes i.program)).run (start files i) with
  | .ok _ st => ending (.exited st.status) st
  | .error status st => ending status st

end FieldPatch.Shell
