import FieldPatch.Shell.Script
import FieldPatch.World.Basic

/-! What a script has to do with while it runs. Files are only read. -/

namespace FieldPatch.Shell

structure State where
  path : Text
  /-- How many lines the script has. -/
  lines : Nat
  files : Files
  directory : List String
  bindings : Entries Text
  arguments : List Text
  input : Text
  /-- What was written so far, and where, the last first. -/
  log : List (Stream × Text)
  status : Nat

/-- Something done by a script, which may end it. -/
abbrev Action := EStateM ExitStatus State

def Text.ofBytes (bytes : List UInt8) : Text := bytes.map fun b => Char.ofNat b.toNat

def Text.toBytes (s : Text) : List UInt8 := s.map fun c => c.toNat.toUInt8

def Text.ofString (s : String) : Text := ofBytes (Utf8.encode s)

def Text.toString (s : Text) : String := Utf8.lossy (toBytes s)

/-- The number by which a script knows itself. -/
def processNumber : Nat := 4217

/-- All that was written to a stream. -/
def writtenTo (stream : Stream) (log : List (Stream × Text)) : Text :=
  (log.reverse.filter (·.1 = stream)).flatMap Prod.snd

namespace Action

def write (stream : Stream) (s : Text) : Action Unit :=
  modify fun st => { st with log := (stream, s) :: st.log }

def print (s : Text) : Action Unit := write .output s

def complain (message : String) : Action Unit :=
  write .errors (Text.ofString (message ++ "\n"))

/-- Sends what an action writes elsewhere. -/
def redirect {α : Type} (target : Stream → Stream) (a : Action α) : Action α := fun st =>
  let moved (st' : State) : State :=
    { st' with log := (st'.log.map fun (s, t) => (target s, t)) ++ st.log }
  match a.run { st with log := [] } with
  | .ok x st' => .ok x (moved st')
  | .error e st' => .error e (moved st')

/-- An action that leaves no trace but its output and its status. Only the script as a whole
can be killed. -/
def isolate (a : Action Unit) : Action Unit := fun st =>
  let back (st' : State) (status : Nat) : State :=
    { st with log := st'.log, input := st'.input, status }
  match a.run st with
  | .ok _ st' => .ok () (back st' st'.status)
  | .error (.exited code) st' => .ok () (back st' code)
  | .error e st' => .error e st'

/-- What an action prints. -/
def capture (a : Action Unit) : Action Text := do
  let before := (← get).log
  modify fun st => { st with log := [] }
  isolate a
  let after := (← get).log
  modify fun st => { st with log := after.filter (·.1 ≠ .output) ++ before }
  return writtenTo .output after

/-- An action with another input. -/
def withInput (s : Text) (a : Action Unit) : Action Unit := do
  let before := (← get).input
  modify fun st => { st with input := s }
  a
  modify fun st => { st with input := before }

end Action

end FieldPatch.Shell
