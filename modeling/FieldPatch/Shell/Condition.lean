import FieldPatch.Shell.Printing
import FieldPatch.Shell.State

/-! The conditions of `test`. -/

namespace FieldPatch.Shell

def entryAt (st : State) (path : Text) : Option Entry :=
  match st.files.locate st.directory (Text.toString path) with
  | .ok names => st.files.entry? names
  | .error _ => none

def Entry.isExecutable : Entry → Bool
  | .file _ executable => executable
  | .directory => true

/-- A test of one operand, by its letter. -/
def holdsOf (st : State) (letter : Char) (s : Text) : Option Bool :=
  match letter with
  | 'n' => some !s.isEmpty
  | 'z' => some s.isEmpty
  | 'e' => some (entryAt st s).isSome
  | 'r' => some (entryAt st s).isSome
  | 'w' => some (entryAt st s).isSome
  | 'f' => some ((entryAt st s).any fun e => e != .directory)
  | 'd' => some (entryAt st s == some .directory)
  | 's' => some ((entryAt st s).any fun e => e != .file [] true && e != .file [] false)
  | 'x' => some ((entryAt st s).any Entry.isExecutable)
  | _ => none

def holdsBetween (operator : String) (a b : Text) : Option Bool :=
  let numbers (p : Int → Int → Bool) : Option Bool := do return p (← number? a) (← number? b)
  match operator with
  | "=" => some (a = b)
  | "!=" => some (a ≠ b)
  | "-eq" => numbers (· == ·)
  | "-ne" => numbers (· != ·)
  | "-lt" => numbers (· < ·)
  | "-le" => numbers (· ≤ ·)
  | "-gt" => numbers (· > ·)
  | "-ge" => numbers (· ≥ ·)
  | _ => none

/-- Whether a condition holds, if it is one. -/
def holds? (st : State) : List Text → Option Bool
  | [] => some false
  | [s] => some !s.isEmpty
  | ['!'] :: more => (holds? st more).map not
  | [['-', letter], s] => holdsOf st letter s
  | [a, operator, b] => holdsBetween (String.ofList operator) a b
  | a :: operator :: b :: ['-', 'a'] :: more => do
    return (← holdsBetween (String.ofList operator) a b) && (← holds? st more)
  | _ => none

end FieldPatch.Shell
