import FieldPatch.Path

/-! Patterns of paths: `*` and `?` stay within one name, `**` does not. A pattern stands for a
regular expression between `^` and `$` that has one fragment for each of its items. -/

namespace FieldPatch.Path

inductive Wildcard where
  /-- `**`, for the fragment `.*`, whose dot is any character but a line feed. -/
  | anywhere
  /-- `*`, for the fragment `[^/]*`. -/
  | withinName
  /-- `?`, for the fragment `[^/]`, which a line feed matches too. -/
  | oneChar
  /-- A character that stands for itself, escaped where that is needed. -/
  | char (c : Char)
  deriving DecidableEq

abbrev Pattern := List Wildcard

def Pattern.ofChars : List Char → Pattern
  | '*' :: '*' :: cs => .anywhere :: ofChars cs
  | '*' :: cs => .withinName :: ofChars cs
  | '?' :: cs => .oneChar :: ofChars cs
  | c :: cs => .char c :: ofChars cs
  | [] => []

/-- For each suffix of a text, from the whole text to the empty one, whether it starts with a
character in `p` and `next` says so of what is behind it. -/
def oneChar (p : Char → Bool) : List Char → List Bool → List Bool
  | c :: cs, _ :: next => (p c && next.headD false) :: oneChar p cs next
  | _, _ => [false]

/-- For each suffix whether `next` says so of what is left behind some characters that are all
in `p`. -/
def someChars (p : Char → Bool) : List Char → List Bool → List Bool
  | c :: cs, here :: next =>
    let later := someChars p cs next
    (here || (p c && later.headD false)) :: later
  | _, next => next

/-- For each suffix of a text whether the pattern accepts it: whether it is a word of the regular
expression. In which order repetitions are tried makes no difference to that. -/
def Pattern.acceptsSuffixes (cs : List Char) : Pattern → List Bool
  | [] => cs.map (fun _ => false) ++ [true]
  | .anywhere :: ws => someChars (· != '\n') cs (acceptsSuffixes cs ws)
  | .withinName :: ws => someChars (· != '/') cs (acceptsSuffixes cs ws)
  | .oneChar :: ws => oneChar (· != '/') cs (acceptsSuffixes cs ws)
  | .char c :: ws => oneChar (· == c) cs (acceptsSuffixes cs ws)

def Pattern.accepts (pattern : Pattern) (cs : List Char) : Bool :=
  (pattern.acceptsSuffixes cs).headD false

/-- Whether a path fits a pattern: by its whole text if the pattern has a slash, else by its file
name. The empty pattern fits all. -/
def fits (pattern path : String) : Bool :=
  if pattern.isEmpty then true
  else
    let subject := if pattern.contains '/' then some path else fileName? path
    subject.any fun s => (Pattern.ofChars pattern.toList).accepts s.toList

end FieldPatch.Path
