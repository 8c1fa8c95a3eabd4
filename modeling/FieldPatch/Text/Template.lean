import FieldPatch.Tree.Entries

/-! Templates: `${name}` and `$name` stand for the values of declared names. At each place the names
are tried in one order, and the first that fits is taken. Pairs of dollar signs that are left come
to one. -/

namespace FieldPatch.Template

abbrev Variables := Entries String

def valueIn (vars : Variables) (name : String) : String := (Entries.get? name vars).getD ""

/-- Whether a name is tried before another one: the one of more bytes is. -/
def precedes (a b : String) : Bool :=
  b.utf8ByteSize < a.utf8ByteSize || (a.utf8ByteSize == b.utf8ByteSize && a ≤ b)

/-- The names that placeholders can have, in the order in which they are tried. -/
def alternatives (vars : Variables) : List String :=
  ((Entries.keys vars).filter (· ≠ "")).mergeSort precedes

/-- The first name that stands here between `before` and `after`. -/
def firstFit (before after : List Char) (names : List String) (cs : List Char) : Option String :=
  names.find? fun name => (before ++ name.toList ++ after).isPrefixOf cs

/-- The name in the placeholder at the start of the text, and how many characters the placeholder
takes. A bare name is tried only where none in braces fits. -/
def placeholder (names : List String) (cs : List Char) : Option (String × Nat) :=
  match firstFit ['$', '\x7b'] ['\x7d'] names cs with
  | some name => some (name, name.length + 3)
  | none => (firstFit ['$'] [] names cs).map fun name => (name, name.length + 1)

/-- The text with its placeholders replaced, once the next `skip` characters are passed over. -/
def substitute (vars : Variables) (names : List String) : Nat → List Char → List Char
  | _, [] => []
  | skip + 1, _ :: cs => substitute vars names skip cs
  | 0, c :: cs =>
    match placeholder names (c :: cs) with
    | some (name, width) => (valueIn vars name).toList ++ substitute vars names (width - 1) cs
    | none => c :: substitute vars names 0 cs

/-- Each pair of dollar signs as one. -/
def collapse : List Char → List Char
  | '$' :: '$' :: cs => '$' :: collapse cs
  | c :: cs => c :: collapse cs
  | [] => []

def render (template : String) (vars : Variables) : String :=
  String.ofList (collapse (substitute vars (alternatives vars) 0 template.toList))

end FieldPatch.Template
