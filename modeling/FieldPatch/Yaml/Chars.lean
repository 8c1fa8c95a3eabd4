/-! The character classes of YAML text. -/

namespace FieldPatch.Yaml

/-- Characters that may stand in a stream. -/
def isAllowed (c : Char) : Bool :=
  let n := c.toNat
  n == 0x09 || n == 0x0A || n == 0x0D || (0x20 ≤ n && n ≤ 0x7E) || n == 0x85 ||
    (0xA0 ≤ n && n ≤ 0xD7FF) || (0xE000 ≤ n && n ≤ 0xFFFD) || 0x10000 ≤ n

def byteOrderMark : Char := '\ufeff'

/-- Line breaks, each of them one character; a carriage return and a line feed together are
one break, too. -/
def isBreak (c : Char) : Bool :=
  c == '\n' || c == '\r' || c == '\u0085' || c == '\u2028' || c == '\u2029'

def isWhite (c : Char) : Bool := c == ' ' || c == '\t'

/-- Characters between words. -/
def isGap (c : Char) : Bool := isWhite c || isBreak c

/-- Whether a word ends here: at white space, a line break or the end of the text. -/
def endsWord (cs : List Char) : Bool := cs.head?.all isGap

/-- Characters of anchors and of tag handles. -/
def isNameChar (c : Char) : Bool := c.isAlphanum || c == '_' || c == '-'

/-- Characters of a tag, apart from escapes. -/
def isTagChar (c : Char) : Bool := isNameChar c || ";/?:@&=+$.!~*'()".contains c

/-- Characters with which no plain scalar starts. -/
def isIndicator (c : Char) : Bool := "-?:,[]\x7b\x7d#&*!|>'\"%@\x60".contains c

/-- The brackets and the comma of flow collections. -/
def isFlowIndicator (c : Char) : Bool := ",[]\x7b\x7d".contains c

end FieldPatch.Yaml
