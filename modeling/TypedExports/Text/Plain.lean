import TypedExports.Text.Basic

/-!
# Plain text

A text that is shown where no terminal may be told anything loses its control characters and its
escape sequences. A sequence is made of printable ASCII characters, and other characters that stand
in it vanish with it. Only the white space among the controls stays. It interrupts a sequence: what
follows it is shown until another control leads back into the sequence or a character outside ASCII
does away with it. A string, which an escape sequence may open, swallows everything up to its end.

Each text is made plain on its own. What it leaves open ends with it.

Strings are read as bytes. A character outside ASCII ends one if the terminator is among its bytes,
and it never ends a sequence.
-/

namespace TypedExports.Text

/-- Where a reader of terminal text is. The first character from `final` on ends a sequence, the
first one after `last` the header of a string. -/
inductive Phase where
  | text
  | escape
  | sequence (final : Char)
  | header (last : Char)
  | string
  | command
  | interrupted (phase : Phase)
  deriving DecidableEq, Repr

def isSpacing (c : Char) : Bool :=
  c = '\t' || c = '\n' || c = '\x0c' || c = '\r'

def isControl (c : Char) : Bool := c.toNat < 0x20 || c.toNat = 0x7F

def isPrintable (c : Char) : Bool := ' ' ≤ c && c ≤ '~'

def terminator : UInt8 := 0x9C

def isTerminator (c : Char) : Bool := (String.utf8EncodeChar c).contains terminator

/-- What the first printable character behind the escape character opens. -/
def Phase.opened (c : Char) : Phase :=
  if c = '[' then .sequence '@'
  else if c ≤ '/' then .sequence '0'
  else if c = 'P' then .header '?'
  else if c = 'X' || c = '^' || c = '_' then .string
  else if c = ']' then .command
  else .text

/-- Where a header goes on. It has parameters and then intermediates, and whatever is out of order
or neither of the two belongs to the string. -/
def Phase.headed (last c : Char) : Phase :=
  if last < c then .string
  else if c ≤ '/' then .header '/'
  else .header ';'

/-- Reads a character: where the reader is then, and whether the character is shown. -/
def Phase.read (phase : Phase) (c : Char) : Phase × Bool :=
  if c = '\x1b' then (.escape, false)
  else if c = '\x18' || c = '\x1a' then (.text, false)
  else
    match phase with
    | .text => (.text, isSpacing c || !isControl c)
    | .escape =>
      if isSpacing c then (.interrupted .escape, true)
      else (if isPrintable c then .opened c else .escape, false)
    | .sequence final =>
      if isSpacing c then (.interrupted (.sequence final), true)
      else (if isPrintable c && final ≤ c then .text else .sequence final, false)
    | .header last => (if isPrintable c then .headed last c else .header last, false)
    | .string => (if isTerminator c then .text else .string, false)
    | .command => (if c = '\x07' then .text else .command, false)
    | .interrupted phase =>
      if isSpacing c || isPrintable c then (.interrupted phase, true)
      else if isControl c then (phase, false)
      else (.text, true)

def plainFrom (phase : Phase) : Text → Text
  | [] => []
  | c :: s =>
    let (next, shown) := phase.read c
    if shown then c :: plainFrom next s else plainFrom next s

def plain (s : Text) : Text := plainFrom .text s

example : plain "a\x1b[31mb\x01c\x7f\td".toList = "abc\td".toList ∧
    plain "\x1b(0e\x1b]0;title\x07f".toList = "ef".toList := by decide

example : plain "\x1b[1;émx".toList = ['x'] ∧ plain "\x1b^圜x".toList = ['x'] ∧
    plain "\x1b^éx".toList = [] := by decide

/-- What follows the line feed is shown up to the control; then the sequence goes on. -/
example : plain "\x1b[3\n1m\x011mx".toList = "\n1mx".toList := by decide

end TypedExports.Text
