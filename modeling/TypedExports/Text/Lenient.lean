import TypedExports.Text.Encoding

/-!
# Bytes that need not be a text

Where any bytes have to be shown, those that belong to no character are replaced. A character that
breaks off is replaced as a whole, and so is each byte that starts none.
-/

namespace TypedExports.Text

def replacement : Char := '\ufffd'

/-- A character of which some bytes have been read. The second byte of some characters has narrower
bounds than the others: no number is spelled with more bytes than it needs, none that is kept out of
the code points is spelled at all, and none is too large. -/
structure Unfinished where
  bits : Nat
  missing : Nat
  least : Nat := 0x80
  greatest : Nat := 0xBF

def readFirst (octet : Nat) : Text × Option Unfinished :=
  if octet < 0x80 then ([Char.ofNat octet], none)
  else if octet < 0xC2 then ([replacement], none)
  else if octet < 0xE0 then ([], some { bits := octet - 0xC0, missing := 1 })
  else if octet = 0xE0 then ([], some { bits := 0, missing := 2, least := 0xA0 })
  else if octet = 0xED then ([], some { bits := 0xD, missing := 2, greatest := 0x9F })
  else if octet < 0xF0 then ([], some { bits := octet - 0xE0, missing := 2 })
  else if octet = 0xF0 then ([], some { bits := 0, missing := 3, least := 0x90 })
  else if octet < 0xF4 then ([], some { bits := octet - 0xF0, missing := 3 })
  else if octet = 0xF4 then ([], some { bits := 4, missing := 3, greatest := 0x8F })
  else ([replacement], none)

/-- Reads an octet: what is shown for it and for what it breaks off, and what is unfinished then. -/
def readOctet : Option Unfinished → Nat → Text × Option Unfinished
  | none, octet => readFirst octet
  | some u, octet =>
    if u.least ≤ octet ∧ octet ≤ u.greatest then
      let bits := u.bits * 64 + octet % 64
      if u.missing = 1 then ([Char.ofNat bits], none)
      else ([], some { bits, missing := u.missing - 1 })
    else
      let (shown, next) := readFirst octet
      (replacement :: shown, next)

def ofOctets : Option Unfinished → List Nat → Text
  | u, [] => if u.isSome then [replacement] else []
  | u, octet :: octets => (readOctet u octet).1 ++ ofOctets (readOctet u octet).2 octets

/-- The text that the bytes are shown as. -/
def ofBytes (bytes : Bytes) : Text := ofOctets none (bytes.map UInt8.toNat)

example : ofBytes [0x61, 0xE2, 0x82, 0x62, 0xC0, 0xED, 0xA0, 0xF0, 0x9F] =
    ['a', replacement, 'b', replacement, replacement, replacement, replacement] := by decide

end TypedExports.Text
