import TypedExports.Text.Basic

/-!
# Timestamps

A local date and time, written `YYYY-MM-DD hh:mm:ss`. A year outside 0 to 9999 is written with its
sign. A leap second is the second before it with a billion nanoseconds or more, and is written as
the next second.
-/

namespace TypedExports

structure Timestamp where
  year : Int
  month : Nat
  day : Nat
  hour : Nat
  minute : Nat
  second : Nat
  nanosecond : Nat := 0
  deriving DecidableEq, Repr

namespace Timestamp

/-- A number in decimal, with leading zeros up to the given width. -/
def padded (width n : Nat) : Text := (Nat.toDigits 10 n).leftpad width '0'

/-- A year: four digits, or a sign and at least four. -/
def yearText (year : Int) : Text :=
  if 0 ≤ year ∧ year ≤ 9999 then padded 4 year.toNat
  else (if year < 0 then '-' else '+') :: padded 4 year.natAbs

def shownSecond (t : Timestamp) : Nat := t.second + t.nanosecond / 1000000000

def text (t : Timestamp) : Text :=
  yearText t.year ++ '-' :: padded 2 t.month ++ '-' :: padded 2 t.day ++
    ' ' :: padded 2 t.hour ++ ':' :: padded 2 t.minute ++ ':' :: padded 2 t.shownSecond

example : text ⟨2025, 3, 14, 9, 26, 53, 0⟩ = "2025-03-14 09:26:53".toList := by decide

/-- Years before the common era and beyond four digits carry a sign; a leap second shows. -/
example : text ⟨-1, 12, 31, 23, 59, 59, 1000000000⟩ = "-0001-12-31 23:59:60".toList ∧
    yearText 10000 = "+10000".toList := by decide

end Timestamp

end TypedExports
