/-!
# RamShell.Text.Numeral

Numbers as text, in both directions, and padding to a column.

Readers accept what a user types: an optional sign and at least one digit, with any number of
leading zeros and nothing else. Whether a value is in range is the caller's question.
-/

namespace RamShell.Text

/-- The value of an ASCII digit of the given base, at most ten. -/
def digit? (base : Nat) (c : Char) : Option Nat :=
  if '0' ≤ c ∧ c.toNat - '0'.toNat < base then some (c.toNat - '0'.toNat) else none

/-- The value of a non-empty run of digits. -/
def natOfDigits? (base : Nat) : List Char → Option Nat
  | [] => none
  | cs => (cs.mapM (digit? base)).map (·.foldl (fun n d => n * base + d) 0)

/-- A number with an optional plus sign. -/
def readNat? (base : Nat) (s : String) : Option Nat :=
  match s.toList with
  | '+' :: cs => natOfDigits? base cs
  | cs => natOfDigits? base cs

/-- A decimal number with an optional plus or minus sign. -/
def readInt? (s : String) : Option Int :=
  match s.toList with
  | '-' :: cs => (natOfDigits? 10 cs).map fun n => -(n : Int)
  | _ => (readNat? 10 s).map Int.ofNat

/-- The decimal digits of a number. -/
def decimal (n : Nat) : String :=
  String.ofList (Nat.toDigits 10 n)

/-- The octal digits of a number. -/
def octal (n : Nat) : String :=
  String.ofList (Nat.toDigits 8 n)

/-- The decimal digits of an integer, after a minus sign if it is negative. -/
def signedDecimal (i : Int) : String :=
  if i < 0 then "-" ++ decimal i.natAbs else decimal i.natAbs

/-- A text padded on its left to a width in characters. -/
def padLeft (width : Nat) (fill : Char) (s : String) : String :=
  String.ofList (List.replicate (width - s.length) fill) ++ s

/-- A text padded with spaces on its right to a width in characters. -/
def padRight (width : Nat) (s : String) : String :=
  s ++ String.ofList (List.replicate (width - s.length) ' ')

end RamShell.Text
