import RamShell.Shell.Script
import RamShell.Text.Numeral
/-!
# RamShell.Shell.Command.Calculator

The integer calculator. It works on signed 64-bit integers and refuses whatever leaves their
range; it never wraps around. Division cuts off toward zero, and the remainder has the sign of
the dividend.
-/

namespace RamShell.Shell.Command

open Script (sayIn)

/-- The least number the calculator knows. -/
def leastNumber : Int := -0x8000000000000000

/-- The greatest number the calculator knows. -/
def greatestNumber : Int := 0x7FFFFFFFFFFFFFFF

/-- Whether the calculator knows a number. -/
def inRange (i : Int) : Bool := decide (leastNumber ≤ i ∧ i ≤ greatestNumber)

/-- The number that a word denotes. -/
def number? (word : String) : Option Int :=
  (Text.readInt? word).filter inRange

/-- Why a calculation failed. -/
inductive Miscalculation
  /-- A word is no number, or one out of range. -/
  | malformed (word : String)
  /-- A word is no operator. -/
  | unknownOperator (word : String)
  /-- The divisor is zero. -/
  | divisionByZero
  /-- The result is out of range. -/
  | overflow
  deriving DecidableEq, Repr

/-- The wording of a failed calculation. -/
def Miscalculation.message : Miscalculation → String
  | malformed word => word
  | unknownOperator word => "unknown operator '" ++ word ++ "'"
  | divisionByZero => "division by zero"
  | overflow => "overflow"

/-- A result, if the calculator knows it. -/
def bounded (i : Int) : Except Miscalculation Int :=
  if inRange i then .ok i else .error .overflow

/-- A quotient or remainder. Both are out of range exactly if the quotient is. -/
def divide (a b result : Int) : Except Miscalculation Int :=
  if b = 0 then .error .divisionByZero
  else (bounded (a.tdiv b)).map fun _ => result

/-- The result of an operation on two numbers. -/
def compute (a : Int) (op : String) (b : Int) : Except Miscalculation Int :=
  if op = "+" then bounded (a + b)
  else if op = "-" then bounded (a - b)
  else if op = "*" ∨ op = "x" then bounded (a * b)
  else if op = "/" then divide a b (a.tdiv b)
  else if op = "%" then divide a b (a.tmod b)
  else .error (.unknownOperator op)

/-- A calculation as it was typed: both numbers and the result. -/
def calculate (a op b : String) : Except Miscalculation (Int × Int × Int) :=
  match number? a with
  | none => .error (.malformed a)
  | some x =>
    match number? b with
    | none => .error (.malformed b)
    | some y => (compute x op y).map fun z => (x, y, z)

/-- Calculates. -/
def calculator : Handler := fun _ args =>
  match args with
  | [a, op, b] =>
    match calculate a op b with
    | .error e => [.fail (.invalid e.message)]
    | .ok (x, y, z) =>
      sayIn .lightGreen
        [Text.signedDecimal x, " ", op, " ", Text.signedDecimal y, " = ",
          Text.signedDecimal z, "\n"]
  | _ => [.fail (.usage .calculate)]

end RamShell.Shell.Command
