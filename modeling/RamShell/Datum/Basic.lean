/-!
# RamShell.Datum.Basic

Records as data: the tree in which settings, limits and entries are kept outside the program.

Reading is strict about what is there and lenient about what is more: every field has to be
present and in range, and fields that are not asked for do not matter. A record may also be given
as the plain list of its fields, and a bare variant as a record with that one name and nothing in
it.
-/

namespace RamShell

/-- A tree of data. -/
inductive Datum
  /-- Nothing. -/
  | null
  /-- Yes or no. -/
  | bool (b : Bool)
  /-- A whole number. -/
  | int (i : Int)
  /-- A number that is not written as a whole one. -/
  | real
  /-- A text. -/
  | text (s : String)
  /-- Data in order. -/
  | list (items : List Datum)
  /-- Data by name. -/
  | record (fields : List (String × Datum))
  deriving Inhabited

namespace Datum

/-- A count as a datum. -/
def ofNat (n : Nat) : Datum := .int n

/-- A count below a bound. -/
def nat? (bound : Nat) : Datum → Option Nat
  | .int i => if 0 ≤ i ∧ i.toNat < bound then some i.toNat else none
  | _ => none

/-- A count, an offset or a tick, which has 64 bits. -/
def size? : Datum → Option Nat := nat? 0x10000000000000000

/-- Yes or no. -/
def bool? : Datum → Option Bool
  | .bool b => some b
  | _ => none

/-- A text. -/
def text? : Datum → Option String
  | .text s => some s
  | _ => none

/-- A list of texts. -/
def texts? : Datum → Option (List String)
  | .list items => items.mapM text?
  | _ => none

/-- The fields with the given names, in the order of the names. -/
def fields? (names : List String) : Datum → Option (List Datum)
  | .record fields => names.mapM (fields.lookup ·)
  | .list items => if items.length = names.length then some items else none
  | _ => none

/-- The variant with the label that stands in the datum. -/
def variant? {α : Type} (variants : List α) (label : α → String) : Datum → Option α
  | .text s => variants.find? (label · == s)
  | .record [(s, .null)] => variants.find? (label · == s)
  | _ => none

end Datum

end RamShell
