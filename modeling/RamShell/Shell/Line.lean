import RamShell.Text.Blank
/-!
# RamShell.Shell.Line

From a line of input to the words of a command. Lines and word counts are bounded: what is past
the bounds is dropped, not refused.
-/

namespace RamShell.Shell

/-- The greatest length of a line in bytes. -/
def maxLineLength : Nat := 512

/-- The greatest number of words on a line, the command name included. -/
def maxWords : Nat := 32

/-- The longest start of a text that takes at most `room` bytes. -/
def takeBytes (room : Nat) : List Char → List Char
  | [] => []
  | c :: cs => if c.utf8Size ≤ room then c :: takeBytes (room - c.utf8Size) cs else []

/-- A line cut to the greatest length, between two characters. -/
def clamp (line : String) : String :=
  String.ofList (takeBytes maxLineLength line.toList)

/-- The words of a line. -/
def tokens (line : String) : List String :=
  (Text.wordsOf (clamp line)).take maxWords

/-- Where the output of `echo` goes. -/
inductive Redirect
  /-- To the console. -/
  | none
  /-- Into a file, in place of what it holds. -/
  | truncate (file : String)
  /-- To the end of a file. -/
  | append (file : String)
  deriving DecidableEq, Repr

/-- The file name after a redirection sign, if there is one. -/
def Redirect.to (make : String → Redirect) : List String → Redirect
  | [] => .none
  | file :: _ => make file

/-- Splits arguments into the words before the first redirection sign and where they go. A sign
without a file name redirects nothing. -/
def Redirect.split : List String → List String × Redirect
  | [] => ([], .none)
  | arg :: rest =>
    if arg = ">" then ([], .to .truncate rest)
    else if arg = ">>" then ([], .to .append rest)
    else
      let (ws, redirect) := Redirect.split rest
      (arg :: ws, redirect)

/-! ### The cut -/

@[simp] theorem takeBytes_nil (room : Nat) : takeBytes room [] = [] := rfl

/-- What is taken is a start of the text. -/
theorem takeBytes_isPrefix (room : Nat) (cs : List Char) : takeBytes room cs <+: cs := by
  induction cs generalizing room with
  | nil => simp
  | cons c cs ih =>
    rw [takeBytes]
    split
    · exact List.cons_prefix_cons.2 ⟨rfl, ih _⟩
    · exact List.nil_prefix

end RamShell.Shell
