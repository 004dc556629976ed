import RamShell.Proofs.Shell.Words
/-!
# RamShell.Proofs.Shell.Redirection

Where the output of `echo` goes. The first redirection sign among the arguments decides, by its kind
and by its place: the arguments in front of it are the text, the one behind it names the file, and
nothing that follows counts. So a sign may well be the name of a file, and a sign that nothing
follows redirects nothing, though it ends the text.

A split passes over words that are no signs (`split_append`) and looks no further than to the
argument behind the first sign (`split_append_sign`). In terms of places this is
`split_of_firstSign`. The main statement is `first_sign_redirects`.
-/

namespace RamShell.Shell

namespace Redirect

variable {args ws : List String} {sign : String} {i : Nat}

/-! ### Signs -/

/-- Whether an argument is a redirection sign. -/
def isSign (arg : String) : Bool := arg == ">" || arg == ">>"

/-- The redirection by a sign with a file behind it. -/
def ofSign (sign file : String) : Redirect := if sign = ">" then .truncate file else .append file

/-- The place of the first redirection sign among some arguments. -/
def firstSign? (args : List String) : Option Nat := args.findIdx? isSign

theorem isSign_eq_true_iff {arg : String} : isSign arg = true ↔ arg = ">" ∨ arg = ">>" := by
  rw [isSign, Bool.or_eq_true, beq_iff_eq, beq_iff_eq]

theorem isSign_eq_false_iff {arg : String} : isSign arg = false ↔ arg ≠ ">" ∧ arg ≠ ">>" := by
  rw [← Bool.not_eq_true, isSign_eq_true_iff, not_or]

/-! ### Splits -/

/-- Words that are no redirection signs are words of the text. -/
theorem split_append (h : ∀ w ∈ ws, w ≠ ">" ∧ w ≠ ">>") (rest : List String) :
    split (ws ++ rest) = (ws ++ (split rest).1, (split rest).2) := by
  induction ws with
  | nil => rfl
  | cons w ws ih =>
    obtain ⟨hw, hws⟩ := List.forall_mem_cons.mp h
    rw [List.cons_append, split, if_neg hw.1, if_neg hw.2, ih hws]
    rfl

/-- A sign is no word of the text. Of what follows it, only the next argument counts. -/
theorem split_sign (hsign : isSign sign = true) (rest : List String) :
    split (sign :: rest) = ([], (rest.head?.map (ofSign sign)).getD .none) := by
  rcases isSign_eq_true_iff.mp hsign with rfl | rfl
  · cases rest <;> rfl
  · cases rest <;> rfl

/-- Words before the first sign are all of the text. -/
theorem split_append_sign (h : ∀ w ∈ ws, w ≠ ">" ∧ w ≠ ">>") (hsign : isSign sign = true)
    (rest : List String) :
    split (ws ++ sign :: rest) = (ws, (rest.head?.map (ofSign sign)).getD .none) := by
  rw [split_append h, split_sign hsign, List.append_nil]

theorem split_of_firstSign_eq_none (h : firstSign? args = .none) : split args = (args, .none) := by
  have hfree : ∀ arg ∈ args, arg ≠ ">" ∧ arg ≠ ">>" := fun arg harg =>
    isSign_eq_false_iff.mp (List.findIdx?_eq_none_iff.mp h arg harg)
  have hsplit := split_append hfree []
  rw [List.append_nil, split, List.append_nil] at hsplit
  exact hsplit

theorem split_of_firstSign (h : firstSign? args = some i) :
    ∃ sign, isSign sign = true ∧ args[i]? = some sign ∧ i < args.length ∧
      split args = (args.take i, (args[i + 1]?.map (ofSign sign)).getD .none) := by
  obtain ⟨hi, hsign, hfirst⟩ := List.findIdx?_eq_some_iff_getElem.mp h
  have hwords : ∀ w ∈ args.take i, w ≠ ">" ∧ w ≠ ">>" := by
    intro w hw
    obtain ⟨j, hj, rfl⟩ := List.mem_take_iff_getElem.mp hw
    exact isSign_eq_false_iff.mp (Bool.eq_false_iff.mpr (hfirst j (by omega)))
  have hsplit := split_append_sign hwords hsign (args.drop (i + 1))
  rw [List.getElem_cons_drop, List.take_append_drop, List.head?_drop] at hsplit
  exact ⟨args[i], hsign, List.getElem?_eq_getElem hi, hi, hsplit⟩

end Redirect

open Command
open Redirect (firstSign?)

/-! ### The command -/

/-- Words, a sign and a file are all that `echo` goes by: the words are put into the file as a line,
in place of what it holds or behind it. -/
theorem echo_of_sign {ws : List String} (h : ∀ w ∈ ws, w ≠ ">" ∧ w ≠ ">>") (s : Session)
    (file : String) (tail : List String) :
    echo s (ws ++ ">" :: file :: tail) =
        .change s file (put s.volume (s.resolve file) (Text.encode (lineOf ws)) false) [] ∧
      echo s (ws ++ ">>" :: file :: tail) =
        .change s file (put s.volume (s.resolve file) (Text.encode (lineOf ws)) true) [] := by
  rw [echo, Redirect.split_append_sign h rfl, echo, Redirect.split_append_sign h rfl]
  exact ⟨rfl, rfl⟩

/-- The first redirection sign decides. Without one, all arguments are the text and go nowhere else.
With one, the text ends in front of it; nothing is redirected if the sign is the last argument, and
otherwise the argument behind it is the file, whatever it is and whatever follows, and the sign says
whether the text replaces what the file holds. So words that are no signs come back from all arguments
that go on with a sign and a file, and `echo` puts just these words into that file. -/
theorem first_sign_redirects (args : List String) :
    (firstSign? args = none → Redirect.split args = (args, .none)) ∧
    (∀ i, firstSign? args = some i →
      (Redirect.split args).1 = args.take i ∧ (Redirect.split args).1.length = i ∧
      (args.length = i + 1 → (Redirect.split args).2 = .none) ∧
      ∀ file, args[i + 1]? = some file →
        (args[i]? = some ">" ∧ (Redirect.split args).2 = .truncate file) ∨
          (args[i]? = some ">>" ∧ (Redirect.split args).2 = .append file)) ∧
    ∀ ws file tail, (∀ w ∈ ws, w ≠ ">" ∧ w ≠ ">>") →
      Redirect.split (ws ++ [">", file] ++ tail) = (ws, .truncate file) ∧
      Redirect.split (ws ++ [">>", file] ++ tail) = (ws, .append file) ∧
      ∀ s : Session,
        echo s (ws ++ [">", file] ++ tail) =
          .change s file (put s.volume (s.resolve file) (Text.encode (lineOf ws)) false) [] ∧
        echo s (ws ++ [">>", file] ++ tail) =
          .change s file (put s.volume (s.resolve file) (Text.encode (lineOf ws)) true) [] := by
  refine ⟨Redirect.split_of_firstSign_eq_none, ?_, ?_⟩
  · intro i hi
    obtain ⟨sign, hsign, hat, hlt, hsplit⟩ := Redirect.split_of_firstSign hi
    rw [hsplit, hat]
    refine ⟨rfl, List.length_take_of_le hlt.le, ?_, ?_⟩
    · intro hlast
      rw [List.getElem?_eq_none hlast.le]
      rfl
    · intro file hfile
      rw [hfile]
      rcases Redirect.isSign_eq_true_iff.mp hsign with rfl | rfl
      · exact Or.inl ⟨rfl, rfl⟩
      · exact Or.inr ⟨rfl, rfl⟩
  · intro ws file tail h
    simp only [List.append_assoc, List.cons_append, List.nil_append]
    exact ⟨Redirect.split_append_sign h rfl _, Redirect.split_append_sign h rfl _,
      fun s => echo_of_sign h s file tail⟩

/-- A sign in front of a sign has that one for a file, and the third one does not count. -/
theorem sign_for_a_file :
    let args := ["é", "=", ">>", ">", ">", "a"]
    firstSign? args = some 2 ∧ (Redirect.split args).1.length = 2 ∧
      (Redirect.split args).2 = .append ">" ∧
      ∀ s : Session, echo s args = echo s ["é", "=", ">>", ">"] := by
  intro args
  have hfirst : firstSign? args = some 2 := by decide
  have hws : ∀ w ∈ ["é", "="], w ≠ ">" ∧ w ≠ ">>" := by decide
  obtain ⟨-, hplace, hback⟩ := first_sign_redirects args
  obtain ⟨-, hcount, -, hfile⟩ := hplace 2 hfirst
  refine ⟨hfirst, hcount, ?_, fun s => ?_⟩
  · rcases hfile ">" rfl with ⟨hsign, -⟩ | ⟨-, happend⟩
    · exact absurd hsign (by decide)
    · exact happend
  · obtain ⟨-, -, hecho⟩ := hback ["é", "="] ">" [">", "a"] hws
    obtain ⟨-, -, hshort⟩ := hback ["é", "="] ">" [] hws
    exact (hecho s).2.trans (hshort s).2.symm

end RamShell.Shell
