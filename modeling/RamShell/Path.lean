import RamShell.Text.Split
/-!
# RamShell.Path

Slash-separated paths, as texts and without any file system behind them.

A path is read as the list of *names* that lead from the root to an entry: empty segments and `.`
are dropped and `..` drops the name before it, at the root nothing. Writing the names back gives
the **canonical** form: `/` alone, or a slash before each name. Every path that the volume stores
is canonical, so two spellings of one place are one key.

Design points:

* The functions take and give `String`; `names` and `ofNames` are the way to the list view, on
  which the laws are stated.
* Relative paths count as rooted in `normalize`; `resolve` resolves them against a working
  directory first.
-/

namespace RamShell.Path

/-- One name on the way to an entry. -/
abbrev Name := List Char

/-- The root directory. -/
def root : String := "/"

/-- Whether a character is the path separator. -/
def isSlash (c : Char) : Bool := c == '/'

/-- One segment's effect on the names kept so far, innermost first. -/
def enter (kept : List Name) (segment : Name) : List Name :=
  if segment = [] ∨ segment = ['.'] then kept
  else if segment = ['.', '.'] then kept.tail
  else segment :: kept

/-- The names that lead from the root to what a path denotes, outermost first. -/
def names (path : String) : List Name :=
  ((Text.pieces isSlash path.toList).foldl enter []).reverse

/-- The canonical path that a list of names leads to. -/
def ofNames : List Name → String
  | [] => root
  | ns => String.ofList (ns.flatMap ('/' :: ·))

/-- The canonical form of a path. -/
def normalize (path : String) : String :=
  ofNames (names path)

/-- Whether a path is the root directory. -/
def isRoot (path : String) : Bool :=
  normalize path == root

/-- A path resolved against the working directory `cwd`. -/
def resolve (path cwd : String) : String :=
  if path.toList.head? = some '/' then normalize path
  else normalize (cwd ++ "/" ++ path)

/-- What follows the last slash, or the whole path if it has none. -/
def baseName (path : String) : String :=
  String.ofList (path.toList.reverse.takeWhile (!isSlash ·)).reverse

/-- What precedes the last slash: `.` if there is none, `/` if only the leading one is. -/
def parent (path : String) : String :=
  match path.toList.reverse.dropWhile (!isSlash ·) with
  | [] => "."
  | [_] => root
  | _ :: rest => String.ofList rest.reverse

/-- The parent of a working directory. Slashes at the end do not count, and the root is its own
parent. -/
def up (cwd : String) : String :=
  match Text.dropTrailing isSlash cwd.toList with
  | [] => root
  | cs =>
    let above := parent (String.ofList cs)
    if above = "." then root else above

/-- What the path of everything below a directory starts with: its canonical path and a slash. -/
def childStem (dir : String) : String :=
  match names dir with
  | [] => root
  | ns => ofNames ns ++ "/"

/-- The path of the entry called `name` in a directory. -/
def join (dir name : String) : String :=
  normalize (childStem dir ++ name)

/-- What is left of a path after the given start, if it starts so. -/
def below? (stem path : String) : Option (List Char) :=
  stem.toList.isPrefixOf? path.toList

/-! ### The list view -/

@[simp] theorem ofNames_nil : ofNames [] = root := rfl

theorem toList_ofNames_cons (n : Name) (ns : List Name) :
    (ofNames (n :: ns)).toList = '/' :: (n ++ ns.flatMap ('/' :: ·)) := by
  simp [ofNames]

/-- An empty segment keeps the names as they are. -/
@[simp] theorem enter_nil (kept : List Name) : enter kept [] = kept := by
  simp [enter]

@[simp] theorem enter_dot (kept : List Name) : enter kept ['.'] = kept := by
  simp [enter]

@[simp] theorem enter_dots (kept : List Name) : enter kept ['.', '.'] = kept.tail := by
  simp [enter]

/-- The names of two paths joined by a slash: the second walks on from where the first ends. -/
theorem names_append_slash (a b : String) :
    names (a ++ "/" ++ b) =
      ((Text.pieces isSlash b.toList).foldl enter (names a).reverse).reverse := by
  have h : (a ++ "/" ++ b).toList = a.toList ++ '/' :: b.toList := by simp
  rw [names, h, Text.pieces_append_sep (by rfl), List.foldl_append, names, List.reverse_reverse]

end RamShell.Path
