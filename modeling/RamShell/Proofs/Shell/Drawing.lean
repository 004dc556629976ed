import RamShell.Proofs.Shell.Printed
import RamShell.Proofs.Shell.Sketch
import RamShell.Proofs.Volume.Subtree
/-!
# RamShell.Proofs.Shell.Drawing

The drawing of a directory tree. The command goes down the tree by names, with marks that grow by one a
level, and so a line depends on the way to it. It does not depend on anything else: the marks are those
of the directories between the drawn one and the entry (`treeLine`), and what is drawn are the entries of
`Volume.subtree`, one line each.

A name leads to its entry, so no listing on the way fails. That is one induction over the levels
(`Sound.draws_draw`), whose step is the listing of one directory (`Sound.draws_listing`). The main
statement is `tree_draws_subtree`: what is printed are the lines of all entries below the directory, in
the order of the tree and down to 32 levels, between the path of the directory and a line with the
counts.
-/

namespace RamShell

namespace Volume

variable {limits : Limits} {v : Volume} {dir : String} {c x : Entry}

/-- Whether what a path names is stored last among the entries of its directory. -/
def isLastSibling (v : Volume) (path : String) : Bool :=
  (v.table.entries.filter fun e => decide (e.LiesIn (Path.parent path))).getLast?.map Entry.path
    == some path

/-- The marks in front of the line of a path: one for each directory that it lies in below the drawn
one, a bar if more entries of the same directory follow further down, and blanks if not. -/
def margin (v : Volume) (dir path : String) : String :=
  String.join ((Path.between dir path).map fun a => if v.isLastSibling a then "    " else "│   ")

/-- What is drawn below a directory, behind the given marks. -/
def branches (v : Volume) (levels : Nat) (indent dir : String) : List Shell.Command.Branch :=
  (v.subtree levels dir).map fun e =>
    ⟨indent ++ v.margin dir e.path, v.isLastSibling e.path, e⟩

/-- The line of an entry in the drawing of a directory. -/
def treeLine (v : Volume) (dir : String) (e : Entry) : String :=
  v.margin dir e.path ++ (if v.isLastSibling e.path then "└── " else "├── ") ++ e.listingName

/-! ### Last siblings -/

/-- The last of some numbered elements is the one with their number. -/
theorem isLast_of_mem_zipIdx {α : Type} [DecidableEq α] {as : List α} (has : as.Nodup) {a : α}
    {i : Nat} (h : (a, i) ∈ as.zipIdx) :
    (i + 1 == as.length) = decide (as.getLast? = some a) := by
  have hplace : as[i]? = some a := List.mem_zipIdx_iff_getElem?.mp h
  obtain ⟨hlt, -⟩ := List.getElem?_eq_some_iff.mp hplace
  rw [Bool.eq_iff_iff, beq_iff_eq, decide_eq_true_iff, List.getLast?_eq_getElem?, ← hplace,
    List.getElem?_inj (by omega) has]
  omega

theorem Sound.isLastSibling_eq (h : Sound limits v) (hc : c ∈ v.children dir) :
    v.isLastSibling c.path = decide ((v.children dir).getLast? = some c) := by
  obtain ⟨hmem, hin⟩ := h.mem_children.mp hc
  have hsame : v.children (Path.parent c.path) = v.children dir := by
    rw [hin.2, children, Path.childStem_normalize, children]
  rw [isLastSibling, ← h.children_eq_filter, hsame, Bool.eq_iff_iff, beq_iff_eq,
    decide_eq_true_iff, Option.map_eq_some_iff]
  constructor
  · rintro ⟨d, hlast, hpath⟩
    have hd := (h.mem_children.mp (List.mem_of_getLast? hlast)).1
    rw [hlast, List.inj_on_of_nodup_map h.distinct hd hmem hpath]
  · exact fun hlast => ⟨c, hlast, rfl⟩

end Volume

namespace Volume

open Shell.Command (Branch Draws draw drawListing directoryName? indented markOf)

variable {limits : Limits} {v : Volume} {dir : String} {c d x : Entry}

/-! ### Indentations -/

theorem Sound.margin_child (h : Sound limits v) (hc : c ∈ v.children dir) :
    v.margin dir c.path = "" := by
  obtain ⟨-, n, hn⟩ := h.exists_name hc
  rw [margin, Path.between_child hn]
  rfl

/-- Below a child there is its mark, and then what is in front of the line in its own drawing. -/
theorem Sound.margin_below (h : Sound limits v) {levels : Nat} (hc : c ∈ v.children dir)
    (hx : x ∈ v.subtree levels c.path) (indent : String) :
    indent ++ v.margin dir x.path =
      indent ++ markOf (v.isLastSibling c.path) ++ v.margin c.path x.path := by
  obtain ⟨hcmem, n, hn⟩ := h.exists_name hc
  obtain ⟨-, hstarts, hlt, -⟩ := h.mem_subtree hx
  have hbetween := Path.between_eq_cons (h.entries c hcmem).canonical hn hstarts hlt
  rw [margin, hbetween, List.map_cons, String.join_cons, markOf, margin, String.append_assoc]

/-- Each child is drawn, and behind it what is below it with one more mark. -/
theorem Sound.branches_succ (h : Sound limits v) (levels : Nat) (indent dir : String) :
    v.branches (levels + 1) indent dir = (v.children dir).flatMap fun c =>
      ⟨indent, v.isLastSibling c.path, c⟩ ::
        if c.isDirectory then v.branches levels (indent ++ markOf (v.isLastSibling c.path)) c.path
        else [] := by
  rw [branches, subtree_succ, List.map_flatMap]
  apply List.flatMap_congr
  intro c hc
  rw [branch, List.map_cons, h.margin_child hc, String.append_empty]
  refine congrArg (List.cons _) ?_
  split
  · apply List.map_congr_left
    intro x hx
    rw [h.margin_below hc hx]
  · rfl

/-! ### Drawing by names -/

/-- The name of an entry in a listing tells whether it is a directory. -/
theorem Sound.directoryName?_eq (h : Sound limits v) (hc : c ∈ v.children dir) :
    directoryName? c.listingName = if c.isDirectory then some c.name else none := by
  obtain ⟨hmem, hin⟩ := h.mem_children.mp hc
  have hlast := getLast?_listingName (h.entries c hmem).canonical hin
  rw [directoryName?]
  cases hdir : c.isDirectory with
  | true =>
    rw [if_pos (hlast.mpr hdir), Entry.listingName, hdir]
    simp
  | false =>
    exact if_neg fun hslash => absurd (hdir.symm.trans (hlast.mp hslash)) Bool.false_ne_true

/-- A directory of the volume is listed under its own path. -/
theorem Sound.list_path (h : Sound limits v) (hd : d ∈ v.table.entries)
    (hdir : d.isDirectory = true) :
    v.list d.path = .ok ((v.children d.path).map Entry.listingName) := by
  have hcanonical := (h.entries d hd).canonical
  rw [list_eq hcanonical.ne_empty, hcanonical, Table.find?_of_mem h.distinct hd]
  exact if_pos hdir

/-- The names of a directory draw its children, if the name of each directory draws what is below
it. -/
theorem Sound.draws_listing (h : Sound limits v) (hd : d ∈ v.table.entries)
    (hdir : d.isDirectory = true) {indent : String} {below : Bool → String → Shell.Command.Drawing Unit}
    {g : Entry → List Branch}
    (hbelow : ∀ c ∈ v.children d.path, c.isDirectory = true →
      Draws (below (v.isLastSibling c.path) c.name) indent (g c)) :
    Draws (drawListing v below d.path) indent ((v.children d.path).flatMap fun c =>
      ⟨indent, v.isLastSibling c.path, c⟩ :: if c.isDirectory then g c else []) := by
  have hnodup : (v.children d.path).Nodup :=
    h.distinct.of_map.sublist (children_sublist v d.path)
  -- The loop goes over numbered names, and the branches over entries without a number.
  have hnumbered : (v.children d.path).flatMap (fun c =>
      (⟨indent, v.isLastSibling c.path, c⟩ : Branch) :: if c.isDirectory then g c else []) =
      (v.children d.path).zipIdx.flatMap fun p =>
        (⟨indent, v.isLastSibling p.1.path, p.1⟩ : Branch) ::
          if p.1.isDirectory then g p.1 else [] := by
    conv_lhs => rw [← List.zipIdx_map_fst 0 (v.children d.path), List.flatMap_map]
  rw [drawListing, h.list_path hd hdir, hnumbered]
  dsimp only
  rw [List.length_map, List.zipIdx_map, List.forM_eq_forM, List.forM_map, ← List.forM_eq_forM]
  refine Draws.forM fun (c, i) hmem => ?_
  have hc : c ∈ v.children d.path := List.fst_mem_of_mem_zipIdx hmem
  have hlast : (i + 1 == (v.children d.path).length) = v.isLastSibling c.path := by
    rw [isLast_of_mem_zipIdx hnodup hmem, h.isLastSibling_eq hc]
  dsimp only [Prod.map, id]
  rw [hlast]
  exact Draws.drawName (h.directoryName?_eq hc) (hbelow c hc)

/-- Below a directory of the volume, the drawing does not fail: it draws what is there, down to the last
level. -/
theorem Sound.draws_draw (h : Sound limits v) (levels : Nat) (hd : d ∈ v.table.entries)
    (hdir : d.isDirectory = true) (indent : String) :
    Draws (draw v levels d.path) indent (v.branches (levels + 1) indent d.path) := by
  induction levels generalizing d indent with
  | zero =>
    rw [h.branches_succ]
    exact h.draws_listing hd hdir fun _ _ _ => Draws.nothing indent
  | succ levels ih =>
    rw [h.branches_succ]
    refine h.draws_listing hd hdir fun c hc hcdir => Draws.indented ?_
    obtain ⟨hmem, hin⟩ := h.mem_children.mp hc
    rw [join_name (h.entries c hmem).canonical hin]
    exact ih hmem hcdir _

end Volume

namespace Shell

open Command
open Volume (Entry Sound Limits)

variable {limits : Limits} {v : Volume} {dir : String}

/-! ### Lines -/

theorem text_branch (b : Branch) :
    b.script.text =
      b.indent ++ (if b.isLast then "└── " else "├── ") ++ b.entry.listingName ++ "\n" := by
  have hname : Script.text (if b.entry.isDirectory then
      Script.sayIn .lightBlue [b.entry.listingName, "\n"]
      else Script.say [b.entry.listingName, "\n"]) = b.entry.listingName ++ "\n" := by
    split
    · rw [Script.text_sayIn]
      simp
    · rw [Script.text_say]
      simp
  rw [Branch.script, Script.text_append, hname, Script.text_say]
  simp [String.append_assoc]

/-- The lines of a drawing: the path of the directory, the entries, and after an empty line the
counts. -/
def drawing (v : Volume) (dir : String) (es : List Entry) : List String :=
  dir :: es.map (v.treeLine dir) ++
    ["", Text.decimal (es.countP fun e => e.isDirectory) ++ " directories, " ++
      Text.decimal (es.countP fun e => !e.isDirectory) ++ " files"]

/-- What the command writes for a directory, from the branches below it. -/
def treeScript (v : Volume) (dir : String) : Script :=
  let bs := v.branches treeDepth "" dir
  Script.sayIn .lightBlue [dir, "\n"] ++ bs.flatMap Branch.script ++
    Script.say ["\n", Text.decimal (bs.countP (·.entry.isDirectory)), " directories, ",
      Text.decimal (bs.countP (!·.entry.isDirectory)), " files\n"]

/-- A drawing is printed line by line. -/
theorem text_treeScript (v : Volume) (dir : String) :
    (treeScript v dir).text =
      String.join ((drawing v dir (v.subtree treeDepth dir)).map (· ++ "\n")) := by
  have hlines : Script.text ((v.branches treeDepth "" dir).flatMap Branch.script) =
      String.join ((v.subtree treeDepth dir).map fun e => v.treeLine dir e ++ "\n") := by
    rw [Script.text_flatMap, Volume.branches, List.map_map]
    refine congrArg String.join (List.map_congr_left fun e _ => ?_)
    rw [Function.comp_apply, text_branch, Volume.treeLine, String.empty_append]
  have hcount (p : Entry → Bool) : (v.branches treeDepth "" dir).countP (fun b => p b.entry) =
      (v.subtree treeDepth dir).countP p := by
    rw [Volume.branches, List.countP_map]
    rfl
  rw [treeScript, Script.text_append, Script.text_append, Script.text_sayIn, Script.text_say,
    hlines, hcount fun e => e.isDirectory, hcount fun e => !e.isDirectory, drawing]
  simp [String.append_assoc, Function.comp_def]

theorem lettered_treeScript (v : Volume) (dir : String) : (treeScript v dir).Lettered := by
  have hbranch (b : Branch) : b.script.Lettered := by
    unfold Branch.script
    refine .append (.say _) ?_
    split <;> simp
  refine .append (.append (Script.lettered_sayIn _ _) ?_) (.say _)
  exact Script.lettered_flatMap fun b _ => hbranch b

/-! ### No line end inside a line -/

theorem newline_not_mem_listingName {e : Entry} (he : '\n' ∉ e.path.toList) :
    '\n' ∉ e.listingName.toList := by
  have hname : '\n' ∉ (Path.baseName e.path).toList := by
    intro hmem
    rw [Path.baseName, String.toList_ofList, List.mem_reverse] at hmem
    exact he (List.mem_reverse.mp ((List.takeWhile_sublist _).subset hmem))
  rw [Volume.Entry.listingName_eq, String.toList_append, List.mem_append, not_or]
  refine ⟨hname, ?_⟩
  split <;> decide

theorem newline_not_mem_treeLine {e : Entry} (he : '\n' ∉ e.path.toList) (v : Volume)
    (dir : String) : '\n' ∉ (v.treeLine dir e).toList := by
  have hmargin : '\n' ∉ (v.margin dir e.path).toList := by
    rw [Volume.margin, String.toList_join, List.mem_flatMap]
    rintro ⟨mark, hmark, hmem⟩
    obtain ⟨a, -, rfl⟩ := List.mem_map.mp hmark
    split at hmem <;> exact absurd hmem (by decide)
  have hcorner : '\n' ∉ (if v.isLastSibling e.path then "└── " else "├── ").toList := by
    split <;> decide
  rw [Volume.treeLine, String.toList_append, String.toList_append, List.mem_append, List.mem_append,
    not_or, not_or]
  exact ⟨⟨hmargin, hcorner⟩, newline_not_mem_listingName he⟩

theorem newline_not_mem_decimal (n : Nat) : '\n' ∉ (Text.decimal n).toList := by
  intro hmem
  rw [Text.decimal, String.toList_ofList] at hmem
  exact absurd (Nat.isDigit_of_mem_toDigits (by decide) (by decide) hmem) (by decide)

/-- If no path has a line end in it, no line of a drawing has. -/
theorem newline_not_mem_drawing {es : List Entry} (hdir : '\n' ∉ dir.toList)
    (hes : ∀ e ∈ es, '\n' ∉ e.path.toList) : ∀ line ∈ drawing v dir es, '\n' ∉ line.toList := by
  intro line hline
  rw [drawing, List.mem_append, List.mem_cons, List.mem_map] at hline
  rcases hline with (rfl | ⟨e, he, rfl⟩) | hline
  · exact hdir
  · exact newline_not_mem_treeLine (hes e he) v dir
  · rcases List.mem_pair.mp hline with rfl | rfl
    · decide
    · simp [newline_not_mem_decimal]

/-! ### The command -/

/-- On a directory the command draws what is below it. -/
theorem tree_eq_treeScript {s : Session} {args : List String} (hs : Sound limits s.volume)
    (htarget : s.resolve (args.head?.getD ".") = dir) (hdir : s.volume.kindAt dir = .directory) :
    tree s args = treeScript s.volume dir := by
  have hcanonical : Path.Canonical dir := htarget ▸ Path.canonical_resolve ..
  rw [Volume.kindAt_of_canonical hcanonical] at hdir
  have hknown : s.volume.table.kindAt dir ≠ .unknown := by
    rw [hdir]
    decide
  obtain ⟨d, hd, rfl⟩ := Volume.Table.exists_of_kindAt_ne_unknown hknown
  have hkind := Volume.Table.isDirectory_of_kindAt (Volume.Table.find?_of_mem hs.distinct hd) hdir
  have hdrawn : draw s.volume (treeDepth - 1) d.path .blank = _ :=
    hs.draws_draw (treeDepth - 1) hd hkind "" .blank rfl
  rw [tree, htarget, hs.list_path hd hkind]
  dsimp only
  rw [hdrawn]
  simp [treeScript, Sketch.add, Sketch.blank, treeDepth]

/-- On a console that takes every text, drawing a directory of a rooted volume in which no path has
a line end prints, behind what was there, line by line: the path of the directory; the line of each
entry below it, down to 32 levels and of no other, in the order of the tree; and after an empty line
how many of them are directories and how many files. The shell goes on, and nothing but the history
has changed. -/
theorem tree_draws_subtree {s : Session} {c : Console} {line : String} {args : List String}
    (hreach : Volume.Reachable limits s.volume) (hrooted : Volume.Rooted s.volume)
    (hpaths : ∀ e ∈ s.volume.table.entries, '\n' ∉ e.path.toList) (hopen : c.Open)
    (hwait : s.awaitsPassword = false) (hwords : tokens line = "tree" :: args)
    (htarget : s.resolve (args.head?.getD ".") = dir) (hdir : s.volume.kindAt dir = .directory) :
    ∃ es, Volume.TreeOrder s.volume 32 dir es ∧
      (∀ l ∈ drawing s.volume dir es, '\n' ∉ l.toList) ∧
      (s.execute line c).1 = .proceed ∧ (s.execute line c).2.1 = s.recorded line ∧
      (s.execute line c).2.2.screen.text =
        c.screen.text ++ String.join ((drawing s.volume dir es).map (· ++ "\n")) := by
  have hs := Volume.sound_of_reachable hreach
  have hcanonical : Path.Canonical dir := htarget ▸ Path.canonical_resolve ..
  have horder := hrooted.treeOrder_subtree hs hcanonical treeDepth
  have hscript : Builtin.tree.handler (s.recorded line) args = treeScript s.volume dir := by
    rw [← s.recorded_resolve line] at htarget
    rw [← s.recorded_volume line] at hs hdir ⊢
    exact tree_eq_treeScript hs htarget hdir
  obtain ⟨-, houtcome, hsession, htext⟩ :=
    Session.run_of_tell hscript (lettered_treeScript s.volume dir) hopen
  rw [Session.execute_of_words hwait hwords]
  refine ⟨_, horder, ?_, houtcome, hsession, ?_⟩
  · have hlive : '\n' ∉ dir.toList := by
      rw [Volume.kindAt_of_canonical hcanonical] at hdir
      obtain ⟨e, he, rfl⟩ := Volume.Table.exists_of_kindAt_ne_unknown (by rw [hdir]; decide)
      exact hpaths e he
    exact newline_not_mem_drawing hlive fun e he => hpaths e ((horder.mem_iff e).mp he).1
  · exact htext.trans (congrArg _ (text_treeScript s.volume dir))

/-- A deletion has moved the directory made last to the front. The bar beside its branch goes on,
since more follows, and there is none beside the branch after it. -/
theorem tree_after_swap :
    let v := ((Volume.ofLimits ⟨8, 8, 8, 16, .relocate⟩).serve
      [.create "/x" false, .createDirs "/a/b", .create "/a/b/c" false, .create "/a/e" false,
        .create "/d" true, .delete "/x", .create "/d/f" false]).2
    let s := Session.start v .standard
    (∃ es, Volume.TreeOrder v 32 "/" es ∧
      (s.execute "tree a/../" .fresh).2.2.screen.text =
        String.join ((drawing v "/" es).map (· ++ "\n"))) ∧
      (s.execute "tree a/../" .fresh).2.2.screen.text =
        "/\n├── d/\n│   └── f\n└── a/\n    ├── b/\n    │   └── c\n    └── e\n" ++
          "\n3 directories, 3 files\n" := by
  intro v s
  have hv : Volume.Reachable ⟨8, 8, 8, 16, .relocate⟩ v := .serve .start _
  have hrooted : Volume.Rooted v := by
    unfold Volume.Rooted
    decide +kernel
  have hpaths : ∀ e ∈ v.table.entries, '\n' ∉ e.path.toList := by decide +kernel
  obtain ⟨es, horder, -, -, -, htext⟩ := @tree_draws_subtree ⟨8, 8, 8, 16, .relocate⟩ "/" s .fresh
    "tree a/../" ["a/../"] hv hrooted hpaths Console.Open.fresh (by decide +kernel)
    (by decide +kernel) (by decide +kernel) (by decide +kernel)
  exact ⟨⟨es, horder, htext⟩, by decide +kernel⟩

end Shell

end RamShell
