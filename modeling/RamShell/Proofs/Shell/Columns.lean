import RamShell.Proofs.Shell.Printed
import RamShell.Proofs.Shell.Tokens
import RamShell.Proofs.Volume.Children
/-!
# RamShell.Proofs.Shell.Columns

The short form of `ls`. Four names stand on a row, each filled up with spaces to the width of a
column, and a row ends with a line end (`rows`). Nothing but the filling keeps a name apart from the
name behind it, so the names come back from what is printed exactly if those that have another one
behind them on their row are narrower than a column.

The main statement is `names_come_back_from_rows`.
-/

namespace RamShell

namespace Volume

variable {limits : Limits} {v : Volume} {dir : String} {names : List String} {e : Entry}

theorem listingName_ne_empty (he : Path.Canonical e.path) (hin : e.LiesIn dir) :
    e.listingName ≠ "" := by
  obtain ⟨ns, n, -, hn, hpath⟩ := Path.exists_concat he hin.1
  rw [Entry.listingName_eq, hpath, Path.baseName_ofNames_concat ns hn.slashless, ne_eq,
    String.append_eq_empty_iff, String.ofList_eq_empty_iff]
  exact fun h => hn.ne_nil h.1

/-- A name in a listing is a word if it has no white space. -/
theorem Sound.isWord_of_list (h : Sound limits v) (hdir : dir ≠ "") (hlist : v.list dir = .ok names)
    (hblank : ∀ name ∈ names, ∀ c ∈ name.toList, Text.isBlank c = false) :
    ∀ name ∈ names, Text.IsWord name := by
  intro name hname
  refine ⟨?_, hblank name hname⟩
  obtain rfl := names_of_list hdir hlist
  obtain ⟨e, he, rfl⟩ := List.mem_map.mp hname
  obtain ⟨hmem, hin⟩ := h.mem_children.mp he
  exact listingName_ne_empty (h.entries e hmem).canonical hin

end Volume

namespace Shell

open Command
open Volume (Limits Reachable Sound)

variable {limits : Limits} {names : List String}

/-! ### Rows -/

/-- Names as the short form of `ls` shows them: in columns that are twenty characters wide, with a
line end behind every fourth name, and one behind a last row that has fewer. -/
def rows (names : List String) : String :=
  String.join ((names.zipIdx 1).map fun (name, i) =>
    Text.padRight 20 name ++ if i % 4 = 0 then "\n" else "") ++
    if names.length % 4 = 0 then "" else "\n"

theorem text_shortListing (entries : List Volume.Entry) :
    (shortListing entries).text = rows (entries.map Volume.Entry.listingName) := by
  have hend : Script.text (if entries.length % listColumns = 0 then [] else Script.say ["\n"]) =
      if entries.length % 4 = 0 then "" else "\n" := by
    rw [apply_ite Script.text]
    rfl
  have hplain : Script.text [.plain] = "" := rfl
  rw [shortListing, Script.text_append, Script.text_append, Script.text_flatMap, hend, hplain,
    String.append_empty, rows, List.length_map, List.zipIdx_map, List.map_map]
  refine congrArg (String.join · ++ _) (List.map_congr_left fun (e, i) _ => ?_)
  show Script.text (.print (Text.padRight 20 e.listingName) :: _) = _
  rw [Script.text_print, apply_ite Script.text]
  rfl

/-! ### Words on rows -/

/-- What stands behind the `i`-th of `n` names: what is missing to the width of a column, and a line
end behind the last name on a row. -/
def gapBehind (n : Nat) (name : String) (i : Nat) : String :=
  String.ofList (List.replicate (20 - name.length) ' ') ++ if i % 4 = 0 ∨ i = n then "\n" else ""

/-- Names, each with what stands behind it. -/
def cells (names : List String) : List (String × String) :=
  (names.zipIdx 1).map fun (name, i) => (name, gapBehind names.length name i)

theorem isBlankText_gapBehind (n : Nat) (name : String) (i : Nat) :
    Text.isBlankText (gapBehind n name i) = true := by
  rw [Text.isBlankText, gapBehind, String.toList_append, List.all_append, String.toList_ofList,
    List.all_replicate]
  split <;> split <;> decide

/-- Something stands behind a name that is narrower than a column, or the last one on its row. -/
theorem gapBehind_ne_empty_iff {n i : Nat} {name : String} :
    gapBehind n name i ≠ "" ↔ (i % 4 ≠ 0 → i ≠ n → name.length < 20) := by
  rw [gapBehind, ne_eq, String.append_eq_empty_iff, String.ofList_eq_empty_iff]
  by_cases hend : i % 4 = 0 ∨ i = n
  · rw [if_pos hend]
    refine iff_of_true (fun h => absurd h.2 (by decide)) fun hrow hlast => ?_
    exact absurd hend (not_or.mpr ⟨hrow, hlast⟩)
  · have hend' : i % 4 ≠ 0 ∧ i ≠ n := not_or.mp hend
    rw [if_neg hend, List.replicate_eq_nil_iff]
    simp only [and_true, hend'.1, hend'.2, ne_eq, not_false_eq_true, forall_const]
    omega

theorem map_fst_cells (names : List String) : (cells names).map Prod.fst = names := by
  rw [cells, List.map_map]
  exact List.zipIdx_map_fst ..

theorem wordsAndGaps_cells (hwords : ∀ name ∈ names, Text.IsWord name) :
    Text.WordsAndGaps (cells names) := by
  intro part hpart
  obtain ⟨⟨name, i⟩, hmem, rfl⟩ := List.mem_map.mp hpart
  exact ⟨hwords name (List.fst_mem_of_mem_zipIdx hmem), isBlankText_gapBehind ..⟩

section Last

variable {front : List String} {last : String}

/-- The last of some names has their number. -/
theorem zipIdx_concat (front : List String) (last : String) :
    (front ++ [last]).zipIdx 1 = front.zipIdx 1 ++ [(last, (front ++ [last]).length)] := by
  rw [List.zipIdx_append, List.length_append, Nat.add_comm 1]
  rfl

theorem lt_of_mem_zipIdx {name : String} {i : Nat} (h : (name, i) ∈ front.zipIdx 1) :
    i < (front ++ [last]).length := by
  have hlt := List.snd_lt_of_mem_zipIdx h
  rw [List.length_append, List.length_singleton]
  omega

/-- The line end of a last row that has fewer names stands behind the last name. -/
theorem rows_concat (front : List String) (last : String) :
    rows (front ++ [last]) = Text.spread "" (cells (front ++ [last])) := by
  have hfront : (front.zipIdx 1).map (fun (name, i) =>
      Text.padRight 20 name ++ if i % 4 = 0 then "\n" else "") =
      (front.zipIdx 1).map fun (name, i) => name ++ gapBehind (front ++ [last]).length name i := by
    refine List.map_congr_left fun (name, i) hmem => ?_
    have hlast : i ≠ (front ++ [last]).length := Nat.ne_of_lt (lt_of_mem_zipIdx hmem)
    simp only [Text.padRight, gapBehind, hlast, or_false, String.append_assoc]
  have hlast (n : Nat) : (Text.padRight 20 last ++ if n % 4 = 0 then "\n" else "") ++
      (if n % 4 = 0 then "" else "\n") = last ++ gapBehind n last n := by
    rw [Text.padRight, gapBehind, if_pos (Or.inr rfl)]
    split <;> simp [String.append_assoc]
  rw [rows, Text.spread, cells, List.map_map, zipIdx_concat, List.map_append, List.map_append,
    String.join_append, String.join_append, hfront, String.append_assoc, String.empty_append]
  refine congrArg (String.join _ ++ ·) ?_
  rw [List.map_singleton, List.map_singleton, String.join_cons, String.join_cons, String.join_nil,
    String.append_empty, String.append_empty]
  exact hlast _

theorem dropLast_cells (front : List String) (last : String) :
    (cells (front ++ [last])).dropLast =
      (front.zipIdx 1).map fun (name, i) => (name, gapBehind (front ++ [last]).length name i) := by
  rw [cells, zipIdx_concat, List.map_append]
  exact List.dropLast_concat

end Last

/-- Names come back from rows exactly if those that have another one behind them are narrower than a
column. -/
theorem wordsOf_rows_iff (hne : names ≠ []) (hwords : ∀ name ∈ names, Text.IsWord name) :
    Text.wordsOf (rows names) = names ↔
      ∀ name i, (name, i) ∈ names.zipIdx 1 → i % 4 ≠ 0 → i ≠ names.length → name.length < 20 := by
  obtain ⟨front, last, rfl⟩ := names.eq_nil_or_concat'.resolve_left hne
  have hiff := @Text.wordsOf_spread_iff "" _ rfl (wordsAndGaps_cells hwords)
  rw [map_fst_cells, dropLast_cells] at hiff
  rw [rows_concat, hiff, List.forall_mem_map]
  constructor
  · intro h name i hmem hrow hlast
    rw [zipIdx_concat, List.mem_append, List.mem_singleton] at hmem
    rcases hmem with hmem | hmem
    · have hgap : gapBehind (front ++ [last]).length name i ≠ "" := h (name, i) hmem
      exact gapBehind_ne_empty_iff.mp hgap hrow hlast
    · exact absurd (congrArg Prod.snd hmem) hlast
  · intro h p hmem
    obtain ⟨name, i⟩ := p
    show gapBehind (front ++ [last]).length name i ≠ ""
    rw [gapBehind_ne_empty_iff]
    refine h name i ?_
    rw [zipIdx_concat]
    exact List.mem_append_left _ hmem

/-! ### The command -/

section Ls

variable {s : Session} {args : List String} {line : String} {c : Console}

/-- On a directory that has entries the command answers with the short listing. -/
theorem ls_eq_shortListing (hshort : "-l" ∉ args)
    (hlist : s.volume.list (s.resolve (args.getLast?.getD ".")) = .ok names) (hne : names ≠ []) :
    ls s args = shortListing (s.volume.children (s.resolve (args.getLast?.getD "."))) := by
  have hall : args.filter (· != "-l") = args :=
    List.filter_eq_self.mpr fun arg harg => bne_iff_ne.mpr fun h => hshort (h ▸ harg)
  have hcontains : ¬ args.contains "-l" = true := by simpa using hshort
  obtain ⟨name, rest, rfl⟩ := List.exists_cons_of_ne_nil hne
  rw [ls, hall]
  dsimp only
  rw [hlist]
  dsimp only
  rw [if_neg hcontains]

/-- The names of a directory without white space come back from what `ls` prints for it, exactly if
those that have another one behind them on their row have fewer than twenty characters. Whatever
their widths, a line end stands behind every fourth name and behind the last, and nowhere else. -/
theorem names_come_back_from_rows (hvolume : Reachable limits s.volume)
    (hdue : s.awaitsPassword = false) (hwords : tokens line = "ls" :: args) (hshort : "-l" ∉ args)
    (hlist : s.volume.list (s.resolve (args.getLast?.getD ".")) = .ok names) (hne : names ≠ [])
    (hblank : ∀ name ∈ names, ∀ c ∈ name.toList, Text.isBlank c = false) (hopen : c.Open) :
    let ran := s.execute line c
    ran.1 = .proceed ∧ ran.2.1 = s.recorded line ∧
    ran.2.2.screen.text = c.screen.text ++ rows names ∧
    (∀ name ∈ names, '\n' ∉ (Text.padRight 20 name).toList) ∧
    (Text.wordsOf (rows names) = names ↔
      ∀ name i, (name, i) ∈ names.zipIdx 1 → i % 4 ≠ 0 → i ≠ names.length →
        name.length < 20) := by
  intro ran
  have hs := Volume.sound_of_reachable hvolume
  have hdir : s.resolve (args.getLast?.getD ".") ≠ "" := (Path.canonical_resolve ..).ne_empty
  have hscript : Builtin.ls.handler (s.recorded line) args =
      shortListing (s.volume.children (s.resolve (args.getLast?.getD "."))) := by
    rw [← s.recorded_volume line, ← s.recorded_resolve line] at hlist ⊢
    exact ls_eq_shortListing hshort hlist hne
  obtain ⟨-, houtcome, hsession, htext⟩ :=
    Session.run_of_tell hscript (lettered_shortListing _) hopen
  rw [text_shortListing, ← Volume.names_of_list hdir hlist] at htext
  have hran : ran = (s.recorded line).run Builtin.ls.name args c :=
    Session.execute_of_words hdue hwords c
  rw [hran]
  refine ⟨houtcome, hsession, htext, ?_, ?_⟩
  · intro name hname hmem
    rw [Text.padRight, String.toList_append, List.mem_append, String.toList_ofList] at hmem
    rcases hmem with hmem | hmem
    · exact absurd (hblank name hname '\n' hmem) (by decide)
    · exact absurd (List.eq_of_mem_replicate hmem) (by decide)
  · exact wordsOf_rows_iff hne (hs.isWord_of_list hdir hlist hblank)

/-- A wide name at the end of a row is in nobody's way. -/
theorem wide_name_at_end_of_row :
    let v := ((Volume.ofLimits ⟨8, 4, 8, 32, .inPlace⟩).serve
      [.create "/d" true, .create "/d/a" false, .create "/d/b" true, .create "/d/c" false,
        .create "/d/a-name-wider-than-its-column" false, .create "/d/é" false]).2
    let s := Session.start v .standard
    let names := ["a", "b/", "c", "a-name-wider-than-its-column", "é"]
    v.list "/d" = .ok names ∧
      (s.execute "ls x/../d" .fresh).2.2.screen.text = Console.fresh.screen.text ++ rows names ∧
      Text.wordsOf (rows names) = names := by
  intro v s names
  have hvolume : Reachable ⟨8, 4, 8, 32, .inPlace⟩ v := .serve .start _
  have hwords : tokens "ls x/../d" = ["ls", "x/../d"] := by decide +kernel
  have hdir : s.resolve "x/../d" = "/d" := by decide +kernel
  have hlist : v.list "/d" = .ok names := by decide +kernel
  have hnames : ∀ name ∈ names, Text.IsWord name := by decide
  have hnarrow : ∀ p ∈ names.zipIdx 1, p.2 % 4 ≠ 0 → p.2 ≠ names.length → p.1.length < 20 := by
    decide
  have hthere : s.volume.list (s.resolve (["x/../d"].getLast?.getD ".")) = .ok names :=
    (congrArg v.list hdir).trans hlist
  obtain ⟨-, -, htext, -, hback⟩ := names_come_back_from_rows hvolume rfl hwords (by decide) hthere
    (List.cons_ne_nil _ _) (fun name hname => (hnames name hname).2) Console.Open.fresh
  exact ⟨hlist, htext, hback.mpr fun name i hmem => hnarrow (name, i) hmem⟩

/-- So the names do not always come back: a name that fills its column runs into the next one. -/
theorem names_do_not_always_come_back :
    ¬ ∀ (limits : Limits) (s : Session) (names : List String), Reachable limits s.volume →
      s.awaitsPassword = false → s.volume.list (s.resolve ".") = .ok names → names ≠ [] →
      (∀ name ∈ names, ∀ c ∈ name.toList, Text.isBlank c = false) →
      Text.wordsOf (s.execute "ls" .fresh).2.2.screen.text = names := by
  intro h
  let v := ((Volume.ofLimits ⟨4, 4, 8, 32, .inPlace⟩).serve
    [.create "/abcdefghijklmnopqrst" false, .create "/u" false]).2
  let names := ["abcdefghijklmnopqrst", "u"]
  have hvolume : Reachable ⟨4, 4, 8, 32, .inPlace⟩ v := .serve .start _
  have hnames : ∀ name ∈ names, Text.IsWord name := by decide
  have hback := h _ (.start v .standard) names hvolume rfl (by decide +kernel)
    (List.cons_ne_nil _ _) fun name hname => (hnames name hname).2
  exact absurd hback (by decide +kernel)

end Ls

end Shell

end RamShell
