import RamShell.Proofs.Path.Child
import RamShell.Proofs.Volume.Run
import RamShell.Shell.Command.Browse
/-!
# RamShell.Proofs.Volume.Children

What a listing shows. No record says what lies in a directory: the listing is made of the entries
whose path goes on after the stem of the directory with one more name. As stored paths are
canonical, these are the entries whose parent is the directory (`Sound.children_eq_filter`), and as
they are distinct, no name is listed twice.

A listed name is all that users of a listing get. It leads back to its entry: joined with the
directory it is the path of the entry (`join_listingName`), so whatever is asked of the volume under
the joined path is told about this entry. The main statement is `list_shows_children`.
-/

namespace RamShell

namespace Volume

variable {limits : Limits} {v : Volume} {dir : String} {e : Entry}

/-! ### Entries in a directory -/

/-- Whether an entry lies in the directory: it is not the root, and the directory is its parent. -/
def Entry.LiesIn (dir : String) (e : Entry) : Prop :=
  e.path ≠ Path.root ∧ Path.parent e.path = Path.normalize dir

instance (dir : String) (e : Entry) : Decidable (e.LiesIn dir) :=
  inferInstanceAs (Decidable (_ ∧ _))

theorem Entry.isChild_iff (he : Path.Canonical e.path) :
    e.isChild (Path.childStem dir) = true ↔ e.LiesIn dir := by
  rw [LiesIn, ← Path.below?_name_iff he, isChild]
  cases Path.below? (Path.childStem dir) e.path with
  | none => simp
  | some rest =>
    have hfree : (∀ c ∈ rest, Path.isSlash c = false) ↔ '/' ∉ rest := by
      simp only [Path.isSlash, beq_eq_false_iff_ne]
      exact ⟨fun h hc => h _ hc rfl, fun h c hc hslash => h (hslash ▸ hc)⟩
    simp [hfree]

theorem Sound.children_eq_filter (h : Sound limits v) (dir : String) :
    v.children dir = v.table.entries.filter fun e => decide (e.LiesIn dir) := by
  rw [children, Table.children]
  apply List.filter_congr
  intro e he
  rw [Bool.eq_iff_iff, decide_eq_true_iff]
  exact Entry.isChild_iff (h.entries e he).canonical

theorem Sound.mem_children (h : Sound limits v) :
    e ∈ v.children dir ↔ e ∈ v.table.entries ∧ e.LiesIn dir := by
  rw [h.children_eq_filter, List.mem_filter, decide_eq_true_iff]

/-- The entries in a directory are listed in storage order. -/
theorem children_sublist (v : Volume) (dir : String) :
    (v.children dir).Sublist v.table.entries := List.filter_sublist

/-! ### Names that lead back -/

theorem join_name (he : Path.Canonical e.path) (hin : e.LiesIn dir) :
    Path.join dir e.name = e.path := by
  rw [← Path.join_normalize, ← hin.2]
  exact Path.join_parent_baseName he hin.1

/-- The directory and the name in the listing give the path of the entry. -/
theorem join_listingName (he : Path.Canonical e.path) (hin : e.LiesIn dir) :
    Path.join dir e.listingName = e.path := by
  rw [Entry.listingName]
  split
  · rw [Path.join_append_slash, join_name he hin]
  · exact join_name he hin

/-- A name in a listing ends in a slash exactly if it is the name of a directory. -/
theorem getLast?_listingName (he : Path.Canonical e.path) (hin : e.LiesIn dir) :
    e.listingName.toList.getLast? = some '/' ↔ e.isDirectory = true := by
  obtain ⟨ns, n, -, hn, hpath⟩ := Path.exists_concat he hin.1
  have hname : e.name = String.ofList n := by
    rw [Entry.name, hpath, Path.baseName_ofNames_concat ns hn.slashless]
  rw [Entry.listingName]
  cases hdir : e.isDirectory with
  | true => simp
  | false =>
    -- A name by itself has no slash at all.
    rw [if_neg Bool.false_ne_true, hname, String.toList_ofList]
    refine iff_of_false (fun hlast => ?_) Bool.false_ne_true
    exact absurd (hn.slashless '/' (List.mem_of_getLast? hlast)) (by decide)

theorem Sound.find?_path (h : Sound limits v) (he : e ∈ v.table.entries) :
    v.find? e.path = some e := by
  have hpath := (h.entries e he).canonical
  exact h.find?_of_path he hpath.ne_empty hpath.symm

/-- Distinct entries of a directory have distinct names in its listing. -/
theorem Sound.nodup_listing (h : Sound limits v) (dir : String) :
    ((v.children dir).map Entry.listingName).Nodup := by
  have hpaths : ((v.children dir).map Entry.path).Nodup :=
    h.distinct.sublist ((children_sublist v dir).map Entry.path)
  have hjoined : (v.children dir).map Entry.path =
      ((v.children dir).map Entry.listingName).map (Path.join dir) := by
    rw [List.map_map]
    apply List.map_congr_left
    intro e he
    obtain ⟨hmem, hin⟩ := h.mem_children.mp he
    rw [Function.comp_apply, join_listingName (h.entries e hmem).canonical hin]
  rw [hjoined] at hpaths
  exact hpaths.of_map _

/-! ### Listings -/

theorem Entry.listingName_eq (e : Entry) :
    e.listingName = Path.baseName e.path ++ if e.isDirectory then "/" else "" := by
  rw [listingName, name]
  cases e.isDirectory with
  | true => rfl
  | false => simp

/-- A listing is given for a directory, and refused for a file and for what does not exist. -/
theorem list_eq (hdir : dir ≠ "") :
    v.list dir =
      match v.table.find? (Path.normalize dir) with
      | none => .error .notFound
      | some e =>
        if e.isDirectory then .ok ((v.children dir).map Entry.listingName)
        else .error .notADirectory := by
  rcases keyOf_cases dir with ⟨hempty, -⟩ | ⟨-, hkey⟩
  · exact absurd hempty hdir
  · have hchildren : v.children (Path.normalize dir) = v.children dir := by
      rw [children, Path.childStem_normalize, children]
    cases hfound : v.table.find? (Path.normalize dir) with
    | none => simp only [list, hkey, hfound]
    | some e => simp only [list, hkey, hfound, hchildren]

theorem names_of_list (hdir : dir ≠ "") {names : List String} (h : v.list dir = .ok names) :
    names = (v.children dir).map Entry.listingName := by
  rw [list_eq hdir] at h
  split at h
  · exact absurd h (by simp)
  · split at h
    · exact (Except.ok.inj h).symm
    · exact absurd h (by simp)

end Volume

namespace Shell.Command

open Script (say)

/-- The long listing as it is made from listed names alone: the color is read off the name, and
what is shown beside it is asked of the volume under the joined path. -/
def longListingOf (v : Volume) (dir : String) (names : List String) : Script :=
  say ["total ", Text.decimal names.length, " entries in ", dir, ":\n"] ++
    names.flatMap (fun name =>
      .ink (entryColor (name.toList.getLast? = some '/')) ::
        say [v.permissionsAt (Path.join dir name), " ",
          Text.padLeft 8 ' ' (Text.decimal (v.sizeAt (Path.join dir name))), " ", name, "\n"]) ++
    [.plain]

end Shell.Command

namespace Volume

variable {limits : Limits} {v : Volume} {dir : String}

/-- What is asked under the path of an entry is told about this entry. -/
theorem Sound.told_of_path (h : Sound limits v) {e : Entry} (he : e ∈ v.table.entries) :
    v.permissionsAt e.path = e.permissionText ∧ v.sizeAt e.path = e.size ∧
      v.stat e.path = .ok e := by
  have hfound := h.find?_path he
  refine ⟨?_, ?_, ?_⟩
  · rw [permissionsAt, hfound]
    rfl
  · rw [sizeAt, hfound]
    rfl
  · rw [stat, hfound]

/-- The long listing shows beside each name what the volume tells about the joined path. -/
theorem Sound.longListing_eq (h : Sound limits v) (dir : String) :
    Shell.Command.longListing dir (v.children dir) =
      Shell.Command.longListingOf v dir ((v.children dir).map Entry.listingName) := by
  rw [Shell.Command.longListing, Shell.Command.longListingOf, List.length_map, List.flatMap_map]
  congr 2
  apply List.flatMap_congr
  intro e he
  obtain ⟨hmem, hin⟩ := h.mem_children.mp he
  have hpath := (h.entries e hmem).canonical
  obtain ⟨hpermissions, hsize, -⟩ := h.told_of_path hmem
  have hcolor : decide (e.listingName.toList.getLast? = some '/') = e.isDirectory := by
    rw [Bool.eq_iff_iff, decide_eq_true_iff]
    exact getLast?_listingName hpath hin
  rw [join_listingName hpath hin, hpermissions, hsize, hcolor]

/-! ### Every reachable volume -/

/-- In every reachable volume, a directory is listed, a file is refused as no directory, and
everything else as not found. The listing is made of the last names of the entries whose parent is
the directory, in storage order and none of them twice, with a slash behind the names of
directories and no others. Each name joined with the directory is the path of the entry that it was
made from, and under this path the volume tells the permissions, the size and the record of this
very entry. The long listing consists of them. -/
theorem list_shows_children (h : Reachable limits v) (hdir : dir ≠ "") :
    ((∃ names, v.list dir = .ok names) ↔
      ∃ e ∈ v.table.entries, e.path = Path.normalize dir ∧ e.isDirectory = true) ∧
    (v.list dir = .error .notADirectory ↔
      ∃ e ∈ v.table.entries, e.path = Path.normalize dir ∧ e.isDirectory = false) ∧
    (v.list dir = .error .notFound ↔ ∀ e ∈ v.table.entries, e.path ≠ Path.normalize dir) ∧
    ∀ names, v.list dir = .ok names →
      names = (v.table.entries.filter fun e =>
          e.path ≠ "/" ∧ Path.parent e.path = Path.normalize dir).map (fun e =>
            Path.baseName e.path ++ if e.isDirectory then "/" else "") ∧
      names.Nodup ∧
      (∀ e ∈ v.table.entries, e.path ≠ "/" → Path.parent e.path = Path.normalize dir →
        Path.join dir (Path.baseName e.path) = e.path ∧
        ∀ name, name = Path.baseName e.path ++ (if e.isDirectory then "/" else "") →
          Path.join dir name = e.path ∧
          v.permissionsAt (Path.join dir name) = e.permissionText ∧
          v.sizeAt (Path.join dir name) = e.size ∧
          v.stat (Path.join dir name) = .ok e) ∧
      Shell.Command.longListing dir (v.children dir) =
        Shell.Command.longListingOf v dir names := by
  have hs := sound_of_reachable h
  refine ⟨?_, ?_, ?_, ?_⟩
  · rw [Table.exists_path_iff hs.distinct, list_eq hdir]
    cases v.table.find? (Path.normalize dir) with
    | none => simp
    | some e => cases hkind : e.isDirectory <;> simp [hkind]
  · rw [Table.exists_path_iff hs.distinct, list_eq hdir]
    cases v.table.find? (Path.normalize dir) with
    | none => simp
    | some e => cases hkind : e.isDirectory <;> simp [hkind]
  · rw [← Table.find?_eq_none_iff, list_eq hdir]
    cases v.table.find? (Path.normalize dir) with
    | none => simp
    | some e => cases hkind : e.isDirectory <;> simp [hkind]
  · intro names hlist
    obtain rfl := names_of_list hdir hlist
    refine ⟨?_, hs.nodup_listing dir, ?_, hs.longListing_eq dir⟩
    · rw [hs.children_eq_filter]
      exact List.map_congr_left fun e _ => e.listingName_eq
    · intro e he hroot hparent
      have hpath := (hs.entries e he).canonical
      have hin : e.LiesIn dir := ⟨hroot, hparent⟩
      refine ⟨join_name hpath hin, fun name hname => ?_⟩
      obtain rfl : name = e.listingName := hname.trans e.listingName_eq.symm
      rw [join_listingName hpath hin]
      exact ⟨rfl, hs.told_of_path he⟩

/-- A deletion has moved the last entry to the front, so the file made last is listed first. What
only starts with the same letters is not listed, and the names lead back from another spelling of
the directory. -/
theorem listing_after_swap :
    let v := ((ofLimits ⟨8, 16, 16, 16, .inPlace⟩).serve
      [.create "/x" false, .create "/a" true, .create "/ab" false, .create "/a/b" true,
        .write "/a/c" [1, 2], .delete "/x"]).2
    let dir := "z/..//a/"
    dir ≠ "" ∧ v.list dir = .ok ["c", "b/"] ∧
      (v.table.entries.filter fun e =>
        e.path ≠ "/" ∧ Path.parent e.path = Path.normalize dir).map Entry.path = ["/a/c", "/a/b"] ∧
      Path.join dir "b/" = "/a/b" ∧ v.sizeAt (Path.join dir "c") = 2 := by
  intro v dir
  have hv : Reachable ⟨8, 16, 16, 16, .inPlace⟩ v := Reachable.serve .start _
  have hdir : dir ≠ "" := by decide
  have hlist : v.list dir = .ok ["c", "b/"] := by decide
  obtain ⟨-, -, -, hall⟩ := list_shows_children hv hdir
  obtain ⟨-, -, hback, -⟩ := hall _ hlist
  obtain ⟨-, hb⟩ := hback (.empty "/a/b" true 0 5) (by decide) (by decide) (by decide)
  obtain ⟨-, hc⟩ :=
    hback ⟨"/a/c", 2, ⟨0, 2⟩, false, 6, 6, .standard⟩ (by decide) (by decide) (by decide)
  have hpath : Path.join dir "b/" = "/a/b" := (hb "b/" (by decide)).1
  have hsize : v.sizeAt (Path.join dir "c") = 2 := (hc "c" (by decide)).2.2.1
  exact ⟨hdir, hlist, by decide, hpath, hsize⟩

end Volume

end RamShell
