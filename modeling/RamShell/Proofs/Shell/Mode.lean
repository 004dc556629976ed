import Mathlib.Data.Nat.Bitwise
import RamShell.Proofs.Shell.Failure
import RamShell.Proofs.Shell.Printed
import RamShell.Proofs.Text.Numeral
/-!
# RamShell.Proofs.Shell.Mode

What `chmod` does to a volume and what it prints. A mode is an octal number below `0o1000`, and its
nine bits are the nine letters that are shown for an entry (`Permissions.render_eq`). An entry that
gets a mode keeps everything else that is recorded of it but the tick of its last change, and
nothing else in the volume changes but the clock (`Remoded`).

The main statement is `chmod_sets_octal_mode`.
-/

namespace RamShell

namespace Volume

variable {v : Volume} {path : String} {e : Entry} {mode : Nat}

/-! ### Permissions as text -/

/-- The letter at a place among the nine: reading, writing and executing, for the owner, the group
and others. -/
def modeLetter (place : Nat) : Char :=
  match place % 3 with
  | 0 => 'r'
  | 1 => 'w'
  | _ => 'x'

/-- A mode as text: a letter for the kind of the entry, and at each of nine places its letter if the
bit of the place is set. The highest bit is the first. -/
def modeText (mode : Nat) (isDirectory : Bool) : String :=
  String.ofList <|
    (if isDirectory then 'd' else '-') ::
      (List.range 9).map fun place => if mode.testBit (8 - place) then modeLetter place else '-'

theorem Permissions.flags_eq :
    flags = (List.range 9).map fun place => (UInt16.ofNat (2 ^ (8 - place)), modeLetter place) := by
  decide

theorem and_two_pow_ne_zero (bits : UInt16) {k : Nat} (hk : k < 16) :
    (bits &&& UInt16.ofNat (2 ^ k) != 0) = bits.toNat.testBit k := by
  have hpow : (UInt16.ofNat (2 ^ k)).toNat = 2 ^ k :=
    UInt16.toNat_ofNat_of_lt (Nat.pow_lt_pow_right (by decide) hk)
  rw [Bool.eq_iff_iff, bne_iff_ne, ne_eq, ← UInt16.toNat_inj, UInt16.toNat_and, hpow,
    Nat.and_two_pow]
  cases bits.toNat.testBit k <;> simp

/-- What is shown for permissions are their bits. -/
theorem Permissions.render_eq (p : Permissions) (isDirectory : Bool) :
    p.render isDirectory = modeText p.bits.toNat isDirectory := by
  rw [render, modeText, flags_eq, List.map_map]
  congr 2
  refine List.map_congr_left fun place hplace => ?_
  have hplace : place < 9 := List.mem_range.mp hplace
  show (if _ then _ else _) = _
  rw [and_two_pow_ne_zero p.bits (by omega)]

/-! ### One entry with another mode -/

/-- An entry of a volume has got a mode. All entries are where they were, and nothing else is
different but the tick, which is that of the change. -/
def Remoded (v : Volume) (e : Entry) (mode : Nat) (w : Volume) : Prop :=
  ∃ front rest permissions, permissions.bits.toNat = mode ∧
    v.table.entries = front ++ e :: rest ∧
    w = { v with
      table := { v.table with
        entries := front ++ { e with permissions, modifiedTick := v.tick + 1 } :: rest }
      tick := v.tick + 1 }

/-- A mode has nine bits, and is kept as it is. -/
theorem Permissions.ofMode_eq (h : mode ≤ 0o777) :
    (ofMode (UInt16.ofNat mode)).bits.toNat = mode := by
  have hmode : (UInt16.ofNat mode).toNat = mode :=
    UInt16.toNat_ofNat_of_lt (Nat.lt_of_le_of_lt h (by decide))
  have hmask : (0o777 : UInt16).toNat = 2 ^ 9 - 1 := by decide
  rw [ofMode, UInt16.toNat_and, hmode, hmask, Nat.and_two_pow_sub_one_eq_mod]
  exact Nat.mod_eq_of_lt (Nat.lt_succ_of_le h)

/-- An entry that is there gets the mode, and is shown with it. -/
theorem Sound.setPermissions_of_mem {limits : Limits} (h : Sound limits v)
    (hpath : Path.Canonical path) (he : e ∈ v.table.entries) (hplace : e.path = path)
    (hmode : mode ≤ 0o777) :
    ∃ w, v.setPermissions path (UInt16.ofNat mode) = (.ok (), w) ∧ Remoded v e mode w ∧
      w.permissionsAt path = modeText mode e.isDirectory := by
  have hfound : v.table.find? path = some e := hplace ▸ Table.find?_of_mem h.distinct he
  have hkey : v.table.find? (Path.normalize path) = some e := by rw [hpath, hfound]
  obtain ⟨front, rest, hentries, hupdated⟩ :=
    Table.entries_update hfound (.withMode (UInt16.ofNat mode) (v.tick + 1))
  refine ⟨_, setPermissions_eq_ok hpath.ne_empty hkey _, ?_, ?_⟩
  · refine ⟨front, rest, _, Permissions.ofMode_eq hmode, hentries, ?_⟩
    rw [hpath]
    show { v with
      table := { v.table with
        entries := (v.table.update path (.withMode (UInt16.ofNat mode) (v.tick + 1))).entries }
      tick := v.tick + 1 } = _
    rw [hupdated]
    rfl
  · rw [permissionsAt, find?_eq hpath.ne_empty, hpath, Table.find?_update (Entry.withMode_path _ _),
      if_pos rfl, hfound]
    show (Permissions.ofMode (UInt16.ofNat mode)).render e.isDirectory = _
    rw [Permissions.render_eq, Permissions.ofMode_eq hmode]

/-- Where nothing is, there is nothing to change. -/
theorem setPermissions_of_missing (hpath : Path.Canonical path)
    (hmissing : ∀ e ∈ v.table.entries, e.path ≠ path) (bits : UInt16) :
    v.setPermissions path bits = (.error .notFound, v) := by
  have hkey : keyOf path = .ok (Path.normalize path) :=
    ((keyOf_cases path).resolve_left fun h => hpath.ne_empty h.1).2
  have hcontains : ¬ v.table.contains (Path.normalize path) = true := by
    rw [hpath, Table.contains_iff, Table.find?_eq_none_iff.mpr hmissing]
    exact fun ⟨e, he⟩ => absurd he nofun
  rw [setPermissions, hkey]
  exact if_neg hcontains

end Volume

namespace Shell

open Command
open Volume (Limits Reachable Sound Remoded modeText)

variable {limits : Limits} {s : Session} {c : Console} {line word target : String} {mode : Nat}

/-! ### The command -/

/-- A word that is a mode: an octal number of nine bits. -/
structure OctalMode (word : String) (mode : Nat) : Prop where
  /-- The word stands for the number. -/
  numeral : Text.Numeral 8 word mode
  /-- The number has nine bits. -/
  le : mode ≤ 0o777

theorem readMode?_of_octalMode (h : OctalMode word mode) :
    readMode? word = some (UInt16.ofNat mode) := by
  rw [readMode?, Text.readNat?_eq_some_iff.mpr h.numeral]
  exact if_pos h.le

theorem readMode?_eq_none (h : ∀ mode, ¬ OctalMode word mode) : readMode? word = none := by
  rw [readMode?]
  split
  · next mode hnumeral =>
    exact if_neg fun hle => h mode ⟨Text.readNat?_eq_some_iff.mp hnumeral, hle⟩
  · rfl

/-- A path names an entry, as it is typed in a session. -/
def Session.Names (s : Session) (target : String) (e : Volume.Entry) : Prop :=
  e ∈ s.volume.table.entries ∧ e.path = s.resolve target

theorem Session.names_recorded {e : Volume.Entry} :
    (s.recorded line).Names target e ↔ s.Names target e := by
  rw [Names, recorded_volume, recorded_resolve, Names]

/-- What is printed for an entry that got a mode. -/
def modeNotice (target : String) (mode : Nat) (isDirectory : Bool) : Script :=
  confirm ["'", target, "' is now ", modeText mode isDirectory]

theorem text_modeNotice (target : String) (mode : Nat) (isDirectory : Bool) :
    (modeNotice target mode isDirectory).text =
      "'" ++ target ++ "' is now " ++ modeText mode isDirectory ++ "\n" := by
  rw [modeNotice, confirm, Script.text_sayIn]
  simp [String.append_assoc]

theorem chmod_of_names (hs : Sound limits s.volume) (hmode : OctalMode word mode) {e : Volume.Entry}
    (he : s.Names target e) (rest : List String) :
    ∃ w, Remoded s.volume e mode w ∧
      chmod s (word :: target :: rest) =
        .become { s with volume := w } :: modeNotice target mode e.isDirectory := by
  have hcanonical : Path.Canonical (s.resolve target) := Path.canonical_resolve ..
  obtain ⟨w, hdone, hremoded, hshown⟩ :=
    hs.setPermissions_of_mem hcanonical he.1 he.2 hmode.le
  refine ⟨w, hremoded, ?_⟩
  rw [chmod, readMode?_of_octalMode hmode]
  dsimp only
  rw [hdone, hshown]
  rfl

theorem chmod_of_malformed (h : ∀ mode, ¬ OctalMode word mode) (target : String)
    (rest : List String) :
    chmod s (word :: target :: rest) = [.fail (.invalid word)] := by
  rw [chmod, readMode?_eq_none h]

theorem chmod_of_missing (hmode : OctalMode word mode) (hmissing : ∀ e, ¬ s.Names target e)
    (rest : List String) :
    chmod s (word :: target :: rest) = [.become s, .fail (.volume target .notFound)] := by
  have hcanonical : Path.Canonical (s.resolve target) := Path.canonical_resolve ..
  rw [chmod, readMode?_of_octalMode hmode]
  dsimp only
  rw [Volume.setPermissions_of_missing hcanonical fun e he hplace => hmissing e ⟨he, hplace⟩]
  rfl

/-! ### What is printed -/

namespace Session

theorem run_chmod_of_names (hs : Sound limits s.volume) (hmode : OctalMode word mode)
    {e : Volume.Entry} (he : s.Names target e) (rest : List String) (hopen : c.Open) :
    ∃ w, Remoded s.volume e mode w ∧ ¬ s.Fails "chmod" (word :: target :: rest) ∧
      (s.run "chmod" (word :: target :: rest) c).1 = .proceed ∧
      (s.run "chmod" (word :: target :: rest) c).2.1 = { s with volume := w } ∧
      (s.run "chmod" (word :: target :: rest) c).2.2.screen.text = c.screen.text ++
        ("'" ++ target ++ "' is now " ++ modeText mode e.isDirectory ++ "\n") := by
  obtain ⟨w, hremoded, hchmod⟩ := chmod_of_names hs hmode he rest
  have hscript : Builtin.chmod.handler s (word :: target :: rest) = _ := hchmod
  have hran := run_of_become hscript (lettered_confirm _) hopen
  rw [text_modeNotice] at hran
  exact ⟨w, hremoded, hran⟩

theorem run_chmod_of_malformed (h : ∀ mode, ¬ OctalMode word mode) (target : String)
    (rest : List String) (hopen : c.Open) :
    s.Fails "chmod" (word :: target :: rest) ∧
      (s.run "chmod" (word :: target :: rest) c).1 = .proceed ∧
      (s.run "chmod" (word :: target :: rest) c).2.1 = s ∧
      (s.run "chmod" (word :: target :: rest) c).2.2.screen.text =
        c.screen.text ++ ("chmod: invalid argument: " ++ word ++ "\n") := by
  have hscript : Builtin.chmod.handler s (word :: target :: rest) = _ :=
    chmod_of_malformed h target rest
  have hran := run_of_fail (fun c => by rw [hscript]; rfl) hopen
  rw [Error.line_invalid] at hran
  exact hran

theorem run_chmod_of_missing (hmode : OctalMode word mode) (hmissing : ∀ e, ¬ s.Names target e)
    (rest : List String) (hopen : c.Open) :
    s.Fails "chmod" (word :: target :: rest) ∧
      (s.run "chmod" (word :: target :: rest) c).1 = .proceed ∧
      (s.run "chmod" (word :: target :: rest) c).2.1 = s ∧
      (s.run "chmod" (word :: target :: rest) c).2.2.screen.text =
        c.screen.text ++ ("chmod: " ++ target ++ ": no such file or directory\n") := by
  have hscript : Builtin.chmod.handler s (word :: target :: rest) = _ :=
    chmod_of_missing hmode hmissing rest
  have hend : ": no such file or directory\n" = ": " ++ Volume.Error.notFound.message ++ "\n" := rfl
  have hran := run_of_fail (fun c => by rw [hscript]; rfl) hopen
  rw [Error.line_volume] at hran
  rw [hend]
  simp only [String.append_assoc] at hran ⊢
  exact hran

end Session

/-- `chmod` takes octal modes and nothing else, and changes the mode and nothing else. It succeeds
if the first argument is an octal number of nine bits and the second resolves to a path that has an
entry; the entry has the mode then, and it is printed with the letters of its bits. Otherwise the
history alone changes, and a word that is no mode is reported before a path that has no entry. -/
theorem chmod_sets_octal_mode (hvolume : Reachable limits s.volume)
    (hdue : s.awaitsPassword = false) {rest : List String}
    (hwords : tokens line = "chmod" :: word :: target :: rest) (hopen : c.Open) :
    let ran := s.execute line c
    ran.1 = .proceed ∧
    (¬ (s.recorded line).Fails "chmod" (word :: target :: rest) ↔
      (∃ mode, OctalMode word mode) ∧ ∃ e, s.Names target e) ∧
    (∀ mode e, OctalMode word mode → s.Names target e →
      ∃ w, Remoded s.volume e mode w ∧ ran.2.1 = { s.recorded line with volume := w } ∧
        ran.2.2.screen.text =
          c.screen.text ++ ("'" ++ target ++ "' is now " ++ modeText mode e.isDirectory ++ "\n")) ∧
    ((∀ mode, ¬ OctalMode word mode) →
      ran.2.1 = s.recorded line ∧
        ran.2.2.screen.text =
          c.screen.text ++ ("chmod: invalid argument: " ++ word ++ "\n")) ∧
    ∀ mode, OctalMode word mode → (∀ e, ¬ s.Names target e) →
      ran.2.1 = s.recorded line ∧
        ran.2.2.screen.text =
          c.screen.text ++ ("chmod: " ++ target ++ ": no such file or directory\n") := by
  intro ran
  have hran : ran = (s.recorded line).run "chmod" (word :: target :: rest) c :=
    Session.execute_of_words hdue hwords c
  have hs : Sound limits (s.recorded line).volume :=
    (s.recorded_volume line).symm ▸ Volume.sound_of_reachable hvolume
  simp only [hran, ← s.recorded_volume line, ← @Session.names_recorded s line]
  clear hran ran
  -- From here on only the session that has the line in its history matters.
  generalize s.recorded line = s at hs ⊢
  have hset {mode : Nat} {e : Volume.Entry} (hmode : OctalMode word mode) (he : s.Names target e) :=
    Session.run_chmod_of_names hs hmode he rest hopen
  have hmalformed (h : ∀ mode, ¬ OctalMode word mode) :=
    Session.run_chmod_of_malformed (s := s) h target rest hopen
  have hmissing {mode : Nat} (hmode : OctalMode word mode) (h : ∀ e, ¬ s.Names target e) :=
    Session.run_chmod_of_missing hmode h rest hopen
  refine ⟨?_, ⟨fun hok => ?_, ?_⟩, ?_, ?_, ?_⟩
  · by_cases hmode : ∃ mode, OctalMode word mode
    case neg => exact (hmalformed (not_exists.mp hmode)).2.1
    obtain ⟨mode, hmode⟩ := hmode
    by_cases hplace : ∃ e, s.Names target e
    case neg => exact (hmissing hmode (not_exists.mp hplace)).2.1
    obtain ⟨e, he⟩ := hplace
    obtain ⟨w, -, -, hout, -⟩ := hset hmode he
    exact hout
  · by_cases hmode : ∃ mode, OctalMode word mode
    case neg => exact absurd (hmalformed (not_exists.mp hmode)).1 hok
    refine ⟨hmode, ?_⟩
    obtain ⟨mode, hmode⟩ := hmode
    by_contra hplace
    exact hok (hmissing hmode (not_exists.mp hplace)).1
  · rintro ⟨⟨mode, hmode⟩, e, he⟩
    obtain ⟨w, -, hok, -⟩ := hset hmode he
    exact hok
  · intro mode e hmode he
    obtain ⟨w, hremoded, -, -, hran⟩ := hset hmode he
    exact ⟨w, hremoded, hran⟩
  · intro hmode
    exact (hmalformed hmode).2.2
  · intro mode hmode hplace
    exact (hmissing hmode hplace).2.2

/-- A plus sign and zeros in front do not count, and a number of ten bits is no mode, wherever it is
to be set. -/
theorem chmod_with_sign_and_zeros :
    let start := Session.start (Volume.ofLimits ⟨4, 8, 4, 8, .inPlace⟩) .standard
    let s := (start.executeAll .fresh ["mkdir d", "cd d", "touch a"]).1
    let t := s.execute "chmod +00640 ../d/a" .fresh
    (∃ e w, e.path = "/d/a" ∧ Remoded s.volume e 0o640 w ∧
      t.2.1 = { s.recorded "chmod +00640 ../d/a" with volume := w }) ∧
      t.2.2.screen.text = Console.fresh.screen.text ++ "'../d/a' is now -rw-r-----\n" ∧
      (s.execute "chmod 1000 nowhere" .fresh).2.2.screen.text =
        Console.fresh.screen.text ++ "chmod: invalid argument: 1000\n" := by
  intro start s t
  have hvolume : Reachable ⟨4, 8, 4, 8, .inPlace⟩ s.volume :=
    (start.leads_executeAll .fresh _).reachable .start
  have hdue : s.awaitsPassword = false := by decide +kernel
  have hwords : tokens "chmod +00640 ../d/a" = ["chmod", "+00640", "../d/a"] := by decide +kernel
  have hwords' : tokens "chmod 1000 nowhere" = ["chmod", "1000", "nowhere"] := by decide +kernel
  have hmode : OctalMode "+00640" 0o640 :=
    ⟨Text.readNat?_eq_some_iff.mp (by decide +kernel), by decide⟩
  have hmalformed : ∀ mode, ¬ OctalMode "1000" mode := by
    rintro mode ⟨hnumeral, hle⟩
    have hread : Text.readNat? 8 "1000" = some 0o1000 := by decide +kernel
    obtain rfl := Option.some.inj (hread.symm.trans (Text.readNat?_eq_some_iff.mpr hnumeral))
    exact absurd hle (by decide)
  have hplace : s.resolve "../d/a" = "/d/a" := by decide +kernel
  have hnames : ∃ e ∈ s.volume.table.entries, e.path = "/d/a" ∧ e.isDirectory = false := by
    decide +kernel
  obtain ⟨e, he, hpath, hfile⟩ := hnames
  -- From here on the session is not computed any more.
  clear_value s
  obtain ⟨-, -, hset, -⟩ := chmod_sets_octal_mode hvolume hdue hwords Console.Open.fresh
  obtain ⟨-, -, -, hrefused, -⟩ := chmod_sets_octal_mode hvolume hdue hwords' Console.Open.fresh
  obtain ⟨w, hremoded, hsession, htext⟩ := hset _ e hmode ⟨he, hpath.trans hplace.symm⟩
  refine ⟨⟨e, w, hpath, hremoded, hsession⟩, ?_, (hrefused hmalformed).2⟩
  rw [htext, hfile]
  decide +kernel

end Shell

end RamShell
