import RamShell.Proofs.Shell.Failure
import RamShell.Proofs.Shell.Printed
import RamShell.Proofs.Shell.Redirection
import RamShell.Proofs.Text.Utf8
import RamShell.Proofs.Volume.LastWrite
import RamShell.Proofs.Volume.Written
/-!
# RamShell.Proofs.Shell.ReadBack

Text that is put into a file from the shell is read back. Three lines put words into a file: `echo`
with either redirection, and `write`. Each of them is one write to the volume, of what the file is
to keep and the words behind it (`write_of_put`), and if it fails the line does. So a line that does
not fail leaves the volume of that write, and prints what it has to say (`puts_of_line`).

What reads the file afterwards is `cat`, which decodes what `echo` and `write` encoded. The main
statement is `written_text_reads_back`.
-/

namespace RamShell.Shell

open Volume (Limits Sound Reachable)
open Command

variable {limits : Limits}

/-! ### One write -/

section Put

variable {v w : Volume} {path : String} {bytes : Bytes}

/-- What a file keeps when something is put into it: all it holds if that is put to its end, and
nothing else. A file that does not exist holds nothing. -/
def Keeps (v : Volume) (path : String) (append : Bool) (kept : Bytes) : Prop :=
  if append then v.readAll path = .ok kept ∨ (v.contains path = false ∧ kept = []) else kept = []

theorem contains_of_kindAt (h : v.kindAt path = .unknown) : v.contains path = false := by
  rw [Volume.kindAt] at h
  rw [Volume.contains]
  cases hfound : v.find? path with
  | none => rfl
  | some e =>
    rw [hfound] at h
    cases hdir : e.isDirectory <;> simp [Volume.Entry.kind, hdir] at h

/-- What is put into a file is written behind what the file keeps. -/
theorem write_of_put {append : Bool} (h : put v path bytes append = (.ok (), w)) :
    ∃ kept, Keeps v path append kept ∧ v.write path (kept ++ bytes) = (.ok (), w) := by
  rw [put] at h
  cases hkind : v.kindAt path with
  | directory =>
    rw [hkind] at h
    exact absurd (congrArg Prod.fst h) nofun
  | unknown =>
    -- The check of the parent is passed, or nothing is written.
    rw [hkind] at h
    dsimp only at h
    unfold guarded at h
    split at h
    · refine ⟨[], ?_, h⟩
      cases append with
      | false => exact rfl
      | true => exact Or.inr ⟨contains_of_kindAt hkind, rfl⟩
    · exact absurd (congrArg Prod.fst h) nofun
  | file =>
    rw [hkind] at h
    cases append with
    | false => exact ⟨[], rfl, h⟩
    | true =>
      cases hread : v.readAll path with
      | ok held =>
        simp only [hread, if_true] at h
        exact ⟨held, Or.inl hread, h⟩
      | error e =>
        simp only [hread, if_true] at h
        exact absurd (congrArg Prod.fst h) nofun

/-- A write that succeeds is read back, and under relocation no other path notices. -/
theorem reads_after_write (hv : Reachable limits v) (h : v.write path bytes = (.ok (), w)) :
    w.readAll path = .ok bytes ∧
      (limits.growth = .relocate →
        ∀ q, Path.normalize q ≠ Path.normalize path → w.readAll q = v.readAll q) := by
  have hs := Volume.sound_of_reachable hv
  have heffect : Volume.Effect v (.write path bytes) w := Volume.effect_of_ok hs.used_le h
  have hpath : path ≠ "" := by cases heffect <;> assumption
  obtain ⟨e, hplace, hwritten⟩ := heffect.written
  refine ⟨((hs.effect heffect).reads_written hwritten hpath hplace).1, ?_⟩
  intro hpolicy q hne
  by_cases hq : q = ""
  · -- The empty path reads as nothing in every volume, though it has a canonical form.
    subst hq
    rfl
  · have hlaid := Volume.laid_of_reachable hpolicy hv
    have hanswer : (v.answer (.write path bytes)).2 = w := congrArg Prod.snd h
    have hkept := Volume.contents_of_not_concerns hs hlaid hpolicy
      (show ¬ (Volume.Request.write path bytes).concerns (Path.normalize q) from Ne.symm hne)
    rw [hanswer] at hkept
    rw [Volume.readAll_eq hq, Volume.readAll_eq hq, hkept]

end Put

/-! ### Lines that put a text into a file -/

/-- What a line does that puts `content` into the file `target`, on an open console: the shell goes
on; nothing of the session changes but history and volume; the file reads as the content; no other
file changes if the volume relocates; and what is printed is `announced`. -/
structure Puts (limits : Limits) (s : Session) (line target : String) (content : Bytes)
    (announced : String) (c : Console) : Prop where
  /-- The shell goes on. -/
  outcome : (s.execute line c).1 = .proceed
  /-- Nothing but the line in the history and the volume is new. -/
  session : ∃ v, (s.execute line c).2.1 = { s.recorded line with volume := v }
  /-- The file reads as the content. -/
  content : (s.execute line c).2.1.volume.readAll (s.resolve target) = .ok content
  /-- All other paths read as before if the volume relocates. -/
  others : limits.growth = .relocate → ∀ q, Path.normalize q ≠ Path.normalize (s.resolve target) →
    (s.execute line c).2.1.volume.readAll q = s.volume.readAll q
  /-- What is printed comes behind what was on the screen. -/
  printed : (s.execute line c).2.2.screen.text = c.screen.text ++ announced

section Lines

variable {s : Session} {line target : String} {c : Console}

/-- A change that is no failure took place. -/
theorem eq_ok_of_change {b : Builtin} {args : List String} {shown : String}
    {result : Volume.Result Unit} {script : Script}
    (hscript : b.handler s args = .change s shown result script)
    (hok : ¬ s.Fails b.name args) : result = (.ok (), result.2) := by
  obtain ⟨answer, v⟩ := result
  cases answer with
  | ok u => rfl
  | error e =>
    have hfails : (Script.play (b.handler s args) s .fresh).1 = .error (.volume shown e) := by
      rw [hscript]
      rfl
    exact absurd (Session.fails_name_iff.mpr ⟨_, hfails⟩) hok

/-- A line whose command puts bytes into a file, and does not fail. -/
theorem puts_of_line (hvolume : Reachable limits s.volume) (hdue : s.awaitsPassword = false)
    {b : Builtin} {args : List String} (hwords : tokens line = b.name :: args)
    (hb : b.outcome = .proceed) {bytes : Bytes} {append : Bool} {script : Script}
    (hscript : b.handler (s.recorded line) args =
      .change (s.recorded line) target (put s.volume (s.resolve target) bytes append) script)
    (hlettered : script.Lettered) (hok : ¬ (s.recorded line).Fails b.name args) (hopen : c.Open) :
    ∃ kept, Keeps s.volume (s.resolve target) append kept ∧
      Puts limits s line target (kept ++ bytes) script.text c := by
  have hput := eq_ok_of_change hscript hok
  obtain ⟨kept, hkept, hwrite⟩ := write_of_put hput
  obtain ⟨hread, hothers⟩ := reads_after_write hvolume hwrite
  have hbecome : b.handler (s.recorded line) args =
      .become { s.recorded line with volume := (put s.volume (s.resolve target) bytes append).2 } ::
        script := by
    rw [hscript, Script.change, hput]
  obtain ⟨-, houtcome, hsession, hprinted⟩ := Session.run_of_become hbecome hlettered hopen
  rw [← Session.execute_of_words hdue hwords] at houtcome hsession hprinted
  refine ⟨kept, hkept, ?_⟩
  exact
    { outcome := houtcome.trans hb
      session := ⟨_, hsession⟩
      content := by rw [hsession]; exact hread
      others := by rw [hsession]; exact hothers
      printed := hprinted }

end Lines

/-! ### Words in files -/

section Words

variable {s : Session} {c : Console} {target : String} {ws : List String}

/-- What is said once words are written. -/
def writeNotice (target : String) (ws : List String) : Script :=
  confirm ["Wrote ", Text.decimal (Text.encode (lineOf ws)).length, " bytes to '", target, "'"]

theorem text_writeNotice (target : String) (ws : List String) :
    (writeNotice target ws).text =
      "Wrote " ++ Text.decimal (Text.encode (lineOf ws)).length ++ " bytes to '" ++ target ++
        "'\n" := by
  have hend : "'" ++ "\n" = "'\n" := rfl
  rw [writeNotice, confirm, Script.text_sayIn]
  simp [String.append_assoc, hend]

theorem write_words (hne : ws ≠ []) (s : Session) (target : String) :
    write s (target :: ws) =
      .change s target (put s.volume (s.resolve target) (Text.encode (lineOf ws)) false)
        (writeNotice target ws) := by
  cases ws with
  | nil => exact absurd rfl hne
  | cons w ws => rfl

/-- A line is shown as it is, since it ends in a line end already. -/
theorem text_sayLines_lineOf (ws : List String) : (sayLines (lineOf ws)).text = lineOf ws := by
  have hlast : (lineOf ws).toList.getLast? = some '\n' := by
    rw [lineOf, String.toList_append]
    exact List.getLast?_concat
  have hended : sayLines (lineOf ws) = Script.say [lineOf ws] := by
    rw [sayLines, hlast]
    rfl
  rw [hended, Script.text_say, String.join_cons]
  exact String.append_empty

/-- There is room to ask for a file after a line that named it. -/
theorem fits_cat {word : String} {rest : List String} (hfits : Fits (word :: rest))
    (hmem : target ∈ rest) (hword : 3 ≤ word.utf8ByteSize) : Fits ["cat", target] := by
  have hlength := hfits.length
  have hle := utf8ByteSize_le_typed hmem
  rw [utf8ByteSize_typed_cons word (List.ne_nil_of_mem hmem)] at hlength
  refine ⟨(by decide : 2 ≤ 32), ?_⟩
  have htarget : typed [target] = target := String.intercalate_singleton
  have hcat : "cat".utf8ByteSize = 3 := rfl
  rw [utf8ByteSize_typed_cons "cat" (List.cons_ne_nil _ _), htarget, hcat]
  omega

/-- A file that holds a line is shown as that line. -/
theorem shows_line (hdue : s.awaitsPassword = false) (htarget : Text.IsWord target)
    (hfits : Fits ["cat", target])
    (hread : s.volume.readAll (s.resolve target) = .ok (Text.encode (lineOf ws))) (hopen : c.Open) :
    (s.execute (typed ["cat", target]) c).2.2.screen.text = c.screen.text ++ lineOf ws := by
  have hwords : tokens (typed ["cat", target]) = Builtin.cat.name :: [target] :=
    tokens_typed hfits (List.forall_mem_cons.mpr ⟨by decide, List.forall_mem_singleton.mpr htarget⟩)
  have hscript : Builtin.cat.handler (s.recorded (typed ["cat", target])) [target] =
      sayLines (lineOf ws) := by
    rw [Builtin.handler, cat, Session.recorded_volume, Session.recorded_resolve, hread]
    dsimp only
    rw [Text.decodeLossy_encode]
  obtain ⟨-, -, -, hprinted⟩ := Session.run_of_tell hscript (.say _) hopen
  rw [Session.execute_of_words hdue hwords, hprinted, text_sayLines_lineOf]

/-- What a line left is shown by the next one, if the line put words into a file. -/
theorem Puts.shows {line announced : String} (h : Puts limits s line target
    (Text.encode (lineOf ws)) announced c) (hdue : s.awaitsPassword = false)
    (htarget : Text.IsWord target) (hfits : Fits ["cat", target]) (hopen : c.Open) :
    ((s.execute line c).2.1.execute (typed ["cat", target])
        (s.execute line c).2.2).2.2.screen.text =
      (s.execute line c).2.2.screen.text ++ lineOf ws := by
  obtain ⟨v, hsession⟩ := h.session
  obtain ⟨es, hconsole⟩ := (s.steady_execute line).exists_undergoAll hopen
  have hafter : (s.execute line c).2.2.Open := hconsole ▸ hopen.undergoAll es
  -- The second line is given to the same user in the same place.
  have hstill : (s.execute line c).2.1.awaitsPassword = false := by
    rw [hsession, Session.recorded]
    exact hdue
  have hcwd : (s.execute line c).2.1.cwd = s.cwd := by
    rw [hsession, Session.recorded]
  refine shows_line hstill htarget hfits ?_ hafter
  rw [Session.resolve, hcwd]
  exact h.content

/-! ### The three lines -/

section Lines

variable (hvolume : Reachable limits s.volume) (hdue : s.awaitsPassword = false)
  (htarget : Text.IsWord target) (hws : ∀ w ∈ ws, Text.IsWord w ∧ w ≠ ">" ∧ w ≠ ">>")
  (hopen : c.Open)

include hvolume hdue htarget hws hopen

/-- `echo` with either sign. -/
theorem puts_echo {sign : String} (hsign : Text.IsWord sign) {append : Bool}
    (hfits : Fits ("echo" :: (ws ++ [sign, target])))
    (hscript : ∀ t : Session, echo t (ws ++ [sign, target]) =
      .change t target (put t.volume (t.resolve target) (Text.encode (lineOf ws)) append) [])
    (hok : ¬ (s.recorded (typed ("echo" :: (ws ++ [sign, target])))).Fails "echo"
      (ws ++ [sign, target])) :
    ∃ kept, Keeps s.volume (s.resolve target) append kept ∧
      Puts limits s (typed ("echo" :: (ws ++ [sign, target]))) target
        (kept ++ Text.encode (lineOf ws)) "" c := by
  have hall : ∀ w ∈ "echo" :: (ws ++ [sign, target]), Text.IsWord w := by
    intro w hw
    simp only [List.mem_cons, List.mem_append, List.not_mem_nil, or_false] at hw
    rcases hw with rfl | hw | rfl | rfl
    · decide
    · exact (hws w hw).1
    · exact hsign
    · exact htarget
  have hwords : tokens (typed ("echo" :: (ws ++ [sign, target]))) =
      Builtin.echo.name :: (ws ++ [sign, target]) := tokens_typed hfits hall
  have hrun := hscript (s.recorded (typed ("echo" :: (ws ++ [sign, target]))))
  rw [Session.recorded_volume, Session.recorded_resolve] at hrun
  exact puts_of_line hvolume hdue hwords rfl hrun .nil hok hopen

/-- `write` puts down the words, and says how many bytes they are. -/
theorem puts_write (hne : ws ≠ []) (hfits : Fits ("write" :: target :: ws))
    (hok : ¬ (s.recorded (typed ("write" :: target :: ws))).Fails "write" (target :: ws)) :
    Puts limits s (typed ("write" :: target :: ws)) target (Text.encode (lineOf ws))
      (writeNotice target ws).text c := by
  have hall : ∀ w ∈ "write" :: target :: ws, Text.IsWord w := by
    intro w hw
    rcases List.mem_cons.mp hw with rfl | hw
    · decide
    rcases List.mem_cons.mp hw with rfl | hw
    · exact htarget
    · exact (hws w hw).1
  have hwords : tokens (typed ("write" :: target :: ws)) = Builtin.write.name :: target :: ws :=
    tokens_typed hfits hall
  have hrun := write_words hne (s.recorded (typed ("write" :: target :: ws))) target
  rw [Session.recorded_volume, Session.recorded_resolve] at hrun
  obtain ⟨kept, rfl, hputs⟩ :=
    puts_of_line hvolume hdue hwords rfl hrun (lettered_confirm _) hok hopen
  exact hputs

end Lines

/-- In every session that is due no password, over every reachable volume: words that are put into a
file by a line within the bounds of the shell are in the file, unless the line fails. `echo` and
`write` leave the words as one line of UTF-8 in place of what the file held, `cat` shows this line,
and `write` says how many bytes it has. `echo` with two signs leaves the line behind what the file
held, or alone if there was no file. None of them changes another file of a volume that
relocates. -/
theorem written_text_reads_back (hvolume : Reachable limits s.volume)
    (hdue : s.awaitsPassword = false) (htarget : Text.IsWord target) (hne : ws ≠ [])
    (hws : ∀ w ∈ ws, Text.IsWord w ∧ w ≠ ">" ∧ w ≠ ">>") (hopen : c.Open) :
    let text := " ".intercalate ws ++ "\n"
    let announced :=
      "Wrote " ++ Text.decimal (Text.encode text).length ++ " bytes to '" ++ target ++ "'\n"
    let shown (line : String) : String :=
      ((s.execute line c).2.1.execute (typed ["cat", target])
        (s.execute line c).2.2).2.2.screen.text
    let replacing := ws ++ [">", target]
    let adding := ws ++ [">>", target]
    (Fits ("echo" :: replacing) →
      ¬ (s.recorded (typed ("echo" :: replacing))).Fails "echo" replacing →
      Puts limits s (typed ("echo" :: replacing)) target (Text.encode text) "" c ∧
      shown (typed ("echo" :: replacing)) = c.screen.text ++ text) ∧
    (Fits ("write" :: target :: ws) →
      ¬ (s.recorded (typed ("write" :: target :: ws))).Fails "write" (target :: ws) →
      Puts limits s (typed ("write" :: target :: ws)) target (Text.encode text) announced c ∧
      shown (typed ("write" :: target :: ws)) = c.screen.text ++ announced ++ text) ∧
    (Fits ("echo" :: adding) → ¬ (s.recorded (typed ("echo" :: adding))).Fails "echo" adding →
      ∃ old, (s.volume.readAll (s.resolve target) = .ok old ∨
          (s.volume.contains (s.resolve target) = false ∧ old = [])) ∧
        Puts limits s (typed ("echo" :: adding)) target (old ++ Text.encode text) "" c) := by
  intro text announced shown replacing adding
  have hsigns : ∀ w ∈ ws, w ≠ ">" ∧ w ≠ ">>" := fun w hw => (hws w hw).2
  refine ⟨?_, ?_, ?_⟩
  · intro hfits hok
    obtain ⟨kept, rfl, hputs⟩ :=
      puts_echo hvolume hdue htarget hws hopen (by decide) hfits
        (fun t => (echo_of_sign hsigns t target []).1) hok
    have hroom : Fits ["cat", target] := fits_cat hfits (by simp [replacing]) (by decide)
    refine ⟨hputs, (hputs.shows hdue htarget hroom hopen).trans ?_⟩
    rw [hputs.printed, String.append_empty]
    rfl
  · intro hfits hok
    have hputs := puts_write hvolume hdue htarget hws hopen hne hfits hok
    have hnotice : (writeNotice target ws).text = announced := text_writeNotice target ws
    have hroom : Fits ["cat", target] := fits_cat hfits (List.mem_cons_self ..) (by decide)
    rw [hnotice] at hputs
    refine ⟨hputs, (hputs.shows hdue htarget hroom hopen).trans ?_⟩
    rw [hputs.printed]
    rfl
  · intro hfits hok
    exact puts_echo hvolume hdue htarget hws hopen (by decide) hfits
      (fun t => (echo_of_sign hsigns t target []).2) hok

/-- A file that outgrows its space keeps what was in it in front of what is put behind that, and a
file beside it stays. Digits, quotes and letters of more than one byte come back as they were. -/
theorem text_behind_relocated_file :
    let start := Session.start (Volume.ofLimits ⟨8, 16, 64, 128, .relocate⟩) .standard
    let s := (start.executeAll .fresh ["mkdir d", "cd d", "echo é > a", "write ../b it's 7"]).1
    let c := Console.fresh
    let t := (s.execute "echo → 1 >> ../d/a" c).2.1
    (s.resolve "../d/a" = "/d/a" ∧ s.volume.readAll "/d/a" = .ok (Text.encode "é\n")) ∧
      Puts ⟨8, 16, 64, 128, .relocate⟩ s "echo → 1 > ../d/a" "../d/a" (Text.encode "→ 1\n") "" c ∧
      Puts ⟨8, 16, 64, 128, .relocate⟩ s "write ../d/a → 1" "../d/a" (Text.encode "→ 1\n")
        "Wrote 6 bytes to '../d/a'\n" c ∧
      t.volume.readAll "/d/a" = .ok (Text.encode "é\n→ 1\n") ∧
      t.volume.readAll "/b" = .ok (Text.encode "it's 7\n") := by
  intro start s c t
  have hvolume : Reachable ⟨8, 16, 64, 128, .relocate⟩ s.volume :=
    (start.leads_executeAll .fresh _).reachable .start
  have hdue : s.awaitsPassword = false := by decide +kernel
  have hplace : s.resolve "../d/a" = "/d/a" := by decide +kernel
  have hheld : s.volume.readAll "/d/a" = .ok (Text.encode "é\n") := by decide +kernel
  have hbeside : s.volume.readAll "/b" = .ok (Text.encode "it's 7\n") := by decide +kernel
  have htarget : Text.IsWord "../d/a" := by decide
  have hws : ∀ w ∈ ["→", "1"], Text.IsWord w ∧ w ≠ ">" ∧ w ≠ ">>" := by decide
  have htext : " ".intercalate ["→", "1"] ++ "\n" = "→ 1\n" := by decide
  have hnotice : "Wrote " ++ Text.decimal (Text.encode "→ 1\n").length ++ " bytes to '" ++
      "../d/a" ++ "'\n" = "Wrote 6 bytes to '../d/a'\n" := by decide
  have hreplace : typed ("echo" :: (["→", "1"] ++ [">", "../d/a"])) = "echo → 1 > ../d/a" := by
    decide
  have hwrite : typed ["write", "../d/a", "→", "1"] = "write ../d/a → 1" := by decide
  have hadd : typed ("echo" :: (["→", "1"] ++ [">>", "../d/a"])) = "echo → 1 >> ../d/a" := by
    decide
  have hreplaced : ¬ (s.recorded "echo → 1 > ../d/a").Fails "echo" ["→", "1", ">", "../d/a"] := by
    decide +kernel
  have hwritten : ¬ (s.recorded "write ../d/a → 1").Fails "write" ["../d/a", "→", "1"] := by
    decide +kernel
  have hadded : ¬ (s.recorded "echo → 1 >> ../d/a").Fails "echo" ["→", "1", ">>", "../d/a"] := by
    decide +kernel
  -- From here on the session is not computed any more.
  clear_value s
  obtain ⟨hecho, hwords, hbehind⟩ :=
    written_text_reads_back hvolume hdue htarget (List.cons_ne_nil _ _) hws Console.Open.fresh
  rw [hreplace, htext] at hecho
  rw [hwrite, htext, hnotice] at hwords
  rw [hadd, htext] at hbehind
  obtain ⟨hfirst, -⟩ := hecho ⟨by decide, by decide⟩ hreplaced
  obtain ⟨hsecond, -⟩ := hwords ⟨by decide, by decide⟩ hwritten
  obtain ⟨old, hold, hthird⟩ := hbehind ⟨by decide, by decide⟩ hadded
  have hcontent := hthird.content
  have hother := hthird.others rfl "/b"
  rw [hplace] at hold hcontent hother
  rcases hold with hold | ⟨habsent, -⟩
  · obtain rfl : Text.encode "é\n" = old := Except.ok.inj (hheld.symm.trans hold)
    exact ⟨⟨hplace, hheld⟩, hfirst, hsecond, hcontent, (hother (by decide)).trans hbeside⟩
  · obtain ⟨e, hfound, -⟩ := Volume.file_of_readAll hheld
    rw [Volume.contains, hfound] at habsent
    exact absurd habsent (by simp)

end Words

end RamShell.Shell
