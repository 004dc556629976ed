import Mathlib.Data.List.DropRight
import RamShell.Proofs.Shell.Words
/-!
# RamShell.Proofs.Shell.Tokens

The grammar of a line. `Spaced` says how a text is laid out: words, each of which begins behind a
blank or in front of everything and ends in front of a blank or behind everything, and nothing but
blanks besides. Every text is laid out in one way, and the words of the text are what it says
(`wordsOf_eq_iff`). So words come back from every text that they are spread over with blanks, as long
as some blank stands between any two of them, and if none does they do not
(`wordsOf_spread_iff`).

A line is cut before it is taken apart. The cut leaves the longest start of whole characters that has
room (`isPrefix_takeBytes`); going back from the last byte that has room to the next place between
two characters ends in the same place (`boundaryBefore_eq`). The main statement is
`tokens_follow_grammar`.
-/

namespace RamShell

namespace Text

variable {sep : Char → Bool} {cs gap rest : List Char} {s w : String} {ws : List String}

/-! ### Layouts -/

/-- How a text is laid out: the words in it, in order, with blanks between any two of them, and maybe
in front of the first and behind the last. -/
inductive Spaced : List String → List Char → Prop
  /-- Nothing but blanks. -/
  | blank {gap : List Char} (hgap : ∀ c ∈ gap, isBlank c = true) : Spaced [] gap
  /-- Blanks, a word, and a text that does not go on with the word. -/
  | word {gap rest : List Char} {w : String} {ws : List String} (hgap : ∀ c ∈ gap, isBlank c = true)
      (hw : IsWord w) (hends : ∀ c ∈ rest.head?, isBlank c = true) (hrest : Spaced ws rest) :
      Spaced (w :: ws) (gap ++ w.toList ++ rest)

namespace IsWord

theorem toList_ne_nil (h : IsWord w) : w.toList ≠ [] :=
  fun hnil => h.1 (String.toList_eq_nil_iff.mp hnil)

/-- A word does not begin with a blank. -/
theorem exists_cons (h : IsWord w) : ∃ c cs, w.toList = c :: cs ∧ isBlank c = false := by
  obtain ⟨c, cs, hcs⟩ := List.exists_cons_of_ne_nil h.toList_ne_nil
  exact ⟨c, cs, hcs, h.2 c (by rw [hcs]; exact List.mem_cons_self ..)⟩

end IsWord

/-- Separators in front do not count. -/
theorem words_sep_append (h : ∀ c ∈ gap, sep c = true) : words sep (gap ++ cs) = words sep cs := by
  induction gap with
  | nil => rfl
  | cons c gap ih =>
    obtain ⟨hc, hgap⟩ := List.forall_mem_cons.mp h
    rw [List.cons_append, words, pieces_cons_of_sep hc]
    exact ih hgap

/-- A word in front that does not go on is the first word. -/
theorem words_word_append (hw : IsWord w) (hends : ∀ c ∈ rest.head?, isBlank c = true) :
    words isBlank (w.toList ++ rest) = w.toList :: words isBlank rest := by
  cases rest with
  | nil => rw [List.append_nil, hw.words_eq, words_of_sep (by simp)]
  | cons c rest =>
    have hc : isBlank c = true := hends c rfl
    rw [words_append_sep hc, hw.words_eq, List.singleton_append]
    rw [words, words, pieces_cons_of_sep hc]
    rfl

theorem Spaced.words_eq (h : Spaced ws cs) : words isBlank cs = ws.map String.toList := by
  induction h with
  | blank hgap => exact words_of_sep hgap
  | word hgap hw hends _ ih =>
    rw [List.append_assoc, words_sep_append hgap, words_word_append hw hends, ih, List.map_cons]

/-- A word at the very front. -/
theorem Spaced.front {c : Char} (hword : ∀ d ∈ c :: cs, isBlank d = false)
    (hends : ∀ d ∈ rest.head?, isBlank d = true) (hrest : Spaced ws rest) :
    Spaced (String.ofList (c :: cs) :: ws) (c :: cs ++ rest) := by
  have hw : IsWord (String.ofList (c :: cs)) := ⟨by simp, by rwa [String.toList_ofList]⟩
  have hspaced := @Spaced.word [] rest _ ws (by simp) hw hends hrest
  rwa [String.toList_ofList] at hspaced

/-- Every text is laid out in some way. -/
theorem exists_spaced (cs : List Char) : ∃ ws, Spaced ws cs := by
  induction cs with
  | nil => exact ⟨[], .blank (by simp)⟩
  | cons c cs ih =>
    obtain ⟨ws, hws⟩ := ih
    cases hc : isBlank c with
    | true =>
      -- A blank joins the blanks in front.
      have hgap {gap : List Char} (h : ∀ d ∈ gap, isBlank d = true) :
          ∀ d ∈ c :: gap, isBlank d = true := List.forall_mem_cons.mpr ⟨hc, h⟩
      cases hws with
      | blank h => exact ⟨[], .blank (hgap h)⟩
      | word h hw hends hrest => exact ⟨_, .word (hgap h) hw hends hrest⟩
    | false =>
      -- In front of a blank, or of nothing, it is a word of its own.
      have halone (h : ∀ d ∈ cs.head?, isBlank d = true) : ∃ ws, Spaced ws (c :: cs) :=
        ⟨_, .front (List.forall_mem_singleton.mpr hc) h hws⟩
      cases hws with
      | blank h => exact halone fun d hd => h d (List.mem_of_head? hd)
      | @word gap rest w ws hgap hw hends hrest =>
        cases gap with
        | nil => exact ⟨_, .front (List.forall_mem_cons.mpr ⟨hc, hw.2⟩) hends hrest⟩
        | cons d gap => exact halone fun _ h => Option.some.inj h ▸ hgap d (List.mem_cons_self ..)

/-- The words of a text are those that it is laid out with. -/
theorem wordsOf_eq_iff : wordsOf s = ws ↔ Spaced ws s.toList := by
  constructor
  · rintro rfl
    obtain ⟨ws, hws⟩ := exists_spaced s.toList
    rwa [wordsOf_of_words hws.words_eq]
  · exact fun h => wordsOf_of_words h.words_eq

/-! ### Words spread over a text -/

/-- A text made of words and blanks: what stands in front, and each word with what stands behind
it. -/
def spread (lead : String) (parts : List (String × String)) : String :=
  lead ++ String.join (parts.map fun (word, gap) => word ++ gap)

/-- Words, each with the blanks behind it. -/
def WordsAndGaps (parts : List (String × String)) : Prop :=
  ∀ part ∈ parts, IsWord part.1 ∧ isBlankText part.2 = true

section Spread

variable {lead gap : String} {parts : List (String × String)}

theorem spread_cons (lead w gap : String) (parts : List (String × String)) :
    (spread lead ((w, gap) :: parts)).toList = lead.toList ++ w.toList ++ (spread gap parts).toList := by
  simp [spread]

theorem forall_isBlank (h : isBlankText s = true) : ∀ c ∈ s.toList, isBlank c = true :=
  List.all_eq_true.mp h

/-- A word that is followed by nothing, or by blanks, ends there. -/
theorem head?_spread (hgap : isBlankText gap = true) (hapart : parts ≠ [] → gap ≠ "") :
    ∀ c ∈ (spread gap parts).toList.head?, isBlank c = true := by
  intro c hc
  by_cases hempty : gap = ""
  · have hnone : parts = [] := by
      by_contra hne
      exact hapart hne hempty
    subst hempty hnone
    exact absurd hc (by simp [spread])
  · obtain ⟨d, ds, hd⟩ := List.exists_cons_of_ne_nil (mt String.toList_eq_nil_iff.mp hempty)
    rw [spread, String.toList_append, hd] at hc
    obtain rfl : d = c := Option.some.inj hc
    exact forall_isBlank hgap d (by rw [hd]; exact List.mem_cons_self ..)

/-- Words that blanks keep apart are laid out as they were spread. -/
theorem spaced_spread (hlead : isBlankText lead = true) (hparts : WordsAndGaps parts)
    (hapart : ∀ part ∈ parts.dropLast, part.2 ≠ "") :
    Spaced (parts.map Prod.fst) (spread lead parts).toList := by
  induction parts generalizing lead with
  | nil =>
    have hall : (spread lead []).toList = lead.toList := by simp [spread]
    rw [hall]
    exact .blank (forall_isBlank hlead)
  | cons part parts ih =>
    obtain ⟨w, gap⟩ := part
    obtain ⟨⟨hw, hgap⟩, hrest⟩ := List.forall_mem_cons.mp hparts
    rw [spread_cons]
    refine .word (forall_isBlank hlead) hw (head?_spread hgap fun hne => ?_) (ih hgap hrest ?_)
    · rw [List.dropLast_cons_of_ne_nil hne] at hapart
      exact hapart _ (List.mem_cons_self ..)
    · intro part hpart
      by_cases hne : parts = []
      · subst hne
        exact absurd hpart List.not_mem_nil
      · rw [List.dropLast_cons_of_ne_nil hne] at hapart
        exact hapart part (List.mem_cons_of_mem _ hpart)

/-- Where a text begins is where its first word begins. -/
theorem takeWhile_gap_append (hgap : ∀ c ∈ cs, isBlank c = true) (hw : IsWord w)
    (rest : List Char) : (cs ++ w.toList ++ rest).takeWhile isBlank = cs := by
  obtain ⟨c, ds, hword, hc⟩ := hw.exists_cons
  rw [List.append_assoc, List.takeWhile_append_of_pos hgap, hword, List.cons_append,
    List.takeWhile_cons_of_neg (by simp [hc]), List.append_nil]

/-- A text that has a word at its front for its first word ends it there. -/
theorem Spaced.of_cons (h : Spaced (w :: ws) (gap.toList ++ w.toList ++ rest))
    (hgap : isBlankText gap = true) (hw : IsWord w) :
    (∀ c ∈ rest.head?, isBlank c = true) ∧ Spaced ws rest := by
  generalize htext : gap.toList ++ w.toList ++ rest = text at h
  cases h with
  | @word gap' rest' _ _ hgap' _ hends hrest =>
    have hsame : gap.toList = gap' := by
      rw [← takeWhile_gap_append (forall_isBlank hgap) hw rest, htext,
        takeWhile_gap_append hgap' hw rest']
    subst hsame
    obtain rfl : rest = rest' := List.append_cancel_left htext
    exact ⟨hends, hrest⟩

/-- Words are found again in a text that they are spread over, exactly if there is something between
any two of them. -/
theorem wordsOf_spread_iff (hlead : isBlankText lead = true) (hparts : WordsAndGaps parts) :
    wordsOf (spread lead parts) = parts.map Prod.fst ↔ ∀ part ∈ parts.dropLast, part.2 ≠ "" := by
  rw [wordsOf_eq_iff]
  refine ⟨fun h => ?_, spaced_spread hlead hparts⟩
  induction parts generalizing lead with
  | nil => exact fun part hpart => absurd hpart List.not_mem_nil
  | cons part parts ih =>
    obtain ⟨w, gap⟩ := part
    obtain ⟨⟨hw, hgap⟩, hrest⟩ := List.forall_mem_cons.mp hparts
    rw [spread_cons, List.map_cons] at h
    obtain ⟨hends, hspaced⟩ := h.of_cons hlead hw
    cases parts with
    | nil => exact fun part hpart => absurd hpart List.not_mem_nil
    | cons next parts =>
      rw [List.dropLast_cons_of_ne_nil (List.cons_ne_nil _ _)]
      refine List.forall_mem_cons.mpr ⟨fun hnone : gap = "" => ?_, ih hgap hrest hspaced⟩
      -- Without anything between them, the text goes on with the next word.
      obtain ⟨c, cs, hnext, hc⟩ := (hrest next (List.mem_cons_self ..)).1.exists_cons
      rw [hnone, spread_cons, hnext] at hends
      exact absurd (hc.symm.trans (hends c rfl)) Bool.false_ne_true

end Spread

/-! ### Blank texts -/

/-- A text without words is all separators. -/
theorem words_eq_nil_iff : words sep cs = [] ↔ ∀ c ∈ cs, sep c = true := by
  refine ⟨?_, words_of_sep⟩
  intro hnone
  induction cs with
  | nil => exact fun c hc => absurd hc List.not_mem_nil
  | cons c cs ih =>
    cases hc : sep c with
    | true =>
      rw [words, pieces_cons_of_sep hc] at hnone
      exact List.forall_mem_cons.mpr ⟨hc, ih hnone⟩
    | false =>
      rw [words, pieces_cons_of_not_sep hc, List.filter_cons_of_pos rfl] at hnone
      exact absurd hnone (List.cons_ne_nil _ _)

theorem wordsOf_eq_nil_iff : wordsOf s = [] ↔ isBlankText s = true := by
  rw [wordsOf, List.map_eq_nil_iff, words_eq_nil_iff, isBlankText, List.all_eq_true]

/-- Nothing is left of a text when it is trimmed, exactly if it is blank. -/
theorem trim_eq_empty_iff : trim s = "" ↔ isBlankText s = true := by
  rw [trim, ← String.toList_eq_nil_iff, String.toList_ofList, isBlankText, List.all_eq_true,
    ← List.dropWhile_eq_nil_iff]
  constructor
  · intro hnone
    obtain ⟨ds, hds, hsplit⟩ := exists_dropTrailing_append isBlank (s.toList.dropWhile isBlank)
    rw [hnone, List.nil_append] at hsplit
    -- What begins with no blank and is all blank is empty.
    rw [← List.dropWhile_idempotent, hsplit]
    exact List.dropWhile_eq_nil_iff.mpr hds
  · intro hnone
    rw [hnone]
    rfl

end Text

namespace Shell

open String.Pos.Raw (IsValid isValid)

/-! ### The cut -/

theorem toList_clamp_isPrefix (line : String) : (clamp line).toList <+: line.toList := by
  rw [clamp, String.toList_ofList]
  exact takeBytes_isPrefix _ _

theorem length_takeBytes_le (room : Nat) (cs : List Char) :
    ((takeBytes room cs).flatMap String.utf8EncodeChar).length ≤ room := by
  induction cs generalizing room with
  | nil => exact Nat.zero_le _
  | cons c cs ih =>
    rw [takeBytes]
    split
    · next hc =>
      have hrest := ih (room - c.utf8Size)
      rw [List.flatMap_cons, List.length_append, String.length_utf8EncodeChar]
      omega
    · exact Nat.zero_le _

/-- What a line is cut to is not too long. -/
theorem utf8ByteSize_clamp_le (line : String) : (clamp line).utf8ByteSize ≤ maxLineLength := by
  rw [← Text.length_encode, Text.encode, clamp, String.toList_ofList]
  exact length_takeBytes_le _ _

/-- No longer start of a text has room. -/
theorem isPrefix_takeBytes {room : Nat} {front cs : List Char} (hfront : front <+: cs)
    (hroom : (front.flatMap String.utf8EncodeChar).length ≤ room) : front <+: takeBytes room cs := by
  induction cs generalizing room front with
  | nil => exact hfront
  | cons c cs ih =>
    cases front with
    | nil => exact List.nil_prefix
    | cons d front =>
      obtain ⟨rfl, hrest⟩ := List.cons_prefix_cons.mp hfront
      rw [List.flatMap_cons, List.length_append, String.length_utf8EncodeChar] at hroom
      rw [takeBytes, if_pos (by omega)]
      exact List.cons_prefix_cons.mpr ⟨rfl, ih hrest (by omega)⟩

theorem isPrefix_clamp {line front rest : String} (hline : line = front ++ rest)
    (hroom : front.utf8ByteSize ≤ maxLineLength) : front.toList <+: (clamp line).toList := by
  rw [← Text.length_encode, Text.encode] at hroom
  rw [clamp, String.toList_ofList]
  refine isPrefix_takeBytes ?_ hroom
  rw [hline, String.toList_append]
  exact List.prefix_append _ _

/-- The last place at `i` or in front of it that lies between two characters, or at an end of the
line. -/
def boundaryBefore (line : String) : Nat → Nat
  | 0 => 0
  | i + 1 => if isValid line ⟨i + 1⟩ then i + 1 else boundaryBefore line i

/-- Going back ends in the first place that will do. -/
theorem boundaryBefore_of_le {line : String} {i n : Nat} (hn : n ≤ i) (hplace : IsValid line ⟨n⟩)
    (hlast : ∀ j, n < j → j ≤ i → ¬ IsValid line ⟨j⟩) : boundaryBefore line i = n := by
  induction i with
  | zero => exact (Nat.le_zero.mp hn).symm
  | succ i ih =>
    rw [boundaryBefore]
    by_cases hhere : n = i + 1
    · subst hhere
      exact if_pos (String.Pos.Raw.isValid_eq_true_iff.mpr hplace)
    · have hnot := hlast (i + 1) (by omega) (Nat.le_refl _)
      rw [if_neg (mt String.Pos.Raw.isValid_eq_true_iff.mp hnot)]
      exact ih (by omega) fun j hj hji => hlast j hj (by omega)

/-- Going back from the last byte that has room ends where the line is cut. -/
theorem boundaryBefore_eq (line : String) :
    boundaryBefore line maxLineLength = (clamp line).utf8ByteSize ∧
      IsValid line ⟨(clamp line).utf8ByteSize⟩ := by
  obtain ⟨rest, hrest⟩ := toList_clamp_isPrefix line
  have hline : line = clamp line ++ String.ofList rest := by
    rw [← String.toList_inj, String.toList_append, String.toList_ofList, hrest]
  have hplace : IsValid line ⟨(clamp line).utf8ByteSize⟩ :=
    String.Pos.Raw.isValid_iff_exists_append.mpr ⟨_, _, hline, rfl⟩
  refine ⟨boundaryBefore_of_le (utf8ByteSize_clamp_le line) hplace ?_, hplace⟩
  intro j hj hroom hvalid
  obtain ⟨front, behind, hsplit, hend⟩ := String.Pos.Raw.isValid_iff_exists_append.mp hvalid
  have hsize : front.utf8ByteSize = j := (congrArg String.Pos.Raw.byteIdx hend).symm
  -- A start of the line that is longer than the cut would have no room.
  obtain ⟨more, hmore⟩ := isPrefix_clamp hsplit (hsize ▸ hroom)
  have hlonger : clamp line = front ++ String.ofList more := by
    rw [← String.toList_inj, String.toList_append, String.toList_ofList, hmore]
  rw [hlonger, String.utf8ByteSize_append] at hj
  omega

theorem clamp_clamp (line : String) : clamp (clamp line) = clamp line :=
  clamp_of_le (utf8ByteSize_clamp_le line)

/-! ### Words of a line -/

theorem tokens_clamp (line : String) : tokens (clamp line) = tokens line := by
  rw [tokens, clamp_clamp, tokens]

theorem tokens_eq_nil_iff {line : String} : tokens line = [] ↔ Text.trim (clamp line) = "" := by
  rw [tokens, List.take_eq_nil_iff, Text.wordsOf_eq_nil_iff, Text.trim_eq_empty_iff]
  exact or_iff_right (by decide)

/-- Taking a line apart follows its grammar. The cut leaves the longest start of whole characters
that has at most 512 bytes, the same that is found by going back from byte 512 to a place between two
characters, and cutting once more changes nothing. The words of the line are the first 32 of those
that the cut line is laid out with; they are the words of the cut line too, and there are none
exactly if nothing is left of it when it is trimmed. The other way round, at most 32 words that are
spread over a line of at most 512 bytes, with blanks between any two of them, are its words. -/
theorem tokens_follow_grammar :
    (∀ line : String,
      (clamp line).toList <+: line.toList ∧ (clamp line).utf8ByteSize ≤ 512 ∧
      (∀ front rest : String, line = front ++ rest → front.utf8ByteSize ≤ 512 →
        front.toList <+: (clamp line).toList) ∧
      IsValid line ⟨boundaryBefore line 512⟩ ∧
      (clamp line).utf8ByteSize = boundaryBefore line 512 ∧
      clamp (clamp line) = clamp line ∧
      (∃ ws, Text.Spaced ws (clamp line).toList) ∧
      (∀ ws, Text.Spaced ws (clamp line).toList → tokens line = ws.take 32) ∧
      tokens (clamp line) = tokens line ∧
      (tokens line = [] ↔ Text.trim (clamp line) = "")) ∧
    ∀ (lead : String) (parts : List (String × String)),
      Text.isBlankText lead = true →
      (∀ part ∈ parts, Text.IsWord part.1 ∧ Text.isBlankText part.2 = true) →
      (∀ part ∈ parts.dropLast, part.2 ≠ "") → parts.length ≤ 32 →
      (Text.spread lead parts).utf8ByteSize ≤ 512 →
      tokens (Text.spread lead parts) = parts.map Prod.fst := by
  refine ⟨fun line => ?_, fun lead parts hlead hparts hapart hcount hlength => ?_⟩
  · obtain ⟨hback, hplace⟩ := boundaryBefore_eq line
    refine ⟨toList_clamp_isPrefix line, utf8ByteSize_clamp_le line, fun _ _ => isPrefix_clamp, ?_,
      hback.symm, clamp_clamp line, Text.exists_spaced _, ?_, tokens_clamp line, tokens_eq_nil_iff⟩
    · rw [show boundaryBefore line 512 = _ from hback]
      exact hplace
    · intro ws hws
      rw [tokens, Text.wordsOf_eq_iff.mpr hws]
      rfl
  · have hcount : (parts.map Prod.fst).length ≤ maxWords := by
      rw [List.length_map]
      exact hcount
    rw [tokens, clamp_of_le hlength, (Text.wordsOf_spread_iff hlead hparts).mpr hapart,
      List.take_of_length_le hcount]

/-- Blanks of any kind keep words apart, and a letter that is cut goes as a whole. -/
example :
    tokens (Text.spread "\u00A0" [("echo", "\t "), ("é", "\u3000")]) = ["echo", "é"] ∧
      takeBytes 6 "echo éa b".toList = "echo ".toList := by
  decide +kernel

end Shell

end RamShell
