import Mathlib.Data.List.Chain
import Mathlib.Data.List.DropRight
import RamShell.Console.Ansi
import RamShell.Proofs.Text.Numeral
import RamShell.Proofs.Text.Utf8
import RamShell.Text.Split
/-!
# RamShell.Proofs.Console.Stream

The stream of escape codes loses nothing. A stream is read back by cutting it into marks: a code
runs from an escape character to the first letter after it, and every character outside a code is
shown. No text of an event holds an escape character, and no letter stands in a code before its
last character, so the cuts fall where the events end (`cut_renderAll`). Digits, semicolons,
brackets and the letters that end codes may stand in a text as they like.

A code for colors is read as two numbers, and each number as the one color that has it. That no two
colors share a number is where the order of the terminal's palette comes in (`foregroundOf?_code`,
`backgroundOf?_code`).

What a stream does not tell is where one write ended and the next began. `merged` forgets exactly
that, and the main statement is `stream_loses_nothing`: the bytes of the stream determine the
events up to `merged`, and what a plain screen shows can be read off them.
-/

namespace RamShell

namespace Console

variable {e : Event} {es fs : List Event}

/-! ### Events up to merging -/

namespace Event

/-- The text of a write. -/
def text? : Event → Option String
  | write text => some text
  | paint _ _ => none
  | clear => none

/-- An event that writes no escape character. -/
def EscapeFree (e : Event) : Prop := ∀ text ∈ e.text?, ∀ c ∈ text.toList, c ≠ '\x1b'

-- The text is looked through character by character, not all characters there are.
instance : DecidablePred EscapeFree := fun e =>
  have (text : String) : Decidable (∀ c ∈ text.toList, c ≠ '\x1b') := List.decidableBAll ..
  inferInstanceAs (Decidable (∀ text ∈ e.text?, ∀ c ∈ text.toList, c ≠ '\x1b'))

end Event

/-- An event in front of events that are merged already: a write joins the write that follows, and
is dropped if nothing is written. -/
def prepend : Event → List Event → List Event
  | .write t, .write u :: rest => .write (t ++ u) :: rest
  | .write t, rest => if t = "" then rest else .write t :: rest
  | e, rest => e :: rest

/-- Events with adjacent writes merged and empty ones dropped. -/
def merged (es : List Event) : List Event := es.foldr prepend []

/-- Events with nothing left to merge: no text is empty, and no two writes are adjacent. -/
def Settled (es : List Event) : Prop :=
  (∀ e ∈ es, e ≠ .write "") ∧ es.IsChain fun e f => e.text? = none ∨ f.text? = none

@[simp] theorem merged_cons (e : Event) (es : List Event) :
    merged (e :: es) = prepend e (merged es) := rfl

theorem prepend_write_write (t u : String) (rest : List Event) :
    prepend (.write t) (.write u :: rest) = .write (t ++ u) :: rest := rfl

/-- A write that no write follows. -/
theorem prepend_write_of_head (h : ∀ e ∈ es.head?, e.text? = none) (t : String) :
    prepend (.write t) es = if t = "" then es else .write t :: es := by
  cases es with
  | nil => rfl
  | cons e es =>
    cases e with
    | write u => cases h _ rfl
    | paint fg bg => rfl
    | clear => rfl

/-- Events begin with a write, or with none. -/
theorem exists_write_or_head (es : List Event) :
    (∃ u rest, es = .write u :: rest) ∨ ∀ e ∈ es.head?, e.text? = none := by
  cases es with
  | nil => exact Or.inr fun e he => by cases he
  | cons e es =>
    cases e with
    | write u => exact Or.inl ⟨u, es, rfl⟩
    | paint fg bg => exact Or.inr fun e he => by cases he; rfl
    | clear => exact Or.inr fun e he => by cases he; rfl

/-- Two writes in front of merged events are one. -/
theorem prepend_prepend (s t : String) (es : List Event) :
    prepend (.write s) (prepend (.write t) es) = prepend (.write (s ++ t)) es := by
  obtain ⟨u, rest, rfl⟩ | hhead := exists_write_or_head es
  · simp only [prepend_write_write, String.append_assoc]
  rw [prepend_write_of_head hhead, prepend_write_of_head hhead]
  by_cases ht : t = ""
  · rw [if_pos ht, prepend_write_of_head hhead, ht, String.append_empty]
  · have hst : s ++ t ≠ "" := fun h => ht (String.append_eq_empty_iff.mp h).2
    rw [if_neg ht, if_neg hst, prepend_write_write]

/-- Nothing written in front of merged events leaves them. -/
theorem prepend_empty (es : List Event) : prepend (.write "") es = es := by
  obtain ⟨u, rest, rfl⟩ | hhead := exists_write_or_head es
  · rw [prepend_write_write, String.empty_append]
  · rw [prepend_write_of_head hhead, if_pos rfl]

/-- Text cut into single characters merges to the text. -/
theorem merged_characters_append (cs : List Char) (es : List Event) :
    merged (cs.map (fun c => .write (String.singleton c)) ++ es) =
      prepend (.write (String.ofList cs)) (merged es) := by
  induction cs with
  | nil => exact (prepend_empty _).symm
  | cons c cs ih =>
    rw [List.map_cons, List.cons_append, merged_cons, ih, prepend_prepend]
    rw [String.singleton_eq_ofList, ← String.ofList_append, List.singleton_append]

theorem settled_prepend (h : Settled es) (e : Event) : Settled (prepend e es) := by
  obtain ⟨hempty, hchain⟩ := h
  have hfront (hne : e ≠ .write "") (hnext : ∀ f ∈ es.head?, e.text? = none ∨ f.text? = none) :
      Settled (e :: es) :=
    ⟨List.forall_mem_cons.mpr ⟨hne, hempty⟩, List.isChain_cons.mpr ⟨hnext, hchain⟩⟩
  cases e with
  | paint fg bg => exact hfront nofun fun f _ => Or.inl rfl
  | clear => exact hfront nofun fun f _ => Or.inl rfl
  | write t =>
    obtain ⟨u, rest, rfl⟩ | hhead := exists_write_or_head es
    · obtain ⟨hu, hrest⟩ := List.forall_mem_cons.mp hempty
      obtain ⟨hnext, htail⟩ := List.isChain_cons.mp hchain
      refine ⟨List.forall_mem_cons.mpr ⟨?_, hrest⟩, List.isChain_cons.mpr ⟨?_, htail⟩⟩
      · intro htu
        have hboth : t ++ u = "" := Event.write.inj htu
        exact hu (congrArg _ (String.append_eq_empty_iff.mp hboth).2)
      · intro f hf
        exact Or.inr ((hnext f hf).resolve_left nofun)
    · rw [prepend_write_of_head hhead]
      by_cases ht : t = ""
      · rw [if_pos ht]
        exact ⟨hempty, hchain⟩
      · rw [if_neg ht]
        exact hfront (fun h => ht (Event.write.inj h)) fun f hf => Or.inr (hhead f hf)

theorem settled_merged (es : List Event) : Settled (merged es) := by
  induction es with
  | nil => exact ⟨nofun, List.isChain_nil⟩
  | cons e es ih => exact settled_prepend ih e

namespace Ansi

/-! ### Marks of a stream -/

/-- A piece of a stream: a character that is shown, or a code by what stands before the letter that
ends it and that letter. -/
inductive Mark
  /-- A character outside codes. -/
  | shown (c : Char)
  /-- A code without its escape character. -/
  | code (body : List Char) (last : Char)
  deriving DecidableEq, Repr

/-- Whether a character ends a code. -/
def isLetter (c : Char) : Bool := decide (('A' ≤ c ∧ c ≤ 'Z') ∨ ('a' ≤ c ∧ c ≤ 'z'))

/-- The marks of a stream, between two marks or inside a code with the part of it that was read. A
code that the end cuts off is no mark. -/
def cut : Option (List Char) → List Char → List Mark
  | _, [] => []
  | none, c :: cs => if c = '\x1b' then cut (some []) cs else .shown c :: cut none cs
  | some body, c :: cs =>
    if isLetter c then .code body c :: cut none cs else cut (some (body ++ [c])) cs

/-- The marks of a stream as it arrives. -/
def received (bytes : Bytes) : List Mark := cut none (Text.decodeLossy bytes).toList

/-- The color with a foreground code. -/
def foregroundOf? (n : Nat) : Option Color := Color.palette.find? (foregroundCode · == n)

/-- The color with a background code. -/
def backgroundOf? (n : Nat) : Option Color := Color.palette.find? (backgroundCode · == n)

/-- The foreground and the background that the numbers of a code select. -/
def colorsOf? (numbers : List Char) : Option (Color × Color) :=
  match Text.pieces (· == ';') numbers with
  | [first, second] => do
    let fg ← Text.natOfDigits? 10 first >>= foregroundOf?
    let bg ← Text.natOfDigits? 10 second >>= backgroundOf?
    return (fg, bg)
  | _ => none

namespace Mark

/-- The character that a mark shows. -/
def shown? : Mark → Option Char
  | shown c => some c
  | code _ _ => none

/-- The colors that a mark sets. -/
def colors? : Mark → Option (Color × Color)
  | code ('[' :: numbers) 'm' => colorsOf? numbers
  | _ => none

/-- Whether a mark clears the screen. -/
def isClear (m : Mark) : Bool := m == code ['[', '2'] 'J'

/-- The event that a mark stands for, if any: the code that moves the cursor home stands for
none. -/
def event? (m : Mark) : Option Event :=
  if m.isClear then some .clear
  else (m.shown?.map fun c => .write (String.singleton c)) <|> m.colors?.map fun p => .paint p.1 p.2

end Mark

/-- The text that is left without the codes. -/
def shownText (ms : List Mark) : String := String.ofList (ms.filterMap Mark.shown?)

/-- The text after the last code that clears the screen. -/
def textSinceClear (ms : List Mark) : String := shownText (ms.rtakeWhile fun m => !m.isClear)

/-- The colors of the last code that sets some, the default ones if there is none. -/
def lastColors (ms : List Mark) : Color × Color :=
  (ms.filterMap Mark.colors?).getLast?.getD (Color.foreground, Color.background)

/-! ### Cutting -/

/-- Text without the escape character is shown. -/
theorem cut_text {ts : List Char} (h : ∀ c ∈ ts, c ≠ '\x1b') (rest : List Char) :
    cut none (ts ++ rest) = ts.map .shown ++ cut none rest := by
  induction ts with
  | nil => rfl
  | cons t ts ih =>
    obtain ⟨ht, hts⟩ := List.forall_mem_cons.mp h
    rw [List.cons_append, cut, if_neg ht, ih hts, List.map_cons, List.cons_append]

/-- A code ends with the first letter. -/
theorem cut_inside {body : List Char} {last : Char} (hbody : ∀ c ∈ body, isLetter c = false)
    (hlast : isLetter last = true) (front rest : List Char) :
    cut (some front) (body ++ last :: rest) = .code (front ++ body) last :: cut none rest := by
  induction body generalizing front with
  | nil => rw [List.nil_append, cut, if_pos hlast, List.append_nil]
  | cons c body ih =>
    obtain ⟨hc, hbody⟩ := List.forall_mem_cons.mp hbody
    rw [List.cons_append, cut, if_neg (by simp [hc]), ih hbody, List.append_assoc,
      List.singleton_append]

theorem cut_code {body : List Char} {last : Char} (hbody : ∀ c ∈ body, isLetter c = false)
    (hlast : isLetter last = true) (rest : List Char) :
    cut none ('\x1b' :: body ++ last :: rest) = .code body last :: cut none rest := by
  rw [List.cons_append, cut, if_pos rfl, cut_inside hbody hlast, List.nil_append]

/-- The numbers of the code for two colors, as they stand between the bracket and the letter. -/
def numbersOf (fg bg : Color) : List Char :=
  Nat.toDigits 10 (foregroundCode fg) ++ ';' :: Nat.toDigits 10 (backgroundCode bg)

/-- The marks that an event leaves in the stream. -/
def marksOf : Event → List Mark
  | .write text => text.toList.map .shown
  | .paint fg bg => [.code ('[' :: numbersOf fg bg) 'm']
  | .clear => [.code ['[', '2'] 'J', .code ['['] 'H']

theorem isLetter_of_mem_toDigits {c : Char} {n : Nat} (h : c ∈ Nat.toDigits 10 n) :
    isLetter c = false := by
  have hdigit := Nat.isDigit_of_mem_toDigits (by decide) (by decide) h
  have hrange : c.toNat ≤ 57 := (Char.isDigit_iff_toNat.mp hdigit).2
  refine decide_eq_false ?_
  intro hletter
  rcases hletter with ⟨hleast, -⟩ | ⟨hleast, -⟩
  · exact absurd (show 65 ≤ c.toNat from hleast) (by omega)
  · exact absurd (show 97 ≤ c.toNat from hleast) (by omega)

/-- What an event sends is cut into its marks, whatever follows. -/
theorem cut_render (h : e.EscapeFree) (rest : List Char) :
    cut none ((render e).toList ++ rest) = marksOf e ++ cut none rest := by
  cases e with
  | write text => exact cut_text (h text rfl) rest
  | clear => rfl
  | paint fg bg =>
    -- Nothing before the letter that ends the code could end it earlier.
    have hbody : ∀ c ∈ '[' :: numbersOf fg bg, isLetter c = false := by
      intro c hc
      simp only [numbersOf, List.mem_cons, List.mem_append] at hc
      rcases hc with rfl | hc | rfl | hc
      · rfl
      · exact isLetter_of_mem_toDigits hc
      · rfl
      · exact isLetter_of_mem_toDigits hc
    have hcode : (render (.paint fg bg)).toList = '\x1b' :: ('[' :: numbersOf fg bg) ++ ['m'] := by
      simp [render, opener, Text.decimal, numbersOf]
    rw [hcode, List.append_assoc]
    exact cut_code hbody rfl rest

theorem cut_renderAll (h : ∀ e ∈ es, e.EscapeFree) :
    cut none (renderAll es).toList = es.flatMap marksOf := by
  induction es with
  | nil => rfl
  | cons e es ih =>
    obtain ⟨he, hes⟩ := List.forall_mem_cons.mp h
    rw [renderAll, List.map_cons, String.join_cons, String.toList_append, cut_render he,
      List.flatMap_cons, ← renderAll, ih hes]

theorem received_renderAll (h : ∀ e ∈ es, e.EscapeFree) :
    received (Text.encode (renderAll es)) = es.flatMap marksOf := by
  rw [received, Text.decodeLossy_encode, cut_renderAll h]

/-! ### Reading marks -/

@[simp] theorem foregroundOf?_code (c : Color) : foregroundOf? (foregroundCode c) = some c := by
  cases c <;> rfl

@[simp] theorem backgroundOf?_code (c : Color) : backgroundOf? (backgroundCode c) = some c := by
  cases c <;> rfl

/-- The numbers of a code are read as the colors it was made from. -/
theorem colorsOf?_numbersOf (fg bg : Color) : colorsOf? (numbersOf fg bg) = some (fg, bg) := by
  have hfree (n : Nat) : ∀ c ∈ Nat.toDigits 10 n, (c == ';') = false := by
    intro c hc
    have hdigit := Nat.isDigit_of_mem_toDigits (by decide) (by decide) hc
    refine beq_eq_false_iff_ne.mpr ?_
    rintro rfl
    exact absurd hdigit (by decide)
  have hpieces : Text.pieces (· == ';') (numbersOf fg bg) =
      [Nat.toDigits 10 (foregroundCode fg), Nat.toDigits 10 (backgroundCode bg)] := by
    rw [numbersOf, Text.pieces_append_sep (by decide), Text.pieces_of_free (hfree _),
      Text.pieces_of_free (hfree _)]
    rfl
  rw [colorsOf?, hpieces]
  simp [Text.natOfDigits?_toDigits]

/-- The events that marks stand for. -/
def eventsOf (ms : List Mark) : List Event := ms.filterMap Mark.event?

theorem eventsOf_shown (cs : List Char) :
    eventsOf (cs.map .shown) = cs.map fun c => .write (String.singleton c) := by
  induction cs with
  | nil => rfl
  | cons c cs ih => exact congrArg (_ :: ·) ih

/-- The marks of events stand for the events, up to merging. -/
theorem merged_eventsOf (es : List Event) : merged (eventsOf (es.flatMap marksOf)) = merged es := by
  induction es with
  | nil => rfl
  | cons e es ih =>
    rw [List.flatMap_cons, eventsOf, List.filterMap_append, ← eventsOf, ← eventsOf, merged_cons,
      ← ih]
    cases e with
    | write text =>
      rw [marksOf, eventsOf_shown, merged_characters_append, String.ofList_toList]
    | clear => rfl
    | paint fg bg =>
      have hevent : eventsOf (marksOf (.paint fg bg)) = [.paint fg bg] := by
        simp [eventsOf, marksOf, Mark.event?, Mark.isClear, Mark.shown?, Mark.colors?,
          colorsOf?_numbersOf]
      rw [hevent]
      rfl

/-! ### What a screen shows -/

theorem shownText_append (ms ns : List Mark) :
    shownText (ms ++ ns) = shownText ms ++ shownText ns := by
  rw [shownText, List.filterMap_append, String.ofList_append, shownText, shownText]

theorem shownText_shown (cs : List Char) : shownText (cs.map .shown) = String.ofList cs := by
  rw [shownText, List.filterMap_map]
  exact congrArg String.ofList (List.filterMap_some (l := cs))

/-- The codes gone, the texts that were written are left. -/
theorem shownText_marksOf (es : List Event) :
    shownText (es.flatMap marksOf) = String.join (es.filterMap Event.text?) := by
  induction es with
  | nil => rfl
  | cons e es ih =>
    rw [List.flatMap_cons, shownText_append, ih]
    cases e with
    | write text =>
      rw [marksOf, shownText_shown, String.ofList_toList]
      exact (String.join_cons ..).symm
    | paint fg bg => exact String.empty_append
    | clear => exact String.empty_append

/-- Marks that clear nothing add what they show. -/
theorem textSinceClear_append (ms : List Mark) {ns : List Mark} (h : ∀ m ∈ ns, m.isClear = false) :
    textSinceClear (ms ++ ns) = textSinceClear ms ++ shownText ns := by
  have htaken : (ms ++ ns).rtakeWhile (fun m => !m.isClear) =
      ms.rtakeWhile (fun m => !m.isClear) ++ ns := by
    induction ns using List.reverseRecOn with
    | nil => rw [List.append_nil, List.append_nil]
    | append_singleton ns m ih =>
      have hm : m.isClear = false := h m (by simp)
      rw [← List.append_assoc, List.rtakeWhile_concat, if_pos (by rw [hm]; rfl),
        ih fun n hn => h n (List.mem_append_left _ hn), List.append_assoc]
  rw [textSinceClear, htaken, shownText_append, ← textSinceClear]

/-- Nothing is left of what was shown before the screen is cleared. -/
theorem textSinceClear_append_clear (ms : List Mark) :
    textSinceClear (ms ++ marksOf .clear) = "" := by
  have hhome : ∀ m ∈ [Mark.code ['['] 'H'], m.isClear = false := by decide
  have hsplit : ms ++ marksOf .clear = ms ++ [.code ['[', '2'] 'J'] ++ [.code ['['] 'H'] := by
    rw [List.append_assoc]
    rfl
  rw [hsplit, textSinceClear_append _ hhome, textSinceClear, List.rtakeWhile_concat,
    if_neg (by decide)]
  rfl

/-- Marks without colors leave the last ones. -/
theorem lastColors_append (ms : List Mark) {ns : List Mark} (h : ∀ m ∈ ns, m.colors? = none) :
    lastColors (ms ++ ns) = lastColors ms := by
  rw [lastColors, List.filterMap_append, List.filterMap_eq_nil_iff.mpr h, List.append_nil,
    ← lastColors]

theorem lastColors_concat (ms : List Mark) {m : Mark} {p : Color × Color}
    (h : m.colors? = some p) : lastColors (ms ++ [m]) = p := by
  rw [lastColors, List.filterMap_append, List.filterMap_cons_some h, List.filterMap_nil,
    List.getLast?_concat, Option.getD_some]

theorem countP_isClear {ns : List Mark} (h : ∀ m ∈ ns, m.isClear = false) :
    ns.countP Mark.isClear = 0 := by
  refine List.countP_eq_zero.mpr fun m hm => ?_
  rw [h m hm]
  exact Bool.false_ne_true

/-- What marks say about a screen. -/
def screenOf (ms : List Mark) : Screen :=
  ⟨textSinceClear ms, (lastColors ms).1, (lastColors ms).2, ms.countP Mark.isClear⟩

/-- The marks of one more event say what the event does to the screen. -/
theorem screenOf_append (ms : List Mark) (e : Event) :
    screenOf (ms ++ marksOf e) = (screenOf ms).after e := by
  cases e with
  | write text =>
    have hclear : ∀ m ∈ marksOf (.write text), m.isClear = false := by
      intro m hm
      obtain ⟨c, -, rfl⟩ := List.mem_map.mp hm
      rfl
    have hcolors : ∀ m ∈ marksOf (.write text), m.colors? = none := by
      intro m hm
      obtain ⟨c, -, rfl⟩ := List.mem_map.mp hm
      rfl
    rw [screenOf, textSinceClear_append _ hclear, lastColors_append _ hcolors, List.countP_append,
      countP_isClear hclear, marksOf, shownText_shown, String.ofList_toList]
    rfl
  | paint fg bg =>
    have hclear : ∀ m ∈ marksOf (.paint fg bg), m.isClear = false := by
      intro m hm
      rw [List.mem_singleton.mp hm]
      simp [Mark.isClear]
    have hcolors : (Mark.code ('[' :: numbersOf fg bg) 'm').colors? = some (fg, bg) :=
      colorsOf?_numbersOf fg bg
    have hshown : shownText (marksOf (.paint fg bg)) = "" := rfl
    rw [screenOf, textSinceClear_append _ hclear, List.countP_append, countP_isClear hclear, hshown,
      String.append_empty, marksOf, lastColors_concat _ hcolors]
    rfl
  | clear =>
    have hcolors : ∀ m ∈ marksOf .clear, m.colors? = none := by decide
    rw [screenOf, textSinceClear_append_clear, lastColors_append _ hcolors, List.countP_append]
    rfl

/-- The marks of events say what a plain screen shows after them. -/
theorem screenOf_marksOf (es : List Event) :
    screenOf (es.flatMap marksOf) = Screen.blank.afterAll es := by
  induction es using List.reverseRecOn with
  | nil => rfl
  | append_singleton es e ih =>
    rw [List.flatMap_append, List.flatMap_singleton, screenOf_append, ih, Screen.afterAll_append]
    rfl

/-! ### The stream -/

theorem renderAll_cons (e : Event) (es : List Event) :
    renderAll (e :: es) = render e ++ renderAll es := by
  rw [renderAll, List.map_cons, String.join_cons, renderAll]

/-- Merging leaves the stream. -/
theorem renderAll_merged (es : List Event) : renderAll (merged es) = renderAll es := by
  have hprepend : ∀ e fs, renderAll (prepend e fs) = render e ++ renderAll fs := by
    intro e fs
    cases e with
    | paint fg bg => exact renderAll_cons _ fs
    | clear => exact renderAll_cons _ fs
    | write t =>
      obtain ⟨u, rest, rfl⟩ | hhead := exists_write_or_head fs
      · rw [prepend_write_write, renderAll_cons, renderAll_cons]
        exact String.append_assoc
      · rw [prepend_write_of_head hhead]
        split
        · next ht => rw [ht]; exact String.empty_append.symm
        · exact renderAll_cons _ fs
  induction es with
  | nil => rfl
  | cons e es ih => rw [merged_cons, hprepend, ih, renderAll_cons]

/-- The bytes of the stream say all that happened on a console, up to where one write ended and the
next began: they are read back as the events, and no other events have the same ones. Without the
codes the texts that were written are left, and the text after the last code that clears, the colors
of the last code that sets some and the number of codes that clear are what a plain screen shows
after the same events. -/
theorem stream_loses_nothing (hes : ∀ e ∈ es, e.EscapeFree) :
    Settled (merged es) ∧
    (∀ fs, (∀ f ∈ fs, f.EscapeFree) →
      (Text.encode (renderAll es) = Text.encode (renderAll fs) ↔ merged es = merged fs)) ∧
    merged (eventsOf (received (Text.encode (renderAll es)))) = merged es ∧
    shownText (received (Text.encode (renderAll es))) = String.join (es.filterMap Event.text?) ∧
    textSinceClear (received (Text.encode (renderAll es))) = (Screen.blank.afterAll es).text ∧
    lastColors (received (Text.encode (renderAll es))) =
      ((Screen.blank.afterAll es).foreground, (Screen.blank.afterAll es).background) ∧
    (received (Text.encode (renderAll es))).countP Mark.isClear =
      (Screen.blank.afterAll es).clears := by
  have hmarks := received_renderAll hes
  have hback := merged_eventsOf es
  have hscreen := screenOf_marksOf es
  refine ⟨settled_merged es, ?_, ?_, ?_, ?_, ?_, ?_⟩
  · intro fs hfs
    constructor
    · intro hbytes
      calc merged es = merged (eventsOf (received (Text.encode (renderAll es)))) := by
            rw [hmarks, hback]
        _ = merged (eventsOf (received (Text.encode (renderAll fs)))) := by rw [hbytes]
        _ = merged fs := by rw [received_renderAll hfs, merged_eventsOf]
    · intro hmerged
      rw [← renderAll_merged es, hmerged, renderAll_merged]
  · rw [hmarks, hback]
  · rw [hmarks, shownText_marksOf]
  · rw [hmarks, ← hscreen, screenOf]
  · rw [hmarks, ← hscreen, screenOf]
  · rw [hmarks, ← hscreen, screenOf]

/-- Texts that look like codes once their escape character is gone are told from codes. -/
theorem look_alike_texts_read_back :
    let es : List Event := [.write "[2J", .paint .red .cyan, .write "", .write "3", .write "1;46m→",
      .clear, .write "[H", .paint .lightBlue .brown, .write "", .write "m"]
    let bytes := Text.encode (renderAll es)
    (∀ e ∈ es, e.EscapeFree) ∧
      merged es = [.write "[2J", .paint .red .cyan, .write "31;46m→", .clear, .write "[H",
        .paint .lightBlue .brown, .write "m"] ∧
      merged (eventsOf (received bytes)) = merged es ∧
      shownText (received bytes) = "[2J31;46m→[Hm" ∧ textSinceClear (received bytes) = "[Hm" ∧
      lastColors (received bytes) = (.lightBlue, .brown) ∧
      (received bytes).countP Mark.isClear = 1 := by
  intro es bytes
  have hes : ∀ e ∈ es, e.EscapeFree := by decide
  obtain ⟨-, -, hback, htexts, hsince, hcolors, hclears⟩ := stream_loses_nothing hes
  exact ⟨hes, by decide, hback, htexts.trans (by decide), hsince.trans (by decide),
    hcolors.trans (by decide), hclears.trans (by decide)⟩

end Ansi

end Console

end RamShell
