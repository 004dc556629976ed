import RamShell.Proofs.Shell.Printed
import RamShell.Proofs.Text.Numeral
/-!
# RamShell.Proofs.Shell.Calculation

What the calculator works out. `Operand` says which words are numbers to it, `Result` what an
operation yields in the integers, where nothing overflows, and `Refusal` what it says when it has no
answer. Every three words have either a result that fits or a refusal (`result_or_refusal`), and the
calculator finds out which (`calculate_of_result`, `calculate_of_refusal`).

The main statement is `calc_is_exact_or_refuses`, about the command and what it prints.
-/

namespace RamShell.Shell.Command

variable {a b q r x y z : Int} {s op t report : String}

/-! ### Numbers that fit -/

/-- The integers that fit into 64 bits with a sign. -/
def Signed64 (i : Int) : Prop := -9223372036854775808 ≤ i ∧ i ≤ 9223372036854775807

instance : DecidablePred Signed64 := fun _ => inferInstanceAs (Decidable (_ ∧ _))

/-- A word that is a number to the calculator. -/
structure Operand (word : String) (i : Int) : Prop where
  /-- The word stands for the number. -/
  numeral : Text.SignedNumeral word i
  /-- The number fits. -/
  signed : Signed64 i

theorem inRange_iff : inRange a = true ↔ Signed64 a := by
  rw [inRange, decide_eq_true_iff, Signed64, leastNumber, greatestNumber]

theorem number?_eq_some_iff : number? s = some a ↔ Operand s a := by
  rw [number?, Option.filter_eq_some_iff, Text.readInt?_eq_some_iff, inRange_iff]
  exact ⟨fun ⟨hnumeral, hsigned⟩ => ⟨hnumeral, hsigned⟩, fun h => ⟨h.numeral, h.signed⟩⟩

theorem number?_eq_none_iff : number? s = none ↔ ∀ a, ¬ Operand s a := by
  rw [Option.eq_none_iff_forall_ne_some]
  exact forall_congr' fun a => not_congr number?_eq_some_iff

theorem bounded_of_signed (h : Signed64 a) : bounded a = .ok a :=
  if_pos (inRange_iff.mpr h)

theorem bounded_of_not_signed (h : ¬ Signed64 a) : bounded a = .error .overflow :=
  if_neg (mt inRange_iff.mp h)

/-! ### Division -/

/-- Quotient and remainder of a division that cuts off toward zero. -/
structure Division (a b q r : Int) : Prop where
  /-- Together they give the dividend. -/
  sum : a = q * b + r
  /-- The remainder is smaller than the divisor. -/
  below : r.natAbs < b.natAbs
  /-- The remainder is on the side of the dividend. -/
  side : r = 0 ∨ r.sign = a.sign

/-- Every divisor but zero has one quotient and one remainder. -/
theorem division_iff : Division a b q r ↔ b ≠ 0 ∧ a.tdiv b = q ∧ a.tmod b = r := by
  constructor
  · rintro ⟨hsum, hbelow, hside⟩
    have hb : b ≠ 0 := Int.natAbs_pos.mp (Nat.zero_lt_of_lt hbelow)
    have hsum : r + b * q = a := by rw [hsum, Int.mul_comm, Int.add_comm]
    refine ⟨hb, ?_⟩
    -- The remainder is between zero and the divisor, on the side of the dividend.
    rcases Int.le_total 0 a with ha | ha
    · have hr : 0 ≤ r := by
        rcases hside with rfl | hsign
        · exact Int.le_refl 0
        · exact Int.sign_nonneg_iff.mp (hsign ▸ Int.sign_nonneg_iff.mpr ha)
      exact (Int.tdiv_tmod_unique ha hb).mpr ⟨hsum, hr, by omega⟩
    · have hr : r ≤ 0 := by
        rcases hside with rfl | hsign
        · exact Int.le_refl 0
        · exact Int.sign_nonpos_iff.mp (hsign ▸ Int.sign_nonpos_iff.mpr ha)
      exact (Int.tdiv_tmod_unique' ha hb).mpr ⟨hsum, by omega, hr⟩
  · rintro ⟨hb, rfl, rfl⟩
    refine ⟨(Int.tdiv_mul_add_tmod a b).symm, ?_, ?_⟩
    · rw [Int.natAbs_tmod]
      exact Nat.mod_lt _ (Int.natAbs_pos.mpr hb)
    · have hsign := Int.sign_tmod a b
      split at hsign
      · exact Or.inl (Int.sign_eq_zero_iff_zero.mp hsign)
      · exact Or.inr hsign

/-- A remainder fits if the divisor does. -/
theorem Division.signed (h : Division a b q r) (hb : Signed64 b) : Signed64 r := by
  have hbelow := h.below
  unfold Signed64 at hb ⊢
  omega

/-- What the calculator does with a quotient or a remainder, `i`: it has to fit, and so has the
quotient. -/
theorem divide_of_division (h : Division a b q r) (i : Int) :
    divide a b i = if Signed64 q then .ok i else .error .overflow := by
  obtain ⟨hb, rfl, -⟩ := division_iff.mp h
  rw [divide, if_neg hb]
  split
  · next hsigned => rw [bounded_of_signed hsigned]; rfl
  · next hsigned => rw [bounded_of_not_signed hsigned]; rfl

/-! ### Operations -/

/-- The operators that the calculator knows. -/
def operators : List String := ["+", "-", "*", "x", "/", "%"]

/-- The operators that divide. -/
def Divides (op : String) : Prop := op = "/" ∨ op = "%"

/-- What an operation yields in the integers. A remainder is there only if the quotient fits. -/
inductive Result (a : Int) (op : String) (b : Int) : Int → Prop
  | sum (hop : op = "+") : Result a op b (a + b)
  | difference (hop : op = "-") : Result a op b (a - b)
  | product (hop : op = "*" ∨ op = "x") : Result a op b (a * b)
  | quotient {q r : Int} (hop : op = "/") (h : Division a b q r) : Result a op b q
  | remainder {q r : Int} (hop : op = "%") (h : Division a b q r) (hq : Signed64 q) :
      Result a op b r

/-- A result that fits is what is computed. -/
theorem compute_of_result (h : Result a op b z) (hz : Signed64 z) : compute a op b = .ok z := by
  cases h with
  | sum hop => subst hop; exact bounded_of_signed hz
  | difference hop => subst hop; exact bounded_of_signed hz
  | product hop => rcases hop with rfl | rfl <;> exact bounded_of_signed hz
  | quotient hop hdivision =>
    obtain ⟨-, hq, -⟩ := division_iff.mp hdivision
    subst hop
    exact (divide_of_division hdivision (a.tdiv b)).trans (by rw [if_pos hz, hq])
  | remainder hop hdivision hq =>
    obtain ⟨-, -, hr⟩ := division_iff.mp hdivision
    subst hop
    exact (divide_of_division hdivision (a.tmod b)).trans (by rw [if_pos hq, hr])

/-- What divides by zero is refused before anything is computed. -/
theorem compute_zero (hop : Divides op) : compute a op 0 = .error .divisionByZero := by
  rcases hop with rfl | rfl <;> rfl

theorem compute_unknown (hop : op ∉ operators) :
    compute a op b = .error (.unknownOperator op) := by
  simp only [operators, List.mem_cons, List.not_mem_nil, or_false, not_or] at hop
  obtain ⟨hplus, hminus, htimes, hx, hover, hrest⟩ := hop
  rw [compute, if_neg hplus, if_neg hminus, if_neg (by simp [htimes, hx]), if_neg hover,
    if_neg hrest]

theorem result_or_overflow_of_bounded {i : Int} (hresult : Result a op b i)
    (hcompute : compute a op b = bounded i) :
    (∃ z, Result a op b z ∧ Signed64 z) ∨ compute a op b = .error .overflow := by
  by_cases hi : Signed64 i
  · exact Or.inl ⟨i, hresult, hi⟩
  · exact Or.inr (hcompute.trans (bounded_of_not_signed hi))

/-- An operation on numbers that fit yields a result that fits, or it overflows. -/
theorem result_or_overflow (hop : op ∈ operators) (hdivisor : Divides op → b ≠ 0)
    (hb : Signed64 b) :
    (∃ z, Result a op b z ∧ Signed64 z) ∨ compute a op b = .error .overflow := by
  have hdivision (hop : Divides op) : Division a b (a.tdiv b) (a.tmod b) :=
    division_iff.mpr ⟨hdivisor hop, rfl, rfl⟩
  simp only [operators, List.mem_cons, List.not_mem_nil, or_false] at hop
  rcases hop with rfl | rfl | rfl | rfl | rfl | rfl
  · exact result_or_overflow_of_bounded (.sum rfl) rfl
  · exact result_or_overflow_of_bounded (.difference rfl) rfl
  · exact result_or_overflow_of_bounded (.product (.inl rfl)) rfl
  · exact result_or_overflow_of_bounded (.product (.inr rfl)) rfl
  · have hdivision := hdivision (.inl rfl)
    by_cases hq : Signed64 (a.tdiv b)
    · exact Or.inl ⟨_, .quotient rfl hdivision, hq⟩
    · exact Or.inr ((divide_of_division hdivision _).trans (if_neg hq))
  · have hdivision := hdivision (.inr rfl)
    by_cases hq : Signed64 (a.tdiv b)
    · exact Or.inl ⟨_, .remainder rfl hdivision hq, hdivision.signed hb⟩
    · exact Or.inr ((divide_of_division hdivision _).trans (if_neg hq))

/-! ### Calculations -/

/-- Why three words have no result, and what is said about it. The first thing that is wrong counts:
an operand comes before the operator and the divisor, and these before an overflow. -/
inductive Refusal (s op t : String) : String → Prop
  | first (hs : ∀ a, ¬ Operand s a) : Refusal s op t s
  | second {a : Int} (hs : Operand s a) (ht : ∀ b, ¬ Operand t b) : Refusal s op t t
  | operator {a b : Int} (hs : Operand s a) (ht : Operand t b) (hop : op ∉ operators) :
      Refusal s op t ("unknown operator '" ++ op ++ "'")
  | divisor {a : Int} (hs : Operand s a) (ht : Operand t 0) (hop : Divides op) :
      Refusal s op t "division by zero"
  | overflow {a b : Int} (hs : Operand s a) (ht : Operand t b) (hop : op ∈ operators)
      (hdivisor : Divides op → b ≠ 0) (h : ∀ z, Result a op b z → ¬ Signed64 z) :
      Refusal s op t "overflow"

theorem calculate_of_operands (hs : Operand s a) (ht : Operand t b) :
    calculate s op t = (compute a op b).map fun z => (a, b, z) := by
  rw [calculate, number?_eq_some_iff.mpr hs]
  dsimp only
  rw [number?_eq_some_iff.mpr ht]

/-- A result that fits is the answer. -/
theorem calculate_of_result (hs : Operand s a) (ht : Operand t b) (h : Result a op b z)
    (hz : Signed64 z) : calculate s op t = .ok (a, b, z) := by
  rw [calculate_of_operands hs ht, compute_of_result h hz]
  rfl

/-- A refusal is the answer. -/
theorem calculate_of_refusal (h : Refusal s op t report) :
    ∃ e, calculate s op t = .error e ∧ e.message = report := by
  cases h with
  | first hs =>
    refine ⟨.malformed s, ?_, rfl⟩
    rw [calculate, number?_eq_none_iff.mpr hs]
  | second hs ht =>
    refine ⟨.malformed t, ?_, rfl⟩
    rw [calculate, number?_eq_some_iff.mpr hs]
    dsimp only
    rw [number?_eq_none_iff.mpr ht]
  | operator hs ht hop =>
    refine ⟨.unknownOperator op, ?_, rfl⟩
    rw [calculate_of_operands hs ht, compute_unknown hop]
    rfl
  | divisor hs ht hop =>
    refine ⟨.divisionByZero, ?_, rfl⟩
    rw [calculate_of_operands hs ht, compute_zero hop]
    rfl
  | overflow hs ht hop hdivisor h =>
    refine ⟨.overflow, ?_, rfl⟩
    obtain ⟨z, hz, hsigned⟩ | hcompute := result_or_overflow hop hdivisor ht.signed
    · exact absurd hsigned (h z hz)
    · rw [calculate_of_operands hs ht, hcompute]
      rfl

/-- Three words have a result that fits or a refusal. -/
theorem result_or_refusal (s op t : String) :
    (∃ a b z, Operand s a ∧ Operand t b ∧ Result a op b z ∧ Signed64 z) ∨
      ∃ report, Refusal s op t report := by
  by_cases hs : ∃ a, Operand s a
  case neg => exact Or.inr ⟨_, .first (not_exists.mp hs)⟩
  obtain ⟨a, hs⟩ := hs
  by_cases ht : ∃ b, Operand t b
  case neg => exact Or.inr ⟨_, .second hs (not_exists.mp ht)⟩
  obtain ⟨b, ht⟩ := ht
  by_cases hop : op ∈ operators
  case neg => exact Or.inr ⟨_, .operator hs ht hop⟩
  by_cases hdivisor : Divides op → b ≠ 0
  case neg =>
    obtain ⟨hop, hb⟩ := Classical.not_imp.mp hdivisor
    obtain rfl := not_not.mp hb
    exact Or.inr ⟨_, .divisor hs ht hop⟩
  obtain ⟨z, hz, hsigned⟩ | hcompute := result_or_overflow (a := a) hop hdivisor ht.signed
  · exact Or.inl ⟨a, b, z, hs, ht, hz, hsigned⟩
  · refine Or.inr ⟨_, .overflow hs ht hop hdivisor fun z hz hsigned => ?_⟩
    exact absurd (hcompute.symm.trans (compute_of_result hz hsigned)) nofun

theorem calculator_eq_sayIn (session : Session) (h : calculate s op t = .ok (a, b, z)) :
    calculator session [s, op, t] =
      Script.sayIn .lightGreen
        [Text.signedDecimal a, " ", op, " ", Text.signedDecimal b, " = ", Text.signedDecimal z,
          "\n"] := by
  rw [calculator, h]

theorem calculator_eq_fail (session : Session) {e : Miscalculation}
    (h : calculate s op t = .error e) :
    calculator session [s, op, t] = [.fail (.invalid e.message)] := by
  rw [calculator, h]

end RamShell.Shell.Command

namespace RamShell.Shell

open Command

section Calc

variable {session : Session} {s op t : String} {c : Console}

/-- A result that fits is printed behind the operation. -/
theorem Session.calc_of_result {a b z : Int} (hs : Operand s a) (ht : Operand t b)
    (h : Result a op b z) (hz : Signed64 z) (hopen : c.Open) :
    ¬ session.Fails "calc" [s, op, t] ∧
      (session.run "calc" [s, op, t] c).1 = .proceed ∧
      (session.run "calc" [s, op, t] c).2.1 = session ∧
      (session.run "calc" [s, op, t] c).2.2.screen.text = c.screen.text ++
        (Text.signedDecimal a ++ " " ++ op ++ " " ++ Text.signedDecimal b ++ " = " ++
          Text.signedDecimal z ++ "\n") := by
  have hscript : Builtin.calculate.handler session [s, op, t] = _ :=
    calculator_eq_sayIn session (calculate_of_result hs ht h hz)
  obtain ⟨hok, hout, hsession, htext⟩ := run_of_tell hscript (Script.lettered_sayIn _ _) hopen
  refine ⟨hok, hout, hsession, htext.trans ?_⟩
  rw [Script.text_sayIn]
  simp [String.append_assoc]

/-- What is refused is reported. -/
theorem Session.calc_of_refusal {report : String} (h : Refusal s op t report) (hopen : c.Open) :
    session.Fails "calc" [s, op, t] ∧
      (session.run "calc" [s, op, t] c).1 = .proceed ∧
      (session.run "calc" [s, op, t] c).2.1 = session ∧
      (session.run "calc" [s, op, t] c).2.2.screen.text =
        c.screen.text ++ ("calc: invalid argument: " ++ report ++ "\n") := by
  obtain ⟨e, he, rfl⟩ := calculate_of_refusal h
  have hscript : Builtin.calculate.handler session [s, op, t] = _ := calculator_eq_fail session he
  obtain ⟨hfails, hout, hsession, htext⟩ := run_of_fail (fun c => by rw [hscript]; rfl) hopen
  rw [Error.line_invalid] at htext
  exact ⟨hfails, hout, hsession, htext⟩

end Calc

/-- `calc` computes exactly or refuses. It succeeds if both operands are numbers that fit, and the
exact result is there and fits; it prints both operands and that result. Otherwise it reports the
first thing that is wrong. -/
theorem calc_is_exact_or_refuses (session : Session) (s op t : String) {c : Console}
    (hopen : c.Open) :
    let ran := session.run "calc" [s, op, t] c
    (ran.1 = .proceed ∧ ran.2.1 = session) ∧
    (¬ session.Fails "calc" [s, op, t] ↔
      ∃ a b z, Operand s a ∧ Operand t b ∧ Result a op b z ∧ Signed64 z) ∧
    (∀ a b z, Operand s a → Operand t b → Result a op b z → Signed64 z →
      Text.SignedNumeral (Text.signedDecimal z) z ∧
      ran.2.2.screen.text = c.screen.text ++
        (Text.signedDecimal a ++ " " ++ op ++ " " ++ Text.signedDecimal b ++ " = " ++
          Text.signedDecimal z ++ "\n")) ∧
    (session.Fails "calc" [s, op, t] ↔ ∃ report, Refusal s op t report) ∧
    ∀ report, Refusal s op t report →
      ran.2.2.screen.text = c.screen.text ++ ("calc: invalid argument: " ++ report ++ "\n") := by
  refine ⟨?_, ⟨?_, ?_⟩, ?_, ⟨?_, ?_⟩, ?_⟩
  · obtain ⟨a, b, z, hs, ht, h, hz⟩ | ⟨report, h⟩ := result_or_refusal s op t
    · obtain ⟨-, hout, hsession, -⟩ := Session.calc_of_result hs ht h hz hopen
      exact ⟨hout, hsession⟩
    · obtain ⟨-, hout, hsession, -⟩ := Session.calc_of_refusal h hopen
      exact ⟨hout, hsession⟩
  · intro hok
    obtain hresult | ⟨report, h⟩ := result_or_refusal s op t
    · exact hresult
    · exact absurd (Session.calc_of_refusal h hopen).1 hok
  · rintro ⟨a, b, z, hs, ht, h, hz⟩
    exact (Session.calc_of_result hs ht h hz hopen).1
  · intro a b z hs ht h hz
    obtain ⟨-, -, -, htext⟩ := Session.calc_of_result hs ht h hz hopen
    exact ⟨Text.signedNumeral_signedDecimal z, htext⟩
  · intro hfails
    obtain ⟨a, b, z, hs, ht, h, hz⟩ | hrefusal := result_or_refusal s op t
    · exact absurd hfails (Session.calc_of_result hs ht h hz hopen).1
    · exact hrefusal
  · rintro ⟨report, h⟩
    exact (Session.calc_of_refusal h hopen).1
  · intro report h
    obtain ⟨-, -, -, htext⟩ := Session.calc_of_refusal h hopen
    exact htext

/-- The least number has a remainder by three. It has none by minus one, where the quotient is one
too great. -/
theorem calc_at_least_number :
    let start := Session.start (Volume.ofLimits ⟨4, 8, 4, 8, .inPlace⟩) .standard
    (start.run "calc" ["-9223372036854775808", "%", "+3"] .fresh).2.2.screen.text =
        Console.fresh.screen.text ++ "-9223372036854775808 % 3 = -2\n" ∧
      (start.run "calc" ["-9223372036854775808", "%", "-01"] .fresh).2.2.screen.text =
        Console.fresh.screen.text ++ "calc: invalid argument: overflow\n" := by
  intro start
  have hleast : Operand "-9223372036854775808" (-9223372036854775808) :=
    number?_eq_some_iff.mp (by decide +kernel)
  have hthree : Operand "+3" 3 := number?_eq_some_iff.mp (by decide +kernel)
  have hminus : Operand "-01" (-1) := number?_eq_some_iff.mp (by decide +kernel)
  have hdivision : Division (-9223372036854775808) 3 (-3074457345618258602) (-2) :=
    division_iff.mpr ⟨by decide, rfl, rfl⟩
  have hremainder : Result (-9223372036854775808) "%" 3 (-2) := .remainder rfl hdivision (by decide)
  have hoverflow : Refusal "-9223372036854775808" "%" "-01" "overflow" := by
    refine .overflow hleast hminus (by decide) (fun _ => by decide) ?_
    intro z hz
    cases hz with
    | sum hop | difference hop | product hop | quotient hop => exact absurd hop (by decide)
    | remainder _ hdivision hq =>
      obtain ⟨-, rfl, -⟩ := division_iff.mp hdivision
      exact absurd hq (by decide)
  constructor
  · obtain ⟨-, -, htext, -⟩ :=
      calc_is_exact_or_refuses start "-9223372036854775808" "%" "+3" Console.Open.fresh
    rw [(htext _ _ _ hleast hthree hremainder (by decide)).2]
    decide +kernel
  · obtain ⟨-, -, -, -, htext⟩ :=
      calc_is_exact_or_refuses start "-9223372036854775808" "%" "-01" Console.Open.fresh
    rw [htext _ hoverflow]
    decide +kernel

end RamShell.Shell
