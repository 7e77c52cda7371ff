import TodoAudit.Proofs.Bytes.Cutting
import TodoAudit.Proofs.Calendar.DayOfYear
import TodoAudit.Proofs.DatePattern.Rendering
import TodoAudit.Proofs.Success

/-!
# Dates in machine words

Numbers are read in signed words of 64 bits and handed over to the calendar, which computes in words
of 32 bits. Names are cut behind their third byte where only their first three letters are written.
None of this fails, whatever the text is: reading in words is reading (`readInWords_eq`). A run of
digits is too short to get too large for a word, and the calendar has no dates of the years that are
too large to compute with.
-/

namespace TodoAudit.Bytes

open Text Text.Decimal DatePattern

variable {α : Type} {s digits rest : List Char} {bits least most n : Nat} {c : Char}

/-! ## Numbers -/

/-- The number, if it fits into a signed word of so many bits. -/
def word (bits : Nat) (n : Int) : Except Fault Int :=
  if -2 ^ (bits - 1) ≤ n ∧ n < 2 ^ (bits - 1) then .ok n else .error (.tooLarge bits n)

/-- A number that is not negative, in a signed word. -/
def natWord (bits n : Nat) : Except Fault Nat :=
  (word bits n).map Int.toNat

theorem natWord_of_lt (h : n < 2 ^ (bits - 1)) : natWord bits n = .ok n := by
  have hcast : (n : Int) < 2 ^ (bits - 1) := by exact_mod_cast h
  have hpos : (0 : Int) < 2 ^ (bits - 1) := by positivity
  rw [natWord, word, if_pos ⟨by omega, hcast⟩]
  rfl

/-- The number with one more digit behind it. -/
def pushDigit (n : Nat) (c : Char) : Except Fault Nat := do
  natWord 64 ((← natWord 64 (10 * n)) + digitValue c)

/-- The number that a run of digits stands for. -/
def valueInWords (digits : List Char) : Except Fault Nat :=
  digits.foldlM pushDigit 0

theorem pushDigit_of_lt (h : 10 * n + digitValue c < 2 ^ 63) :
    pushDigit n c = .ok (10 * n + digitValue c) := by
  have hten : natWord 64 (10 * n) = .ok (10 * n) := natWord_of_lt (by omega)
  have hall : natWord 64 (10 * n + digitValue c) = .ok (10 * n + digitValue c) := natWord_of_lt h
  exact Success.bind_eq_ok_iff.2 ⟨_, hten, hall⟩

theorem le_foldl_digits (n : Nat) (digits : List Char) :
    n ≤ digits.foldl (fun n c => 10 * n + digitValue c) n := by
  induction digits generalizing n with
  | nil => exact Nat.le_refl n
  | cons c digits ih =>
    refine le_trans ?_ (ih (10 * n + digitValue c))
    omega

/-- A number that fits in the end has fitted all the time. -/
theorem foldlM_pushDigit
    (h : digits.foldl (fun n c => 10 * n + digitValue c) n < 2 ^ 63) :
    digits.foldlM pushDigit n = .ok (digits.foldl (fun n c => 10 * n + digitValue c) n) := by
  induction digits generalizing n with
  | nil => rfl
  | cons c digits ih =>
    rw [List.foldl_cons] at h ⊢
    have hpush := pushDigit_of_lt ((le_foldl_digits _ digits).trans_lt h)
    rw [List.foldlM_cons, hpush]
    exact ih h

theorem valueInWords_of_lt (h : value digits < 2 ^ 63) : valueInWords digits = .ok (value digits) :=
  foldlM_pushDigit h

/-- Nineteen digits can be too many. -/
example : valueInWords (List.replicate 19 '9') = .error (.tooLarge 64 9999999999999999990) := by
  decide +kernel

/-- Eats a number of `least` to `most` digits. -/
def numberInWords (least most : Nat) (s : List Char) : Except Fault (Option (Nat × List Char)) :=
  match run? least most s with
  | none => .ok none
  | some (digits, rest) => do return some (← valueInWords digits, rest)

theorem lt_of_readNumber? (h : Field.readNumber? least most s = some (n, rest)) :
    n < 10 ^ most := by
  obtain ⟨word, -, hrun, rfl⟩ := Field.readNumber?_eq_some_iff.1 h
  exact (value_lt hrun.digits).trans_le (Nat.pow_le_pow_right (by decide) hrun.le_most)

theorem numberInWords_eq (hmost : most ≤ 18) :
    numberInWords least most s = .ok (Field.readNumber? least most s) := by
  have hbound : 10 ^ most ≤ 10 ^ 18 := Nat.pow_le_pow_right (by decide) hmost
  cases hrun : run? least most s with
  | none => rw [numberInWords, Field.readNumber?, hrun]; rfl
  | some eaten =>
    have hread : Field.readNumber? least most s = some (value eaten.1, eaten.2) := by
      rw [Field.readNumber?, hrun]
      rfl
    have hlt := lt_of_readNumber? hread
    have hvalue : valueInWords eaten.1 = .ok (value eaten.1) := valueInWords_of_lt (by omega)
    rw [numberInWords, hrun, hread]
    simp only [hvalue]
    rfl

/-! ## Names -/

/-- The name as it is written: all of it, or what is before its third byte. -/
def writtenByOffset (whole : Bool) (name : List Char) : Except Fault (List Char) :=
  if whole then .ok name else cutTo name 3

/-- Eats the first name of the table with which the text begins. -/
def nameByOffset (whole : Bool) (names : List (List Char × α)) (s : List Char) :
    Except Fault (Option (α × List Char)) :=
  names.findSomeM? fun (name, value) => do
    let start ← writtenByOffset whole name
    return (strip? start s).map fun rest => (value, rest)

theorem nameByOffset_eq {names : List (List Char × α)} (whole : Bool)
    (h : ∀ entry ∈ names, byteSize (entry.1.take 3) = 3) :
    nameByOffset whole names s = .ok (Field.readName? whole names s) := by
  refine Success.findSomeM?_eq_ok fun entry hentry => ?_
  have hwritten : writtenByOffset whole entry.1 = .ok (Field.written whole entry.1) := by
    cases whole with
    | true => rfl
    | false =>
      have htake := cutTo_take 3 entry.1
      rwa [h entry hentry] at htake
  simp only [hwritten]
  rfl

theorem byteSize_take_months : ∀ entry ∈ Field.months, byteSize (entry.1.take 3) = 3 := by
  decide +kernel

theorem byteSize_take_weekdays : ∀ entry ∈ Field.weekdays, byteSize (entry.1.take 3) = 3 := by
  decide +kernel

/-! ## Fields -/

/-- Hands a number over to the calendar as a fact about the date. -/
def handOver (make : Nat → Fact) : Option (Nat × List Char) →
    Except Fault (Option (Fact × List Char))
  | none => .ok none
  | some (n, rest) => do return some (make (← natWord 32 n), rest)

/-- Eats the text of a field, and says what it states. -/
def factInWords (s : List Char) : Field → Except Fault (Option (Fact × List Char))
  | .year least => do handOver .year (← numberInWords least 9 s)
  | .shortYear => do
    match ← numberInWords 2 2 s with
    | none => return none
    | some (n, rest) => handOver .year (some (← natWord 64 (2000 + n), rest))
  | .month least => do handOver .month (← numberInWords least 2 s)
  | .monthName whole => do handOver .month (← nameByOffset whole Field.months s)
  | .day least => do handOver .day (← numberInWords least 2 s)
  | .dayOfYear least => do handOver .dayOfYear (← numberInWords least 3 s)
  | .weekday whole => do
    return (← nameByOffset whole Field.weekdays s).map fun (w, rest) => (.weekday w, rest)

theorem handOver_eq (make : Nat → Fact) {eaten : Option (Nat × List Char)}
    (h : ∀ n rest, eaten = some (n, rest) → n < 2 ^ 31) :
    handOver make eaten = .ok (eaten.map fun (n, rest) => (make n, rest)) := by
  cases eaten with
  | none => rfl
  | some eaten =>
    have hword : natWord 32 eaten.1 = .ok eaten.1 := natWord_of_lt (h _ _ rfl)
    rw [handOver, hword]
    rfl

theorem handOver_number_eq (make : Nat → Fact) (hmost : most ≤ 9) :
    (do handOver make (← numberInWords least most s)) =
      .ok ((Field.readNumber? least most s).map fun (n, rest) => (make n, rest)) := by
  rw [numberInWords_eq (by omega)]
  refine handOver_eq make fun n rest h => ?_
  calc n < 10 ^ most := lt_of_readNumber? h
    _ ≤ 10 ^ 9 := Nat.pow_le_pow_right (by decide) hmost
    _ < 2 ^ 31 := by decide

theorem lt_of_readName?_months {whole : Bool}
    (h : Field.readName? whole Field.months s = some (n, rest)) : n < 2 ^ 31 := by
  obtain ⟨name, hmem, -⟩ := (Field.readName?_eq_some_iff (Field.distinct_months whole)).1 h
  have hall : ∀ entry ∈ Field.months, entry.2 < 2 ^ 31 := by decide +kernel
  exact hall _ hmem

/-- Every field is read without a failure, and as by the library. -/
theorem factInWords_eq (f : Field) (s : List Char) : factInWords s f = .ok (f.read? s) := by
  cases f with
  | year least => exact handOver_number_eq .year (by decide)
  | shortYear =>
    rw [factInWords, numberInWords_eq (by decide), Field.read?]
    cases hread : Field.readNumber? 2 2 s with
    | none => rfl
    | some eaten =>
      have hlt := lt_of_readNumber? hread
      have hyear : natWord 64 (2000 + eaten.1) = .ok (2000 + eaten.1) := natWord_of_lt (by omega)
      refine Success.bind_eq_ok_iff.2 ⟨some eaten, rfl, ?_⟩
      refine Success.bind_eq_ok_iff.2 ⟨2000 + eaten.1, hyear, ?_⟩
      refine handOver_eq .year fun n rest h => ?_
      cases h
      omega
  | month least => exact handOver_number_eq .month (by decide)
  | monthName whole =>
    rw [factInWords, nameByOffset_eq whole byteSize_take_months]
    exact handOver_eq .month fun n rest => lt_of_readName?_months
  | day least => exact handOver_number_eq .day (by decide)
  | dayOfYear least => exact handOver_number_eq .dayOfYear (by decide)
  | weekday whole =>
    rw [factInWords, nameByOffset_eq whole byteSize_take_weekdays]
    rfl

/-- What a text states that is made of the pieces, with nothing left over. -/
def factsInWords : List Piece → List Char → Except Fault (Option (List Fact))
  | [], s => .ok (if s = [] then some [] else none)
  | .text t :: pieces, s =>
    match strip? t s with
    | none => .ok none
    | some rest => factsInWords pieces rest
  | .field f :: pieces, s => do
    match ← factInWords s f with
    | none => return none
    | some (fact, rest) => return (← factsInWords pieces rest).map (fact :: ·)

theorem factsInWords_eq (pieces : List Piece) (s : List Char) :
    factsInWords pieces s = .ok (DateFormat.factsOf? pieces s) := by
  induction pieces generalizing s with
  | nil => rfl
  | cons piece pieces ih =>
    cases piece with
    | text t =>
      rw [factsInWords, DateFormat.factsOf?]
      cases strip? t s with
      | none => rfl
      | some rest => exact ih rest
    | field f =>
      rw [factsInWords, factInWords_eq, DateFormat.factsOf?]
      cases f.read? s with
      | none => rfl
      | some eaten =>
        change (do return (← factsInWords pieces eaten.2).map (eaten.1 :: ·)) =
          .ok (do return eaten.1 :: (← DateFormat.factsOf? pieces eaten.2))
        rw [ih]
        cases DateFormat.factsOf? pieces eaten.2 <;> rfl

/-! ## The calendar -/

/-- The number of days from the last of December of year zero to the date. -/
def dayNumberInWords (d : Date) : Except Fault Int := do
  let y ← word 32 (d.year - 1)
  let days ← word 32 (365 * y)
  let days ← word 32 (days + y / 4)
  let days ← word 32 (days - y / 100)
  let days ← word 32 (days + y / 400)
  word 32 (days + d.dayOfYear)

/-- The day of the week. -/
def weekdayInWords (d : Date) : Except Fault Weekday := do
  return Weekday.all.getD (((← dayNumberInWords d) - 1) % 7).toNat .sunday

/-- Whether the fact is true for the date. -/
def holdsInWords (d : Date) : Fact → Except Fault Bool
  | .weekday w => do return (← weekdayInWords d) = w
  | fact => .ok (fact.Holds d)

/-- The date for which all the facts are true. -/
def dateInWords (facts : List Fact) : Except Fault (Option Date) := do
  match DateFormat.candidate? facts with
  | none => return none
  | some d => return if ← facts.allM (holdsInWords d) then some d else none

/-- The date that the text states. -/
def readInWords (format : DateFormat) (s : List Char) : Except Fault (Option Date) := do
  match ← factsInWords format.pieces s with
  | none => return none
  | some facts => dateInWords facts

/-- The days of the calendar can be counted in words of 32 bits. -/
theorem dayNumberInWords_eq (d : Date) : dayNumberInWords d = .ok d.dayNumber := by
  obtain ⟨hfirst, hlast⟩ := d.year_mem
  have hdays := d.dayOfYear_le
  have hword : ∀ n : Int, -2 ^ 31 ≤ n → n < 2 ^ 31 → word 32 n = .ok n :=
    fun n hle hlt => if_pos ⟨hle, hlt⟩
  rw [minYear] at hfirst
  rw [maxYear] at hlast
  refine Success.bind_eq_ok_iff.2 ⟨_, hword (d.year - 1) (by omega) (by omega), ?_⟩
  refine Success.bind_eq_ok_iff.2 ⟨_, hword (365 * (d.year - 1)) (by omega) (by omega), ?_⟩
  refine Success.bind_eq_ok_iff.2 ⟨_, hword _ (by omega) (by omega), ?_⟩
  refine Success.bind_eq_ok_iff.2 ⟨_, hword _ (by omega) (by omega), ?_⟩
  refine Success.bind_eq_ok_iff.2 ⟨_, hword _ (by omega) (by omega), ?_⟩
  exact hword _ (by omega) (by omega)

theorem weekdayInWords_eq (d : Date) : weekdayInWords d = .ok d.weekday := by
  rw [weekdayInWords, dayNumberInWords_eq, Date.weekday]
  change Except.ok (Weekday.all.getD ((d.dayNumber - 1) % 7).toNat .sunday) = _
  generalize ((d.dayNumber - 1) % 7).toNat = k
  rcases k with _ | _ | _ | _ | _ | _ | _ | k <;> rfl

theorem holdsInWords_eq (d : Date) (fact : Fact) :
    holdsInWords d fact = .ok (decide (fact.Holds d)) := by
  cases fact with
  | weekday w =>
    rw [holdsInWords, weekdayInWords_eq]
    rfl
  | _ => rfl

theorem dateInWords_eq (facts : List Fact) :
    dateInWords facts = .ok (DateFormat.dateOf? facts) := by
  rw [dateInWords, DateFormat.dateOf?]
  cases DateFormat.candidate? facts with
  | none => rfl
  | some d =>
    simp only [Success.allM_eq_ok fun fact _ => holdsInWords_eq d fact]
    rfl

/-- A date is read without a failure, and as by the library. -/
theorem readInWords_eq (format : DateFormat) (s : List Char) :
    readInWords format s = .ok (format.read? s) := by
  rw [readInWords, factsInWords_eq, DateFormat.read?]
  cases DateFormat.factsOf? format.pieces s with
  | none => rfl
  | some facts => exact dateInWords_eq facts

end TodoAudit.Bytes
