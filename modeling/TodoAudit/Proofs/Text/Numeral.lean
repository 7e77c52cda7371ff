import Mathlib
import TodoAudit.Text.Decimal

/-!
# Numerals

`Numeral least most n word rest` says that `word` is the number `n` in `least` to `most` digits, and
that no more digits could have been taken from the text `rest` behind it. Eating a run of digits is
finding such a word (`run?_eq_some_iff`).

A text that goes on behind a number begins with the same word for it, but for a zero to which zeros
are added (`Numeral.eq_or_zeros`). A written number has its number as value, and texts that begin
with equally many digits are ordered like the numbers they begin with (`append_lt_append_iff`).
-/

namespace TodoAudit.Text.Decimal

variable {least most : Nat} {s word rest : List Char} {n : Int}

/-! ## Runs of digits -/

/-- The word is a run of `least` to `most` digits, and as long as it may be before `rest`. -/
structure IsRun (least most : Nat) (word rest : List Char) : Prop where
  digits : ∀ c ∈ word, isDigit c = true
  least_le : least ≤ word.length
  le_most : word.length ≤ most
  longest : word.length = most ∨ rest = [] ∨ ∃ c tail, rest = c :: tail ∧ isDigit c = false

/-- The word is the number `n` in a run of digits. -/
structure Numeral (least most : Nat) (n : Int) (word rest : List Char) : Prop
    extends IsRun least most word rest where
  value_eq : (value word : Int) = n

theorem takeWhile_take_append (hw : ∀ c ∈ word, isDigit c = true) (hl : word.length ≤ most) :
    ((word ++ rest).take most).takeWhile isDigit =
      word ++ (rest.take (most - word.length)).takeWhile isDigit := by
  rw [List.take_append, List.take_of_length_le hl, List.takeWhile_append_of_pos hw]

/-- Nothing more can be taken if the run has its full length or no digit follows. -/
theorem takeWhile_take_eq_nil_iff : (rest.take (most - word.length)).takeWhile isDigit = [] ↔
    most - word.length = 0 ∨ rest = [] ∨ ∃ c tail, rest = c :: tail ∧ isDigit c = false := by
  cases hk : most - word.length with
  | zero => simp
  | succ k =>
    cases rest with
    | nil => simp
    | cons c tail => simp [List.takeWhile_cons]

/-- Eating digits gives the longest run there is. -/
theorem run?_eq_some_iff :
    run? least most s = some (word, rest) ↔ s = word ++ rest ∧ IsRun least most word rest := by
  constructor
  · intro h
    rw [run?] at h
    split at h
    · rename_i hleast
      cases h
      set word := (s.take most).takeWhile isDigit with hword
      have hpre : word <+: s.take most := List.takeWhile_prefix _
      have hmost : word.length ≤ most := hpre.length_le.trans (List.length_take_le _ _)
      have hdigits : ∀ c ∈ word, isDigit c = true := fun c hc => List.mem_takeWhile_imp hc
      have hs : s = word ++ s.drop word.length := by
        conv_lhs => rw [← List.take_append_drop word.length s]
        rw [← List.prefix_iff_eq_take.1 (hpre.trans (List.take_prefix _ _))]
      have hnil : ((s.drop word.length).take (most - word.length)).takeWhile isDigit = [] := by
        have hlong : (s.take most).takeWhile isDigit = _ :=
          hs ▸ takeWhile_take_append hdigits hmost
        rw [← hword] at hlong
        exact List.append_cancel_left (hlong.symm.trans (List.append_nil _).symm)
      refine ⟨hs, hdigits, hleast, hmost, ?_⟩
      rcases takeWhile_take_eq_nil_iff.1 hnil with hfull | hrest
      · exact Or.inl (by omega)
      · exact Or.inr hrest
    · cases h
  · rintro ⟨rfl, hdigits, hleast, hmost, hlongest⟩
    have hnil : (rest.take (most - word.length)).takeWhile isDigit = [] := by
      refine takeWhile_take_eq_nil_iff.2 ?_
      rcases hlongest with hfull | hrest
      · exact Or.inl (by omega)
      · exact Or.inr hrest
    rw [run?, takeWhile_take_append hdigits hmost, hnil, List.append_nil, if_pos hleast,
      List.drop_left]

/-- A text begins with one run of digits only. -/
theorem IsRun.unique {word' rest' : List Char} (h : IsRun least most word rest)
    (h' : IsRun least most word' rest') (heq : word ++ rest = word' ++ rest') :
    word = word' ∧ rest = rest' := by
  have hrun := run?_eq_some_iff.2 ⟨rfl, h⟩
  rw [heq, run?_eq_some_iff.2 ⟨rfl, h'⟩] at hrun
  cases hrun
  exact ⟨rfl, rfl⟩

/-- A run that has been ended by what follows it, or by its length, is not changed by more text. -/
theorem IsRun.append (h : IsRun least most word rest) (hend : word.length = most ∨ rest ≠ [])
    (more : List Char) : IsRun least most word (rest ++ more) where
  digits := h.digits
  least_le := h.least_le
  le_most := h.le_most
  longest := by
    rcases h.longest with hfull | hnil | ⟨c, tail, rfl, hc⟩
    · exact .inl hfull
    · exact .inl (hend.resolve_right (not_not.2 hnil))
    · exact .inr (.inr ⟨c, tail ++ more, rfl, hc⟩)

/-! ## Values -/

variable {c : Char} {u v t : List Char} {w m k : Nat}

theorem value_eq_ofDigitChars (s : List Char) : value s = Nat.ofDigitChars 10 s 0 := by
  rw [Nat.ofDigitChars_eq_foldl]
  rfl

theorem value_cons (c : Char) (s : List Char) :
    value (c :: s) = 10 ^ s.length * digitValue c + value s := by
  rw [value_eq_ofDigitChars, value_eq_ofDigitChars, Nat.ofDigitChars_cons,
    Nat.ofDigitChars_eq_ofDigitChars_zero, Nat.mul_zero, Nat.zero_add]
  rfl

theorem value_append (u v : List Char) : value (u ++ v) = 10 ^ v.length * value u + value v := by
  simp only [value_eq_ofDigitChars, Nat.ofDigitChars_append]
  rw [Nat.ofDigitChars_eq_ofDigitChars_zero]

theorem isDigit_iff : isDigit c = true ↔ 48 ≤ c.toNat ∧ c.toNat ≤ 57 := by
  rw [isDigit, Bool.and_eq_true, decide_eq_true_iff, decide_eq_true_iff]
  rfl

theorem digitValue_lt (h : isDigit c = true) : digitValue c < 10 := by
  rw [isDigit_iff] at h
  rw [digitValue, show '0'.toNat = 48 from rfl]
  omega

theorem eq_zero_of_digitValue_eq_zero (h : isDigit c = true) (hzero : digitValue c = 0) :
    c = '0' := by
  rw [isDigit_iff] at h
  rw [digitValue, show '0'.toNat = 48 from rfl] at hzero
  exact Char.toNat_inj.1 (by rw [show '0'.toNat = 48 from rfl]; omega)

theorem digitValue_lt_iff {d : Char} (hc : isDigit c = true) (hd : isDigit d = true) :
    digitValue c < digitValue d ↔ c < d := by
  rw [isDigit_iff] at hc hd
  rw [digitValue, digitValue, show '0'.toNat = 48 from rfl]
  change c.toNat - 48 < d.toNat - 48 ↔ c.toNat < d.toNat
  omega

theorem value_lt (h : ∀ c ∈ s, isDigit c = true) : value s < 10 ^ s.length := by
  induction s with
  | nil => exact Nat.one_pos
  | cons c s ih =>
    obtain ⟨hc, hs⟩ := List.forall_mem_cons.1 h
    rw [value_cons, List.length_cons, Nat.pow_succ]
    calc 10 ^ s.length * digitValue c + value s
        < 10 ^ s.length * digitValue c + 10 ^ s.length := Nat.add_lt_add_left (ih hs) _
      _ = 10 ^ s.length * (digitValue c + 1) := (Nat.mul_succ _ _).symm
      _ ≤ 10 ^ s.length * 10 := Nat.mul_le_mul_left _ (digitValue_lt hc)

/-- Zero has no other digits than zeros. -/
theorem forall_eq_zero_of_value (h : ∀ c ∈ s, isDigit c = true) (hzero : value s = 0) :
    ∀ c ∈ s, c = '0' := by
  induction s with
  | nil => simp
  | cons c s ih =>
    rw [List.forall_mem_cons] at h ⊢
    rw [value_cons] at hzero
    have hfirst : 10 ^ s.length * digitValue c = 0 := by omega
    have hdigit := (Nat.mul_eq_zero.1 hfirst).resolve_left (Nat.pow_pos (by decide)).ne'
    exact ⟨eq_zero_of_digitValue_eq_zero h.1 hdigit, ih h.2 (by omega)⟩

/-- Of two numbers in equally many digits, the one with the larger first digit is larger. -/
theorem value_cons_lt_of_lt {d : Char} (hu : ∀ c ∈ u, isDigit c = true)
    (hlen : u.length = v.length) (h : digitValue c < digitValue d) :
    value (c :: u) < value (d :: v) := by
  rw [value_cons, value_cons, ← hlen]
  calc 10 ^ u.length * digitValue c + value u
      < 10 ^ u.length * digitValue c + 10 ^ u.length := Nat.add_lt_add_left (value_lt hu) _
    _ = 10 ^ u.length * (digitValue c + 1) := (Nat.mul_succ _ _).symm
    _ ≤ 10 ^ u.length * digitValue d := Nat.mul_le_mul_left _ h
    _ ≤ 10 ^ u.length * digitValue d + value v := Nat.le_add_right _ _

/-- Texts that begin with equally many digits are ordered by these numbers, and then by what follows
them. -/
theorem append_lt_append_iff (hu : ∀ c ∈ u, isDigit c = true) (hv : ∀ c ∈ v, isDigit c = true)
    (hlen : u.length = v.length) :
    u ++ s < v ++ t ↔ value u < value v ∨ value u = value v ∧ s < t := by
  induction u generalizing v with
  | nil =>
    rw [List.eq_nil_of_length_eq_zero hlen.symm]
    simp
  | cons c u ih =>
    cases v with
    | nil => cases hlen
    | cons d v =>
      obtain ⟨hc, hu⟩ := List.forall_mem_cons.1 hu
      obtain ⟨hd, hv⟩ := List.forall_mem_cons.1 hv
      replace hlen : u.length = v.length := Nat.succ.inj hlen
      rw [List.cons_append, List.cons_append, List.cons_lt_cons_iff, ih hu hv hlen]
      rcases lt_trichotomy c d with hlt | rfl | hgt
      · have hvalue := value_cons_lt_of_lt hu hlen ((digitValue_lt_iff hc hd).2 hlt)
        exact iff_of_true (Or.inl hlt) (Or.inl hvalue)
      · rw [value_cons, value_cons, hlen]
        simp
      · have hvalue := value_cons_lt_of_lt hv hlen.symm ((digitValue_lt_iff hd hc).2 hgt)
        refine iff_of_false ?_ ?_
        · rintro (hlt | ⟨rfl, -⟩)
          · exact lt_asymm hlt hgt
          · exact lt_irrefl _ hgt
        · rintro (hlt | ⟨heq, -⟩)
          · exact lt_asymm hlt hvalue
          · exact hvalue.ne heq.symm

/-- When a text goes on behind the number that it begins with, it begins with the same word for that
number, or it was nothing but a word for zero, and more zeros follow. -/
theorem Numeral.eq_or_zeros {word' rest' more : List Char} (h : Numeral least most n word rest)
    (h' : Numeral least most n word' rest') (heq : word ++ (rest ++ more) = word' ++ rest') :
    word' = word ∨ rest = [] ∧ word.length < most ∧ n = 0 ∧
      ∃ zeros, word' = word ++ zeros ∧ ∀ c ∈ zeros, c = '0' := by
  by_cases hend : word.length = most ∨ rest ≠ []
  · exact .inl ((h.toIsRun.append hend more).unique h'.toIsRun heq).1.symm
  · rw [not_or, not_not] at hend
    obtain ⟨hroom, rfl⟩ := hend
    replace hroom := lt_of_le_of_ne h.le_most hroom
    rcases List.append_eq_append_iff.1 heq with ⟨digits, rfl, -⟩ | ⟨digits, rfl, hrest⟩
    · have hvalue : value (word ++ digits) = value word := by
        exact_mod_cast h'.value_eq.trans h.value_eq.symm
      rw [value_append] at hvalue
      cases digits with
      | nil => exact .inl (List.append_nil word)
      | cons c digits =>
        have hpow : 10 ≤ 10 ^ (c :: digits).length := Nat.le_self_pow (Nat.succ_ne_zero _) 10
        have hmul := Nat.mul_le_mul_right (value word) hpow
        have hword : value word = 0 := by omega
        have hzeros := forall_eq_zero_of_value (s := c :: digits)
          (fun b hb => h'.digits b (List.mem_append_right _ hb)) (by omega)
        exact .inr ⟨rfl, hroom, by rw [← h.value_eq, hword, Nat.cast_zero], _, rfl, hzeros⟩
    · cases digits with
      | nil => exact .inl (List.append_nil word').symm
      | cons c digits =>
        -- a digit of the longer word follows the shorter one, which was not at its full length
        have hc : isDigit c = true := h.digits c (by simp)
        rw [List.length_append] at hroom
        rcases h'.longest with hfull | hnil | ⟨b, tail, hcons, hb⟩
        · omega
        · cases hnil.symm.trans hrest
        · cases hcons.symm.trans hrest
          cases hc.symm.trans hb

/-! ## Written numbers -/

theorem value_digits (k : Nat) : value (digits k) = k := by
  rw [value_eq_ofDigitChars, digits, Nat.ofDigitChars_ten_toDigits]

theorem value_padded (w k : Nat) : value (padded w k) = k := by
  rw [value_eq_ofDigitChars, padded, Nat.ofDigitChars_append, Nat.ofDigitChars_replicate_zero,
    Nat.mul_zero, ← value_eq_ofDigitChars, value_digits]

theorem isDigit_of_mem_digits (h : c ∈ digits k) : isDigit c = true := by
  have hdigit : c.isDigit = true := Nat.isDigit_of_mem_toDigits (by decide) (by decide) h
  rw [Char.isDigit, Bool.and_eq_true, decide_eq_true_iff, decide_eq_true_iff] at hdigit
  exact isDigit_iff.2 hdigit

theorem isDigit_of_mem_padded (h : c ∈ padded w k) : isDigit c = true := by
  rw [padded, List.mem_append] at h
  rcases h with hzero | hdigits
  · rw [List.eq_of_mem_replicate hzero]
    rfl
  · exact isDigit_of_mem_digits hdigits

theorem notMem_digits (hc : isDigit c = false) (k : Nat) : c ∉ digits k := by
  intro h
  exact Bool.false_ne_true (hc.symm.trans (isDigit_of_mem_digits h))

theorem notMem_padded (hc : isDigit c = false) (w k : Nat) : c ∉ padded w k := by
  intro h
  exact Bool.false_ne_true (hc.symm.trans (isDigit_of_mem_padded h))

theorem length_padded (hw : 0 < w) (h : k < 10 ^ w) : (padded w k).length = w := by
  have hle : (digits k).length ≤ w := (Nat.length_toDigits_le_iff (by decide) hw).2 h
  rw [padded, List.length_append, List.length_replicate]
  omega

/-- Numbers of equal width are ordered as they are written. -/
theorem padded_append_lt_iff (hw : 0 < w) (hm : m < 10 ^ w) (hk : k < 10 ^ w) :
    padded w m ++ s < padded w k ++ t ↔ m < k ∨ m = k ∧ s < t := by
  have hlen : (padded w m).length = (padded w k).length :=
    (length_padded hw hm).trans (length_padded hw hk).symm
  rw [append_lt_append_iff (fun _ => isDigit_of_mem_padded) (fun _ => isDigit_of_mem_padded) hlen,
    value_padded, value_padded]

theorem padded_lt_padded_iff (hw : 0 < w) (hm : m < 10 ^ w) (hk : k < 10 ^ w) :
    padded w m < padded w k ↔ m < k := by
  have h := padded_append_lt_iff (s := []) (t := []) hw hm hk
  simpa using h

end TodoAudit.Text.Decimal
