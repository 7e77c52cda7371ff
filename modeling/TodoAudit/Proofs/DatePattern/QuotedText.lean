import Mathlib
import TodoAudit.Proofs.DatePattern.Acceptance
import TodoAudit.Proofs.DatePattern.Printing

/-!
# Text in quotes behind a date

Any text can be put in quotes with its own quotes doubled (`quoteText`), and a pattern stays usable
when this is put behind it. Text without quotes then stands for itself. A doubled quote ends one
quoted text and begins another one, so it stands for a quote only where there is nothing on one side
of it: `quotedAs` is what the text stands for.

`read?_quoteText_iff` says that a date with such text behind it is read exactly where `quotedAs` of
the text stands behind the date, and that this is the text itself exactly if its quotes stand at its
ends.
-/

namespace TodoAudit

open Text Text.Decimal DatePattern

variable {s t rest : List Char} {item : Item} {items : List Item} {d d' : Date}

namespace DatePattern

/-! ## Texts with quotes -/

/-- The text in quotes, with every quote in it doubled. -/
def quoteText (s : List Char) : List Char :=
  '\'' :: s.flatMap (fun c => if c = '\'' then ['\'', '\''] else [c]) ++ ['\'']

/-- The item for text between two quotes. -/
def partItem (part : List Char) : Item :=
  if part = [] then .quote else .literal part

/-- The text that is written for text between two quotes. -/
def partText (part : List Char) : List Char :=
  if part = [] then ['\''] else part

/-- The text that is written for the text in quotes: its parts between quotes, and a quote for each
empty one. -/
def quotedAs (s : List Char) : List Char :=
  (s.splitOn '\'').flatMap partText

/-- Induction over the parts between the quotes of a text. -/
theorem parts_induction {motive : List Char → Prop} (last : ∀ t, '\'' ∉ t → motive t)
    (cons : ∀ t s, '\'' ∉ t → motive s → motive (t ++ '\'' :: s)) (s : List Char) : motive s := by
  induction hn : s.length using Nat.strong_induction_on generalizing s with
  | _ n ih =>
    subst hn
    by_cases hquote : '\'' ∈ s
    · obtain ⟨t, rest, rfl, hfree⟩ := List.eq_append_cons_of_mem hquote
      refine cons t rest hfree (ih rest.length ?_ rest rfl)
      rw [List.length_append, List.length_cons]
      omega
    · exact last s hquote

theorem splitOn_append_quote (hfree : '\'' ∉ t) (s : List Char) :
    (t ++ '\'' :: s).splitOn '\'' = t :: s.splitOn '\'' := by
  rw [List.splitOn_append_cons_self, List.splitOn_eq_singleton hfree, List.singleton_append]

theorem flatMap_double_of_free (hfree : '\'' ∉ t) :
    t.flatMap (fun c => if c = '\'' then ['\'', '\''] else [c]) = t := by
  induction t with
  | nil => rfl
  | cons c t ih =>
    rw [List.mem_cons, not_or] at hfree
    rw [List.flatMap_cons, if_neg (Ne.symm hfree.1), ih hfree.2, List.singleton_append]

theorem quoteText_of_free (hfree : '\'' ∉ t) : quoteText t = '\'' :: t ++ ['\''] := by
  rw [quoteText, flatMap_double_of_free hfree]

theorem quoteText_append_quote (hfree : '\'' ∉ t) (s : List Char) :
    quoteText (t ++ '\'' :: s) = '\'' :: t ++ '\'' :: quoteText s := by
  rw [quoteText, quoteText, List.flatMap_append, flatMap_double_of_free hfree, List.flatMap_cons,
    if_pos rfl]
  simp

/-! ## What a text in quotes stands for -/

theorem quotedAs_of_free (hfree : '\'' ∉ t) : quotedAs t = partText t := by
  rw [quotedAs, List.splitOn_eq_singleton hfree, List.flatMap_singleton]

theorem quotedAs_append_quote (hfree : '\'' ∉ t) (s : List Char) :
    quotedAs (t ++ '\'' :: s) = partText t ++ quotedAs s := by
  rw [quotedAs, splitOn_append_quote hfree, List.flatMap_cons, ← quotedAs]

theorem quotedAs_quote_cons (s : List Char) : quotedAs ('\'' :: s) = '\'' :: quotedAs s :=
  quotedAs_append_quote List.not_mem_nil s

/-- A quote is written first only for an empty part. -/
theorem eq_nil_of_partText_append (hfree : '\'' ∉ t) (h : partText t ++ rest = '\'' :: s) :
    t = [] := by
  by_contra hne
  obtain ⟨c, tail, rfl⟩ := List.exists_cons_of_ne_nil hne
  rw [partText, if_neg hne] at h
  rw [(List.cons.inj h).1] at hfree
  exact hfree List.mem_cons_self

/-- Only where there is nothing but quotes is a quote gained. -/
theorem quotedAs_eq_quote_cons_iff :
    quotedAs s = '\'' :: s ↔ ∃ n, s = List.replicate n '\'' := by
  constructor
  · refine parts_induction (motive := fun s => quotedAs s = '\'' :: s →
      ∃ n, s = List.replicate n '\'') ?_ ?_ s
    · intro t hfree h
      rw [quotedAs_of_free hfree, ← List.append_nil (partText t)] at h
      obtain rfl := eq_nil_of_partText_append hfree h
      exact ⟨0, rfl⟩
    · intro t s hfree ih h
      rw [quotedAs_append_quote hfree] at h
      obtain rfl := eq_nil_of_partText_append hfree h
      obtain ⟨n, rfl⟩ := ih (List.cons.inj h).2
      exact ⟨n + 1, rfl⟩
  · rintro ⟨n, rfl⟩
    induction n with
    | zero => rfl
    | succ n ih => rw [List.replicate_succ, quotedAs_quote_cons, ih]

/-- A text in quotes stands for itself exactly if its quotes are at its ends, around other text. -/
theorem quotedAs_eq_self_iff : quotedAs s = s ↔ ∃ i j t,
    s = List.replicate i '\'' ++ t ++ List.replicate j '\'' ∧ t ≠ [] ∧ '\'' ∉ t := by
  constructor
  · refine parts_induction (motive := fun s => quotedAs s = s → ∃ i j t,
      s = List.replicate i '\'' ++ t ++ List.replicate j '\'' ∧ t ≠ [] ∧ '\'' ∉ t) ?_ ?_ s
    · intro t hfree h
      refine ⟨0, 0, t, by simp, ?_, hfree⟩
      rintro rfl
      exact absurd h (by decide)
    · intro t s hfree ih h
      rw [quotedAs_append_quote hfree] at h
      rcases eq_or_ne t [] with rfl | hne
      · obtain ⟨i, j, t, rfl, hne, hfree⟩ := ih (List.cons.inj h).2
        exact ⟨i + 1, j, t, rfl, hne, hfree⟩
      · rw [partText, if_neg hne] at h
        obtain ⟨n, rfl⟩ := quotedAs_eq_quote_cons_iff.1 (List.append_cancel_left h)
        exact ⟨0, n + 1, t, rfl, hne, hfree⟩
  · rintro ⟨i, j, t, rfl, hne, hfree⟩
    induction i with
    | zero =>
      cases j with
      | zero => simp [quotedAs_of_free hfree, partText, hne]
      | succ j =>
        rw [List.replicate_zero, List.nil_append, List.replicate_succ, quotedAs_append_quote hfree,
          quotedAs_eq_quote_cons_iff.2 ⟨j, rfl⟩, partText, if_neg hne]
    | succ i ih =>
      rw [List.replicate_succ, List.cons_append, List.cons_append, quotedAs_quote_cons, ih]

/-! ## Items of quoted text -/

/-- A quote behind a pattern leaves its first item as it is. -/
theorem Item.BeginsWith.append_quote (h : BeginsWith s item rest) (t : List Char) :
    BeginsWith (s ++ '\'' :: t) item (rest ++ '\'' :: t) := by
  have hhead : ∀ c, (rest ++ '\'' :: t).head? = some c → rest.head? = some c ∨ c = '\'' := by
    intro c hc
    cases rest with
    | nil => exact .inr (Option.some.inj hc).symm
    | cons b rest => exact .inl hc
  cases h with
  | field hletter hpos hstop =>
    rw [List.append_assoc]
    refine .field hletter hpos fun hc => ?_
    rcases hhead _ hc with hc | rfl
    · exact hstop hc
    · exact absurd hletter (by decide)
  | plain hne hplain hstop =>
    rw [List.append_assoc]
    refine .plain hne hplain fun c hc => ?_
    rcases hhead c hc with hc | rfl
    · exact hstop c hc
    · decide
  | quoted hne hfree =>
    rw [List.append_assoc]
    exact .quoted hne hfree
  | quote => exact .quote

theorem Item.all_append_quote (h : all s = .ok items) (t : List Char) :
    all (s ++ '\'' :: t) = (all ('\'' :: t)).map (items ++ ·) := by
  refine induction_of_all (motive := fun s items =>
    all (s ++ '\'' :: t) = (all ('\'' :: t)).map (items ++ ·)) ?_ ?_ h
  · rw [List.nil_append]
    cases all ('\'' :: t) <;> rfl
  · intro s item rest items hbegin ih
    rw [all_of_beginsWith (hbegin.append_quote t), ih]
    cases all ('\'' :: t) <;> rfl

theorem beginsWith_partItem (hfree : '\'' ∉ t) (rest : List Char) :
    Item.BeginsWith ('\'' :: t ++ '\'' :: rest) (partItem t) rest := by
  rcases eq_or_ne t [] with rfl | hne
  · exact .quote
  · rw [partItem, if_neg hne]
    exact .quoted hne hfree

/-- A text in quotes is cut into its parts. -/
theorem all_quoteText (s : List Char) :
    Item.all (quoteText s) = .ok ((s.splitOn '\'').map partItem) := by
  refine parts_induction (motive := fun s =>
    Item.all (quoteText s) = .ok ((s.splitOn '\'').map partItem)) ?_ ?_ s
  · intro t hfree
    rw [quoteText_of_free hfree, Item.all_of_beginsWith (beginsWith_partItem hfree []),
      Item.all_nil, List.splitOn_eq_singleton hfree]
    rfl
  · intro t s hfree ih
    rw [quoteText_append_quote hfree, Item.all_of_beginsWith (beginsWith_partItem hfree _), ih,
      splitOn_append_quote hfree]
    rfl

theorem renders_map_partItem_iff {parts : List (List Char)} :
    Renders d (parts.map partItem) s ↔ s = parts.flatMap partText := by
  induction parts generalizing s with
  | nil => exact renders_nil_iff
  | cons part parts ih =>
    have hwrites : ∀ word rest, Writes d (partItem part) word rest ↔ word = partText part := by
      intro word rest
      rw [partItem, partText]
      split
      · exact writes_quote_iff
      · exact writes_literal_iff
    rw [List.map_cons, renders_cons_iff, List.flatMap_cons]
    simp only [hwrites, ih]
    constructor
    · rintro ⟨word, rest, rfl, rfl, rfl⟩
      rfl
    · intro h
      exact ⟨_, _, h, rfl, rfl⟩

/-! ## Reading a date before other text -/

/-- A number with zeros in front is one way to write its number, if no other digit can be taken. -/
theorem renders_padded_append_iff {letter : Char} {w most k : Nat}
    (hmost : mostDigits? letter w = some most) (hrun : IsRun w most (padded w k) s) :
    Renders d (.field letter w :: items) (padded w k ++ s) ↔
      numberOf d letter w = k ∧ Renders d items s := by
  rw [renders_cons_iff]
  constructor
  · rintro ⟨word, rest, heq, hword, hrest⟩
    have hnumeral := numeral_of_writes hmost hword
    obtain ⟨rfl, rfl⟩ := hrun.unique hnumeral.toIsRun heq
    refine ⟨?_, hrest⟩
    rw [← hnumeral.value_eq, value_padded]
  · rintro ⟨hnumber, hrest⟩
    refine ⟨_, _, rfl, writes_of_numeral hmost ⟨hrun, ?_⟩, hrest⟩
    rw [value_padded, hnumber]

theorem renders_literal_append_iff :
    Renders d (.literal t :: items) (t ++ s) ↔ Renders d items s := by
  rw [renders_cons_iff]
  constructor
  · rintro ⟨word, rest, heq, hword, hrest⟩
    obtain rfl := writes_literal_iff.1 hword
    rwa [List.append_cancel_left heq]
  · intro h
    exact ⟨_, _, rfl, .literal, h⟩

theorem isRun_padded {w most k : Nat} (hw : 0 < w) (hk : k < 10 ^ w) (hmost : w ≤ most)
    (hend : w = most ∨ s = [] ∨ ∃ c tail, s = c :: tail ∧ isDigit c = false) :
    IsRun w most (padded w k) s where
  digits := fun _ => isDigit_of_mem_padded
  least_le := (length_padded hw hk).ge
  le_most := (length_padded hw hk).le.trans hmost
  longest := hend.imp_left (length_padded hw hk).trans

/-- The items of the pattern `yyyy-MM-dd`. -/
def isoItems : List Item :=
  [.field 'y' 4, .literal ['-'], .field 'M' 2, .literal ['-'], .field 'd' 2]

/-- Behind a date that has been written with a year of four digits, the text has to go on as the
items do. -/
theorem renders_isoItems_append_iff (hfirst : 0 ≤ d.year) (hlast : d.year ≤ 9999) :
    Renders d' (isoItems ++ items) (d.chars ++ s) ↔ d' = d ∧ Renders d' items s := by
  have hyear : IsRun 4 9 (padded 4 d.year.natAbs) (['-'] ++ (padded 2 d.month ++
      (['-'] ++ (padded 2 d.day ++ s)))) :=
    isRun_padded (by decide) (by omega) (by decide) (.inr (.inr ⟨'-', _, rfl, rfl⟩))
  have hmonth : IsRun 2 2 (padded 2 d.month) (['-'] ++ (padded 2 d.day ++ s)) :=
    isRun_padded (by decide) d.month_lt le_rfl (.inl rfl)
  have hday : IsRun 2 2 (padded 2 d.day) s :=
    isRun_padded (by decide) d.day_lt le_rfl (.inl rfl)
  have htext : d.chars ++ s = padded 4 d.year.natAbs ++ (['-'] ++ (padded 2 d.month ++
      (['-'] ++ (padded 2 d.day ++ s)))) := by
    rw [Date.chars, Date.yearText_of_le hfirst hlast]
    simp
  have hitems : isoItems ++ items = .field 'y' 4 :: .literal ['-'] :: .field 'M' 2 ::
      .literal ['-'] :: .field 'd' 2 :: items := rfl
  have hnumbers : (d'.year = d.year.natAbs ∧ (d'.month : Int) = d.month ∧ (d'.day : Int) = d.day) ↔
      d' = d := by
    rw [Date.ext_iff]
    omega
  rw [htext, hitems, renders_padded_append_iff rfl hyear, renders_literal_append_iff,
    renders_padded_append_iff rfl hmonth, renders_literal_append_iff,
    renders_padded_append_iff rfl hday, ← hnumbers, and_assoc, and_assoc]
  rfl

/-! ## Quoted text behind a date -/

/-- The pieces of the pattern `yyyy-MM-dd`. -/
def isoPieces : List Piece :=
  [.field (.year 4), .text ['-'], .field (.month 2), .text ['-'], .field (.day 2)]

theorem all_iso_append_quoteText (s : List Char) :
    Item.all ("yyyy-MM-dd".toList ++ quoteText s) =
      .ok (isoItems ++ (s.splitOn '\'').map partItem) := by
  have hiso : Item.all "yyyy-MM-dd".toList = .ok isoItems := by cbv
  have hquoted := all_quoteText s
  rw [quoteText, List.cons_append] at hquoted ⊢
  rw [Item.all_append_quote hiso, hquoted]
  rfl

theorem mapM_ofItem_map_partItem (parts : List (List Char)) :
    (parts.map partItem).mapM Piece.ofItem = .ok (parts.map fun part => .text (partText part)) := by
  rw [Success.mapM_eq_ok_iff, List.forall₂_map_left_iff, List.forall₂_map_right_iff,
    List.forall₂_same]
  intro part _
  rw [partItem, partText]
  split <;> rfl

end DatePattern

namespace DateFormat

/-- Any text in quotes can be put behind the pattern of a date. -/
theorem ofPattern_iso_append_quoteText (s : List Char) :
    ofPattern ("yyyy-MM-dd".toList ++ quoteText s) = .ok ⟨"yyyy-MM-dd".toList ++ quoteText s,
      isoPieces ++ (s.splitOn '\'').map fun part => .text (partText part)⟩ := by
  have hvisible : HasVisible ("yyyy-MM-dd".toList ++ quoteText s) := ⟨'y', by simp, by decide⟩
  have hpieces : (isoItems ++ (s.splitOn '\'').map partItem).mapM Piece.ofItem =
      .ok (isoPieces ++ (s.splitOn '\'').map fun part => .text (partText part)) := by
    rw [List.mapM_append, mapM_ofItem_map_partItem]
    rfl
  have hfix : FixDate (fieldsOf (isoPieces ++ (s.splitOn '\'').map fun part =>
      .text (partText part))) := ⟨rfl, .inl ⟨rfl, rfl⟩⟩
  rw [ofPattern_of_items hvisible (all_iso_append_quoteText s)]
  exact Success.bind_eq_ok_iff.2 ⟨_, hpieces, if_pos hfix⟩

/-- Text in quotes, with its own quotes doubled, can be put behind the pattern of a date. Behind the
date it is read as `quotedAs`, and as nothing else. That is the text itself exactly if its quotes
are at its ends, around other text. -/
theorem read?_quoteText_iff (s : List Char) : ∃ format,
    ofPattern ("yyyy-MM-dd".toList ++ quoteText s) = .ok format ∧
      (∀ d : Date, 0 ≤ d.year → d.year ≤ 9999 → ∀ t d',
        format.read? (d.chars ++ t) = some d' ↔ d' = d ∧ t = quotedAs s) ∧
      (quotedAs s = s ↔ ∃ i j t,
        s = List.replicate i '\'' ++ t ++ List.replicate j '\'' ∧ t ≠ [] ∧ '\'' ∉ t) := by
  have hformat := ofPattern_iso_append_quoteText s
  refine ⟨_, hformat, ?_, quotedAs_eq_self_iff⟩
  intro d hfirst hlast t d'
  rw [read?_iff_renders hformat (all_iso_append_quoteText s),
    renders_isoItems_append_iff hfirst hlast, renders_map_partItem_iff, quotedAs]

/-- Quotes around a text are read as they stand. -/
theorem read?_quoteText_outerQuotes : ∃ format,
    ofPattern "yyyy-MM-dd'''T'''".toList = .ok format ∧
      format.read? "2025-02-01'T'".toList = some ⟨2025, 2, 1, by decide, by decide, by decide⟩ ∧
      format.read? "2025-02-01T".toList = none := by
  obtain ⟨format, hformat, hread, hself⟩ := read?_quoteText_iff "'T'".toList
  have hd := hread ⟨2025, 2, 1, by decide, by decide, by decide⟩ (by decide) (by decide)
  have hpattern : "yyyy-MM-dd".toList ++ quoteText "'T'".toList = "yyyy-MM-dd'''T'''".toList := by
    cbv
  have htext : quotedAs "'T'".toList = "'T'".toList :=
    hself.2 ⟨1, 1, ['T'], by cbv, by decide, by decide⟩
  rw [hpattern] at hformat
  refine ⟨format, hformat, (hd "'T'".toList _).2 ⟨rfl, htext.symm⟩, ?_⟩
  rw [Option.eq_none_iff_forall_ne_some]
  intro d' h
  have heq := ((hd "T".toList d').1 h).2
  rw [htext] at heq
  exact absurd heq (by decide)

/-- A quote between other text is lost. -/
theorem not_read?_quoteText_innerQuote : ∃ format,
    ofPattern ("yyyy-MM-dd".toList ++ quoteText "o'clock".toList) = .ok format ∧
      format.read? ("2025-02-01".toList ++ "o'clock".toList) = none ∧
      format.read? ("2025-02-01".toList ++ "oclock".toList) =
        some ⟨2025, 2, 1, by decide, by decide, by decide⟩ := by
  have hformat : ofPattern ("yyyy-MM-dd".toList ++ quoteText "o'clock".toList) =
      .ok ⟨"yyyy-MM-dd'o''clock'".toList, [.field (.year 4), .text ['-'], .field (.month 2),
        .text ['-'], .field (.day 2), .text "o".toList, .text "clock".toList]⟩ := by cbv
  exact ⟨_, hformat, by cbv, by cbv⟩

end DateFormat

end TodoAudit
