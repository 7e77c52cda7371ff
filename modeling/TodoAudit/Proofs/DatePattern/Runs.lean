import Mathlib
import TodoAudit.Proofs.DatePattern.Items
import TodoAudit.Proofs.Text.Trimming

/-!
# Runs of letters outside quotes

The quotes of a pattern pair up from the left, so a place in it is outside quotes exactly if an even
number of quotes stands before it. A pattern is cut into items exactly if it has an even number of
quotes, and else the cutting stops at the last of them (`all_spec`).

`IsLetterRun` says on the pattern itself, without cutting it, where a run of one letter stands
outside quotes. Such runs are the fields among the items: this is said for the item at the beginning
of a pattern (`exists_chunk_of_beginsWith`), and for all of them by induction (`field_mem_iff`,
`isFirstRun_iff`).
-/

namespace TodoAudit.DatePattern

open Text

namespace Item

variable {item : Item} {chunk : List Char}

/-! ## Quotes -/

theorem Spells.even_count (h : Spells chunk item) : Even (chunk.count '\'') := by
  cases h with
  | @field letter count hletter _ =>
    have hne : letter ≠ '\'' := by
      rintro rfl
      exact absurd hletter (by decide)
    rw [List.count_replicate, if_neg (by simpa using hne)]
    exact Even.zero
  | plain _ hplain =>
    have hfree : '\'' ∉ chunk := fun hmem => absurd (hplain _ hmem) (by decide)
    rw [List.count_eq_zero_of_not_mem hfree]
    exact Even.zero
  | quoted _ hfree =>
    rw [List.count_append, List.count_cons_self, List.count_eq_zero_of_not_mem hfree]
    decide
  | quote => decide

/-- A pattern with an even number of quotes is cut into items. Else the cutting stops at the last
quote. -/
theorem all_spec (s : List Char) :
    Even (s.count '\'') ∧ (∃ items, all s = .ok items) ∨
      Odd (s.count '\'') ∧ ∃ front inside, s = front ++ '\'' :: inside ∧ '\'' ∉ inside ∧
        all s = refuse .nothing ('\'' :: inside) := by
  refine all_induction (motive := fun s cut => Even (s.count '\'') ∧ (∃ items, cut = .ok items) ∨
    Odd (s.count '\'') ∧ ∃ front inside, s = front ++ '\'' :: inside ∧ '\'' ∉ inside ∧
      cut = refuse .nothing ('\'' :: inside)) ?_ ?_ ?_ s
  · exact .inl ⟨by simp, [], rfl⟩
  · intro inside hfree
    refine .inr ⟨?_, [], inside, rfl, hfree, rfl⟩
    rw [List.count_cons_self, List.count_eq_zero_of_not_mem hfree]
    decide
  · intro s item rest h ih
    obtain ⟨chunk, rfl, hchunk⟩ := h.exists_chunk
    rw [List.count_append, Nat.even_add, iff_true_left hchunk.even_count, Nat.odd_add',
      iff_true_right hchunk.even_count]
    rcases ih with ⟨heven, items, hitems⟩ | ⟨hodd, front, inside, rfl, hfree, hrefuse⟩
    · exact .inl ⟨heven, item :: items, by rw [hitems]; rfl⟩
    · exact .inr ⟨hodd, chunk ++ front, inside, (List.append_assoc _ _ _).symm, hfree,
        by rw [hrefuse]; rfl⟩

theorem exists_all_eq_ok_of_even {s : List Char} (h : Even (s.count '\'')) :
    ∃ items, all s = .ok items := by
  rcases all_spec s with ⟨-, hitems⟩ | ⟨hodd, -⟩
  · exact hitems
  · exact absurd h (Nat.not_even_iff_odd.2 hodd)

end Item

/-! ## Runs -/

/-- Between `before` and `after` a letter stands `count` times in the pattern, outside quotes and
not beside the same letter. -/
structure IsLetterRun (s before : List Char) (letter : Char) (count : Nat) (after : List Char) :
    Prop where
  isAlpha : letter.isAlpha = true
  pos : 0 < count
  split : s = before ++ List.replicate count letter ++ after
  outside : Even (before.count '\'')
  start : before.getLast? ≠ some letter
  stop : after.head? ≠ some letter

variable {item : Item} {items : List Item} {s t chunk rest before before' after after' : List Char}
  {letter c : Char} {count m n : Nat}

theorem replicate_append_inj (h : List.replicate m c ++ s = List.replicate n c ++ t)
    (hs : s.head? ≠ some c) (ht : t.head? ≠ some c) : m = n ∧ s = t := by
  have hrun : ∀ n, ∀ d ∈ List.replicate n c, (d == c) = true := by
    intro n d hd
    rw [List.eq_of_mem_replicate hd, beq_self_eq_true]
  have hend : ∀ {u : List Char}, u.head? ≠ some c → ∀ d, u.head? = some d → (d == c) = false := by
    intro u hu d hd
    exact beq_eq_false_iff_ne.2 fun heq => hu (heq ▸ hd)
  have hlength := congrArg (fun u => (u.takeWhile (· == c)).length) h
  rw [takeWhile_append_of_stop (hrun m) (hend hs), takeWhile_append_of_stop (hrun n) (hend ht),
    List.length_replicate, List.length_replicate] at hlength
  subst hlength
  exact ⟨rfl, List.append_cancel_left h⟩

/-- Behind the first quote of quoted text, and before its last one, there is one quote. -/
theorem count_eq_one_of_quoted (hfree : '\'' ∉ t) (hc : c ≠ '\'')
    (h : '\'' :: t ++ ['\''] = before ++ c :: after) : before.count '\'' = 1 := by
  cases before with
  | nil => exact absurd (List.cons.inj h).1.symm hc
  | cons d before =>
    simp only [List.cons_append, List.cons.injEq] at h
    obtain ⟨rfl, htail⟩ := h
    have hbefore : before <+: t := by
      rcases List.append_eq_append_iff.1 htail with ⟨u, rfl, hend⟩ | ⟨u, rfl, -⟩
      · cases u with
        | nil => exact absurd (List.cons.inj hend).1.symm hc
        | cons e u => simp at hend
      · exact List.prefix_append before u
    rw [List.count_cons_self, List.count_eq_zero_of_not_mem fun hmem => hfree (hbefore.subset hmem)]

/-- In what is spelled for an item, no run begins but the item itself, if it is a field. -/
theorem Item.Spells.eq_field (h : Spells chunk item) (hsplit : chunk = before ++ c :: after)
    (hc : c.isAlpha = true) (houtside : Even (before.count '\''))
    (hstart : before.getLast? ≠ some c) :
    before = [] ∧ ∃ count, item = .field c count ∧ chunk = List.replicate count c := by
  have hquote : c ≠ '\'' := by
    rintro rfl
    exact absurd hc (by decide)
  cases h with
  | @field letter count _ _ =>
    have hall : ∀ d ∈ before ++ c :: after, d = letter := by
      rw [← hsplit]
      exact fun d hd => List.eq_of_mem_replicate hd
    obtain rfl : c = letter := hall c (by simp)
    refine ⟨?_, count, rfl, rfl⟩
    rcases List.eq_nil_or_concat before with rfl | ⟨init, d, rfl⟩
    · rfl
    · refine absurd ?_ hstart
      rw [List.concat_eq_append, List.getLast?_concat, hall d (by simp)]
  | plain _ hplain =>
    have hmem : c ∈ chunk := by
      rw [hsplit]
      simp
    have hplain := hplain c hmem
    rw [isPlain, hc] at hplain
    cases hplain
  | quoted _ hfree =>
    rw [count_eq_one_of_quoted hfree hquote hsplit] at houtside
    exact absurd houtside (by decide)
  | quote =>
    rw [count_eq_one_of_quoted (t := []) List.not_mem_nil hquote hsplit] at houtside
    exact absurd houtside (by decide)

/-- What is spelled for an item ends with a letter only if the item is a field of that letter. -/
theorem Item.Spells.eq_field_of_getLast? (h : Spells chunk item) (hc : c.isAlpha = true)
    (hlast : chunk.getLast? = some c) : ∃ count, item = .field c count := by
  cases h with
  | @field letter count _ _ =>
    rw [List.eq_of_mem_replicate (List.mem_of_getLast? hlast)]
    exact ⟨count, rfl⟩
  | plain _ hplain =>
    have hplain := hplain c (List.mem_of_getLast? hlast)
    rw [isPlain, hc] at hplain
    cases hplain
  | quoted _ _ =>
    rw [List.getLast?_concat] at hlast
    cases hlast
    cases hc
  | quote =>
    cases hlast
    cases hc

/-- A field at the beginning of a pattern is a run. -/
theorem Item.BeginsWith.isLetterRun (h : BeginsWith s (.field letter count) rest) :
    IsLetterRun s [] letter count rest := by
  cases h with
  | field hletter hpos hstop =>
    exact ⟨hletter, hpos, by rw [List.nil_append], by simp, by simp, hstop⟩

theorem IsLetterRun.head?_eq (h : IsLetterRun s [] letter count after) : s.head? = some letter := by
  obtain ⟨n, rfl⟩ := Nat.exists_eq_add_one.2 h.pos
  rw [h.split, List.replicate_succ]
  rfl

/-- The runs behind the first item of a pattern are runs of the pattern. -/
theorem IsLetterRun.append_left (h : Item.BeginsWith s item rest) (hs : s = chunk ++ rest)
    (hchunk : Item.Spells chunk item) (hrun : IsLetterRun rest before letter count after) :
    IsLetterRun s (chunk ++ before) letter count after where
  isAlpha := hrun.isAlpha
  pos := hrun.pos
  split := by rw [hs, hrun.split, List.append_assoc, List.append_assoc, List.append_assoc]
  outside := by
    rw [List.count_append]
    exact hchunk.even_count.add hrun.outside
  start := by
    rcases eq_or_ne before [] with rfl | hne
    · -- the first item would have taken in the run
      rw [List.append_nil]
      intro hlast
      obtain ⟨m, rfl⟩ := hchunk.eq_field_of_getLast? hrun.isAlpha hlast
      exact h.isLetterRun.stop hrun.head?_eq
    · rw [List.getLast?_append_of_ne_nil _ hne]
      exact hrun.start
  stop := hrun.stop

/-- A run that does not begin in the first chunk of a pattern is a run of the rest. -/
theorem IsLetterRun.of_append_left (heven : Even (chunk.count '\''))
    (h : IsLetterRun (chunk ++ rest) (chunk ++ before) letter count after) :
    IsLetterRun rest before letter count after where
  isAlpha := h.isAlpha
  pos := h.pos
  split := by
    have hsplit := h.split
    rw [List.append_assoc, List.append_assoc] at hsplit
    rw [List.append_cancel_left hsplit, List.append_assoc]
  outside := by
    have houtside := h.outside
    rw [List.count_append] at houtside
    exact (Nat.even_add.1 houtside).1 heven
  start := by
    intro hlast
    refine h.start ?_
    rw [List.getLast?_append, hlast, Option.some_or]
  stop := h.stop

/-- The runs of a pattern are its first item, if that is a field, and the runs behind it. -/
theorem exists_chunk_of_beginsWith (h : Item.BeginsWith s item rest) :
    ∃ chunk, chunk ≠ [] ∧ ∀ before letter count after, IsLetterRun s before letter count after ↔
      before = [] ∧ item = .field letter count ∧ after = rest ∨
        ∃ before', before = chunk ++ before' ∧ IsLetterRun rest before' letter count after := by
  obtain ⟨chunk, hs, hchunk⟩ := h.exists_chunk
  refine ⟨chunk, hchunk.ne_nil, ?_⟩
  intro before letter count after
  constructor
  · intro hrun
    by_cases hprefix : chunk <+: before
    · obtain ⟨before', rfl⟩ := hprefix
      exact .inr ⟨before', rfl, (hs ▸ hrun).of_append_left hchunk.even_count⟩
    · have hsplit : chunk ++ rest = before ++ (List.replicate count letter ++ after) := by
        rw [← hs, hrun.split, List.append_assoc]
      rcases List.append_eq_append_iff.1 hsplit with
        ⟨before', rfl, -⟩ | ⟨_ | ⟨c, tail⟩, hbegin, hrest⟩
      · exact absurd (List.prefix_append chunk before') hprefix
      · exact absurd (List.append_nil before ▸ hbegin ▸ List.prefix_rfl) hprefix
      · -- the run begins in the chunk, so it is the chunk
        obtain ⟨n, hcount⟩ := Nat.exists_eq_add_one.2 hrun.pos
        obtain rfl : letter = c := by
          rw [hcount, List.replicate_succ] at hrest
          exact (List.cons.inj hrest).1
        obtain ⟨rfl, m, rfl, rfl⟩ :=
          hchunk.eq_field hbegin hrun.isAlpha hrun.outside hrun.start
        obtain ⟨rfl, rfl⟩ := replicate_append_inj hsplit h.isLetterRun.stop hrun.stop
        exact .inl ⟨rfl, rfl, rfl⟩
  · rintro (⟨rfl, rfl, rfl⟩ | ⟨before', rfl, hrun⟩)
    · exact h.isLetterRun
    · exact hrun.append_left h hs hchunk

/-! ## The fields among the items -/

theorem not_isLetterRun_nil : ¬ IsLetterRun [] before letter count after := by
  intro h
  have hlength := congrArg List.length h.split
  have hpos := h.pos
  simp only [List.length_append, List.length_replicate, List.length_nil] at hlength
  omega

/-- The fields among the items of a pattern are its runs. -/
theorem field_mem_iff (h : Item.all s = .ok items) :
    .field letter count ∈ items ↔ ∃ before after, IsLetterRun s before letter count after := by
  refine Item.induction_of_all (motive := fun s items => .field letter count ∈ items ↔
    ∃ before after, IsLetterRun s before letter count after) ?_ ?_ h
  · simp [not_isLetterRun_nil]
  · intro s item rest items hbegin ih
    obtain ⟨chunk, -, hruns⟩ := exists_chunk_of_beginsWith hbegin
    rw [List.mem_cons, ih]
    constructor
    · rintro (rfl | ⟨before, after, hrun⟩)
      · exact ⟨[], rest, (hruns _ _ _ _).2 (.inl ⟨rfl, rfl, rfl⟩)⟩
      · exact ⟨_, after, (hruns _ _ _ _).2 (.inr ⟨before, rfl, hrun⟩)⟩
    · rintro ⟨before, after, hrun⟩
      rcases (hruns _ _ _ _).1 hrun with ⟨-, rfl, -⟩ | ⟨before', -, hrun'⟩
      · exact .inl rfl
      · exact .inr ⟨before', after, hrun'⟩

/-- Of the runs of some kind, this one is the leftmost. -/
def IsFirstRun (P : Char → Nat → Prop) (s : List Char) (letter : Char) (count : Nat) : Prop :=
  ∃ before after, IsLetterRun s before letter count after ∧ P letter count ∧
    ∀ b l n a, IsLetterRun s b l n a → P l n → before.length ≤ b.length

/-- The leftmost run of some kind is the first field of this kind. -/
theorem isFirstRun_iff (P : Char → Nat → Prop) (h : Item.all s = .ok items) :
    IsFirstRun P s letter count ↔ ∃ front back, items = front ++ .field letter count :: back ∧
      P letter count ∧ ∀ l n, .field l n ∈ front → ¬ P l n := by
  refine Item.induction_of_all (motive := fun s items => IsFirstRun P s letter count ↔
    ∃ front back, items = front ++ .field letter count :: back ∧ P letter count ∧
      ∀ l n, .field l n ∈ front → ¬ P l n) ?_ ?_ h
  · simp [IsFirstRun, not_isLetterRun_nil]
  · intro s item rest items hbegin ih
    obtain ⟨chunk, hne, hruns⟩ := exists_chunk_of_beginsWith hbegin
    constructor
    · rintro ⟨before, after, hrun, hP, hleast⟩
      rcases (hruns _ _ _ _).1 hrun with ⟨-, rfl, -⟩ | ⟨before, rfl, hlater⟩
      · exact ⟨[], items, rfl, hP, by simp⟩
      · have hleast' : ∀ b l n a, IsLetterRun rest b l n a → P l n → before.length ≤ b.length := by
          intro b l n a hb hPb
          have hle := hleast _ l n a ((hruns _ _ _ _).2 (.inr ⟨b, rfl, hb⟩)) hPb
          rw [List.length_append, List.length_append] at hle
          omega
        obtain ⟨front, back, rfl, -, hfront⟩ := ih.1 ⟨before, after, hlater, hP, hleast'⟩
        refine ⟨item :: front, back, rfl, hP, ?_⟩
        intro l n hmem hPn
        rcases List.mem_cons.1 hmem with rfl | hmem
        · have hle := hleast [] l n rest ((hruns _ _ _ _).2 (.inl ⟨rfl, rfl, rfl⟩)) hPn
          have hpos := List.length_pos_iff.2 hne
          rw [List.length_append, List.length_nil] at hle
          omega
        · exact hfront l n hmem hPn
    · rintro ⟨_ | ⟨first, front⟩, back, heq, hP, hfront⟩
      · cases heq
        exact ⟨[], rest, (hruns _ _ _ _).2 (.inl ⟨rfl, rfl, rfl⟩), hP,
          fun _ _ _ _ _ _ => Nat.zero_le _⟩
      · cases heq
        obtain ⟨before, after, hrun, -, hleast⟩ := ih.2
          ⟨front, back, rfl, hP, fun l n hmem => hfront l n (List.mem_cons_of_mem _ hmem)⟩
        refine ⟨_, after, (hruns _ _ _ _).2 (.inr ⟨before, rfl, hrun⟩), hP, ?_⟩
        intro b l n a hb hPb
        rcases (hruns _ _ _ _).1 hb with ⟨-, rfl, -⟩ | ⟨b, rfl, hlater⟩
        · exact absurd hPb (hfront l n List.mem_cons_self)
        · rw [List.length_append, List.length_append]
          exact Nat.add_le_add_left (hleast b l n a hlater hPb) _

end TodoAudit.DatePattern
