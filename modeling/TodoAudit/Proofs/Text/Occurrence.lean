import Mathlib
import TodoAudit.Text.Position

/-!
# Where a mark stands in a text

`StandsAt mark s p` says that `mark` begins at byte `p` of the text `s`. A byte offset on a
character boundary determines the text before it (`append_inj_of_byteSize`), so what stands behind
some text does not depend on that text (`standsAt_append_iff`), and cutting at a mark finds the
least offset at which it stands (`isLeast_of_cutAt?`, `cutAt?_eq_none_iff`). `between` is the text
from one offset to another.
-/

namespace TodoAudit.Text

variable {mark s t rest before after a b c d : List Char} {p q k : Nat}

/-! ## Byte offsets -/

/-- The size in bytes is that of the text in UTF-8. -/
theorem byteSize_eq_size (s : List Char) : byteSize s = (String.ofList s).toByteArray.size := by
  rw [String.size_toByteArray]
  induction s with
  | nil => simp
  | cons c s ih =>
    rw [byteSize_cons, ih, show c :: s = [c] ++ s from rfl, String.ofList_append,
      String.utf8ByteSize_append, ← String.singleton_eq_ofList, String.utf8ByteSize_singleton]

/-- Offsets cut the bytes of a text where they cut its characters. -/
theorem toByteArray_of_split {text : String} (h : text.toList = before ++ t ++ after) :
    (String.ofList t).toByteArray =
      text.toByteArray.extract (byteSize before) (byteSize before + byteSize t) := by
  have htext : text = String.ofList before ++ String.ofList t ++ String.ofList after := by
    rw [← String.ofList_append, ← String.ofList_append, ← h, String.ofList_toList]
  rw [htext, String.toByteArray_append, String.toByteArray_append, ByteArray.append_assoc,
    ← Nat.add_zero (byteSize before), Nat.add_assoc, ByteArray.extract_append_size_add'
    (byteSize_eq_size before), Nat.zero_add, ByteArray.extract_append_eq_left (byteSize_eq_size t)]

theorem byteSize_eq_zero_iff : byteSize s = 0 ↔ s = [] := by
  cases s with
  | nil => simp
  | cons c s =>
    have := c.utf8Size_pos
    simp only [byteSize_cons, reduceCtorEq, iff_false]
    omega

/-- A byte offset on a character boundary determines the text before it. -/
theorem append_inj_of_byteSize (h : a ++ b = c ++ d) (hs : byteSize a = byteSize c) :
    a = c ∧ b = d := by
  rcases List.append_eq_append_iff.1 h with ⟨x, hc, hb⟩ | ⟨x, ha, hd⟩
  · rw [hc, byteSize_append] at hs
    have hx : x = [] := byteSize_eq_zero_iff.1 (by omega)
    subst hx
    simp_all
  · rw [ha, byteSize_append] at hs
    have hx : x = [] := byteSize_eq_zero_iff.1 (by omega)
    subst hx
    simp_all

/-- Of two beginnings of a text the shorter has the smaller size. -/
theorem byteSize_le_of_length_le (h : a ++ b = c ++ d) (hl : a.length ≤ c.length) :
    byteSize a ≤ byteSize c := by
  obtain ⟨x, rfl⟩ : a <+: c :=
    List.prefix_of_prefix_length_le (List.prefix_append a b) (h ▸ List.prefix_append c d) hl
  rw [byteSize_append]
  exact Nat.le_add_right _ _

/-- The text between two byte offsets. -/
def between (s : List Char) (p q : Nat) : List Char :=
  (upTo s q).drop (upTo s p).length

theorem between_byteSize (before t rest : List Char) :
    between (before ++ t ++ rest) (byteSize before) (byteSize (before ++ t)) = t := by
  rw [between, upTo_byteSize, List.append_assoc, upTo_byteSize, List.drop_left]

/-! ## Marks at offsets -/

/-- The mark begins at byte `p` of the text. -/
def StandsAt (mark s : List Char) (p : Nat) : Prop :=
  ∃ before after, s = before ++ mark ++ after ∧ byteSize before = p

/-- What stands behind some text does not depend on that text. -/
theorem standsAt_append_iff :
    StandsAt mark (before ++ rest) (byteSize before + k) ↔ StandsAt mark rest k := by
  constructor
  · rintro ⟨b, d, hs, hb⟩
    rw [List.append_assoc] at hs
    rcases List.append_eq_append_iff.1 hs with ⟨x, rfl, hrest⟩ | ⟨x, rfl, hmark⟩
    · rw [byteSize_append] at hb
      exact ⟨x, d, by rw [hrest, List.append_assoc], by omega⟩
    · rw [byteSize_append] at hb
      have hx : x = [] := byteSize_eq_zero_iff.1 (by omega)
      subst hx
      exact ⟨[], d, by simpa using hmark.symm, by simp at hb; simp; omega⟩
  · rintro ⟨x, d, rfl, rfl⟩
    exact ⟨before ++ x, d, by simp, by simp⟩

theorem standsAt_zero_iff : StandsAt mark s 0 ↔ mark <+: s := by
  constructor
  · rintro ⟨b, d, rfl, hb⟩
    rw [byteSize_eq_zero_iff.1 hb]
    exact ⟨d, rfl⟩
  · rintro ⟨d, rfl⟩
    exact ⟨[], d, rfl, rfl⟩

theorem not_standsAt_nil (hmark : mark ≠ []) : ¬ StandsAt mark [] p := by
  rintro ⟨b, d, hs, -⟩
  simp_all

/-- No mark begins inside a character. -/
theorem not_standsAt_of_lt_utf8Size {x : Char} (hk : 0 < k) (hx : k < x.utf8Size) :
    ¬ StandsAt mark (x :: s) k := by
  rintro ⟨b, d, hs, hb⟩
  cases b with
  | nil => simp at hb; omega
  | cons y b =>
    have hy : x = y := (List.cons.inj hs).1
    rw [byteSize_cons, ← hy] at hb
    omega

/-- A mark that stands in a text ends in it. -/
theorem add_le_of_standsAt (h : StandsAt mark s p) : p + byteSize mark ≤ byteSize s := by
  obtain ⟨b, d, rfl, rfl⟩ := h
  simp

theorem exists_standsAt_iff : (∃ p, StandsAt mark s p) ↔ mark <:+: s := by
  constructor
  · rintro ⟨p, b, d, rfl, -⟩
    exact ⟨b, d, rfl⟩
  · rintro ⟨b, d, rfl⟩
    exact ⟨byteSize b, b, d, rfl, rfl⟩

/-! ## Cutting at the leftmost mark -/

theorem cutAt?_cons (x : Char) (s : List Char) :
    cutAt? mark (x :: s) = match strip? mark (x :: s) with
      | some after => some ([], after)
      | none => (cutAt? mark s).map fun (before, after) => (x :: before, after) := rfl

theorem strip?_eq_none_iff : strip? mark s = none ↔ ¬ mark <+: s := by
  rw [Option.eq_none_iff_forall_ne_some]
  constructor
  · rintro h ⟨t, rfl⟩
    exact h t (strip?_eq_some_iff.2 rfl)
  · rintro h t ht
    exact h ⟨t, (strip?_eq_some_iff.1 ht).symm⟩

/-- Nothing is cut exactly if the mark does not occur. -/
theorem cutAt?_eq_none_iff : cutAt? mark s = none ↔ ¬ mark <:+: s := by
  induction s with
  | nil => by_cases h : mark = [] <;> simp [cutAt?, h]
  | cons x s ih =>
    rw [cutAt?_cons, List.infix_cons_iff]
    cases hstrip : strip? mark (x :: s) with
    | some t =>
      have hpre : mark <+: x :: s := ⟨t, (strip?_eq_some_iff.1 hstrip).symm⟩
      simp [hpre]
    | none =>
      have hpre : ¬ mark <+: x :: s := strip?_eq_none_iff.1 hstrip
      simp [hpre, ih]

/-- A text is cut at its leftmost occurrence of a character. -/
theorem cutAt?_append_cons {x : Char} (b : List Char) (h : x ∉ a) :
    cutAt? [x] (a ++ x :: b) = some (a, b) := by
  induction a with
  | nil => rw [List.nil_append, cutAt?_cons, strip?, if_pos rfl, strip?]
  | cons y a ih =>
    rw [List.mem_cons, not_or] at h
    rw [List.cons_append, cutAt?_cons, strip?, if_neg h.1, ih h.2]
    rfl

theorem occurs_iff : occurs mark s = true ↔ mark <:+: s := by
  rw [occurs, Option.isSome_iff_ne_none, Ne, cutAt?_eq_none_iff, not_not]

/-- The cut is at the leftmost mark. -/
theorem length_le_of_cutAt? (h : cutAt? mark s = some (before, after)) (hs : s = a ++ mark ++ b) :
    before.length ≤ a.length := by
  induction s generalizing before after a with
  | nil =>
    have := congrArg List.length (eq_append_of_cutAt?_eq_some h)
    simp at this
    omega
  | cons x s ih =>
    rw [cutAt?_cons] at h
    cases hstrip : strip? mark (x :: s) with
    | some t =>
      rw [hstrip] at h
      cases h
      exact Nat.zero_le _
    | none =>
      rw [hstrip] at h
      obtain ⟨⟨b', a'⟩, hcut, hba⟩ := Option.map_eq_some_iff.1 h
      cases hba
      cases a with
      | nil => exact absurd ⟨b, by simpa using hs.symm⟩ (strip?_eq_none_iff.1 hstrip)
      | cons y a => exact Nat.succ_le_succ (ih hcut (List.cons.inj hs).2)

/-- Cutting gives the split at the leftmost mark. -/
theorem cutAt?_eq_some_iff : cutAt? mark s = some (before, after) ↔
    s = before ++ mark ++ after ∧ ∀ a b, s = a ++ mark ++ b → before.length ≤ a.length := by
  constructor
  · intro h
    exact ⟨eq_append_of_cutAt?_eq_some h, fun a b => length_le_of_cutAt? h⟩
  · rintro ⟨hs, hleast⟩
    cases hcut : cutAt? mark s with
    | none => exact absurd ⟨before, after, hs.symm⟩ (cutAt?_eq_none_iff.1 hcut)
    | some cut =>
      obtain ⟨front, back⟩ := cut
      have hsplit := eq_append_of_cutAt?_eq_some hcut
      have hlength : front.length = before.length :=
        Nat.le_antisymm (length_le_of_cutAt? hcut hs) (hleast front back hsplit)
      rw [hs, List.append_assoc, List.append_assoc] at hsplit
      obtain ⟨hfront, hrest⟩ := List.append_inj hsplit hlength.symm
      rw [hfront, List.append_cancel_left hrest]

/-- Cutting finds the least offset at which the mark stands. -/
theorem isLeast_of_cutAt? (h : cutAt? mark s = some (before, after)) :
    IsLeast {p | StandsAt mark s p} (byteSize before) := by
  have hs := eq_append_of_cutAt?_eq_some h
  refine ⟨⟨before, after, hs, rfl⟩, ?_⟩
  rintro p ⟨a, b, hab, rfl⟩
  have hle := length_le_of_cutAt? h hab
  rw [hs, List.append_assoc, List.append_assoc] at hab
  exact byteSize_le_of_length_le hab hle

/-! ## The end of a line -/

/-- The first line of a text ends at the least offset at which a line break stands, or at the end
of the text. -/
theorem isLeast_lineEnd (s : List Char) :
    IsLeast {p | StandsAt ['\n'] s p ∨ p = byteSize s} (byteSize (s.takeWhile (· ≠ '\n'))) := by
  have hsplit := List.takeWhile_append_dropWhile (p := (· ≠ '\n')) (l := s)
  constructor
  · cases hrest : s.dropWhile (· ≠ '\n') with
    | nil =>
      rw [hrest, List.append_nil] at hsplit
      exact Or.inr (by rw [hsplit])
    | cons x tail =>
      have hx := List.head?_dropWhile_not (· ≠ '\n') s
      rw [hrest] at hx
      have hx : x = '\n' := by simpa using hx
      subst hx
      exact Or.inl ⟨_, tail, by rw [List.append_assoc, List.singleton_append, ← hrest, hsplit], rfl⟩
  · rintro p (⟨b, d, hs, rfl⟩ | rfl)
    · have hmem : '\n' ∉ s.takeWhile (· ≠ '\n') := fun h => by
        simpa using List.mem_takeWhile_imp h
      have hlen : (s.takeWhile (· ≠ '\n')).length ≤ b.length := by
        by_contra hlt
        have hpre : b ++ ['\n'] <+: s.takeWhile (· ≠ '\n') := by
          refine List.prefix_of_prefix_length_le ⟨d, hs.symm⟩ (List.takeWhile_prefix _) ?_
          rw [List.length_append, List.length_singleton]
          omega
        exact hmem (hpre.subset (by simp))
      exact byteSize_le_of_length_le ((hsplit.trans hs).trans (List.append_assoc _ _ _)) hlen
    · conv_rhs => rw [← hsplit, byteSize_append]
      exact Nat.le_add_right _ _

end TodoAudit.Text
