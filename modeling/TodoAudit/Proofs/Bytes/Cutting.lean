import TodoAudit.Proofs.Text.Occurrence

/-!
# Cutting texts at byte offsets

The library walks over the characters of a text, where there is nothing to fail. A program on the
bytes of a text cuts it at offsets that it has computed, and fails where an offset is outside the
text or inside a character. Here are the steps of such a program. A text is cut exactly where some
beginning of it ends, and fails to be cut at every other offset (`splitAt_eq_ok_iff`).
-/

namespace TodoAudit.Bytes

open Text

variable {s a b front back : List Char} {c : Char} {p n offset : Nat}

/-- Why a program on bytes and machine words fails. -/
inductive Fault where
  /-- The offset is outside the text or inside one of its characters. -/
  | cut (text : List Char) (offset : Nat)
  /-- The difference is below zero. -/
  | negative (size less : Nat)
  /-- The number does not fit into a signed word of so many bits. -/
  | tooLarge (bits : Nat) (n : Int)
deriving DecidableEq, Repr

/-! ## Boundaries -/

/-- The offset is in range and on a character boundary: a character of the text begins there, or
the text ends there. -/
def IsBoundary (s : List Char) (p : Nat) : Prop :=
  String.Pos.Raw.IsValid (String.ofList s) ⟨p⟩

instance : Decidable (IsBoundary s p) :=
  inferInstanceAs (Decidable (String.Pos.Raw.IsValid _ _))

theorem isBoundary_iff : IsBoundary s p ↔ ∃ front back, s = front ++ back ∧ byteSize front = p := by
  have hsize : ∀ t, byteSize t = (String.ofList t).utf8ByteSize := by
    intro t
    rw [byteSize_eq_size, String.size_toByteArray]
  rw [IsBoundary, String.Pos.Raw.isValid_ofList]
  constructor
  · rintro ⟨i, hi⟩
    exact ⟨s.take i, s.drop i, (List.take_append_drop i s).symm, (hsize _).trans hi.symm⟩
  · rintro ⟨front, back, rfl, rfl⟩
    exact ⟨front.length, by rw [List.take_left, hsize]⟩

/-! ## Cutting -/

/-- The texts before and behind an offset. -/
def splitAt (s : List Char) (p : Nat) : Except Fault (List Char × List Char) :=
  if IsBoundary s p then .ok (upTo s p, s.drop (upTo s p).length) else .error (.cut s p)

/-- The text behind an offset. -/
def cutFrom (s : List Char) (p : Nat) : Except Fault (List Char) :=
  (splitAt s p).map Prod.snd

/-- The text before an offset. -/
def cutTo (s : List Char) (p : Nat) : Except Fault (List Char) :=
  (splitAt s p).map Prod.fst

theorem splitAt_append (front back : List Char) :
    splitAt (front ++ back) (byteSize front) = .ok (front, back) := by
  rw [splitAt, if_pos (isBoundary_iff.2 ⟨front, back, rfl, rfl⟩), upTo_byteSize, List.drop_left]

/-- A text is cut exactly where a beginning of it ends. -/
theorem splitAt_eq_ok_iff :
    splitAt s p = .ok (front, back) ↔ s = front ++ back ∧ byteSize front = p := by
  constructor
  · intro h
    by_cases hp : IsBoundary s p
    · obtain ⟨a, b, rfl, rfl⟩ := isBoundary_iff.1 hp
      rw [splitAt_append] at h
      cases h
      exact ⟨rfl, rfl⟩
    · rw [splitAt, if_neg hp] at h
      cases h
  · rintro ⟨rfl, rfl⟩
    exact splitAt_append front back

/-- The second byte of a character is no place to cut. -/
example : splitAt ['é', '/'] 1 = .error (.cut ['é', '/'] 1) := by decide +kernel

@[simp] theorem cutFrom_append (front back : List Char) :
    cutFrom (front ++ back) (byteSize front) = .ok back := by
  rw [cutFrom, splitAt_append]
  rfl

@[simp] theorem cutTo_append (front back : List Char) :
    cutTo (front ++ back) (byteSize front) = .ok front := by
  rw [cutTo, splitAt_append]
  rfl

theorem cutTo_take (n : Nat) (s : List Char) :
    cutTo s (byteSize (s.take n)) = .ok (s.take n) := by
  have h := cutTo_append (s.take n) (s.drop n)
  rwa [List.take_append_drop] at h

theorem exists_of_cutFrom (h : cutFrom s p = .ok back) :
    ∃ front, s = front ++ back ∧ byteSize front = p := by
  rw [cutFrom] at h
  cases hs : splitAt s p with
  | error fault =>
    rw [hs] at h
    cases h
  | ok parts =>
    rw [hs] at h
    cases h
    exact ⟨parts.1, splitAt_eq_ok_iff.1 hs⟩

/-- The difference of two sizes. -/
def minus (size less : Nat) : Except Fault Nat :=
  if less ≤ size then .ok (size - less) else .error (.negative size less)

/-- What is in front of the rest of a text ends as many bytes from its end as the rest has. -/
theorem minus_byteSize_append (front back : List Char) :
    minus (byteSize (front ++ back)) (byteSize back) = .ok (byteSize front) := by
  rw [minus, byteSize_append, if_pos (Nat.le_add_left _ _), Nat.add_sub_cancel]

/-! ## Searching -/

/-- The offset of the leftmost occurrence of a mark. -/
def find? (mark s : List Char) : Option Nat :=
  (cutAt? mark s).map fun (before, _) => byteSize before

/-- The offsets of a character in a text that itself begins at `offset`. -/
def offsetsFrom (c : Char) (offset : Nat) : List Char → List Nat
  | [] => []
  | x :: s => (if x = c then [offset] else []) ++ offsetsFrom c (offset + x.utf8Size) s

/-- The offset of the rightmost occurrence of a character. -/
def lastOffset? (c : Char) (s : List Char) : Option Nat :=
  (offsetsFrom c 0 s).getLast?

/-- The offset of the character that has `n` characters before it. -/
def offsetOfNth? (n : Nat) (s : List Char) : Option Nat :=
  if n < s.length then some (byteSize (s.take n)) else none

theorem find?_of_notMem (h : c ∉ s) : find? [c] s = none := by
  rw [find?, cutAt?_eq_none_iff.2 (mt (List.singleton_infix_iff _ _).1 h)]
  rfl

theorem find?_append_cons (b : List Char) (h : c ∉ a) :
    find? [c] (a ++ c :: b) = some (byteSize a) := by
  rw [find?, cutAt?_append_cons b h]
  rfl

theorem offsetsFrom_append (c : Char) (offset : Nat) (a b : List Char) :
    offsetsFrom c offset (a ++ b) =
      offsetsFrom c offset a ++ offsetsFrom c (offset + byteSize a) b := by
  induction a generalizing offset with
  | nil => rfl
  | cons x a ih =>
    rw [List.cons_append, offsetsFrom, ih, offsetsFrom, byteSize_cons, List.append_assoc,
      Nat.add_assoc]

theorem offsetsFrom_of_notMem (h : c ∉ s) : offsetsFrom c offset s = [] := by
  induction s generalizing offset with
  | nil => rfl
  | cons x s ih =>
    rw [List.mem_cons, not_or] at h
    rw [offsetsFrom, if_neg (Ne.symm h.1), ih h.2, List.append_nil]

theorem lastOffset?_of_notMem (h : c ∉ s) : lastOffset? c s = none := by
  rw [lastOffset?, offsetsFrom_of_notMem h]
  rfl

theorem lastOffset?_append_cons (a : List Char) (h : c ∉ b) :
    lastOffset? c (a ++ c :: b) = some (byteSize a) := by
  rw [lastOffset?, offsetsFrom_append, offsetsFrom, if_pos rfl, offsetsFrom_of_notMem h,
    List.append_nil, List.getLast?_concat, Nat.zero_add]

/-- Cutting behind the first characters, or at the end of a text that has no more, takes them. -/
theorem cutTo_offsetOfNth? (n : Nat) (s : List Char) :
    cutTo s ((offsetOfNth? n s).getD (byteSize s)) = .ok (s.take n) := by
  rw [← cutTo_take n s, offsetOfNth?]
  split
  · rfl
  · rw [List.take_of_length_le (by omega)]
    rfl

end TodoAudit.Bytes
