/-!
# Texts as lists of characters

Every reader of the library walks over a `List Char` and says what it ate and what is left. This
file holds the operations they share: matching a fixed beginning, cutting at the leftmost occurrence
of a mark, and the size of a text in UTF-8 bytes, which is the unit of offsets.
-/

namespace TodoAudit.Text

variable {lead mark s rest before after : List Char}

/-! ## A fixed beginning -/

/-- What follows `lead` in a text that begins with it. -/
def strip? : (lead s : List Char) → Option (List Char)
  | [], s => some s
  | _ :: _, [] => none
  | a :: lead, c :: s => if a = c then strip? lead s else none

theorem strip?_eq_some_iff : strip? lead s = some rest ↔ s = lead ++ rest := by
  induction lead generalizing s with
  | nil => simp [strip?, eq_comm]
  | cons a lead ih =>
    cases s with
    | nil => simp [strip?]
    | cons c s =>
      by_cases h : a = c
      · simp [strip?, h, ih]
      · simp [strip?, h, Ne.symm h]

/-! ## The leftmost occurrence of a mark -/

/-- The texts before and after the leftmost occurrence of `mark`. -/
def cutAt? (mark : List Char) : List Char → Option (List Char × List Char)
  | [] => if mark = [] then some ([], []) else none
  | c :: s =>
    match strip? mark (c :: s) with
    | some after => some ([], after)
    | none => (cutAt? mark s).map fun (before, after) => (c :: before, after)

/-- Whether `mark` occurs in the text. -/
def occurs (mark s : List Char) : Bool :=
  (cutAt? mark s).isSome

theorem eq_append_of_cutAt?_eq_some (h : cutAt? mark s = some (before, after)) :
    s = before ++ mark ++ after := by
  induction s generalizing before after with
  | nil =>
    simp only [cutAt?] at h
    split at h <;> simp_all
  | cons c s ih =>
    simp only [cutAt?] at h
    split at h
    · rename_i rest hr
      cases h
      simpa using strip?_eq_some_iff.1 hr
    · obtain ⟨⟨b, a⟩, hb, hab⟩ := Option.map_eq_some_iff.1 h
      cases hab
      simp [ih hb]

/-! ## Size in bytes -/

/-- The number of bytes of the text in UTF-8. -/
def byteSize : List Char → Nat
  | [] => 0
  | c :: s => c.utf8Size + byteSize s

@[simp] theorem byteSize_nil : byteSize [] = 0 := rfl

@[simp] theorem byteSize_cons (c : Char) (s : List Char) :
    byteSize (c :: s) = c.utf8Size + byteSize s := rfl

@[simp] theorem byteSize_append (s t : List Char) :
    byteSize (s ++ t) = byteSize s + byteSize t := by
  induction s with
  | nil => simp
  | cons c s ih => simp [ih, Nat.add_assoc]

/-! ## Word characters -/

/-- ASCII letters, ASCII digits and the underscore, of which names are made. -/
def isWord (c : Char) : Bool :=
  c.isAlphanum || c == '_'

end TodoAudit.Text
