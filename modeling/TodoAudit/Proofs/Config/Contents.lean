import TodoAudit.Config.Settings
import TodoAudit.Proofs.Json.Reading

/-!
# Settings in a JSON document

What the fields of an object set, without any text. A field has the key of a setting and a value
that the setting admits: null, where the form allows it, or a content of the type of the setting.
`SettingsForm.Gathers` says what is set behind the fields one after the other, and
`SettingsForm.gathers_iff` says the same of all fields together: the order of the fields does not
matter, because no key comes twice.
-/

namespace TodoAudit

open Json

/-! ## Settings and their contents -/

namespace Json.Document

variable {v : Document} {as : List String}

/-- The texts of which the document is a list. -/
def texts? : Document → Option (List String)
  | .list elements => elements.mapM text?
  | _ => none

theorem mapM_text?_eq_some_iff {vs : List Document} :
    vs.mapM text? = some as ↔ vs = as.map ofText := by
  induction vs generalizing as with
  | nil => cases as <;> simp
  | cons v vs ih =>
    cases as with
    | nil => simp [Option.bind_eq_some_iff]
    | cons a as => simp [Option.bind_eq_some_iff, text?_eq_some_iff, ih]

theorem texts?_eq_some_iff : v.texts? = some as ↔ v = .list (as.map ofText) := by
  cases v with
  | list elements => simp [texts?, mapM_text?_eq_some_iff]
  | _ => simp [texts?]

end Json.Document

/-- What a setting is set to. -/
def Setting.Content : Setting → Type
  | .duePhrases => List String
  | .dateFormat => String
  | .mentionSymbol => String
  | .extensions => List String

/-- The content that the document is, if it is one for the setting. -/
def Setting.content? : (k : Setting) → Document → Option k.Content
  | .duePhrases, v => v.texts?
  | .dateFormat, v => v.text?
  | .mentionSymbol, v => v.text?
  | .extensions, v => v.texts?

/-- The document that is the content. -/
def Setting.document : (k : Setting) → k.Content → Document
  | .duePhrases, as => .list (as.map Document.ofText)
  | .dateFormat, a => .ofText a
  | .mentionSymbol, a => .ofText a
  | .extensions, as => .list (as.map Document.ofText)

/-- The reader of contents. -/
def Setting.read : (k : Setting) → Json.Reads k.Content
  | .duePhrases => strings
  | .dateFormat => string
  | .mentionSymbol => string
  | .extensions => strings

namespace Setting

variable {k : Setting} {v : Document} {s rest : List Char}

theorem content?_eq_some_iff {c : k.Content} : k.content? v = some c ↔ v = k.document c := by
  cases k with
  | duePhrases => exact Document.texts?_eq_some_iff
  | dateFormat => exact Document.text?_eq_some_iff
  | mentionSymbol => exact Document.text?_eq_some_iff
  | extensions => exact Document.texts?_eq_some_iff

theorem content?_document (c : k.Content) : k.content? (k.document c) = some c :=
  content?_eq_some_iff.2 rfl

theorem content?_null (k : Setting) : k.content? .null = none := by
  cases k <;> rfl

theorem read_eq_ok_iff {c : k.Content} :
    k.read s = .ok (c, rest) ↔ ∃ t, Blanks s t ∧ (k.document c).Spells t rest := by
  cases k with
  | duePhrases => exact strings_eq_ok_iff
  | dateFormat => exact string_eq_ok_iff
  | mentionSymbol => exact string_eq_ok_iff
  | extensions => exact strings_eq_ok_iff

/-- A content does not begin like null. -/
theorem exists_cons_of_spells {c : k.Content} (h : (k.document c).Spells s rest) :
    ∃ d t, s = d :: t ∧ Json.isBlank d = false ∧ d ≠ 'n' := by
  cases k <;> cases h <;> exact ⟨_, _, rfl, by decide, by decide⟩

theorem key_injective {k k' : Setting} (h : k.key.toList = k'.key.toList) : k = k' := by
  cases k <;> cases k' <;> first | rfl | exact absurd h (by decide)

end Setting

namespace Settings

variable {s s' : Settings} {k k' : Setting}

/-- What the setting is set to. -/
def get (s : Settings) : (k : Setting) → Option k.Content
  | .duePhrases => s.duePhrases
  | .dateFormat => s.dateFormat
  | .mentionSymbol => s.mentionSymbol
  | .extensions => s.extensions

/-- The settings with the setting set to the content. -/
def set (s : Settings) : (k : Setting) → k.Content → Settings
  | .duePhrases, c => { s with duePhrases := some c }
  | .dateFormat, c => { s with dateFormat := some c }
  | .mentionSymbol, c => { s with mentionSymbol := some c }
  | .extensions, c => { s with extensions := some c }

@[simp] theorem get_set_self (s : Settings) (k : Setting) (c : k.Content) :
    (s.set k c).get k = some c := by
  cases k <;> rfl

theorem get_set_of_ne (s : Settings) (c : k.Content) (h : k' ≠ k) :
    (s.set k c).get k' = s.get k' := by
  cases k <;> cases k' <;> first | rfl | exact absurd rfl h

@[simp] theorem get_empty (k : Setting) : ({} : Settings).get k = none := by
  cases k <;> rfl

theorem ext_get (h : ∀ k, s.get k = s'.get k) : s = s' := by
  cases s
  cases s'
  have h₁ := h .duePhrases
  have h₂ := h .dateFormat
  have h₃ := h .mentionSymbol
  have h₄ := h .extensions
  simp only [get] at h₁ h₂ h₃ h₄
  rw [h₁, h₂, h₃, h₄]

end Settings

/-! ## What fields set -/

namespace SettingsForm

variable {form : SettingsForm} {k : Setting} {v : Document} {given given' out : Settings}
  {seen : List Setting} {fields : List (List Char × Document)}

/-- The document is a value for the setting: null, if the form allows it, or a content. -/
def Admits (form : SettingsForm) (k : Setting) (v : Document) : Prop :=
  v = .null ∧ form.allowsNull = true ∨ ∃ c, v = k.document c

/-- What is set behind a value for a setting. Null sets nothing. -/
inductive Puts (form : SettingsForm) (k : Setting) : Document → Settings → Settings → Prop
  | null {given : Settings} : form.allowsNull = true → Puts form k .null given given
  | content {c : k.Content} {given : Settings} :
      Puts form k (k.document c) given (given.set k c)

/-- What is set behind the fields, of which none has the key of a setting seen before. -/
inductive Gathers (form : SettingsForm) :
    List Setting → Settings → List (List Char × Document) → Settings → Prop
  | done {seen : List Setting} {given : Settings} : Gathers form seen given [] given
  | field {seen : List Setting} {given given' out : Settings} {k : Setting} {v : Document}
      {fields : List (List Char × Document)} : k ∈ form.settings → k ∉ seen →
      form.Puts k v given given' → Gathers form (k :: seen) given' fields out →
      Gathers form seen given ((k.key.toList, v) :: fields) out

theorem exists_puts_iff : (∃ given', form.Puts k v given given') ↔ form.Admits k v := by
  constructor
  · rintro ⟨given', h⟩
    cases h with
    | null h => exact .inl ⟨rfl, h⟩
    | content => exact .inr ⟨_, rfl⟩
  · rintro (⟨rfl, h⟩ | ⟨c, rfl⟩)
    · exact ⟨given, .null h⟩
    · exact ⟨_, .content⟩

theorem gathers_nil_iff : form.Gathers seen given [] out ↔ out = given := by
  constructor
  · intro h
    cases h
    rfl
  · rintro rfl
    exact .done

theorem gathers_cons_iff : form.Gathers seen given ((k.key.toList, v) :: fields) out ↔
    k ∈ form.settings ∧ k ∉ seen ∧
      ∃ given', form.Puts k v given given' ∧ form.Gathers (k :: seen) given' fields out := by
  constructor
  · intro h
    generalize hfields : (k.key.toList, v) :: fields = all at h
    cases h with
    | done => cases hfields
    | field hmem hseen hputs h =>
      obtain ⟨hfield, rfl⟩ := List.cons.inj hfields
      obtain ⟨hkey, rfl⟩ := Prod.mk.inj hfield
      obtain rfl := Setting.key_injective hkey
      exact ⟨hmem, hseen, _, hputs, h⟩
  · rintro ⟨hmem, hseen, given', hputs, h⟩
    exact .field hmem hseen hputs h

theorem Puts.admits (h : form.Puts k v given given') : form.Admits k v :=
  exists_puts_iff.1 ⟨given', h⟩

theorem Puts.get_self (h : form.Puts k v given given') :
    given'.get k = (k.content? v).or (given.get k) := by
  cases h with
  | null => rw [k.content?_null, Option.none_or]
  | content => rw [Settings.get_set_self, k.content?_document, Option.some_or]

theorem Puts.get_of_ne {k' : Setting} (h : form.Puts k v given given') (hne : k' ≠ k) :
    given'.get k' = given.get k' := by
  cases h with
  | null => rfl
  | content => exact given.get_set_of_ne _ hne

theorem lookup_eq_none {key : List Char} (h : key ∉ fields.map Prod.fst) :
    fields.lookup key = none := by
  rw [List.lookup_eq_none_iff]
  intro f hf
  have hne : key ≠ f.1 := fun heq => h (heq ▸ List.mem_map_of_mem hf)
  simpa using hne

/-- A field sets its setting, and the fields behind it say the rest. -/
theorem Puts.lookup_cons (h : form.Puts k v given given')
    (hnot : k.key.toList ∉ fields.map Prod.fst) (k' : Setting) :
    ((((k.key.toList, v) :: fields).lookup k'.key.toList).bind k'.content?).or (given.get k') =
      ((fields.lookup k'.key.toList).bind k'.content?).or (given'.get k') := by
  by_cases heq : k' = k
  · subst heq
    rw [lookup_eq_none hnot, List.lookup_cons_self, h.get_self]
    rfl
  · have hkey : (k'.key.toList == k.key.toList) = false :=
      beq_false_of_ne fun hkey => heq (Setting.key_injective hkey)
    rw [h.get_of_ne heq, List.lookup_cons, hkey]

/-- The fields have the keys of settings not seen before, with values that these admit, and no key
comes twice. Each setting is then what the field with its key says, or else what it was. -/
theorem gathers_iff : form.Gathers seen given fields out ↔
    (∀ f ∈ fields, ∃ k ∈ form.settings, k ∉ seen ∧ f.1 = k.key.toList ∧ form.Admits k f.2) ∧
    (fields.map Prod.fst).Nodup ∧
    ∀ k, out.get k = ((fields.lookup k.key.toList).bind k.content?).or (given.get k) := by
  constructor
  · intro h
    induction h with
    | done => simp
    | @field seen given given' out k v fields hk hseen hputs _ ih =>
      obtain ⟨hknown, hnodup, hget⟩ := ih
      -- the fields behind this one have keys of other settings, because this one has been seen
      have hnot : k.key.toList ∉ fields.map Prod.fst := by
        intro hmem
        obtain ⟨f, hf, hkey⟩ := List.mem_map.1 hmem
        obtain ⟨k', -, hne, hkey', -⟩ := hknown f hf
        obtain rfl := Setting.key_injective (hkey'.symm.trans hkey)
        exact hne List.mem_cons_self
      refine ⟨?_, List.nodup_cons.2 ⟨hnot, hnodup⟩, ?_⟩
      · rw [List.forall_mem_cons]
        refine ⟨⟨k, hk, hseen, rfl, hputs.admits⟩, ?_⟩
        intro f hf
        obtain ⟨k', hk', hne, hkey, hadmits⟩ := hknown f hf
        exact ⟨k', hk', fun h => hne (List.mem_cons_of_mem k h), hkey, hadmits⟩
      · intro k'
        rw [hputs.lookup_cons hnot, hget]
  · rintro ⟨hknown, hnodup, hget⟩
    induction fields generalizing seen given with
    | nil =>
      obtain rfl : out = given := Settings.ext_get fun k => by simp [hget]
      exact .done
    | cons f fields ih =>
      obtain ⟨key, v⟩ := f
      rw [List.forall_mem_cons] at hknown
      obtain ⟨⟨k, hk, hseen, hkey, hadmits⟩, hknown⟩ := hknown
      obtain rfl : key = k.key.toList := hkey
      obtain ⟨given', hputs⟩ := exists_puts_iff.2 hadmits
      rw [List.map_cons, List.nodup_cons] at hnodup
      refine .field hk hseen hputs (ih ?_ hnodup.2 ?_)
      · intro f hf
        obtain ⟨k', hk', hseen', hkey', hadmits'⟩ := hknown f hf
        refine ⟨k', hk', ?_, hkey', hadmits'⟩
        intro hmem
        rcases List.mem_cons.1 hmem with rfl | hmem
        · exact hnodup.1 (List.mem_map.2 ⟨f, hf, hkey'⟩)
        · exact hseen' hmem
      · intro k'
        rw [hget, hputs.lookup_cons hnodup.1]

end SettingsForm

end TodoAudit
