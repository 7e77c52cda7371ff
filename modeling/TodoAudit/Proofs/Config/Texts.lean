import TodoAudit.Proofs.Config.Reading

/-!
# Configuration texts

Which texts are configurations, and what they say. A text is a configuration if it is a JSON object
with no other keys than those of the settings, no key twice, and under each key null or a content of
the type of the setting (`SettingsForm.Accepts`), or a JSON list of four such values in the order of
the settings; a setting that is not given, or null, has its default
(`Config.ofJson_exactly`). Where an object leaves out the extensions and has no null, it says the
same as reading rules that stand alone (`ReadingRules.ofJson_iff_config`).
-/

namespace TodoAudit

open Json

/-- What the setting is in the configuration. -/
def Config.get (c : Config) : (k : Setting) → k.Content
  | .duePhrases => c.rules.duePhrases
  | .dateFormat => c.rules.dateFormat
  | .mentionSymbol => c.rules.mentionSymbol
  | .extensions => c.extensions

/-- The settings that a function gives. -/
def Settings.ofGet (f : (k : Setting) → Option k.Content) : Settings where
  duePhrases := f .duePhrases
  dateFormat := f .dateFormat
  mentionSymbol := f .mentionSymbol
  extensions := f .extensions

namespace Settings

variable {s s' : Settings} {k : Setting}

theorem get_ofGet (f : (k : Setting) → Option k.Content) (k : Setting) : (ofGet f).get k = f k := by
  cases k <;> rfl

/-- What is not set has its default. -/
theorem get_toConfig (s : Settings) (k : Setting) :
    s.toConfig.get k = (s.get k).getD (({} : Config).get k) := by
  cases k <;> rfl

end Settings

/-! ## Objects that are accepted -/

namespace SettingsForm

variable {form : SettingsForm} {out : Settings} {fields fields' : List (List Char × Document)}
  {key : List Char} {vs : List Document}

/-- Every key is that of a setting of the form, under which stands a value for it, and no key comes
twice. -/
structure Accepts (form : SettingsForm) (fields : List (List Char × Document)) : Prop where
  known : ∀ f ∈ fields, ∃ k ∈ form.settings, f.1 = k.key.toList ∧ form.Admits k f.2
  nodup : (fields.map Prod.fst).Nodup

theorem gathers_all_iff : form.Gathers [] {} fields out ↔
    form.Accepts fields ∧ ∀ k, out.get k = (fields.lookup k.key.toList).bind k.content? := by
  rw [gathers_iff]
  simp only [List.not_mem_nil, not_false_eq_true, true_and, Settings.get_empty, Option.or_none]
  constructor
  · rintro ⟨hknown, hnodup, hget⟩
    exact ⟨⟨hknown, hnodup⟩, hget⟩
  · rintro ⟨⟨hknown, hnodup⟩, hget⟩
    exact ⟨hknown, hnodup, hget⟩

theorem exists_gathers_iff : (∃ out, form.Gathers [] {} fields out) ↔ form.Accepts fields := by
  constructor
  · rintro ⟨out, h⟩
    exact (gathers_all_iff.1 h).1
  · intro h
    refine ⟨.ofGet fun k => (fields.lookup k.key.toList).bind k.content?, ?_⟩
    exact gathers_all_iff.2 ⟨h, fun k => Settings.get_ofGet _ k⟩

/-- Where no key comes twice, the order of the fields does not matter. -/
theorem lookup_perm (h : fields'.Perm fields) (hnodup : (fields'.map Prod.fst).Nodup) :
    fields'.lookup key = fields.lookup key := by
  induction h with
  | nil => rfl
  | @cons f _ _ _ ih =>
    obtain ⟨k, v⟩ := f
    rw [List.map_cons, List.nodup_cons] at hnodup
    rw [List.lookup_cons, List.lookup_cons, ih hnodup.2]
  | swap f g fields =>
    obtain ⟨k, v⟩ := f
    obtain ⟨k', v'⟩ := g
    simp only [List.map_cons, List.nodup_cons, List.mem_cons, not_or] at hnodup
    by_cases hkey : key = k
    · have hne : (key == k') = false := beq_false_of_ne fun h => hnodup.1.1 (h ▸ hkey)
      simp [List.lookup_cons, hkey ▸ hne, hkey]
    · have hne : (key == k) = false := beq_false_of_ne hkey
      simp [List.lookup_cons, hne]
  | trans h _ ih ih' => rw [ih hnodup, ih' ((h.map Prod.fst).nodup_iff.1 hnodup)]

theorem Accepts.perm (h : form.Accepts fields) (hperm : fields'.Perm fields) :
    form.Accepts fields' where
  known := fun f hf => h.known f (hperm.mem_iff.1 hf)
  nodup := (hperm.map Prod.fst).nodup_iff.2 h.nodup

theorem gathers_perm_iff (hperm : fields'.Perm fields) :
    form.Gathers [] {} fields' out ↔ form.Gathers [] {} fields out := by
  rw [gathers_all_iff, gathers_all_iff]
  constructor
  · rintro ⟨h, hget⟩
    refine ⟨h.perm hperm.symm, fun k => ?_⟩
    rw [hget, lookup_perm hperm h.nodup]
  · rintro ⟨h, hget⟩
    refine ⟨h.perm hperm, fun k => ?_⟩
    rw [hget, lookup_perm hperm (h.perm hperm).nodup]

/-! ## Texts that are accepted -/

variable {s : List Char}

theorem read_object_eq_ok_iff (h : (Document.object fields).IsWritten s) :
    form.read s = .ok out ↔ form.Gathers [] {} fields out := by
  rw [read_eq_ok_iff_sets h]
  constructor
  · intro h
    cases h with
    | object h => exact h
  · exact .object

theorem read_list_eq_ok_iff (h : (Document.list vs).IsWritten s) : form.read s = .ok out ↔
    form.Fits form.settings vs ∧ form.Gathers [] {} (fieldsOf form.settings vs) out := by
  rw [read_eq_ok_iff_sets h]
  constructor
  · intro h
    cases h with
    | list hfits h => exact ⟨hfits, h⟩
  · rintro ⟨hfits, h⟩
    exact .list hfits h

/-- The elements of a list have to be values for the settings in their order. -/
theorem accepts_fieldsOf_iff (hall : form.listsAll = true) :
    form.Fits form.settings vs ∧ form.Accepts (fieldsOf form.settings vs) ↔
      List.Forall₂ form.Admits form.settings vs := by
  rw [List.forall₂_iff_zip]
  constructor
  · rintro ⟨hfits, haccepts⟩
    refine ⟨(hfits.2 hall).symm, ?_⟩
    intro k v hmem
    have hfield : (k.key.toList, v) ∈ fieldsOf form.settings vs := by
      rw [fieldsOf, List.zip_map_left]
      exact List.mem_map_of_mem hmem
    obtain ⟨k', -, hkey, hadmits⟩ := haccepts.known _ hfield
    rw [Setting.key_injective hkey]
    exact hadmits
  · rintro ⟨hlength, hadmits⟩
    refine ⟨⟨hlength.ge, fun _ => hlength.symm⟩, ?_, ?_⟩
    · intro f hf
      rw [fieldsOf, List.zip_map_left] at hf
      obtain ⟨⟨k, v⟩, hmem, rfl⟩ := List.mem_map.1 hf
      exact ⟨k, (List.of_mem_zip hmem).1, rfl, hadmits hmem⟩
    · rw [fieldsOf, List.map_fst_zip (by simp [hlength])]
      exact form.nodup_settings.map fun k k' => Setting.key_injective

end SettingsForm

/-! ## Configuration files -/

/-- The document is null or a content of the type of the setting. -/
def Setting.Takes (k : Setting) (v : Document) : Prop :=
  v = .null ∨ ∃ c, v = k.document c

namespace SettingsForm

variable {k : Setting} {v : Document} {fields : List (List Char × Document)}

theorem admits_file_iff : file.Admits k v ↔ k.Takes v := by
  simp [Admits, Setting.Takes, allowsNull]

theorem admits_file : file.Admits = Setting.Takes := by
  funext k v
  exact propext admits_file_iff

theorem mem_settings_file (k : Setting) : k ∈ file.settings := by
  cases k <;> decide

theorem accepts_file_iff : file.Accepts fields ↔
    (∀ f ∈ fields, ∃ k : Setting, f.1 = k.key.toList ∧ k.Takes f.2) ∧
      (fields.map Prod.fst).Nodup := by
  constructor
  · intro h
    refine ⟨?_, h.nodup⟩
    intro f hf
    obtain ⟨k, -, hkey, hadmits⟩ := h.known f hf
    exact ⟨k, hkey, admits_file_iff.1 hadmits⟩
  · rintro ⟨hknown, hnodup⟩
    refine ⟨?_, hnodup⟩
    intro f hf
    obtain ⟨k, hkey, htakes⟩ := hknown f hf
    exact ⟨k, mem_settings_file k, hkey, admits_file_iff.2 htakes⟩

end SettingsForm

namespace Config

variable {text text' : String} {c : Config} {fields fields' : List (List Char × Document)}
  {vs : List Document}

theorem isWritten_of_ofJson (h : ofJson text = .ok c) :
    (∃ fields, (Document.object fields).IsWritten text.toList) ∨
      ∃ vs, (Document.list vs).IsWritten text.toList := by
  obtain ⟨given, hread, -⟩ := Success.map_eq_ok_iff.1 h
  obtain ⟨v, hv, hsets⟩ := SettingsForm.read_eq_ok_iff.1 hread
  cases hsets with
  | object => exact .inl ⟨_, hv⟩
  | list => exact .inr ⟨_, hv⟩

theorem ofJson_object_eq_ok_iff (h : (Document.object fields).IsWritten text.toList) :
    ofJson text = .ok c ↔
      ∃ given, SettingsForm.file.Gathers [] {} fields given ∧ given.toConfig = c := by
  rw [ofJson, Success.map_eq_ok_iff]
  simp only [SettingsForm.read_object_eq_ok_iff h]

theorem ofJson_list_eq_ok_iff (h : (Document.list vs).IsWritten text.toList) :
    ofJson text = .ok c ↔ ∃ given, (SettingsForm.file.Fits SettingsForm.file.settings vs ∧
      SettingsForm.file.Gathers [] {} (SettingsForm.fieldsOf SettingsForm.file.settings vs)
        given) ∧ given.toConfig = c := by
  rw [ofJson, Success.map_eq_ok_iff]
  simp only [SettingsForm.read_list_eq_ok_iff h]

theorem exists_ofJson_object_iff (h : (Document.object fields).IsWritten text.toList) :
    (∃ c, ofJson text = .ok c) ↔ SettingsForm.file.Accepts fields := by
  rw [← SettingsForm.exists_gathers_iff]
  simp only [ofJson_object_eq_ok_iff h]
  constructor
  · rintro ⟨c, given, hgathers, -⟩
    exact ⟨given, hgathers⟩
  · rintro ⟨given, hgathers⟩
    exact ⟨_, given, hgathers, rfl⟩

theorem exists_ofJson_list_iff (h : (Document.list vs).IsWritten text.toList) :
    (∃ c, ofJson text = .ok c) ↔
      List.Forall₂ SettingsForm.file.Admits SettingsForm.file.settings vs := by
  rw [← SettingsForm.accepts_fieldsOf_iff rfl, ← SettingsForm.exists_gathers_iff]
  simp only [ofJson_list_eq_ok_iff h]
  constructor
  · rintro ⟨c, given, ⟨hfits, hgathers⟩, -⟩
    exact ⟨hfits, given, hgathers⟩
  · rintro ⟨hfits, given, hgathers⟩
    exact ⟨_, given, ⟨hfits, hgathers⟩, rfl⟩

theorem get_of_ofJson_object (h : (Document.object fields).IsWritten text.toList)
    (hc : ofJson text = .ok c) (k : Setting) :
    c.get k = ((fields.lookup k.key.toList).bind k.content?).getD (({} : Config).get k) := by
  obtain ⟨given, hgathers, rfl⟩ := (ofJson_object_eq_ok_iff h).1 hc
  rw [Settings.get_toConfig, (SettingsForm.gathers_all_iff.1 hgathers).2]

theorem ofJson_perm_iff (hperm : fields'.Perm fields)
    (h : (Document.object fields).IsWritten text.toList)
    (h' : (Document.object fields').IsWritten text'.toList) :
    ofJson text' = .ok c ↔ ofJson text = .ok c := by
  rw [ofJson_object_eq_ok_iff h, ofJson_object_eq_ok_iff h']
  simp only [SettingsForm.gathers_perm_iff hperm]

/-- A text that is a configuration is a JSON object or a list. An object is one exactly if every key
is that of a setting, with null or a content of the setting's type under it, and no key comes twice.
Then each setting is its value, or its default where it is null or not given, and the order of the
fields does not matter. A list is one exactly if it holds such a value for each of the four settings
in their order, and then it says the same as the object with these values. -/
theorem ofJson_exactly (text : String) :
    ((∃ c, ofJson text = .ok c) →
      (∃ fields, (Document.object fields).IsWritten text.toList) ∨
        ∃ vs, (Document.list vs).IsWritten text.toList) ∧
    (∀ fields, (Document.object fields).IsWritten text.toList →
      ((∃ c, ofJson text = .ok c) ↔
        (∀ f ∈ fields, ∃ k : Setting, f.1 = k.key.toList ∧ k.Takes f.2) ∧
          (fields.map Prod.fst).Nodup) ∧
      (∀ c, ofJson text = .ok c → ∀ k : Setting,
        c.get k = ((fields.lookup k.key.toList).bind k.content?).getD (({} : Config).get k)) ∧
      ∀ fields' text', fields'.Perm fields → (Document.object fields').IsWritten text'.toList →
        ∀ c, ofJson text' = .ok c ↔ ofJson text = .ok c) ∧
    ∀ vs, (Document.list vs).IsWritten text.toList →
      ((∃ c, ofJson text = .ok c) ↔ List.Forall₂ Setting.Takes
        [.duePhrases, .dateFormat, .mentionSymbol, .extensions] vs) ∧
      ∀ text', (Document.object
          (SettingsForm.fieldsOf SettingsForm.file.settings vs)).IsWritten text'.toList →
        ∀ c, ofJson text = .ok c → ofJson text' = .ok c := by
  refine ⟨?_, ?_, ?_⟩
  · rintro ⟨c, hc⟩
    exact isWritten_of_ofJson hc
  · intro fields h
    refine ⟨?_, fun c hc => get_of_ofJson_object h hc, ?_⟩
    · rw [exists_ofJson_object_iff h, SettingsForm.accepts_file_iff]
    · intro fields' text' hperm h' c
      exact ofJson_perm_iff hperm h h'
  · intro vs h
    refine ⟨?_, ?_⟩
    · rw [exists_ofJson_list_iff h, SettingsForm.admits_file]
      rfl
    · intro text' h' c hc
      obtain ⟨given, ⟨-, hgathers⟩, rfl⟩ := (ofJson_list_eq_ok_iff h).1 hc
      exact (ofJson_object_eq_ok_iff h').2 ⟨given, hgathers, rfl⟩

/-- An empty list is no missing setting, but null is. The keys can be escaped and come in any
order. -/
theorem ofJson_exactly_nullAndEmpty :
    let text := "\x7b\"extensions\":[],\"mention\\u0053ymbol\":null\x7d"
    let text' := "\x7b\"mentionSymbol\":null,\n\"extensions\":[ ]\x7d"
    let fields := [("extensions".toList, Document.list []), ("mentionSymbol".toList, .null)]
    (Document.object fields).IsWritten text.toList ∧ fields.reverse.Perm fields ∧
      (Document.object fields.reverse).IsWritten text'.toList ∧
      ∃ c, ofJson text = .ok c ∧ ofJson text' = .ok c ∧ c.get .extensions = [] ∧
        c.get .mentionSymbol = "@" := by
  intro text text' fields
  have hbreak : ∀ s, Blanks ('\n' :: s) s := fun s => .cons (by decide) (.refl s)
  have hspace : ∀ s, Blanks (' ' :: s) s := fun s => .cons (by decide) (.refl s)
  have hextensions : Chars "extensions".toList
      "extensions\":[],\"mention\\u0053ymbol\":null\x7d".toList
      ":[],\"mention\\u0053ymbol\":null\x7d".toList := chars_eq_ok_iff.1 (by cbv)
  have hsymbol : Chars "mentionSymbol".toList "mention\\u0053ymbol\":null\x7d".toList
      ":null\x7d".toList := chars_eq_ok_iff.1 (by cbv)
  have hfields : Items Document.SpellsField '\x7d' true fields
      "\"extensions\":[],\"mention\\u0053ymbol\":null\x7d".toList [] :=
    .item (.first (.refl _)) (.field hextensions (.refl _) (.refl _) (.list (.done (.refl _))))
      (.item (.comma (.refl _) (.refl _)) (.field hsymbol (.refl _) (.refl _) .null)
        (.done (.refl _)))
  have hsymbol' : Chars "mentionSymbol".toList
      "mentionSymbol\":null,\n\"extensions\":[ ]\x7d".toList
      ":null,\n\"extensions\":[ ]\x7d".toList := chars_eq_ok_iff.1 (by cbv)
  have hextensions' : Chars "extensions".toList "extensions\":[ ]\x7d".toList
      ":[ ]\x7d".toList := chars_eq_ok_iff.1 (by cbv)
  have hfields' : Items Document.SpellsField '\x7d' true fields.reverse
      "\"mentionSymbol\":null,\n\"extensions\":[ ]\x7d".toList [] :=
    .item (.first (.refl _)) (.field hsymbol' (.refl _) (.refl _) .null)
      (.item (.comma (.refl _) (hbreak _))
        (.field hextensions' (.refl _) (.refl _) (.list (.done (hspace _)))) (.done (.refl _)))
  have htext : text.toList =
    '\x7b' :: "\"extensions\":[],\"mention\\u0053ymbol\":null\x7d".toList := by decide
  have htext' : text'.toList =
    '\x7b' :: "\"mentionSymbol\":null,\n\"extensions\":[ ]\x7d".toList := by decide
  have h : (Document.object fields).IsWritten text.toList :=
    htext ▸ Document.isWritten_object hfields
  have h' : (Document.object fields.reverse).IsWritten text'.toList :=
    htext' ▸ Document.isWritten_object hfields'
  have hperm : fields.reverse.Perm fields := fields.reverse_perm
  obtain ⟨haccepted, hget, horder⟩ := (ofJson_exactly text).2.1 fields h
  have hknown : ∀ f ∈ fields, ∃ k : Setting, f.1 = k.key.toList ∧ k.Takes f.2 := by
    rw [List.forall_mem_cons, List.forall_mem_singleton]
    exact ⟨⟨.extensions, rfl, .inr ⟨[], rfl⟩⟩, ⟨.mentionSymbol, rfl, .inl rfl⟩⟩
  obtain ⟨c, hc⟩ := haccepted.2 ⟨hknown, by decide⟩
  refine ⟨h, hperm, h', c, hc, (horder _ text' hperm h' c).2 hc, ?_, ?_⟩
  · exact (hget c hc .extensions).trans rfl
  · exact (hget c hc .mentionSymbol).trans rfl

end Config

/-! ## Reading rules alone -/

namespace SettingsForm

variable {fields : List (List Char × Document)} {out : Settings} {k : Setting}

theorem mem_settings_rules_iff : k ∈ rules.settings ↔ k ≠ .extensions := by
  cases k <;> simp [settings]

/-- The two forms differ in the extensions and in null only. -/
theorem accepts_rules_iff (hext : "extensions".toList ∉ fields.map Prod.fst)
    (hnull : ∀ f ∈ fields, f.2 ≠ .null) : rules.Accepts fields ↔ file.Accepts fields := by
  have admits_iff : ∀ f ∈ fields, ∀ k, rules.Admits k f.2 ↔ file.Admits k f.2 := by
    intro f hf k
    simp [Admits, hnull f hf]
  constructor
  · intro h
    refine ⟨?_, h.nodup⟩
    intro f hf
    obtain ⟨k, -, hkey, hadmits⟩ := h.known f hf
    exact ⟨k, mem_settings_file k, hkey, (admits_iff f hf k).1 hadmits⟩
  · intro h
    refine ⟨?_, h.nodup⟩
    intro f hf
    obtain ⟨k, -, hkey, hadmits⟩ := h.known f hf
    refine ⟨k, mem_settings_rules_iff.2 ?_, hkey, (admits_iff f hf k).2 hadmits⟩
    rintro rfl
    exact hext (List.mem_map.2 ⟨f, hf, hkey⟩)

theorem gathers_rules_iff (hext : "extensions".toList ∉ fields.map Prod.fst)
    (hnull : ∀ f ∈ fields, f.2 ≠ .null) :
    rules.Gathers [] {} fields out ↔ file.Gathers [] {} fields out := by
  rw [gathers_all_iff, gathers_all_iff, accepts_rules_iff hext hnull]

end SettingsForm

namespace ReadingRules

/-- An object without extensions and without null is a configuration exactly if it is one of
reading rules alone. It says the same rules either way, the extensions are the default, and the one
can be followed exactly if the other can, with the same fault if not. -/
theorem ofJson_iff_config {text : String} {fields : List (List Char × Document)}
    (h : (Document.object fields).IsWritten text.toList)
    (hext : "extensions".toList ∉ fields.map Prod.fst) (hnull : ∀ f ∈ fields, f.2 ≠ .null) :
    ((∃ rules, ofJson text = .ok rules) ↔ ∃ c, Config.ofJson text = .ok c) ∧
    ∀ rules c, ofJson text = .ok rules → Config.ofJson text = .ok c →
      rules = c.rules ∧ c.extensions = Language.defaultExtensions ∧ rules.check = c.check := by
  have hrules : ∀ rules, ofJson text = .ok rules ↔
      ∃ given, SettingsForm.file.Gathers [] {} fields given ∧ given.toRules = rules := by
    intro rules
    rw [ofJson, Success.map_eq_ok_iff]
    simp only [SettingsForm.read_object_eq_ok_iff h, SettingsForm.gathers_rules_iff hext hnull]
  simp only [hrules, Config.ofJson_object_eq_ok_iff h]
  constructor
  · constructor
    · rintro ⟨rules, given, hgathers, -⟩
      exact ⟨_, given, hgathers, rfl⟩
    · rintro ⟨c, given, hgathers, -⟩
      exact ⟨_, given, hgathers, rfl⟩
  · rintro rules c ⟨given, hgathers, rfl⟩ ⟨given', hgathers', rfl⟩
    have hget := (SettingsForm.gathers_all_iff.1 hgathers).2
    have hget' := (SettingsForm.gathers_all_iff.1 hgathers').2
    obtain rfl : given = given' := Settings.ext_get fun k => by rw [hget, hget']
    -- no field can have set the extensions
    have hlookup : fields.lookup Setting.extensions.key.toList = none :=
      SettingsForm.lookup_eq_none hext
    have hnone : given.get .extensions = none := by
      rw [hget, hlookup]
      rfl
    refine ⟨rfl, ?_, rfl⟩
    change given.extensions = none at hnone
    rw [Settings.toConfig, hnone]
    rfl

/-- The key is written with an escape. The rules can be read but not followed. -/
theorem ofJson_iff_config_emptySymbol :
    let text := "\x7b \"mention\\u0053ymbol\" : \"\" \x7d"
    let fields := [("mentionSymbol".toList, Document.string [])]
    (Document.object fields).IsWritten text.toList ∧ "extensions".toList ∉ fields.map Prod.fst ∧
      (∀ f ∈ fields, f.2 ≠ .null) ∧ ∃ rules c, ofJson text = .ok rules ∧
        Config.ofJson text = .ok c ∧ rules = c.rules ∧ c.extensions = Language.defaultExtensions ∧
        rules.check = c.check ∧ rules.check = .error .emptyMentionSymbol := by
  intro text fields
  have blank : ∀ s, Blanks (' ' :: s) s := fun s => .cons (by decide) (.refl s)
  have hkey : Chars "mentionSymbol".toList "mention\\u0053ymbol\" : \"\" \x7d".toList
      " : \"\" \x7d".toList := chars_eq_ok_iff.1 (by cbv)
  have hfields : Items Document.SpellsField '}' true fields
      " \"mention\\u0053ymbol\" : \"\" \x7d".toList [] :=
    .item (.first (blank _)) (.field hkey (blank _) (blank _) (.string .done)) (.done (blank _))
  have htext : text.toList = '\x7b' :: " \"mention\\u0053ymbol\" : \"\" \x7d".toList := by decide
  have h : (Document.object fields).IsWritten text.toList :=
    htext ▸ Document.isWritten_object hfields
  have hext : "extensions".toList ∉ fields.map Prod.fst := by decide
  have hnull : ∀ f ∈ fields, f.2 ≠ .null := by simp [fields]
  have hgathers : SettingsForm.rules.Gathers [] {} fields { mentionSymbol := some "" } :=
    .field (k := .mentionSymbol) (by decide) (by decide) (.content (k := .mentionSymbol) (c := ""))
      .done
  have hrules : ofJson text = .ok { mentionSymbol := "" } := by
    rw [ofJson, (SettingsForm.read_object_eq_ok_iff h).2 hgathers]
    rfl
  obtain ⟨hiff, hsame⟩ := ofJson_iff_config h hext hnull
  obtain ⟨c, hc⟩ := hiff.1 ⟨_, hrules⟩
  obtain ⟨heq, hextensions, hcheck⟩ := hsame _ c hrules hc
  exact ⟨h, hext, hnull, _, c, hrules, hc, heq, hextensions, hcheck, by cbv⟩

end ReadingRules

end TodoAudit
