import TodoAudit.Config.Basic
import TodoAudit.Json.Reader

/-!
# Configurations in JSON

A configuration is written as an object with a field for each setting, or as a list of all settings
in their order. There are two forms. A configuration file has four settings; each may be `null`,
which leaves the default, and a list has to hold all four. Reading rules alone have three; none may
be `null`, and a list may stop early. A key that is unknown or repeated is refused before its value
is looked at.
-/

namespace TodoAudit

open Json

/-! ## Settings -/

/-- What can be set. -/
inductive Setting where
  | duePhrases
  | dateFormat
  | mentionSymbol
  | extensions
deriving DecidableEq, Repr

/-- The key of the setting. -/
def Setting.key : Setting → String
  | .duePhrases => "dueDatePrefixes"
  | .dateFormat => "dateFormat"
  | .mentionSymbol => "mentionSymbol"
  | .extensions => "extensions"

/-- The settings that a text gave. What is not given or null keeps its default. -/
structure Settings where
  duePhrases : Option (List String) := none
  dateFormat : Option String := none
  mentionSymbol : Option String := none
  extensions : Option (List String) := none
deriving DecidableEq, Repr

namespace Settings

/-- The rules with these settings. -/
def toRules (s : Settings) : ReadingRules where
  duePhrases := s.duePhrases.getD ({} : ReadingRules).duePhrases
  dateFormat := s.dateFormat.getD ({} : ReadingRules).dateFormat
  mentionSymbol := s.mentionSymbol.getD ({} : ReadingRules).mentionSymbol

/-- The configuration with these settings. -/
def toConfig (s : Settings) : Config where
  rules := s.toRules
  extensions := s.extensions.getD ({} : Config).extensions

end Settings

/-- The two forms in which settings are written. -/
inductive SettingsForm where
  /-- A configuration file. -/
  | file
  /-- Reading rules alone. -/
  | rules
deriving DecidableEq, Repr

namespace SettingsForm

/-- The settings of the form, in their order. -/
def settings : SettingsForm → List Setting
  | .file => [.duePhrases, .dateFormat, .mentionSymbol, .extensions]
  | .rules => [.duePhrases, .dateFormat, .mentionSymbol]

/-- What messages call the form. -/
def title : SettingsForm → String
  | .file => "struct ConfigFile"
  | .rules => "struct ExtractionConfig"

/-- Whether a setting may be null. -/
def allowsNull : SettingsForm → Bool
  | .file => true
  | .rules => false

/-- Whether a list has to hold all settings. -/
def listsAll : SettingsForm → Bool
  | .file => true
  | .rules => false

/-- The setting of the form that has the key. -/
def settingOf? (form : SettingsForm) (key : List Char) : Option Setting :=
  form.settings.find? fun k => k.key.toList = key

variable {form : SettingsForm} {k : Setting} {given given' : Settings} {s rest : List Char}

/-! ## Reading -/

/-- Eats the content of a setting. -/
def readContent (k : Setting) (given : Settings) (s : List Char) :
    Except Fault (Settings × List Char) :=
  match k with
  | .duePhrases => (strings s).map fun (v, rest) => ({ given with duePhrases := some v }, rest)
  | .dateFormat => (string s).map fun (v, rest) => ({ given with dateFormat := some v }, rest)
  | .mentionSymbol => (string s).map fun (v, rest) => ({ given with mentionSymbol := some v }, rest)
  | .extensions => (strings s).map fun (v, rest) => ({ given with extensions := some v }, rest)

/-- Eats the value of a setting, which is its content or null. -/
def readValue (form : SettingsForm) (k : Setting) (given : Settings) (s : List Char) :
    Except Fault (Settings × List Char) :=
  match skipBlanks s with
  | 'n' :: t =>
    if form.allowsNull then (word ['u', 'l', 'l'] t).map fun rest => (given, rest)
    else readContent k given s
  | _ => readContent k given s

/-- Eats the colon between a key and its value. -/
def colon (s : List Char) : Except Fault (List Char) :=
  match skipBlanks s with
  | [] => unfinished .object
  | ':' :: rest => .ok rest
  | _ => malformed .expectedColon

/-- Where the next key of an object begins, behind its quote, or `none` at the end of the object. -/
def nextKey? (first : Bool) (s : List Char) : Except Fault (Option (List Char) × List Char) :=
  match skipBlanks s with
  | [] => unfinished .object
  | '}' :: rest => .ok (none, rest)
  | c :: s =>
    if first then
      if c = '"' then .ok (some s, s) else malformed .keyNotString
    else if c = ',' then
      match skipBlanks s with
      | [] => unfinished .value
      | '"' :: s => .ok (some s, s)
      | '}' :: _ => malformed .trailingComma
      | _ => malformed .keyNotString
    else malformed .expectedObjectCommaOrEnd

/-- Eats a key that has not come before, and the colon behind it. -/
def readKey (form : SettingsForm) (seen : List Setting) (s : List Char) :
    Except Fault (Setting × List Char) := do
  let (key, rest) ← chars s
  let some k := form.settingOf? key
    | mismatch (.unknownField (String.ofList key) (form.settings.map Setting.key))
  if k ∈ seen then mismatch (.duplicateField k.key)
  return (k, ← colon rest)

theorem length_le_of_word {letters : List Char} (h : word letters s = .ok rest) :
    rest.length ≤ s.length := by
  induction letters generalizing s with
  | nil => cases h; exact Nat.le_refl _
  | cons a letters ih =>
    cases s with
    | nil => cases h
    | cons c s =>
      simp only [word] at h
      split at h
      · have := ih h
        simp only [List.length_cons]
        omega
      · cases h

theorem eq_ok_of_map_eq_ok {α : Type} {x : Except Fault (α × List Char)}
    {f : α × List Char → Settings × List Char} (hf : ∀ v r, (f (v, r)).2 = r)
    (h : x.map f = .ok (given', rest)) : ∃ v, x = .ok (v, rest) := by
  cases x with
  | error fault => cases h
  | ok eaten =>
    obtain ⟨v, r⟩ := eaten
    have hr := hf v r
    rw [Except.ok.inj h] at hr
    exact ⟨v, by rw [← hr]⟩

theorem length_lt_of_readContent (h : readContent k given s = .ok (given', rest)) :
    rest.length < s.length := by
  cases k with
  | duePhrases =>
    obtain ⟨_, hv⟩ := eq_ok_of_map_eq_ok (fun _ _ => rfl) h
    exact length_lt_of_strings hv
  | dateFormat =>
    obtain ⟨_, hv⟩ := eq_ok_of_map_eq_ok (fun _ _ => rfl) h
    exact length_lt_of_string hv
  | mentionSymbol =>
    obtain ⟨_, hv⟩ := eq_ok_of_map_eq_ok (fun _ _ => rfl) h
    exact length_lt_of_string hv
  | extensions =>
    obtain ⟨_, hv⟩ := eq_ok_of_map_eq_ok (fun _ _ => rfl) h
    exact length_lt_of_strings hv

theorem length_le_of_readValue (h : readValue form k given s = .ok (given', rest)) :
    rest.length ≤ s.length := by
  have hs := length_skipBlanks_le s
  unfold readValue at h
  split at h
  · rename_i t ht
    split at h
    · cases hw : word ['u', 'l', 'l'] t with
      | error fault => rw [hw] at h; cases h
      | ok u =>
        rw [hw] at h
        cases h
        have := length_le_of_word hw
        rw [ht, List.length_cons] at hs
        omega
    · exact Nat.le_of_lt (length_lt_of_readContent h)
  · exact Nat.le_of_lt (length_lt_of_readContent h)

theorem length_lt_of_nextKey? {first : Bool} {t : List Char}
    (h : nextKey? first s = .ok (some t, rest)) : t.length < s.length := by
  have hs := length_skipBlanks_le s
  unfold nextKey? at h
  split at h
  · cases h
  · cases h
  · rename_i c u _ hu
    rw [hu, List.length_cons] at hs
    split at h
    · split at h
      · cases h
        omega
      · cases h
    · split at h
      · have hv := length_skipBlanks_le u
        split at h
        · cases h
        · rename_i w hw
          cases h
          rw [hw, List.length_cons] at hv
          omega
        · cases h
        · cases h
      · cases h

theorem length_le_of_colon (h : colon s = .ok rest) : rest.length ≤ s.length := by
  have hs := length_skipBlanks_le s
  unfold colon at h
  split at h
  · cases h
  · rename_i ht
    cases h
    rw [ht, List.length_cons] at hs
    omega
  · cases h

theorem length_le_of_readKey {seen : List Setting} (h : readKey form seen s = .ok (k, rest)) :
    rest.length ≤ s.length := by
  unfold readKey at h
  cases hc : chars s with
  | error fault => rw [hc] at h; cases h
  | ok eaten =>
    obtain ⟨key, t⟩ := eaten
    have h₁ := length_lt_of_chars hc
    rw [hc] at h
    simp only [bind, Except.bind, pure, Except.pure] at h
    split at h
    · split at h
      · cases h
      · split at h
        · cases h
        · rename_i hcol
          cases h
          have := length_le_of_colon hcol
          omega
    · cases h

/-- Eats the fields of an object up to its end. -/
def readFields (form : SettingsForm) (seen : List Setting) (given : Settings) (s : List Char) :
    Except Fault (Settings × List Char) :=
  match _h : nextKey? seen.isEmpty s with
  | .error fault => .error fault
  | .ok (none, rest) => .ok (given, rest)
  | .ok (some t, _) =>
    match _hk : readKey form seen t with
    | .error fault => .error fault
    | .ok (k, u) =>
      match _hv : readValue form k given u with
      | .error fault => .error fault
      | .ok (given, rest) => readFields form (k :: seen) given rest
termination_by s.length
decreasing_by
  have := length_lt_of_nextKey? _h
  have := length_le_of_readKey _hk
  have := length_le_of_readValue _hv
  omega

/-- Eats the elements of a list from the setting `settings` on. -/
def readElements (form : SettingsForm) (count : Nat) (given : Settings) :
    (settings : List Setting) → List Char → Except Fault (Settings × List Char)
  | [], s => do return (given, ← endOfList s)
  | k :: ks, s => do
    match ← nextElement? (count == 0) s with
    | none =>
      if form.listsAll then
        mismatch (.invalidLength count
          (form.title ++ " with " ++ toString form.settings.length ++ " elements"))
      else return (given, ← endOfList s)
    | some s =>
      let (given, s) ← readValue form k given s
      readElements form (count + 1) given ks s

/-- Reads settings from a text that holds nothing else. -/
def read (form : SettingsForm) (text : List Char) : Except Fault Settings := do
  let (given, rest) ← match skipBlanks text with
    | [] => unfinished .value
    | '{' :: s => form.readFields [] {} s
    | '[' :: s => form.readElements 0 {} form.settings s
    | s => wrongKind form.title s
  endOfText rest
  return given

end SettingsForm

/-- Reads a configuration file. -/
def Config.ofJson (text : String) : Except Fault Config :=
  (SettingsForm.file.read text.toList).map Settings.toConfig

/-- Reads reading rules that stand alone. -/
def ReadingRules.ofJson (text : String) : Except Fault ReadingRules :=
  (SettingsForm.rules.read text.toList).map Settings.toRules

end TodoAudit
