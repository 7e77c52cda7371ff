import TodoAudit.Proofs.Config.Contents
import TodoAudit.Proofs.Json.Unambiguous

/-!
# What the reader of settings reads

One lemma for each reader says when it succeeds and with what, and the last of them says it of whole
texts: a text is read if it is a written form of an object or a list in which something is set
(`SettingsForm.read_eq_ok_iff`). A text is a written form of one document at most, so that document
alone decides (`SettingsForm.read_eq_ok_iff_sets`).
-/

namespace TodoAudit.SettingsForm

open Json

variable {form : SettingsForm} {k : Setting} {v : Document} {given given' out : Settings}
  {seen ks : List Setting} {s t rest : List Char} {count : Nat}

/-! ## Values -/

theorem readContent_eq (k : Setting) (given : Settings) (s : List Char) :
    readContent k given s = (k.read s).map fun (c, rest) => (given.set k c, rest) := by
  cases k <;> rfl

theorem readContent_eq_ok_iff : readContent k given s = .ok (given', rest) ↔
    ∃ c t, Blanks s t ∧ (k.document c).Spells t rest ∧ given' = given.set k c := by
  rw [readContent_eq, Success.map_eq_ok_iff]
  constructor
  · rintro ⟨⟨c, u⟩, hread, heq⟩
    cases heq
    obtain ⟨t, ht, hspells⟩ := Setting.read_eq_ok_iff.1 hread
    exact ⟨c, t, ht, hspells, rfl⟩
  · rintro ⟨c, t, ht, hspells, rfl⟩
    exact ⟨(c, rest), Setting.read_eq_ok_iff.2 ⟨t, ht, hspells⟩, rfl⟩

theorem readValue_eq_ok_iff : readValue form k given s = .ok (given', rest) ↔
    ∃ v t, Blanks s t ∧ v.Spells t rest ∧ form.Puts k v given given' := by
  have content : readContent k given s = .ok (given', rest) →
      ∃ v t, Blanks s t ∧ v.Spells t rest ∧ form.Puts k v given given' := by
    intro h
    obtain ⟨c, t, ht, hspells, rfl⟩ := readContent_eq_ok_iff.1 h
    exact ⟨_, t, ht, hspells, .content⟩
  constructor
  · intro h
    unfold readValue at h
    split at h
    · rename_i t ht
      split at h
      · rename_i hnull
        obtain ⟨u, hword, heq⟩ := Success.map_eq_ok_iff.1 h
        cases heq
        obtain rfl := word_eq_ok_iff.1 hword
        exact ⟨.null, _, (skipBlanks_eq_cons_iff.1 ht).1, .null, .null hnull⟩
      · exact content h
    · exact content h
  · rintro ⟨v, t, ht, hspells, hputs⟩
    cases hputs with
    | null hnull =>
      cases hspells
      rw [readValue, skipBlanks_eq_cons_iff.2 ⟨ht, by decide⟩]
      simp [hnull, word, Except.map]
    | @content c =>
      have hread : readContent k given s = .ok (given.set k c, rest) :=
        readContent_eq_ok_iff.2 ⟨c, t, ht, hspells, rfl⟩
      obtain ⟨d, u, rfl, hd, hn⟩ := Setting.exists_cons_of_spells hspells
      rw [readValue, skipBlanks_eq_cons_iff.2 ⟨ht, hd⟩]
      split
      · simp_all
      · exact hread

/-! ## Keys -/

theorem colon_eq_ok_iff : colon s = .ok rest ↔ Blanks s (':' :: rest) := by
  constructor
  · intro h
    unfold colon at h
    split at h
    · cases h
    · rename_i ht
      cases h
      exact (skipBlanks_eq_cons_iff.1 ht).1
    · cases h
  · intro h
    rw [colon, skipBlanks_eq_cons_iff.2 ⟨h, by decide⟩]
    rfl

theorem nextKey?_eq_none_iff {first : Bool} :
    nextKey? first s = .ok (none, rest) ↔ Blanks s ('}' :: rest) := by
  constructor
  · intro h
    unfold nextKey? at h
    split at h
    · cases h
    · rename_i ht
      cases h
      exact (skipBlanks_eq_cons_iff.1 ht).1
    · split at h
      · split at h <;> cases h
      · split at h
        · split at h <;> cases h
        · cases h
  · intro h
    rw [nextKey?, skipBlanks_eq_cons_iff.2 ⟨h, by decide⟩]
    rfl

/-- The next key is looked for behind its separator and its quote. -/
theorem nextKey?_eq_some_iff {first : Bool} :
    nextKey? first s = .ok (some t, rest) ↔ Separator first s ('"' :: t) ∧ rest = t := by
  constructor
  · intro h
    unfold nextKey? at h
    split at h
    · cases h
    · cases h
    · rename_i c u _ hs
      obtain ⟨hblanks, -⟩ := skipBlanks_eq_cons_iff.1 hs
      split at h
      · rename_i hfirst
        split at h
        · rename_i hquote
          cases h
          subst hquote
          rw [hfirst]
          exact ⟨.first hblanks, rfl⟩
        · cases h
      · rename_i hfirst
        rw [Bool.not_eq_true] at hfirst
        split at h
        · rename_i hcomma
          subst hcomma
          split at h
          · cases h
          · rename_i hu
            cases h
            rw [hfirst]
            exact ⟨.comma hblanks (skipBlanks_eq_cons_iff.1 hu).1, rfl⟩
          · cases h
          · cases h
        · cases h
  · rintro ⟨hsep, rfl⟩
    cases hsep with
    | first h =>
      rw [nextKey?, skipBlanks_eq_cons_iff.2 ⟨h, by decide⟩]
      rfl
    | comma h h' =>
      simp [nextKey?, skipBlanks_eq_cons_iff.2 ⟨h, by decide⟩,
        skipBlanks_eq_cons_iff.2 ⟨h', by decide⟩]

theorem settingOf?_eq_some_iff {key : List Char} :
    form.settingOf? key = some k ↔ k ∈ form.settings ∧ k.key.toList = key := by
  constructor
  · intro h
    exact ⟨List.mem_of_find?_eq_some h, by simpa using List.find?_some h⟩
  · rintro ⟨hk, rfl⟩
    cases hfind : form.settingOf? k.key.toList with
    | none => simpa using List.find?_eq_none.1 hfind k hk
    | some k' =>
      have hkey : k'.key.toList = k.key.toList := by simpa using List.find?_some hfind
      rw [Setting.key_injective hkey]

/-- A key is read if it is one of the form that has not come before. -/
theorem readKey_eq_ok_iff : readKey form seen s = .ok (k, rest) ↔
    ∃ t, Chars k.key.toList s t ∧ Blanks t (':' :: rest) ∧ k ∈ form.settings ∧ k ∉ seen := by
  constructor
  · intro h
    unfold readKey at h
    obtain ⟨⟨key, t⟩, hchars, h⟩ := Success.bind_eq_ok_iff.1 h
    dsimp only at h
    split at h
    · rename_i k' hk'
      obtain ⟨hmem, rfl⟩ := settingOf?_eq_some_iff.1 hk'
      split_ifs at h with hseen
      · cases h
      · obtain ⟨u, hcolon, heq⟩ := Success.bind_eq_ok_iff.1 h
        cases heq
        exact ⟨t, chars_eq_ok_iff.1 hchars, colon_eq_ok_iff.1 hcolon, hmem, hseen⟩
    · cases h
  · rintro ⟨t, hchars, hcolon, hmem, hseen⟩
    unfold readKey
    refine Success.bind_eq_ok_iff.2 ⟨_, chars_eq_ok_iff.2 hchars, ?_⟩
    dsimp only
    rw [settingOf?_eq_some_iff.2 ⟨hmem, rfl⟩]
    dsimp only
    rw [if_neg hseen]
    exact Success.bind_eq_ok_iff.2 ⟨rest, colon_eq_ok_iff.2 hcolon, rfl⟩

/-! ## Fields and elements -/

theorem readFields_of_end (h : nextKey? seen.isEmpty s = .ok (none, rest)) :
    readFields form seen given s = .ok (given, rest) := by
  rw [readFields]
  split
  · rename_i hfault
    cases h.symm.trans hfault
  · rename_i hend
    cases h.symm.trans hend
    rfl
  · rename_i hkey
    cases h.symm.trans hkey

theorem readFields_of_key {u w : List Char} (h : nextKey? seen.isEmpty s = .ok (some t, t))
    (hkey : readKey form seen t = .ok (k, u))
    (hvalue : readValue form k given u = .ok (given', w)) :
    readFields form seen given s = readFields form (k :: seen) given' w := by
  rw [readFields]
  split
  · rename_i hfault
    cases h.symm.trans hfault
  · rename_i hend
    cases h.symm.trans hend
  · rename_i hnext
    cases h.symm.trans hnext
    split
    · rename_i hfault
      cases hkey.symm.trans hfault
    · rename_i hok
      cases hkey.symm.trans hok
      split
      · rename_i hfault
        cases hvalue.symm.trans hfault
      · rename_i hok
        cases hvalue.symm.trans hok
        rfl

theorem readFields_eq_ok_iff : readFields form seen given s = .ok (out, rest) ↔
    ∃ fields, Items Document.SpellsField '}' seen.isEmpty fields s rest ∧
      form.Gathers seen given fields out := by
  constructor
  · intro h
    fun_induction readFields form seen given s with
    | case1 => cases h
    | case2 seen given s u hnext =>
      cases h
      exact ⟨[], .done (nextKey?_eq_none_iff.1 hnext), .done⟩
    | case3 => cases h
    | case4 => cases h
    | case5 seen given s t w hnext k u hkey given' rest' hvalue ih =>
      obtain ⟨fields, hitems, hgathers⟩ := ih h
      obtain ⟨hsep, -⟩ := nextKey?_eq_some_iff.1 hnext
      obtain ⟨x, hchars, hcolon, hmem, hseen⟩ := readKey_eq_ok_iff.1 hkey
      obtain ⟨v, y, hblanks, hspells, hputs⟩ := readValue_eq_ok_iff.1 hvalue
      exact ⟨(k.key.toList, v) :: fields, .item hsep (.field hchars hcolon hblanks hspells) hitems,
        .field hmem hseen hputs hgathers⟩
  · rintro ⟨fields, hitems, hgathers⟩
    induction hgathers generalizing s with
    | done =>
      cases hitems with
      | done h => exact readFields_of_end (nextKey?_eq_none_iff.2 h)
    | field hmem hseen hputs _ ih =>
      cases hitems with
      | item hsep hfield hitems =>
        cases hfield with
        | field hchars hcolon hblanks hspells =>
          rw [readFields_of_key (nextKey?_eq_some_iff.2 ⟨hsep, rfl⟩)
            (readKey_eq_ok_iff.2 ⟨_, hchars, hcolon, hmem, hseen⟩)
            (readValue_eq_ok_iff.2 ⟨_, _, hblanks, hspells, hputs⟩)]
          exact ih hitems

/-- The fields of which the elements of a list are the values: the keys are in their order. -/
def fieldsOf (ks : List Setting) (vs : List Document) : List (List Char × Document) :=
  (ks.map fun k => k.key.toList).zip vs

/-- Whether a list may have so many elements: no more than there are settings, and no less if all
have to be there. -/
def Fits (form : SettingsForm) (ks : List Setting) (vs : List Document) : Prop :=
  vs.length ≤ ks.length ∧ (form.listsAll = true → vs.length = ks.length)

theorem readElements_eq_ok_iff (hks : ∀ k ∈ ks, k ∈ form.settings ∧ k ∉ seen) (hnodup : ks.Nodup) :
    readElements form count given ks s = .ok (out, rest) ↔
      ∃ vs, form.Fits ks vs ∧ Items Document.Spells ']' (count == 0) vs s rest ∧
        form.Gathers seen given (fieldsOf ks vs) out := by
  induction ks generalizing count given s seen with
  | nil =>
    rw [readElements, Success.bind_eq_ok_iff]
    constructor
    · rintro ⟨u, hu, heq⟩
      cases heq
      exact ⟨[], ⟨Nat.le_refl _, fun _ => rfl⟩, .done (endOfList_eq_ok_iff.1 hu), .done⟩
    · rintro ⟨vs, hfits, hitems, hgathers⟩
      obtain rfl := List.eq_nil_of_length_eq_zero (Nat.le_zero.1 hfits.1)
      obtain rfl := gathers_nil_iff.1 hgathers
      cases hitems with
      | done h => exact ⟨rest, endOfList_eq_ok_iff.2 h, rfl⟩
  | cons k ks ih =>
    obtain ⟨⟨hmem, hseen⟩, hks⟩ := List.forall_mem_cons.1 hks
    obtain ⟨hnot, hnodup⟩ := List.nodup_cons.1 hnodup
    have hks' : ∀ k' ∈ ks, k' ∈ form.settings ∧ k' ∉ k :: seen := by
      intro k' hk'
      refine ⟨(hks k' hk').1, ?_⟩
      rw [List.mem_cons, not_or]
      exact ⟨fun heq => hnot (heq ▸ hk'), (hks k' hk').2⟩
    rw [readElements, Success.bind_eq_ok_iff]
    constructor
    · rintro ⟨_ | t, hnext, h⟩
      · dsimp only at h
        split_ifs at h with hall
        · cases h
        · obtain ⟨u, hu, heq⟩ := Success.bind_eq_ok_iff.1 h
          cases heq
          exact ⟨[], ⟨Nat.zero_le _, fun h => absurd h hall⟩, .done (endOfList_eq_ok_iff.1 hu), .done⟩
      · obtain ⟨⟨given', u⟩, hvalue, h⟩ := Success.bind_eq_ok_iff.1 h
        obtain ⟨vs, hfits, hitems, hgathers⟩ := (ih hks' hnodup).1 h
        obtain ⟨hsep, c, w, rfl, hc, -⟩ := nextElement?_eq_some_iff.1 hnext
        obtain ⟨v, x, hx, hspells, hputs⟩ := readValue_eq_ok_iff.1 hvalue
        obtain ⟨d, y, rfl, hd, -⟩ := hspells.exists_cons
        obtain ⟨rfl, rfl⟩ := (Blanks.refl _).unique hx hc hd
        refine ⟨v :: vs, ?_, .item hsep hspells hitems, .field hmem hseen hputs hgathers⟩
        exact ⟨Nat.succ_le_succ hfits.1, fun h => congrArg Nat.succ (hfits.2 h)⟩
    · rintro ⟨vs, hfits, hitems, hgathers⟩
      cases hitems with
      | done h =>
        have hall : ¬ form.listsAll = true := fun h => by cases hfits.2 h
        obtain rfl := gathers_nil_iff.1 hgathers
        refine ⟨none, nextElement?_eq_none_iff.2 ⟨_, h⟩, ?_⟩
        dsimp only
        rw [if_neg hall]
        exact Success.bind_eq_ok_iff.2 ⟨rest, endOfList_eq_ok_iff.2 h, rfl⟩
      | item hsep hspells hitems =>
        obtain ⟨-, -, given', hputs, hgathers⟩ := gathers_cons_iff.1 hgathers
        obtain ⟨d, y, rfl, hd, hne⟩ := hspells.exists_cons
        refine ⟨some _, nextElement?_eq_some_iff.2 ⟨hsep, d, y, rfl, hd, hne⟩, ?_⟩
        refine Success.bind_eq_ok_iff.2
          ⟨_, readValue_eq_ok_iff.2 ⟨_, _, .refl _, hspells, hputs⟩, ?_⟩
        refine (ih hks' hnodup).2 ⟨_, ?_, hitems, hgathers⟩
        exact ⟨Nat.le_of_succ_le_succ hfits.1, fun h => Nat.succ.inj (hfits.2 h)⟩

/-! ## Whole texts -/

/-- What is set in a document: in an object by its fields, in a list by its elements, which count as
the fields with the keys in their order. -/
inductive Sets (form : SettingsForm) : Document → Settings → Prop
  | object {fields : List (List Char × Document)} {out : Settings} :
      form.Gathers [] {} fields out → Sets form (.object fields) out
  | list {vs : List Document} {out : Settings} : form.Fits form.settings vs →
      form.Gathers [] {} (fieldsOf form.settings vs) out → Sets form (.list vs) out

theorem nodup_settings (form : SettingsForm) : form.settings.Nodup := by
  cases form <;> decide

/-- Eats an object or a list of settings, behind blanks. -/
def readDocument (form : SettingsForm) (s : List Char) : Except Fault (Settings × List Char) :=
  match skipBlanks s with
  | [] => unfinished .value
  | '{' :: s => form.readFields [] {} s
  | '[' :: s => form.readElements 0 {} form.settings s
  | s => wrongKind form.title s

theorem read_eq (form : SettingsForm) (s : List Char) : form.read s =
    form.readDocument s >>= fun (given, rest) => endOfText rest >>= fun _ => pure given := by
  unfold read readDocument
  cases skipBlanks s with
  | nil => rfl
  | cons c t =>
    by_cases hobject : c = '{'
    · subst hobject
      rfl
    · by_cases hlist : c = '['
      · subst hlist
        rfl
      · simp [hobject, hlist]

theorem readDocument_eq_ok_iff : form.readDocument s = .ok (out, rest) ↔
    ∃ v t, Blanks s t ∧ v.Spells t rest ∧ form.Sets v out := by
  have hks : ∀ k ∈ form.settings, k ∈ form.settings ∧ k ∉ [] :=
    fun k hk => ⟨hk, List.not_mem_nil⟩
  constructor
  · intro h
    unfold readDocument at h
    split at h
    · cases h
    · rename_i ht
      obtain ⟨fields, hitems, hgathers⟩ := readFields_eq_ok_iff.1 h
      exact ⟨_, _, (skipBlanks_eq_cons_iff.1 ht).1, .object hitems, .object hgathers⟩
    · rename_i ht
      obtain ⟨vs, hfits, hitems, hgathers⟩ := (readElements_eq_ok_iff hks form.nodup_settings).1 h
      exact ⟨_, _, (skipBlanks_eq_cons_iff.1 ht).1, .list hitems, .list hfits hgathers⟩
    · exact absurd h wrongKind_ne_ok
  · rintro ⟨v, t, ht, hspells, hsets⟩
    cases hsets with
    | object hgathers =>
      cases hspells with
      | object hitems =>
        rw [readDocument, skipBlanks_eq_cons_iff.2 ⟨ht, by decide⟩]
        exact readFields_eq_ok_iff.2 ⟨_, hitems, hgathers⟩
    | list hfits hgathers =>
      cases hspells with
      | list hitems =>
        rw [readDocument, skipBlanks_eq_cons_iff.2 ⟨ht, by decide⟩]
        exact (readElements_eq_ok_iff hks form.nodup_settings).2 ⟨_, hfits, hitems, hgathers⟩

/-- A text is read if it is a written form of a document in which something is set. -/
theorem read_eq_ok_iff : form.read s = .ok out ↔ ∃ v, v.IsWritten s ∧ form.Sets v out := by
  rw [read_eq, Success.bind_eq_ok_iff]
  constructor
  · rintro ⟨⟨given, rest⟩, h, hend⟩
    obtain ⟨⟨⟩, hrest, heq⟩ := Success.bind_eq_ok_iff.1 hend
    cases heq
    obtain ⟨v, t, ht, hspells, hsets⟩ := readDocument_eq_ok_iff.1 h
    exact ⟨v, ⟨t, rest, ht, hspells, endOfText_eq_ok_iff.1 hrest⟩, hsets⟩
  · rintro ⟨v, ⟨t, rest, ht, hspells, hrest⟩, hsets⟩
    exact ⟨(out, rest), readDocument_eq_ok_iff.2 ⟨v, t, ht, hspells, hsets⟩,
      Success.bind_eq_ok_iff.2 ⟨(), endOfText_eq_ok_iff.2 hrest, rfl⟩⟩

/-- Whether a text is read, and as what, depends on the document of which it is a written form. -/
theorem read_eq_ok_iff_sets (h : v.IsWritten s) : form.read s = .ok out ↔ form.Sets v out := by
  rw [read_eq_ok_iff]
  constructor
  · rintro ⟨v', h', hsets⟩
    obtain rfl := h.unique h'
    exact hsets
  · intro hsets
    exact ⟨v, h, hsets⟩

end TodoAudit.SettingsForm
