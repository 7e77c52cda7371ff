import TodoAudit.CommandLine.Run
import TodoAudit.Proofs.Language

/-!
# Where settings come from

The configuration of a request is put together setting by setting: what the option says goes before
what the file says, and that before the default (`rulesWith`, `ExtensionsFrom`). Whether the rules
can be followed is asked of what comes out, and of nothing that has been replaced on the way. The
main statement is `Request.config_bySetting`: which configuration a request has, and if it has none,
which error, of several the one that is met first (`Refused`).
-/

namespace TodoAudit

variable {tree : FileTree} {path : String} {config : Config} {e : AuditError}

/-! ## Rules that can be followed -/

namespace ReadingRules

variable {rules : ReadingRules} {fault : RuleFault}

/-- There is a mention symbol, and the date pattern is accepted. -/
structure AreUsable (rules : ReadingRules) : Prop where
  mentionSymbol : rules.mentionSymbol ≠ ""
  dateFormat : ∃ format, DateFormat.ofPattern rules.dateFormat.toList = .ok format

/-- What is wrong with the rules. The mention symbol is looked at before the date pattern. -/
inductive FirstFault (rules : ReadingRules) : RuleFault → Prop
  | emptyMentionSymbol : rules.mentionSymbol = "" → FirstFault rules .emptyMentionSymbol
  | dateFormat {fault : PatternFault} : rules.mentionSymbol ≠ "" →
      DateFormat.ofPattern rules.dateFormat.toList = .error fault →
      FirstFault rules (.dateFormat rules.dateFormat fault)

theorem check_eq (rules : ReadingRules) : rules.check =
    if rules.mentionSymbol = "" then .error .emptyMentionSymbol
    else ((DateFormat.ofPattern rules.dateFormat.toList).mapError
      (.dateFormat rules.dateFormat)).map fun _ => () := by
  rw [check, TodoReader.ofRules]
  by_cases hsymbol : rules.mentionSymbol = ""
  · rw [if_pos (by rw [hsymbol]; rfl), if_pos hsymbol]
    rfl
  · rw [if_neg (mt String.toList_eq_nil_iff.1 hsymbol), if_neg hsymbol]
    cases DateFormat.ofPattern rules.dateFormat.toList <;> rfl

theorem check_eq_ok_iff : rules.check = .ok () ↔ rules.AreUsable := by
  rw [check_eq]
  split
  · rename_i hsymbol
    exact iff_of_false (fun h => by cases h) fun h => h.mentionSymbol hsymbol
  · rename_i hsymbol
    rw [Success.map_eq_ok_iff]
    simp only [Success.mapError_eq_ok_iff, and_true]
    exact ⟨fun h => ⟨hsymbol, h⟩, fun h => h.dateFormat⟩

theorem check_eq_error_iff : rules.check = .error fault ↔ rules.FirstFault fault := by
  rw [check_eq]
  split
  · rename_i hsymbol
    constructor
    · rintro ⟨⟩
      exact .emptyMentionSymbol hsymbol
    · rintro (- | ⟨hne, -⟩)
      · rfl
      · exact absurd hsymbol hne
  · rename_i hsymbol
    rw [Success.map_eq_error_iff, Success.mapError_eq_error_iff]
    constructor
    · rintro ⟨f, hf, rfl⟩
      exact .dateFormat hsymbol hf
    · rintro (hempty | ⟨-, hf⟩)
      · exact absurd hempty hsymbol
      · exact ⟨_, hf, rfl⟩

end ReadingRules

/-! ## The configuration file -/

namespace Config

theorem ofFile_eq_ok_iff : ofFile tree path = .ok config ↔
    ∃ text given, tree.readText path = .ok text ∧ SettingsForm.file.read text.toList = .ok given ∧
      given.toConfig = config := by
  simp only [ofFile, ofJson, Success.bind_eq_ok_iff, Success.mapError_eq_ok_iff,
    Success.map_eq_ok_iff, exists_and_left]

theorem ofFile_eq_error_iff : ofFile tree path = .error e ↔
    (∃ fault, tree.readText path = .error fault ∧ .unreadableConfig path fault = e) ∨
      ∃ text fault, tree.readText path = .ok text ∧
        SettingsForm.file.read text.toList = .error fault ∧ .configSyntax path fault = e := by
  simp only [ofFile, ofJson, Success.bind_eq_error_iff, Success.mapError_eq_ok_iff,
    Success.mapError_eq_error_iff, Success.map_eq_error_iff, exists_and_left]

end Config

namespace CommandLine.Request

variable {r : Request} {tree' : FileTree} {given given' : Settings}
  {configured exts : List String} {unknown : UnknownLanguage}

/-- The configuration file that counts: the one that is named, or else the one where the scan
begins, if there is such a file. -/
def chosenFile? (r : Request) (tree : FileTree) : Option String :=
  match r.configFile with
  | some path => some path
  | none =>
    if tree.isFile (Path.join r.root Config.fileName) then some (Path.join r.root Config.fileName)
    else none

/-- What the file that counts sets. If there is none, nothing is set. -/
inductive FileSets (r : Request) (tree : FileTree) : Settings → Prop
  | noFile : r.chosenFile? tree = none → FileSets r tree {}
  | file {path text : String} {given : Settings} : r.chosenFile? tree = some path →
      tree.readText path = .ok text → SettingsForm.file.read text.toList = .ok given →
      FileSets r tree given

/-- The file that counts cannot be read, or else its text cannot. -/
inductive FileFails (r : Request) (tree : FileTree) : AuditError → Prop
  | unreadable {path : String} {fault : FileFault} : r.chosenFile? tree = some path →
      tree.readText path = .error fault → FileFails r tree (.unreadableConfig path fault)
  | malformed {path text : String} {fault : Json.Fault} : r.chosenFile? tree = some path →
      tree.readText path = .ok text → SettingsForm.file.read text.toList = .error fault →
      FileFails r tree (.configSyntax path fault)

theorem fileConfig_eq (r : Request) (tree : FileTree) : r.fileConfig tree =
    match r.chosenFile? tree with
    | some path => Config.ofFile tree path
    | none => .ok {} := by
  rw [fileConfig, chosenFile?]
  cases r.configFile with
  | some path => rfl
  | none =>
    rw [Config.ofRoot]
    dsimp only
    split <;> rfl

theorem fileConfig_eq_ok_iff : r.fileConfig tree = .ok config ↔
    ∃ given, r.FileSets tree given ∧ given.toConfig = config := by
  rw [fileConfig_eq]
  split
  · rename_i path hfile
    rw [Config.ofFile_eq_ok_iff]
    constructor
    · rintro ⟨text, given, htext, hread, hconfig⟩
      exact ⟨given, .file hfile htext hread, hconfig⟩
    · rintro ⟨given, hnone | ⟨hfile', htext, hread⟩, hconfig⟩
      · cases hfile.symm.trans hnone
      · cases hfile.symm.trans hfile'
        exact ⟨_, given, htext, hread, hconfig⟩
  · rename_i hfile
    constructor
    · rintro ⟨⟩
      exact ⟨{}, .noFile hfile, rfl⟩
    · rintro ⟨given, - | ⟨hfile', -, -⟩, rfl⟩
      · rfl
      · cases hfile.symm.trans hfile'

theorem fileConfig_eq_error_iff : r.fileConfig tree = .error e ↔ r.FileFails tree e := by
  rw [fileConfig_eq]
  split
  · rename_i path hfile
    rw [Config.ofFile_eq_error_iff]
    constructor
    · rintro (⟨fault, htext, rfl⟩ | ⟨text, fault, htext, hread, rfl⟩)
      · exact .unreadable hfile htext
      · exact .malformed hfile htext hread
    · rintro (⟨hfile', htext⟩ | ⟨hfile', htext, hread⟩)
      · cases hfile.symm.trans hfile'
        exact .inl ⟨_, htext, rfl⟩
      · cases hfile.symm.trans hfile'
        exact .inr ⟨_, _, htext, hread, rfl⟩
  · rename_i hfile
    refine iff_of_false (fun h => by cases h) ?_
    rintro (⟨hfile', -⟩ | ⟨hfile', -, -⟩) <;> cases hfile.symm.trans hfile'

/-! ## Options before settings before defaults -/

/-- The values of an option that can be given several times, if it is given. -/
def given? (values : List String) : Option (List String) :=
  if values = [] then none else some values

/-- The rules of a request. Each rule is what its option says, or else what the file says, or else
the default. -/
def rulesWith (r : Request) (given : Settings) : ReadingRules where
  duePhrases := ((given? r.duePhrases).or given.duePhrases).getD ({} : ReadingRules).duePhrases
  dateFormat := (r.dateFormat.or given.dateFormat).getD ({} : ReadingRules).dateFormat
  mentionSymbol := (r.mentionSymbol.or given.mentionSymbol).getD ({} : ReadingRules).mentionSymbol

/-- The extensions of a request. If none are asked for, they are those that are set, or else the
default. If extensions or languages are asked for, they are the extensions as they are given, and
behind them those of the languages, each if it is not there yet, in the order in which they first
occur. -/
inductive ExtensionsFrom (r : Request) (given : Settings) : List String → Prop
  | configured : r.extensions = [] → r.languages = [] →
      ExtensionsFrom r given (given.extensions.getD ({} : Config).extensions)
  | asked {langs : List Language} {news : List String} : r.extensions ≠ [] ∨ r.languages ≠ [] →
      List.Forall₂ Language.IsNamed r.languages langs →
      Language.Firsts r.extensions (langs.flatMap Language.extensions) news →
      ExtensionsFrom r given (r.extensions ++ news)

theorem resolveExtensions_eq (r : Request) (configured : List String) :
    r.resolveExtensions configured =
      if r.extensions = [] ∧ r.languages = [] then .ok configured
      else (Language.extensionsOf r.languages).map (Language.addNew r.extensions) := by
  rw [resolveExtensions]
  by_cases hnone : r.extensions = [] ∧ r.languages = []
  · rw [if_pos hnone, if_pos (by simp [hnone])]
    rfl
  · rw [if_neg hnone, if_neg (by simpa using hnone)]
    cases Language.extensionsOf r.languages <;> rfl

theorem resolveExtensions_eq_ok_iff :
    r.resolveExtensions given.toConfig.extensions = .ok exts ↔ r.ExtensionsFrom given exts := by
  rw [resolveExtensions_eq]
  by_cases hnone : r.extensions = [] ∧ r.languages = []
  · rw [if_pos hnone]
    constructor
    · rintro ⟨⟩
      exact .configured hnone.1 hnone.2
    · rintro (- | ⟨hasked, -, -⟩)
      · rfl
      · exact absurd hnone (not_and_or.2 hasked)
  · rw [if_neg hnone, Success.map_eq_ok_iff]
    simp only [Language.extensionsOf_eq_ok_iff]
    constructor
    · rintro ⟨collected, ⟨langs, hlangs, rfl⟩, hexts⟩
      obtain ⟨news, rfl, hnews⟩ := Language.addNew_addNew_eq_iff.1 hexts
      exact .asked (not_and_or.1 hnone) hlangs hnews
    · rintro (⟨hexts, hlangs⟩ | ⟨-, hlangs, hnews⟩)
      · exact absurd ⟨hexts, hlangs⟩ hnone
      · exact ⟨_, ⟨_, hlangs, rfl⟩, Language.addNew_addNew_eq_iff.2 ⟨_, rfl, hnews⟩⟩

theorem resolveExtensions_eq_error_iff : r.resolveExtensions configured = .error unknown ↔
    Language.FirstUnknown r.languages unknown := by
  rw [resolveExtensions_eq]
  split
  · rename_i hnone
    refine iff_of_false (fun h => by cases h) ?_
    rintro ⟨before, after, hnames, -⟩
    rw [hnone.2] at hnames
    simp at hnames
  · rw [Success.map_eq_error_iff]
    exact Language.extensionsOf_eq_error_iff

/-- There are extensions to scan exactly if all languages are known. -/
theorem exists_extensionsFrom_iff (r : Request) (given : Settings) :
    (∃ exts, r.ExtensionsFrom given exts) ↔ ∀ name ∈ r.languages, Language.IsKnown name := by
  constructor
  · rintro ⟨-, ⟨-, hlangs⟩ | ⟨-, hlangs, -⟩⟩
    · rw [hlangs]
      simp
    · exact Language.exists_forall₂_isNamed_iff.1 ⟨_, hlangs⟩
  · intro hknown
    by_cases hnone : r.extensions = [] ∧ r.languages = []
    · exact ⟨_, .configured hnone.1 hnone.2⟩
    · obtain ⟨langs, hlangs⟩ := Language.exists_forall₂_isNamed_iff.2 hknown
      obtain ⟨news, -, hnews⟩ := Language.addNew_addNew_eq_iff.1
        (rfl : Language.addNew r.extensions
          (Language.addNew [] (langs.flatMap Language.extensions)) = _)
      exact ⟨_, .asked (not_and_or.1 hnone) hlangs hnews⟩

/-! ## The configuration -/

/-- The configuration of the request where the file sets what is given. -/
def resolve (r : Request) (given : Settings) : Except AuditError Config := do
  let extensions ← (r.resolveExtensions given.toConfig.extensions).mapError .unknownLanguage
  (r.rulesWith given).check.mapError .rules
  return { rules := r.rulesWith given, extensions }

theorem rulesWith_eq (r : Request) (given : Settings) : r.rulesWith given =
    { duePhrases := if r.duePhrases.isEmpty then given.toConfig.rules.duePhrases else r.duePhrases
      dateFormat := r.dateFormat.getD given.toConfig.rules.dateFormat
      mentionSymbol := r.mentionSymbol.getD given.toConfig.rules.mentionSymbol } := by
  rw [rulesWith, ReadingRules.mk.injEq]
  refine ⟨?_, ?_, ?_⟩
  · cases r.duePhrases <;> rfl
  · cases r.dateFormat <;> rfl
  · cases r.mentionSymbol <;> rfl

theorem config_of_fileSets (h : r.FileSets tree given) : r.config tree = r.resolve given := by
  rw [config, fileConfig_eq_ok_iff.2 ⟨given, h, rfl⟩, resolve, rulesWith_eq]
  rfl

theorem config_of_fileFails (h : r.FileFails tree e) : r.config tree = .error e := by
  rw [config, fileConfig_eq_error_iff.2 h]
  rfl

theorem fileSets_or_fileFails (r : Request) (tree : FileTree) :
    (∃ given, r.FileSets tree given) ∨ ∃ e, r.FileFails tree e := by
  cases h : r.fileConfig tree with
  | ok config =>
    obtain ⟨given, hgiven, -⟩ := fileConfig_eq_ok_iff.1 h
    exact .inl ⟨given, hgiven⟩
  | error e => exact .inr ⟨e, fileConfig_eq_error_iff.1 h⟩

theorem resolve_eq_ok_iff : r.resolve given = .ok config ↔
    config.rules = r.rulesWith given ∧ r.ExtensionsFrom given config.extensions ∧
      config.rules.AreUsable := by
  simp only [resolve, Success.bind_eq_ok_iff, Success.mapError_eq_ok_iff,
    resolveExtensions_eq_ok_iff, pure, Except.pure, Except.ok.injEq]
  constructor
  · rintro ⟨extensions, hextensions, ⟨⟩, hcheck, rfl⟩
    exact ⟨rfl, hextensions, ReadingRules.check_eq_ok_iff.1 hcheck⟩
  · rintro ⟨hrules, hextensions, husable⟩
    rw [hrules] at husable
    refine ⟨_, hextensions, (), ReadingRules.check_eq_ok_iff.2 husable, ?_⟩
    rw [← hrules]

theorem resolve_eq_error_iff : r.resolve given = .error e ↔
    (∃ unknown, Language.FirstUnknown r.languages unknown ∧ .unknownLanguage unknown = e) ∨
      (∀ name ∈ r.languages, Language.IsKnown name) ∧
        ∃ fault, (r.rulesWith given).FirstFault fault ∧ .rules fault = e := by
  -- a step fails where those before it succeed, and nothing fails behind the rules
  simp only [resolve, Success.bind_eq_error_iff, Success.mapError_eq_error_iff,
    Success.mapError_eq_ok_iff, resolveExtensions_eq_error_iff, resolveExtensions_eq_ok_iff,
    ReadingRules.check_eq_error_iff, pure, Except.pure, reduceCtorEq, and_false, exists_false,
    or_false, ← exists_extensionsFrom_iff r given, exists_and_right]

/-- The request has no configuration. The file is read first, then the languages are looked up, and
then the rules are looked at, as they come out. -/
inductive Refused (r : Request) (tree : FileTree) : AuditError → Prop
  | file {e : AuditError} : r.FileFails tree e → Refused r tree e
  | language {given : Settings} {unknown : UnknownLanguage} : r.FileSets tree given →
      Language.FirstUnknown r.languages unknown → Refused r tree (.unknownLanguage unknown)
  | rules {given : Settings} {fault : RuleFault} : r.FileSets tree given →
      (∀ name ∈ r.languages, Language.IsKnown name) → (r.rulesWith given).FirstFault fault →
      Refused r tree (.rules fault)

theorem config_eq_ok_iff : r.config tree = .ok config ↔ ∃ given, r.FileSets tree given ∧
    config.rules = r.rulesWith given ∧ r.ExtensionsFrom given config.extensions ∧
    config.rules.AreUsable := by
  constructor
  · intro h
    rcases r.fileSets_or_fileFails tree with ⟨given, hgiven⟩ | ⟨e, he⟩
    · rw [config_of_fileSets hgiven, resolve_eq_ok_iff] at h
      exact ⟨given, hgiven, h⟩
    · cases (config_of_fileFails he).symm.trans h
  · rintro ⟨given, hgiven, h⟩
    rw [config_of_fileSets hgiven, resolve_eq_ok_iff]
    exact h

theorem config_eq_error_iff : r.config tree = .error e ↔ r.Refused tree e := by
  constructor
  · intro h
    rcases r.fileSets_or_fileFails tree with ⟨given, hgiven⟩ | ⟨e', he'⟩
    · rw [config_of_fileSets hgiven, resolve_eq_error_iff] at h
      rcases h with ⟨unknown, hunknown, rfl⟩ | ⟨hknown, fault, hfault, rfl⟩
      · exact .language hgiven hunknown
      · exact .rules hgiven hknown hfault
    · cases (config_of_fileFails he').symm.trans h
      exact .file he'
  · rintro (he | ⟨hgiven, hunknown⟩ | ⟨hgiven, hknown, hfault⟩)
    · exact config_of_fileFails he
    · rw [config_of_fileSets hgiven, resolve_eq_error_iff]
      exact .inl ⟨_, hunknown, rfl⟩
    · rw [config_of_fileSets hgiven, resolve_eq_error_iff]
      exact .inr ⟨hknown, _, hfault, rfl⟩

theorem exists_config_iff : (∃ config, r.config tree = .ok config) ↔
    ∃ given, r.FileSets tree given ∧ (∀ name ∈ r.languages, Language.IsKnown name) ∧
      (r.rulesWith given).AreUsable := by
  simp only [config_eq_ok_iff]
  constructor
  · rintro ⟨config, given, hgiven, hrules, hextensions, husable⟩
    rw [hrules] at husable
    exact ⟨given, hgiven, (exists_extensionsFrom_iff r given).1 ⟨_, hextensions⟩, husable⟩
  · rintro ⟨given, hgiven, hknown, husable⟩
    obtain ⟨exts, hexts⟩ := (exists_extensionsFrom_iff r given).2 hknown
    exact ⟨⟨r.rulesWith given, exts⟩, given, hgiven, rfl, hexts, husable⟩

theorem or_getD_congr {α : Type} {option file file' : Option α}
    (h : option = none → file' = file) (default : α) :
    (option.or file').getD default = (option.or file).getD default := by
  cases option with
  | none => rw [h rfl]
  | some value => rfl

/-- What is set is the same, wherever the options leave it open. -/
structure SameWhereOpen (r : Request) (given given' : Settings) : Prop where
  duePhrases : r.duePhrases = [] → given'.duePhrases = given.duePhrases
  dateFormat : r.dateFormat = none → given'.dateFormat = given.dateFormat
  mentionSymbol : r.mentionSymbol = none → given'.mentionSymbol = given.mentionSymbol
  extensions : r.extensions = [] → r.languages = [] → given'.extensions = given.extensions

/-- What is set in the file where an option says something does not matter. -/
theorem resolve_congr (h : r.SameWhereOpen given given') : r.resolve given' = r.resolve given := by
  have hphrases : given? r.duePhrases = none → given'.duePhrases = given.duePhrases := by
    rw [given?]
    split
    · rename_i hnone
      exact fun _ => h.duePhrases hnone
    · exact fun hsome => by cases hsome
  have hrules : r.rulesWith given' = r.rulesWith given := by
    rw [rulesWith, rulesWith, or_getD_congr hphrases, or_getD_congr h.dateFormat,
      or_getD_congr h.mentionSymbol]
  have hextensions : r.resolveExtensions given'.toConfig.extensions =
      r.resolveExtensions given.toConfig.extensions := by
    rw [resolveExtensions_eq, resolveExtensions_eq]
    split
    · rename_i hnone
      rw [Settings.toConfig, Settings.toConfig, h.extensions hnone.1 hnone.2]
    · rfl
  rw [resolve, resolve, hrules, hextensions]

/-- A request has a configuration exactly if the file that counts can be read, if there is one, the
languages are known, and the rules that come out can be followed. Each setting of the configuration
is what its own option says, or else what the file says, or else the default, and what the file says
where an option says something does not matter. If there is no configuration, the error is the first
one of the file, the languages, the mention symbol and the date pattern. -/
theorem config_bySetting (r : Request) (tree : FileTree) :
    ((∃ config, r.config tree = .ok config) ↔ ∃ given, r.FileSets tree given ∧
        (∀ name ∈ r.languages, Language.IsKnown name) ∧ (r.rulesWith given).AreUsable) ∧
      (∀ config, r.config tree = .ok config ↔ ∃ given, r.FileSets tree given ∧
        config.rules = r.rulesWith given ∧ r.ExtensionsFrom given config.extensions ∧
        config.rules.AreUsable) ∧
      (∀ e, r.config tree = .error e ↔ r.Refused tree e) ∧
      ∀ tree' given given', r.FileSets tree given → r.FileSets tree' given' →
        r.SameWhereOpen given given' → r.config tree' = r.config tree := by
  refine ⟨exists_config_iff, fun config => config_eq_ok_iff, fun e => config_eq_error_iff, ?_⟩
  intro tree' given given' hgiven hgiven' hsame
  rw [config_of_fileSets hgiven, config_of_fileSets hgiven', resolve_congr hsame]

/-- Options take the place of an empty mention symbol and of a pattern that is no date pattern. -/
theorem config_bySetting_replacedFaults :
    let r : Request :=
      { mentionSymbol := some "!", dateFormat := some "yyyy-MM-dd", extensions := [".kts"],
        languages := ["KOTLIN"], command := .verify }
    let tree : FileTree := ⟨.directory [], []⟩
    let tree' : FileTree :=
      ⟨.directory [("todome.json", .file "[null, \"q\", \"\", null]".toUTF8)], []⟩
    r.FileSets tree {} ∧
      r.FileSets tree' { mentionSymbol := some "", dateFormat := some "q" } ∧
      r.config tree' = r.config tree ∧
      r.config tree = .ok ⟨⟨["due to"], "yyyy-MM-dd", "!"⟩, [".kts", ".kt"]⟩ := by
  intro r tree tree'
  have hpath : Path.join r.root Config.fileName = "./todome.json" := by decide
  have hnames : Path.names "./todome.json" = [".", "todome.json"] := by decide
  have hresolve : tree.resolve "./todome.json" = .error .notFound := by
    rw [FileTree.resolve, if_neg (by decide), hnames]
    simp [FileTree.follow, FileTree.linkLimit, FileTree.origin, Node.at?, Node.child?, tree]
  have hresolve' : tree'.resolve "./todome.json" = .ok (["todome.json"], 40) := by
    rw [FileTree.resolve, if_neg (by decide), hnames]
    simp [FileTree.follow, FileTree.linkLimit, FileTree.origin, Node.at?, Node.child?, tree',
      List.lookup]
  have hfile : tree.isFile "./todome.json" = false := by
    rw [FileTree.isFile, hresolve]
  have hfile' : tree'.isFile "./todome.json" = true := by
    rw [FileTree.isFile, hresolve']
    rfl
  have htext : tree'.readText "./todome.json" = .ok "[null, \"q\", \"\", null]" := by
    rw [FileTree.readText, hresolve']
    cbv
  have hgiven : r.FileSets tree {} := .noFile (by rw [chosenFile?, hpath, hfile]; rfl)
  have hgiven' : r.FileSets tree' { mentionSymbol := some "", dateFormat := some "q" } :=
    .file (by rw [chosenFile?, hpath, hfile']; rfl) htext (by cbv)
  have hsame : r.SameWhereOpen {} { mentionSymbol := some "", dateFormat := some "q" } := by
    refine ⟨fun _ => rfl, ?_, ?_, fun _ _ => rfl⟩ <;> rintro ⟨⟩
  refine ⟨hgiven, hgiven', (config_bySetting r tree).2.2.2 tree' _ _ hgiven hgiven' hsame, ?_⟩
  rw [config_of_fileSets hgiven]
  cbv

end CommandLine.Request

end TodoAudit
