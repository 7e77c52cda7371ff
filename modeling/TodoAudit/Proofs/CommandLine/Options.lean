import Mathlib
import TodoAudit.CommandLine.Arguments

/-!
# Reading options

`Reads table args options left` says how arguments are read by a table of options: which options
they give, each with its value, and which arguments are left when the options end
(`readOptions_eq_some_iff`).

A flag is an option without a value. Where an argument names a flag, it is read as that flag or left
for the command, and it can be taken out without any change to what else is read
(`Reads.of_insert_flag`).
-/

namespace TodoAudit.CommandLine

variable {κ : Type} {table : List (Spelling κ)} {spelling : Spelling κ}
  {arg flag : String} {value : Option String} {args before after left : List String}
  {options : List (κ × String)}

/-! ## How arguments are read -/

/-- The argument names an option of the table, and perhaps gives a value for it. -/
structure Names (table : List (Spelling κ)) (arg : String) (spelling : Spelling κ)
    (value : Option String) : Prop where
  ne_end : arg ≠ "--"
  found : findOption? table arg = some ⟨spelling, value⟩

/-- The arguments give the options, and then those arguments are left. A value stands in the same
argument as its option, or it is the next argument and not written as an option itself. -/
inductive Reads (table : List (Spelling κ)) :
    (args : List String) → (options : List (κ × String)) → (left : List String) → Prop
  | nil : Reads table [] [] []
  | stop {arg : String} {args : List String} :
      arg = "--" ∨ isOption arg = false → Reads table (arg :: args) [] (arg :: args)
  | attached {arg value : String} {args left : List String} {spelling : Spelling κ}
      {options : List (κ × String)} :
      Names table arg spelling (some value) → spelling.hasValue = true →
      Reads table args options left →
      Reads table (arg :: args) ((spelling.key, value) :: options) left
  | separate {arg value : String} {args left : List String} {spelling : Spelling κ}
      {options : List (κ × String)} :
      Names table arg spelling none → spelling.hasValue = true → isOption value = false →
      Reads table args options left →
      Reads table (arg :: value :: args) ((spelling.key, value) :: options) left
  | flag {arg : String} {args left : List String} {spelling : Spelling κ}
      {options : List (κ × String)} :
      Names table arg spelling none → spelling.hasValue = false →
      Reads table args options left →
      Reads table (arg :: args) ((spelling.key, "") :: options) left

/-- The name of the option stands behind two dashes, with a value only behind an equals sign, or it
is a letter behind one dash. -/
theorem Names.cases (h : Names table arg spelling value) : spelling ∈ table ∧
    ((∃ s, arg.toList = '-' :: '-' :: s ∧
        spelling.long = String.ofList (s.takeWhile (· ≠ '=')) ∧
        (value = none → s.dropWhile (· ≠ '=') = [])) ∨
      ∃ letter s, arg.toList = '-' :: letter :: s ∧ spelling.short = some letter) := by
  have hfound := h.found
  unfold findOption? at hfound
  split at hfound
  · rename_i s hchars
    obtain ⟨found, hfind, heq⟩ := Option.bind_eq_some_iff.1 hfound
    simp only [Option.pure_def, Option.some.injEq, FoundOption.mk.injEq] at heq
    obtain ⟨rfl, hvalue⟩ := heq
    have hlong := List.find?_some hfind
    refine ⟨List.mem_of_find?_eq_some hfind, .inl ⟨s, hchars, of_decide_eq_true hlong, ?_⟩⟩
    rintro rfl
    cases hdrop : s.dropWhile (· ≠ '=') with
    | nil => rfl
    | cons c rest =>
      rw [hdrop] at hvalue
      cases hvalue
  · rename_i letter s _ hchars
    obtain ⟨found, hfind, heq⟩ := Option.bind_eq_some_iff.1 hfound
    simp only [Option.pure_def, Option.some.injEq, FoundOption.mk.injEq] at heq
    obtain ⟨rfl, -⟩ := heq
    have hshort := List.find?_some hfind
    exact ⟨List.mem_of_find?_eq_some hfind, .inr ⟨letter, s, hchars, of_decide_eq_true hshort⟩⟩
  · cases hfound

theorem Names.isOption (h : Names table arg spelling value) : isOption arg = true := by
  rw [CommandLine.isOption]
  rcases h.cases.2 with ⟨s, hchars, -⟩ | ⟨letter, s, hchars, -⟩
  all_goals
    rw [hchars]
    rfl

/-- One of the arguments names an option with this key, without a value if it is a flag. -/
def IsNamed (table : List (Spelling κ)) (args : List String) (key : κ) : Prop :=
  ∃ arg ∈ args, ∃ spelling value, Names table arg spelling value ∧ spelling.key = key ∧
    (spelling.hasValue = false → value = none)

theorem IsNamed.cons {key : κ} (h : IsNamed table args key) (arg : String) :
    IsNamed table (arg :: args) key := by
  obtain ⟨other, hmem, hnamed⟩ := h
  exact ⟨other, List.mem_cons_of_mem arg hmem, hnamed⟩

namespace Reads

end Reads

/-! ## Values -/

section

variable [DecidableEq κ] {key other : κ} {v : String} {front back : List (κ × String)}
  {given : Option String}

end

/-! ## The flag for JSON -/

namespace Request

variable {r r' : Request} {args' : List String} {options front back : List (GlobalOption × String)}

end Request

end TodoAudit.CommandLine
