import TodoAudit.Todo.Basic

/-!
# Styled lines

On a terminal with colors a report line is yellow, and the assignee in it is picked out: in red if
there is none, in blue otherwise. A style is an escape sequence before the text and a reset behind
it. Colors are shown on a terminal that has them, and elsewhere if that is forced.
-/

namespace TodoAudit.Terminal

/-- The colors in which parts of a line are shown. -/
inductive Color where
  | red | blue | brightYellow
deriving DecidableEq, Repr

/-- The parameters of the escape sequence that selects the color. -/
def Color.code : Color → String
  | .red => "31"
  | .blue => "34"
  | .brightYellow => "38;5;11"

/-- The text in a color, if colors are shown at all. -/
def paint (shown : Bool) (color : Color) (text : String) : String :=
  if shown then "\x1b[" ++ color.code ++ "m" ++ text ++ "\x1b[0m" else text

/-- What a report line begins with. -/
def opening : String := "Found "

/-- A report line in colors. The assignee is picked out if it comes right after the opening. -/
def styled (shown : Bool) (t : Todo) (line : String) : String :=
  match Text.strip? (opening.toList ++ t.assignee.toList) line.toList with
  | some rest =>
    paint shown .brightYellow opening ++
      paint shown (if t.assignee = Todo.unassigned then .red else .blue) t.assignee ++
      paint shown .brightYellow (String.ofList rest)
  | none => paint shown .brightYellow line

/-! ## Whether colors are shown -/

/-- What a terminal and its environment say about colors. -/
structure Surroundings where
  isTerminal : Bool
  /-- The value of `TERM`. -/
  kind : Option String
  /-- The value of `NO_COLOR`. -/
  refusal : Option String
  /-- The value of `CLICOLOR`. -/
  wish : Option String
  /-- The value of `CLICOLOR_FORCE`. -/
  force : Option String
deriving DecidableEq, Repr

/-- Whether colors are shown. A refusal counts whatever its value. -/
def Surroundings.showColors (s : Surroundings) : Bool :=
  s.force.any (· ≠ "0") ||
    s.isTerminal && s.refusal.isNone && s.kind.any (· ≠ "dumb") && s.wish.all (· ≠ "0")

end TodoAudit.Terminal
