/-!
# Sources of declarations

The text of a block that declares a variable, and two packs' declarations to start from.
-/

namespace Overlay.VariableBlock

/-- The line of an argument, if it is given. -/
def argument (name : String) : Option String → String
  | some source => s!"  {name} = {source}\n"
  | none => ""

/-- The block that declares a variable; type and default are expressions. -/
def render (name : String) (type default : Option String) : String :=
  "variable \"" ++ name ++ "\" \x7b\n" ++ argument "type" type ++ argument "default" default ++
    "\x7d\n"

/-- The variables of a web server: a text, a number and a map. -/
def web : String :=
  "variable \"image\" \x7b
  description = \"Container image to run\"
  type        = string
  default     = \"nginx:1.27\"
\x7d

variable \"replicas\" \x7b
  type    = number
  default = 1
\x7d

variable \"labels\" \x7b
  type    = map(string)
  default = \x7b\x7d
\x7d
"

/-- The variables of a key-value store. -/
def redis : String :=
  "variable \"port\" \x7b
  type    = number
  default = 6379
\x7d

variable \"persistence\" \x7b
  type    = bool
  default = false
\x7d
"

end Overlay.VariableBlock
