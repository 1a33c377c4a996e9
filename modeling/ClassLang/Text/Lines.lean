/-!
# Indented lines

Both the outline of a program and the script compiled from it are lists of
lines, indented by two spaces for each level of nesting.
-/

namespace ClassLang.Text

/-- A line at the given nesting depth. -/
def indented (depth : Nat) (line : String) : String :=
  String.ofList (List.replicate (2 * depth) ' ') ++ line

/-- The text made of the given lines, each ended by a newline. -/
def unlines (lines : List String) : String :=
  String.join (lines.map (· ++ "\n"))

end ClassLang.Text
