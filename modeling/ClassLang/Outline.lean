import ClassLang.Text.Lines

/-!
# Outlines

An outline is a labelled tree.  It is written with one line for each label, the
children of a node one level deeper than the node itself.
-/

namespace ClassLang

inductive Outline where
  | node (label : String) (children : List Outline)

namespace Outline

/-- A node without children. -/
def leaf (label : String) : Outline := node label []

mutual

/-- The lines of an outline whose topmost label stands at the given depth. -/
def lines (depth : Nat) : Outline → List String
  | node label children => Text.indented depth label :: linesOfAll (depth + 1) children

/-- The lines of outlines that stand below each other at the same depth. -/
def linesOfAll (depth : Nat) : List Outline → List String
  | [] => []
  | outline :: rest => outline.lines depth ++ linesOfAll depth rest

end

/-- The text of outlines that stand below each other at the left margin. -/
def textOfAll (outlines : List Outline) : String :=
  Text.unlines (linesOfAll 0 outlines)

/-- The text of a single outline. -/
def text (outline : Outline) : String :=
  Text.unlines (outline.lines 0)

end Outline

end ClassLang
