import ClassLang.Outline
import ClassLang.Proofs.Identifiers

/-!
# Indented lines can be read back

A text is cut into lines in one way only, and a line that does not start with a blank
shows by its indentation how deep it stands.  So outlines are told apart by their texts:
the children of a label end at the first line that is not deeper than the label.
-/

namespace ClassLang

/-! ## Lines -/

namespace Text

theorem toList_indented (depth : Nat) (line : String) :
    (indented depth line).toList = List.replicate (2 * depth) ' ' ++ line.toList := by
  simp [indented]

/-- A line that does not start with a blank shows its depth. -/
theorem indented_inj {depth other : Nat} {line second : String}
    (hline : ∀ c ∈ line.toList.head?, c ≠ ' ') (hsecond : ∀ c ∈ second.toList.head?, c ≠ ' ')
    (hsame : indented depth line = indented other second) : depth = other ∧ line = second := by
  have hlist := congrArg String.toList hsame
  rw [toList_indented, toList_indented] at hlist
  have hblanks (count : Nat) : ∀ c ∈ List.replicate count ' ', decide (c = ' ') = true := by
    intro c hc
    simpa using List.eq_of_mem_replicate hc
  have hcut := append_inj_of_class (hblanks _) (hblanks _) (by simpa using hline)
    (by simpa using hsecond) hlist
  have hlength := congrArg List.length hcut.1
  rw [List.length_replicate, List.length_replicate] at hlength
  exact ⟨by omega, String.toList_inj.mp hcut.2⟩

theorem toList_unlines (lines : List String) :
    (unlines lines).toList = lines.flatMap fun line => line.toList ++ ['\n'] := by
  simp [unlines, String.toList_join, List.flatMap_map]

/-- A text is cut into lines in one way only. -/
theorem unlines_inj {lines others : List String} (hlines : ∀ line ∈ lines, '\n' ∉ line.toList)
    (hothers : ∀ line ∈ others, '\n' ∉ line.toList) (htext : unlines lines = unlines others) :
    lines = others := by
  rw [← String.toList_inj, toList_unlines, toList_unlines] at htext
  induction lines generalizing others with
  | nil =>
      cases others with
      | nil => rfl
      | cons other more => simp at htext
  | cons line rest ih =>
      cases others with
      | nil => simp at htext
      | cons other more =>
          rw [List.forall_mem_cons] at hlines hothers
          simp only [List.flatMap_cons, List.append_assoc, List.singleton_append] at htext
          have hinside {text : List Char} (hnone : '\n' ∉ text) :
              ∀ c ∈ text, decide (c ≠ '\n') = true := by
            intro c hc
            simpa using ne_of_mem_of_not_mem hc hnone
          rcases append_inj_of_class (hinside hlines.1) (hinside hothers.1) (by simp) (by simp)
            htext with ⟨hline, hrest⟩
          rw [String.toList_inj.mp hline, ih hlines.2 hothers.2 (List.cons.inj hrest).2]

end Text

/-! ## Outlines -/

namespace Outline

theorem forest_induction {motive : List Outline → Prop} (nil : motive [])
    (cons : ∀ label children rest, motive children → motive rest →
      motive (node label children :: rest))
    (forest : List Outline) : motive forest := by
  refine @Outline.rec_1 (fun outline => ∀ rest, motive rest → motive (outline :: rest)) motive
    ?_ nil ?_ forest
  · intro label children hchildren rest hrest
    exact cons label children rest hchildren hrest
  · intro first rest hfirst hrest
    exact hfirst rest hrest

mutual

def labels : Outline → List String
  | node label children => label :: labelsOfAll children

def labelsOfAll : List Outline → List String
  | [] => []
  | outline :: rest => outline.labels ++ labelsOfAll rest

end

/-- A text that can stand on a line of its own without hiding the indentation. -/
abbrev IsLabel (label : String) : Prop :=
  '\n' ∉ label.toList ∧ ∀ c ∈ label.toList.head?, c ≠ ' '

theorem newline_not_mem_lines {forest : List Outline} {depth : Nat}
    (hlabels : ∀ label ∈ labelsOfAll forest, IsLabel label) :
    ∀ line ∈ linesOfAll depth forest, '\n' ∉ line.toList := by
  induction forest using forest_induction generalizing depth with
  | nil => simp [linesOfAll]
  | cons label children rest ihChildren ihRest =>
      simp only [labelsOfAll, labels, List.forall_mem_append, List.forall_mem_cons] at hlabels
      rw [linesOfAll, lines, List.forall_mem_append, List.forall_mem_cons]
      refine ⟨⟨?_, ihChildren hlabels.1.2⟩, ihRest hlabels.2⟩
      simp [Text.toList_indented, hlabels.1.1.1]

/-- The lines start at a smaller depth, if there are any. -/
def Shallower (depth : Nat) (lines : List String) : Prop :=
  ∀ line ∈ lines.head?, ∃ outer label,
    outer < depth ∧ IsLabel label ∧ line = Text.indented outer label

theorem Shallower.lines_append {forest : List Outline} {depth : Nat} {rest : List String}
    (hlabels : ∀ label ∈ labelsOfAll forest, IsLabel label) (hrest : Shallower depth rest) :
    Shallower (depth + 1) (linesOfAll depth forest ++ rest) := by
  intro line hline
  cases forest with
  | nil =>
      rcases hrest line hline with ⟨outer, label, houter, hlabel⟩
      exact ⟨outer, label, by omega, hlabel⟩
  | cons first others =>
      cases first with
      | node label children =>
          obtain rfl : Text.indented depth label = line := by
            simpa [linesOfAll, lines] using hline
          exact ⟨depth, label, by omega, hlabels label (by simp [labelsOfAll, labels]), rfl⟩

theorem Shallower.ne_cons {depth : Nat} {rest lines : List String} {label : String}
    (hrest : Shallower depth rest) (hlabel : IsLabel label) :
    rest ≠ Text.indented depth label :: lines := by
  intro hcons
  rcases hrest (Text.indented depth label) (by simp [hcons]) with
    ⟨outer, other, houter, hother, hsame⟩
  have hdepth := (Text.indented_inj hlabel.2 hother.2 hsame).1
  omega

/-- Outlines end where a line is not as deep as they are. -/
theorem linesOfAll_append_inj {forest others : List Outline} {depth : Nat}
    {rest after : List String} (hforest : ∀ label ∈ labelsOfAll forest, IsLabel label)
    (hothers : ∀ label ∈ labelsOfAll others, IsLabel label)
    (hrest : Shallower depth rest) (hafter : Shallower depth after)
    (hlines : linesOfAll depth forest ++ rest = linesOfAll depth others ++ after) :
    forest = others ∧ rest = after := by
  induction forest using forest_induction generalizing others depth rest after with
  | nil =>
      cases others with
      | nil => exact ⟨rfl, hlines⟩
      | cons first more =>
          cases first with
          | node label children =>
              have hlabel : IsLabel label := hothers label (by simp [labelsOfAll, labels])
              exact absurd hlines (hrest.ne_cons hlabel)
  | cons label children siblings ihChildren ihSiblings =>
      simp only [labelsOfAll, labels, List.forall_mem_append, List.forall_mem_cons] at hforest
      cases others with
      | nil => exact absurd hlines.symm (hafter.ne_cons hforest.1.1)
      | cons first more =>
          cases first with
          | node other grandchildren =>
              simp only [labelsOfAll, labels, List.forall_mem_append,
                List.forall_mem_cons] at hothers
              simp only [linesOfAll, lines, List.cons_append, List.append_assoc,
                List.cons.injEq] at hlines
              obtain rfl : label = other :=
                (Text.indented_inj hforest.1.1.2 hothers.1.1.2 hlines.1).2
              rcases ihChildren hforest.1.2 hothers.1.2 (hrest.lines_append hforest.2)
                (hafter.lines_append hothers.2) hlines.2 with ⟨rfl, hsiblings⟩
              rcases ihSiblings hforest.2 hothers.2 hrest hafter hsiblings with ⟨rfl, rfl⟩
              exact ⟨rfl, rfl⟩

theorem textOfAll_inj {forest others : List Outline}
    (hforest : ∀ label ∈ labelsOfAll forest, IsLabel label)
    (hothers : ∀ label ∈ labelsOfAll others, IsLabel label)
    (htext : textOfAll forest = textOfAll others) : forest = others := by
  have hlines : linesOfAll 0 forest = linesOfAll 0 others :=
    Text.unlines_inj (newline_not_mem_lines hforest) (newline_not_mem_lines hothers) htext
  have hnone : Shallower 0 [] := by simp [Shallower]
  exact (linesOfAll_append_inj hforest hothers hnone hnone (by rw [hlines])).1

theorem text_eq_textOfAll (outline : Outline) : outline.text = textOfAll [outline] := by
  simp [text, textOfAll, linesOfAll]

theorem text_inj {outline other : Outline} (houtline : ∀ label ∈ outline.labels, IsLabel label)
    (hother : ∀ label ∈ other.labels, IsLabel label) (htext : outline.text = other.text) :
    outline = other := by
  rw [text_eq_textOfAll, text_eq_textOfAll] at htext
  have hsame := textOfAll_inj (by simpa [labelsOfAll] using houtline)
    (by simpa [labelsOfAll] using hother) htext
  simpa using hsame

end Outline

end ClassLang
