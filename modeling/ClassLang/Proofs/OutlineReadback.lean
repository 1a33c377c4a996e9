import ClassLang.Program.Outline
import ClassLang.Proofs.Erasure
import ClassLang.Proofs.IndentedLines

/-!
# Outlines lose nothing

The label of an outline tells which form of tree it belongs to and, if names are
identifiers, which names stand in it.  Two forms share a label: a `return` shows by its
children whether it has a value.  So trees are told apart by their outlines, and these by
their texts.
-/

namespace ClassLang

open Token

/-! ## Labels -/

theorem Outline.isLabel_append {head text : String} (hhead : IsLabel head) (hne : head ≠ "")
    (htext : '\n' ∉ text.toList) : IsLabel (head ++ text) := by
  have hchars : head.toList ≠ [] := by simpa using hne
  refine ⟨by simp [hhead.1, htext], ?_⟩
  rw [String.toList_append, List.head?_append_of_ne_nil _ hchars]
  exact hhead.2

/-- The texts of words have no line breaks. -/
theorem newline_not_mem_of_isWordChar {text : List Char}
    (htext : ∀ c ∈ text, isWordChar c = true) : '\n' ∉ text := by
  intro hmem
  have hchar := htext '\n' hmem
  revert hchar
  decide

theorem newline_not_mem_repr (value : Int) : '\n' ∉ value.repr.toList := by
  intro hmem
  have hchar := isNumeralChar_of_mem_repr hmem
  revert hchar
  decide

namespace Ty

theorem isWordChar_text {ty : Ty} (hnames : ∀ name ∈ ty.names, IsIdentifier name) :
    ∀ c ∈ ty.text.toList, isWordChar c = true := by
  cases ty with
  | int => exact (isWord_text .intKw).chars
  | bool => exact (isWord_text .boolKw).chars
  | void => exact (isWord_text .voidKw).chars
  | object name => exact (hnames name.text (by simp [names])).isWordChar

/-- No class is named like one of the other types, because their names are reserved. -/
theorem text_ne_of_isIdentifier {name : ClassName} (hname : IsIdentifier name.text) :
    (object name).text ≠ int.text ∧ (object name).text ≠ bool.text ∧
      (object name).text ≠ void.text :=
  ⟨(hname.2 .intKw).symm, (hname.2 .boolKw).symm, (hname.2 .voidKw).symm⟩

theorem text_inj {first second : Ty} (hfirst : ∀ name ∈ first.names, IsIdentifier name)
    (hsecond : ∀ name ∈ second.names, IsIdentifier name) (htext : first.text = second.text) :
    first = second := by
  cases first with
  | object name =>
      have hname := text_ne_of_isIdentifier (hfirst name.text (by simp [names]))
      cases second with
      | object other =>
          cases name
          cases other
          simpa [text] using htext
      | int => exact absurd htext hname.1
      | bool => exact absurd htext hname.2.1
      | void => exact absurd htext hname.2.2
  | int | bool | void =>
      cases second with
      | object other =>
          have hother := text_ne_of_isIdentifier (hsecond other.text (by simp [names]))
          simp [htext] at hother
      | int | bool | void => first | rfl | simp [text] at htext

end Ty

namespace VarDec

theorem toList_text (var : VarDec) :
    var.text.toList = var.ty.text.toList ++ ' ' :: var.name.text.toList := by
  simp [text]

theorem text_inj {first second : VarDec} (hfirst : ∀ name ∈ first.names, IsIdentifier name)
    (hsecond : ∀ name ∈ second.names, IsIdentifier name) (htext : first.text = second.text) :
    first = second := by
  simp only [names, List.forall_mem_append, List.forall_mem_singleton] at hfirst hsecond
  rw [← String.toList_inj, toList_text, toList_text] at htext
  rcases append_inj_of_class (Ty.isWordChar_text hfirst.1) (Ty.isWordChar_text hsecond.1)
    (head_cons_of_class (by decide) _) (head_cons_of_class (by decide) _) htext with ⟨hty, hname⟩
  have hsameTy := Ty.text_inj hfirst.1 hsecond.1 (String.toList_inj.mp hty)
  have hsameName := String.toList_inj.mp (List.cons.inj hname).2
  cases first with
  | mk ty name =>
      cases second with
      | mk other otherName =>
          cases name
          cases otherName
          cases hsameTy
          cases hsameName
          rfl

/-- Neither a comma nor a line break is a part of a declaration. -/
theorem not_mem_text {var : VarDec} (hnames : ∀ name ∈ var.names, IsIdentifier name) {c : Char}
    (hchar : isWordChar c = false) (hblank : c ≠ ' ') : c ∉ var.text.toList := by
  simp only [names, List.forall_mem_append, List.forall_mem_singleton] at hnames
  intro hmem
  rw [toList_text, List.mem_append, List.mem_cons] at hmem
  rcases hmem with hty | hspace | hname
  · simp [Ty.isWordChar_text hnames.1 c hty] at hchar
  · exact hblank hspace
  · simp [hnames.2.isWordChar c hname] at hchar

/-- The declarations after the first one, each with the comma before it. -/
def furtherChars (vars : List VarDec) : List Char :=
  vars.flatMap fun var => ',' :: ' ' :: var.text.toList

theorem toList_intercalate_text (var : VarDec) (rest : List VarDec) :
    (", ".intercalate ((var :: rest).map text)).toList =
      var.text.toList ++ furtherChars rest := by
  induction rest generalizing var with
  | nil => simp [furtherChars]
  | cons next others ih =>
      rw [List.map_cons, List.map_cons, String.intercalate_cons_cons, ← List.map_cons,
        String.toList_append, ih]
      simp [furtherChars]

theorem toList_listText (vars : List VarDec) :
    (listText vars).toList =
      '(' :: match vars with
        | [] => [')']
        | var :: rest => var.text.toList ++ (furtherChars rest ++ [')']) := by
  cases vars with
  | nil => simp [listText]
  | cons var rest =>
      rw [listText, String.toList_append, String.toList_append, toList_intercalate_text]
      simp

section

variable {vars others : List VarDec}

theorem text_append_inj {first second : VarDec}
    (hfirst : ∀ name ∈ first.names, IsIdentifier name)
    (hsecond : ∀ name ∈ second.names, IsIdentifier name)
    (htext : first.text.toList ++ (furtherChars vars ++ [')']) =
      second.text.toList ++ (furtherChars others ++ [')'])) :
    first = second ∧ furtherChars vars = furtherChars others := by
  have hinside {var : VarDec} (hnames : ∀ name ∈ var.names, IsIdentifier name) :
      ∀ c ∈ var.text.toList, (isWordChar c || c = ' ') = true := by
    intro c hc
    by_contra hother
    simp only [Bool.or_eq_true, decide_eq_true_eq, not_or, Bool.not_eq_true] at hother
    exact not_mem_text hnames hother.1 hother.2 hc
  have houtside (vars : List VarDec) :
      ∀ c ∈ (furtherChars vars ++ [')']).head?, (isWordChar c || c = ' ') = false := by
    cases vars with
    | nil => exact head_cons_of_class (by decide) _
    | cons var rest => exact head_cons_of_class (by decide) _
  rcases append_inj_of_class (hinside hfirst) (hinside hsecond) (houtside vars)
    (houtside others) htext with ⟨hsame, hrest⟩
  exact ⟨text_inj hfirst hsecond (String.toList_inj.mp hsame), List.append_cancel_right hrest⟩

theorem furtherChars_inj (hvars : ∀ var ∈ vars, ∀ name ∈ var.names, IsIdentifier name)
    (hothers : ∀ var ∈ others, ∀ name ∈ var.names, IsIdentifier name)
    (hchars : furtherChars vars = furtherChars others) : vars = others := by
  induction vars generalizing others with
  | nil =>
      cases others with
      | nil => rfl
      | cons other rest => simp [furtherChars] at hchars
  | cons var rest ih =>
      cases others with
      | nil => simp [furtherChars] at hchars
      | cons other more =>
          rw [List.forall_mem_cons] at hvars hothers
          have htext : var.text.toList ++ (furtherChars rest ++ [')']) =
              other.text.toList ++ (furtherChars more ++ [')']) := by
            rw [← List.append_assoc, ← List.append_assoc]
            congr 1
            simpa [furtherChars] using hchars
          rcases text_append_inj hvars.1 hothers.1 htext with ⟨rfl, hrest⟩
          rw [ih hvars.2 hothers.2 hrest]

theorem paren_ne_text_append (var : VarDec) (rest : List VarDec) :
    [')'] ≠ var.text.toList ++ (furtherChars rest ++ [')']) := by
  intro htext
  have hlength := congrArg List.length htext
  simp only [toList_text, List.length_append, List.length_cons, List.length_nil] at hlength
  omega

theorem listText_inj (hvars : ∀ var ∈ vars, ∀ name ∈ var.names, IsIdentifier name)
    (hothers : ∀ var ∈ others, ∀ name ∈ var.names, IsIdentifier name)
    (htext : listText vars = listText others) : vars = others := by
  rw [← String.toList_inj, toList_listText, toList_listText, List.cons.injEq] at htext
  cases vars with
  | nil =>
      cases others with
      | nil => rfl
      | cons other rest => exact absurd htext.2 (paren_ne_text_append other rest)
  | cons var rest =>
      cases others with
      | nil => exact absurd htext.2.symm (paren_ne_text_append var rest)
      | cons other more =>
          rw [List.forall_mem_cons] at hvars hothers
          rcases text_append_inj hvars.1 hothers.1 htext.2 with ⟨rfl, hrest⟩
          rw [furtherChars_inj hvars.2 hothers.2 hrest]

end

end VarDec

/-! ## Trees -/

theorem map_inj_of_mem {α β : Type} {f : α → β} {items others : List α}
    (hitems : ∀ item ∈ items, ∀ other ∈ others, f item = f other → item = other)
    (hmap : items.map f = others.map f) : items = others := by
  induction items generalizing others with
  | nil => exact (List.map_eq_nil_iff.mp hmap.symm).symm
  | cons item rest ih =>
      cases others with
      | nil => simp at hmap
      | cons other more =>
          rw [List.map_cons, List.map_cons, List.cons.injEq] at hmap
          have hfirst := hitems item List.mem_cons_self other List.mem_cons_self hmap.1
          have hrest : rest = more := by
            apply ih _ hmap.2
            intro item hitem other hother
            exact hitems item (List.mem_cons_of_mem _ hitem) other (List.mem_cons_of_mem _ hother)
          rw [hfirst, hrest]

theorem Outline.forall_mem_labelsOfAll {forest : List Outline} {P : String → Prop} :
    (∀ label ∈ labelsOfAll forest, P label) ↔
      ∀ outline ∈ forest, ∀ label ∈ outline.labels, P label := by
  induction forest with
  | nil => simp [labelsOfAll]
  | cons outline rest ih => rw [labelsOfAll, List.forall_mem_append, List.forall_mem_cons, ih]

theorem Outline.forall_mem_labels_node {label : String} {children : List Outline}
    {P : String → Prop} :
    (∀ text ∈ (node label children).labels, P text) ↔
      P label ∧ ∀ child ∈ children, ∀ text ∈ child.labels, P text := by
  rw [labels, List.forall_mem_cons, forall_mem_labelsOfAll]

theorem Outline.forall_mem_labels_leaf {label : String} {P : String → Prop} :
    (∀ text ∈ (leaf label).labels, P text) ↔ P label := by
  simp [leaf, forall_mem_labels_node]

/-- The first word of the label. -/
def Outline.heading : Outline → List Char
  | node label _ => label.toList.takeWhile (· ≠ ' ')

/-- Notes that can be told apart by what is shown of them after the name of a method. -/
class ReadableNote (κ : Type) [CallNote κ] [NamedNote κ] : Prop where
  suffix_inj : ∀ first second : κ, CallNote.suffix first = CallNote.suffix second → first = second
  head_suffix : ∀ note : κ, ∀ c ∈ (CallNote.suffix note).toList.head?, isWordChar c = false
  newline_not_mem : ∀ note : κ, (∀ name ∈ NamedNote.names note, IsIdentifier name) →
    '\n' ∉ (CallNote.suffix note).toList

instance : ReadableNote Plain where
  suffix_inj _ _ _ := rfl
  head_suffix _ := by simp [CallNote.suffix]
  newline_not_mem _ _ := by simp [CallNote.suffix]

instance : ReadableNote Resolved where
  suffix_inj first second hsuffix := by
    cases first
    cases second
    simpa [CallNote.suffix] using hsuffix
  head_suffix receiver := by
    simpa [CallNote.suffix] using (by decide : isWordChar ' ' = false)
  newline_not_mem receiver hnames := by
    have hname : IsIdentifier receiver.text := hnames receiver.text (by simp [NamedNote.names])
    simp [CallNote.suffix, newline_not_mem_of_isWordChar hname.isWordChar]

namespace Exp

section

variable {κ : Type} [CallNote κ]

/-- The arguments of a call, if there are any. -/
def argumentSection : List Outline → List Outline
  | [] => []
  | shown => [.node "arguments" shown]

theorem outline_call (receiver : Exp κ) (method : MethodName) (args : List (Exp κ)) (note : κ) :
    (call receiver method args note).outline =
      .node ("call " ++ method.text ++ CallNote.suffix note)
        (.node "receiver" [receiver.outline] :: argumentSection (outlines args)) := by
  rw [outline]
  rfl

theorem argumentSection_inj {shown others : List Outline}
    (hsection : argumentSection shown = argumentSection others) : shown = others := by
  cases shown <;> cases others <;> simp_all [argumentSection]

theorem isLabel_argumentSection {shown : List Outline}
    (hshown : ∀ outline ∈ shown, ∀ label ∈ outline.labels, Outline.IsLabel label) :
    ∀ outline ∈ argumentSection shown, ∀ label ∈ outline.labels, Outline.IsLabel label := by
  cases shown with
  | nil => simp [argumentSection]
  | cons first rest =>
      simp only [argumentSection, List.forall_mem_singleton, Outline.forall_mem_labels_node]
      exact ⟨by simp [Outline.IsLabel], hshown⟩

theorem outlines_eq_map (values : List (Exp κ)) : outlines values = values.map outline := by
  induction values with
  | nil => rfl
  | cons value rest ih => rw [outlines, ih, List.map_cons]

/-- The word that the outlines of all expressions of the same form start with. -/
def form : Exp κ → String
  | int _ => "int"
  | bool _ => "bool"
  | var _ => "var"
  | this => "this"
  | binary .. => "binary"
  | call .. => "call"
  | new .. => "new"

theorem heading_outline (value : Exp κ) : value.outline.heading = value.form.toList := by
  cases value <;> simp [outline, Outline.leaf, Outline.heading, form]

theorem form_eq_of_outline {first second : Exp κ} (houtline : first.outline = second.outline) :
    first.form = second.form := by
  rw [← String.toList_inj, ← heading_outline, ← heading_outline, houtline]

end

variable {κ : Type} [CallNote κ] [NamedNote κ] [ReadableNote κ]

theorem isLabel_of_mem_labels {value : Exp κ} (hnames : ∀ name ∈ value.names, IsIdentifier name) :
    ∀ label ∈ value.outline.labels, Outline.IsLabel label := by
  induction value with
  | int value =>
      rw [outline, Outline.forall_mem_labels_leaf]
      exact Outline.isLabel_append (by simp [Outline.IsLabel]) (by simp) (newline_not_mem_repr _)
  | bool value =>
      rw [outline, Outline.forall_mem_labels_leaf]
      cases value <;> simp [Outline.IsLabel, toString]
  | var name =>
      rw [outline, Outline.forall_mem_labels_leaf]
      have hname : IsIdentifier name.text := hnames name.text (by simp [names])
      exact Outline.isLabel_append (by simp [Outline.IsLabel]) (by simp)
        (newline_not_mem_of_isWordChar hname.isWordChar)
  | this =>
      rw [outline, Outline.forall_mem_labels_leaf]
      simp [Outline.IsLabel]
  | binary op lhs rhs ihLhs ihRhs =>
      simp only [names, List.forall_mem_append] at hnames
      rw [outline, Outline.forall_mem_labels_node, List.forall_mem_cons, List.forall_mem_singleton]
      refine ⟨?_, ihLhs hnames.1, ihRhs hnames.2⟩
      cases op <;> simp [Outline.IsLabel, Op.text]
  | call receiver method args note ihReceiver ihArgs =>
      simp only [names, List.forall_mem_append, List.forall_mem_cons,
        forall_mem_namesOfAll] at hnames
      rw [outline_call, Outline.forall_mem_labels_node, List.forall_mem_cons,
        Outline.forall_mem_labels_node, List.forall_mem_singleton]
      refine ⟨?_, ⟨by simp [Outline.IsLabel], ihReceiver hnames.1⟩, ?_⟩
      · rw [String.append_assoc]
        apply Outline.isLabel_append (by simp [Outline.IsLabel]) (by simp)
        simp [newline_not_mem_of_isWordChar hnames.2.1.isWordChar,
          ReadableNote.newline_not_mem note hnames.2.2.2]
      · apply isLabel_argumentSection
        rw [outlines_eq_map, List.forall_mem_map]
        exact fun arg harg => ihArgs arg harg (hnames.2.2.1 arg harg)
  | new name args ihArgs =>
      simp only [names, List.forall_mem_cons, forall_mem_namesOfAll] at hnames
      rw [outline, Outline.forall_mem_labels_node, outlines_eq_map, List.forall_mem_map]
      refine ⟨?_, fun arg harg => ihArgs arg harg (hnames.2 arg harg)⟩
      exact Outline.isLabel_append (by simp [Outline.IsLabel]) (by simp)
        (newline_not_mem_of_isWordChar hnames.1.isWordChar)

theorem outline_inj {first second : Exp κ} (hfirst : ∀ name ∈ first.names, IsIdentifier name)
    (hsecond : ∀ name ∈ second.names, IsIdentifier name)
    (houtline : first.outline = second.outline) : first = second := by
  induction first generalizing second with
  | int value =>
      have hform := form_eq_of_outline houtline
      cases second with
      | int other =>
          have hvalue : value.toInt = other.toInt := by simpa [outline, Outline.leaf] using houtline
          rw [Int64.toInt_inj.mp hvalue]
      | bool | var | this | binary | call | new =>
          simp [form] at hform
  | bool value =>
      have hform := form_eq_of_outline houtline
      cases second with
      | bool other =>
          have hvalue : toString value = toString other := by
            simpa [outline, Outline.leaf] using houtline
          cases value <;> cases other <;> first | rfl | simp [toString] at hvalue
      | int | var | this | binary | call | new =>
          simp [form] at hform
  | var name =>
      have hform := form_eq_of_outline houtline
      cases second with
      | var other =>
          cases name
          cases other
          simpa [outline, Outline.leaf] using houtline
      | int | bool | this | binary | call | new =>
          simp [form] at hform
  | this =>
      have hform := form_eq_of_outline houtline
      cases second with
      | this => rfl
      | int | bool | var | binary | call | new =>
          simp [form] at hform
  | binary op lhs rhs ihLhs ihRhs =>
      have hform := form_eq_of_outline houtline
      cases second with
      | binary otherOp otherLhs otherRhs =>
          simp only [names, List.forall_mem_append] at hfirst hsecond
          simp only [outline, Outline.node.injEq, List.cons.injEq, and_true] at houtline
          have hop : op = otherOp := by
            cases op <;> cases otherOp <;> first | rfl | simp [Op.text] at houtline
          rw [hop, ihLhs hfirst.1 hsecond.1 houtline.2.1, ihRhs hfirst.2 hsecond.2 houtline.2.2]
      | int | bool | var | this | call | new =>
          simp [form] at hform
  | call receiver method args note ihReceiver ihArgs =>
      have hform := form_eq_of_outline houtline
      cases second with
      | call otherReceiver otherMethod otherArgs otherNote =>
          simp only [names, List.forall_mem_append, List.forall_mem_cons,
            forall_mem_namesOfAll] at hfirst hsecond
          rw [outline_call, outline_call] at houtline
          simp only [Outline.node.injEq, List.cons.injEq, and_true, true_and] at houtline
          have hlabel : method.text.toList ++ (CallNote.suffix note).toList =
              otherMethod.text.toList ++ (CallNote.suffix otherNote).toList := by
            simpa [← String.toList_inj] using houtline.1
          rcases hfirst.2.1.append_inj hsecond.2.1 (ReadableNote.head_suffix note)
            (ReadableNote.head_suffix otherNote) hlabel with ⟨hmethod, hnote⟩
          have hsameNote := ReadableNote.suffix_inj note otherNote (String.toList_inj.mp hnote)
          have hsameReceiver := ihReceiver hfirst.1 hsecond.1 houtline.2.1
          have hshown := argumentSection_inj houtline.2.2
          rw [outlines_eq_map, outlines_eq_map] at hshown
          have hargs : args = otherArgs := by
            apply map_inj_of_mem _ hshown
            intro arg harg other hother
            exact ihArgs arg harg (hfirst.2.2.1 arg harg) (hsecond.2.2.1 other hother)
          cases method
          cases otherMethod
          cases hmethod
          rw [hsameReceiver, hargs, hsameNote]
      | int | bool | var | this | binary | new =>
          simp [form] at hform
  | new name args ihArgs =>
      have hform := form_eq_of_outline houtline
      cases second with
      | new otherName otherArgs =>
          simp only [names, List.forall_mem_cons, forall_mem_namesOfAll] at hfirst hsecond
          simp only [outline, Outline.node.injEq, outlines_eq_map] at houtline
          have hargs : args = otherArgs := by
            apply map_inj_of_mem _ houtline.2
            intro arg harg other hother
            exact ihArgs arg harg (hfirst.2 arg harg) (hsecond.2 other hother)
          have hname : name.text = otherName.text := by simpa using houtline.1
          cases name
          cases otherName
          cases hname
          rw [hargs]
      | int | bool | var | this | binary | call =>
          simp [form] at hform

end Exp

namespace Stmt

section

variable {κ : Type} [CallNote κ]

theorem outlines_eq_map (body : List (Stmt κ)) : outlines body = body.map outline := by
  induction body with
  | nil => rfl
  | cons stmt rest ih => rw [outlines, ih, List.map_cons]

/-- The word that the outlines of all statements of the same form start with.  Both forms of
`return` have the same. -/
def form : Stmt κ → String
  | exp _ => "exp"
  | declare .. => "let"
  | assign .. => "assign"
  | ifElse .. => "if"
  | whileLoop .. => "while"
  | returnValue _ | returnVoid => "return"
  | println _ => "println"
  | block _ => "block"

theorem heading_outline (stmt : Stmt κ) : stmt.outline.heading = stmt.form.toList := by
  cases stmt <;> simp [outline, Outline.leaf, Outline.heading, form]

theorem form_eq_of_outline {first second : Stmt κ} (houtline : first.outline = second.outline) :
    first.form = second.form := by
  rw [← String.toList_inj, ← heading_outline, ← heading_outline, houtline]

end

variable {κ : Type} [CallNote κ] [NamedNote κ] [ReadableNote κ]

theorem isLabel_of_mem_labels {stmt : Stmt κ} (hnames : ∀ name ∈ stmt.names, IsIdentifier name) :
    ∀ label ∈ stmt.outline.labels, Outline.IsLabel label := by
  induction stmt with
  | exp value | returnValue value | println value =>
      rw [outline, Outline.forall_mem_labels_node, List.forall_mem_singleton]
      exact ⟨by simp [Outline.IsLabel], Exp.isLabel_of_mem_labels hnames⟩
  | declare var value =>
      simp only [names, List.forall_mem_append] at hnames
      rw [outline, Outline.forall_mem_labels_node, List.forall_mem_singleton]
      refine ⟨?_, Exp.isLabel_of_mem_labels hnames.2⟩
      exact Outline.isLabel_append (by simp [Outline.IsLabel]) (by simp)
        (VarDec.not_mem_text hnames.1 (by decide) (by decide))
  | assign target value =>
      simp only [names, List.forall_mem_cons] at hnames
      rw [outline, Outline.forall_mem_labels_node, List.forall_mem_singleton]
      refine ⟨?_, Exp.isLabel_of_mem_labels hnames.2⟩
      exact Outline.isLabel_append (by simp [Outline.IsLabel]) (by simp)
        (newline_not_mem_of_isWordChar hnames.1.isWordChar)
  | ifElse guard thenArm elseArm ihThen ihElse =>
      simp only [names, List.forall_mem_append] at hnames
      rw [outline, Outline.forall_mem_labels_node, List.forall_mem_cons, List.forall_mem_cons,
        List.forall_mem_singleton]
      exact ⟨by simp [Outline.IsLabel], Exp.isLabel_of_mem_labels hnames.1, ihThen hnames.2.1,
        ihElse hnames.2.2⟩
  | whileLoop guard body ih =>
      simp only [names, List.forall_mem_append] at hnames
      rw [outline, Outline.forall_mem_labels_node, List.forall_mem_cons, List.forall_mem_singleton]
      exact ⟨by simp [Outline.IsLabel], Exp.isLabel_of_mem_labels hnames.1, ih hnames.2⟩
  | returnVoid =>
      rw [outline, Outline.forall_mem_labels_leaf]
      simp [Outline.IsLabel]
  | block body ih =>
      simp only [names, forall_mem_namesOfAll] at hnames
      rw [outline, Outline.forall_mem_labels_node, outlines_eq_map, List.forall_mem_map]
      exact ⟨by simp [Outline.IsLabel], fun stmt hstmt => ih stmt hstmt (hnames stmt hstmt)⟩

theorem outline_inj {first second : Stmt κ} (hfirst : ∀ name ∈ first.names, IsIdentifier name)
    (hsecond : ∀ name ∈ second.names, IsIdentifier name)
    (houtline : first.outline = second.outline) : first = second := by
  induction first generalizing second with
  | exp value =>
      have hform := form_eq_of_outline houtline
      cases second with
      | exp other =>
          have hvalue : value.outline = other.outline := by simpa [outline] using houtline
          rw [Exp.outline_inj hfirst hsecond hvalue]
      | declare | assign | ifElse | whileLoop | returnValue | returnVoid | println | block =>
          simp [form] at hform
  | println value =>
      have hform := form_eq_of_outline houtline
      cases second with
      | println other =>
          have hvalue : value.outline = other.outline := by simpa [outline] using houtline
          rw [Exp.outline_inj hfirst hsecond hvalue]
      | exp | declare | assign | ifElse | whileLoop | returnValue | returnVoid | block =>
          simp [form] at hform
  | returnValue value =>
      have hform := form_eq_of_outline houtline
      cases second with
      | returnValue other =>
          have hvalue : value.outline = other.outline := by simpa [outline] using houtline
          rw [Exp.outline_inj hfirst hsecond hvalue]
      | returnVoid => simp [outline, Outline.leaf] at houtline
      | exp | declare | assign | ifElse | whileLoop | println | block => simp [form] at hform
  | returnVoid =>
      have hform := form_eq_of_outline houtline
      cases second with
      | returnVoid => rfl
      | returnValue => simp [outline, Outline.leaf] at houtline
      | exp | declare | assign | ifElse | whileLoop | println | block => simp [form] at hform
  | declare var value =>
      have hform := form_eq_of_outline houtline
      cases second with
      | declare otherVar other =>
          simp only [names, List.forall_mem_append] at hfirst hsecond
          have hparts : var.text = otherVar.text ∧ value.outline = other.outline := by
            simpa [outline] using houtline
          rw [VarDec.text_inj hfirst.1 hsecond.1 hparts.1,
            Exp.outline_inj hfirst.2 hsecond.2 hparts.2]
      | exp | assign | ifElse | whileLoop | returnValue | returnVoid | println | block =>
          simp [form] at hform
  | assign target value =>
      have hform := form_eq_of_outline houtline
      cases second with
      | assign otherTarget other =>
          simp only [names, List.forall_mem_cons] at hfirst hsecond
          have hparts : target.text = otherTarget.text ∧ value.outline = other.outline := by
            simpa [outline] using houtline
          have hvalue := Exp.outline_inj hfirst.2 hsecond.2 hparts.2
          have hname := hparts.1
          cases target
          cases otherTarget
          cases hname
          rw [hvalue]
      | exp | declare | ifElse | whileLoop | returnValue | returnVoid | println | block =>
          simp [form] at hform
  | ifElse guard thenArm elseArm ihThen ihElse =>
      have hform := form_eq_of_outline houtline
      cases second with
      | ifElse otherGuard otherThen otherElse =>
          simp only [names, List.forall_mem_append] at hfirst hsecond
          simp only [outline, Outline.node.injEq, List.cons.injEq, and_true, true_and] at houtline
          rw [Exp.outline_inj hfirst.1 hsecond.1 houtline.1,
            ihThen hfirst.2.1 hsecond.2.1 houtline.2.1, ihElse hfirst.2.2 hsecond.2.2 houtline.2.2]
      | exp | declare | assign | whileLoop | returnValue | returnVoid | println | block =>
          simp [form] at hform
  | whileLoop guard body ih =>
      have hform := form_eq_of_outline houtline
      cases second with
      | whileLoop otherGuard otherBody =>
          simp only [names, List.forall_mem_append] at hfirst hsecond
          simp only [outline, Outline.node.injEq, List.cons.injEq, and_true, true_and] at houtline
          rw [Exp.outline_inj hfirst.1 hsecond.1 houtline.1, ih hfirst.2 hsecond.2 houtline.2]
      | exp | declare | assign | ifElse | returnValue | returnVoid | println | block =>
          simp [form] at hform
  | block body ih =>
      have hform := form_eq_of_outline houtline
      cases second with
      | block otherBody =>
          simp only [names, forall_mem_namesOfAll] at hfirst hsecond
          simp only [outline, Outline.node.injEq, true_and, outlines_eq_map] at houtline
          have hbody : body = otherBody := by
            apply map_inj_of_mem _ houtline
            intro stmt hstmt other hother
            exact ih stmt hstmt (hfirst stmt hstmt) (hsecond other hother)
          rw [hbody]
      | exp | declare | assign | ifElse | whileLoop | returnValue | returnVoid | println =>
          simp [form] at hform

end Stmt

section

variable {κ : Type} [CallNote κ] [NamedNote κ] [ReadableNote κ]

namespace VarDec

theorem newline_not_mem_listText {vars : List VarDec}
    (hvars : ∀ var ∈ vars, ∀ name ∈ var.names, IsIdentifier name) :
    '\n' ∉ (listText vars).toList := by
  have htext {var : VarDec} (hvar : var ∈ vars) : '\n' ∉ var.text.toList :=
    not_mem_text (hvars var hvar) (by decide) (by decide)
  rw [toList_listText]
  cases vars with
  | nil => simp
  | cons var rest =>
      have hfurther : '\n' ∉ furtherChars rest := by
        simp only [furtherChars, List.mem_flatMap, not_exists, not_and]
        intro other hother
        simp [htext (List.mem_cons_of_mem var hother)]
      simp [htext List.mem_cons_self, hfurther]

end VarDec

namespace MethodDef

theorem isLabel_of_mem_labels {method : MethodDef κ}
    (hnames : ∀ name ∈ method.names, IsIdentifier name) :
    ∀ label ∈ method.outline.labels, Outline.IsLabel label := by
  simp only [names, List.forall_mem_append, List.forall_mem_cons,
    List.forall_mem_flatMap] at hnames
  rw [outline, Outline.forall_mem_labels_node, List.forall_mem_singleton]
  refine ⟨?_, Stmt.isLabel_of_mem_labels hnames.2.2.2⟩
  simp only [String.append_assoc]
  apply Outline.isLabel_append (by simp [Outline.IsLabel]) (by simp)
  simp [newline_not_mem_of_isWordChar (Ty.isWordChar_text hnames.1),
    newline_not_mem_of_isWordChar hnames.2.1.isWordChar,
    VarDec.newline_not_mem_listText hnames.2.2.1]

theorem outline_inj {first second : MethodDef κ}
    (hfirst : ∀ name ∈ first.names, IsIdentifier name)
    (hsecond : ∀ name ∈ second.names, IsIdentifier name)
    (houtline : first.outline = second.outline) : first = second := by
  simp only [names, List.forall_mem_append, List.forall_mem_cons,
    List.forall_mem_flatMap] at hfirst hsecond
  simp only [outline, Outline.node.injEq, List.cons.injEq, and_true] at houtline
  have hbody := Stmt.outline_inj hfirst.2.2.2 hsecond.2.2.2 houtline.2
  have hlabel : first.returnTy.text.toList ++ ' ' ::
        (first.name.text.toList ++ (VarDec.listText first.params).toList) =
      second.returnTy.text.toList ++ ' ' ::
        (second.name.text.toList ++ (VarDec.listText second.params).toList) := by
    simpa [String.append_assoc] using congrArg String.toList houtline.1
  have hparen (vars : List VarDec) :
      ∀ c ∈ (VarDec.listText vars).toList.head?, isWordChar c = false := by
    rw [VarDec.toList_listText]
    exact head_cons_of_class (by decide) _
  rcases append_inj_of_class (Ty.isWordChar_text hfirst.1) (Ty.isWordChar_text hsecond.1)
    (head_cons_of_class (by decide) _) (head_cons_of_class (by decide) _) hlabel with ⟨hty, hrest⟩
  rcases hfirst.2.1.append_inj hsecond.2.1 (hparen _) (hparen _) (List.cons.inj hrest).2 with
    ⟨hname, hparams⟩
  have hsameTy := Ty.text_inj hfirst.1 hsecond.1 (String.toList_inj.mp hty)
  have hsameParams := VarDec.listText_inj hfirst.2.2.1 hsecond.2.2.1 (String.toList_inj.mp hparams)
  cases first with
  | mk returnTy name params body =>
      cases second with
      | mk otherTy otherName otherParams otherBody =>
          cases name
          cases otherName
          cases hname
          cases hsameTy
          cases hsameParams
          cases hbody
          rfl

end MethodDef

namespace ClassDef

theorem isLabel_of_mem_labels {definition : ClassDef κ}
    (hnames : ∀ name ∈ definition.names, IsIdentifier name) :
    ∀ label ∈ definition.outline.labels, Outline.IsLabel label := by
  simp only [names, List.forall_mem_append, List.forall_mem_cons, List.forall_mem_flatMap,
    Exp.forall_mem_namesOfAll, Stmt.forall_mem_namesOfAll] at hnames
  rcases hnames with ⟨hname, hparent, ⟨⟨⟨hfields, hparams⟩, hsuper⟩, hbody⟩, hmethods⟩
  rw [outline, Outline.forall_mem_labels_node]
  constructor
  · simp only [String.append_assoc]
    apply Outline.isLabel_append (by simp [Outline.IsLabel]) (by simp)
    simp [newline_not_mem_of_isWordChar hname.isWordChar,
      newline_not_mem_of_isWordChar hparent.isWordChar]
  · simp only [List.forall_mem_append, List.forall_mem_map, List.forall_mem_singleton]
    refine ⟨⟨?_, ?_⟩, ?_⟩
    · intro field hfield
      rw [Outline.forall_mem_labels_leaf]
      exact Outline.isLabel_append (by simp [Outline.IsLabel]) (by simp)
        (VarDec.not_mem_text (hfields field hfield) (by decide) (by decide))
    · rw [Outline.forall_mem_labels_node, List.forall_mem_cons, Outline.forall_mem_labels_node,
        Exp.outlines_eq_map, Stmt.outlines_eq_map, List.forall_mem_map, List.forall_mem_map]
      refine ⟨?_, ⟨by simp [Outline.IsLabel], ?_⟩, ?_⟩
      · exact Outline.isLabel_append (by simp [Outline.IsLabel]) (by simp)
          (VarDec.newline_not_mem_listText hparams)
      · exact fun arg harg => Exp.isLabel_of_mem_labels (hsuper arg harg)
      · exact fun stmt hstmt => Stmt.isLabel_of_mem_labels (hbody stmt hstmt)
    · exact fun method hmethod => MethodDef.isLabel_of_mem_labels (hmethods method hmethod)

theorem outline_inj {first second : ClassDef κ}
    (hfirst : ∀ name ∈ first.names, IsIdentifier name)
    (hsecond : ∀ name ∈ second.names, IsIdentifier name)
    (houtline : first.outline = second.outline) : first = second := by
  simp only [names, List.forall_mem_append, List.forall_mem_cons, List.forall_mem_flatMap,
    Exp.forall_mem_namesOfAll, Stmt.forall_mem_namesOfAll] at hfirst hsecond
  rcases hfirst with ⟨hname, hparent, ⟨⟨⟨hfields, hparams⟩, hsuper⟩, hbody⟩, hmethods⟩
  rcases hsecond with ⟨hname', hparent', ⟨⟨⟨hfields', hparams'⟩, hsuper'⟩, hbody'⟩, hmethods'⟩
  simp only [outline, Outline.node.injEq, List.append_assoc, List.singleton_append] at houtline
  have hlabel : first.name.text.toList ++ " extends ".toList ++ first.parent.text.toList =
      second.name.text.toList ++ " extends ".toList ++ second.parent.text.toList := by
    simpa [String.append_assoc] using congrArg String.toList houtline.1
  rw [List.append_assoc, List.append_assoc] at hlabel
  have hspace (parent : List Char) :
      ∀ c ∈ (" extends ".toList ++ parent).head?, isWordChar c = false := by
    simpa using (by decide : isWordChar ' ' = false)
  rcases hname.append_inj hname' (hspace _) (hspace _) hlabel with ⟨hsameName, hrest⟩
  have hsameParent := String.toList_inj.mp (List.append_cancel_left hrest)
  -- The constructor is the first child that is no field.
  have hleaves (fields : List VarDec) :
      ∀ child ∈ fields.map (fun field => Outline.leaf ("field " ++ field.text)),
        decide (child.heading = "field".toList) = true := by
    simp [Outline.leaf, Outline.heading]
  rcases append_inj_of_class (hleaves _) (hleaves _) (by simp [Outline.heading])
    (by simp [Outline.heading]) houtline.2 with ⟨hleafs, hothers⟩
  have hsameFields : first.fields = second.fields := by
    apply map_inj_of_mem _ hleafs
    intro field hfield other hother hlabels
    have htext : field.text = other.text := by simpa [Outline.leaf] using hlabels
    exact VarDec.text_inj (hfields field hfield) (hfields' other hother) htext
  simp only [List.cons.injEq, Outline.node.injEq, true_and] at hothers
  have hsameParams : first.params = second.params := by
    apply VarDec.listText_inj hparams hparams'
    simpa using hothers.1.1
  have hsameSuper : first.superArgs = second.superArgs := by
    rw [Exp.outlines_eq_map, Exp.outlines_eq_map] at hothers
    apply map_inj_of_mem _ hothers.1.2.1
    exact fun arg harg other hother => Exp.outline_inj (hsuper arg harg) (hsuper' other hother)
  have hsameBody : first.body = second.body := by
    rw [Stmt.outlines_eq_map, Stmt.outlines_eq_map] at hothers
    apply map_inj_of_mem _ hothers.1.2.2
    exact fun stmt hstmt other hother => Stmt.outline_inj (hbody stmt hstmt) (hbody' other hother)
  have hsameMethods : first.methods = second.methods := by
    apply map_inj_of_mem _ hothers.2
    exact fun method hmethod other hother =>
      MethodDef.outline_inj (hmethods method hmethod) (hmethods' other hother)
  cases first with
  | mk name parent fields params superArgs body methods =>
      cases second with
      | mk name' parent' fields' params' superArgs' body' methods' =>
          cases name
          cases name'
          cases hsameName
          cases parent
          cases parent'
          cases hsameParent
          cases hsameFields
          cases hsameParams
          cases hsameSuper
          cases hsameBody
          cases hsameMethods
          rfl

end ClassDef

/-- The texts of two trees of a kind are the same only if the trees are, as long as their names
are identifiers. -/
def TellsApart {τ : Type} (names : τ → List String) (text : τ → String) : Prop :=
  ∀ first second, (∀ name ∈ names first, IsIdentifier name) →
    (∀ name ∈ names second, IsIdentifier name) → text first = text second → first = second

theorem Exp.tellsApart_text :
    TellsApart Exp.names fun value : Exp κ => value.outline.text := by
  intro first second hfirst hsecond htext
  exact outline_inj hfirst hsecond
    (Outline.text_inj (isLabel_of_mem_labels hfirst) (isLabel_of_mem_labels hsecond) htext)

theorem Stmt.tellsApart_text :
    TellsApart Stmt.names fun stmt : Stmt κ => stmt.outline.text := by
  intro first second hfirst hsecond htext
  exact outline_inj hfirst hsecond
    (Outline.text_inj (isLabel_of_mem_labels hfirst) (isLabel_of_mem_labels hsecond) htext)

theorem Program.isLabel_of_mem_labels {program : Program κ}
    (hnames : ∀ name ∈ program.names, IsIdentifier name) :
    ∀ label ∈ Outline.labelsOfAll program.outlines, Outline.IsLabel label := by
  simp only [names, List.forall_mem_append, List.forall_mem_flatMap] at hnames
  simp only [Outline.forall_mem_labelsOfAll, outlines, List.forall_mem_append,
    List.forall_mem_map, List.forall_mem_singleton]
  refine ⟨fun definition hmem => ClassDef.isLabel_of_mem_labels (hnames.1 definition hmem), ?_⟩
  rw [Outline.forall_mem_labels_node, List.forall_mem_singleton]
  exact ⟨by simp [Outline.IsLabel], Stmt.isLabel_of_mem_labels hnames.2⟩

theorem Program.tellsApart_text :
    TellsApart Program.names (Program.outlineText : Program κ → String) := by
  intro first second hfirst hsecond htext
  have houtlines : first.outlines = second.outlines :=
    Outline.textOfAll_inj (isLabel_of_mem_labels hfirst) (isLabel_of_mem_labels hsecond) htext
  simp only [names, List.forall_mem_append, List.forall_mem_flatMap] at hfirst hsecond
  rcases List.append_inj' houtlines rfl with ⟨hclasses, hlast⟩
  have hsameClasses : first.classes = second.classes := by
    apply map_inj_of_mem _ hclasses
    exact fun definition hmem other hother =>
      ClassDef.outline_inj (hfirst.1 definition hmem) (hsecond.1 other hother)
  have hentry : first.entry.outline = second.entry.outline := by simpa using hlast
  have hsameEntry := Stmt.outline_inj hfirst.2 hsecond.2 hentry
  cases first
  cases second
  cases hsameClasses
  cases hsameEntry
  rfl

end

/-- No outline stands for two trees, be it of expressions, statements or programs, with or
without the classes of the receivers. -/
theorem outlines_lose_nothing :
    TellsApart Program.names (Program.outlineText : Program Plain → String) ∧
    TellsApart Program.names (Program.outlineText : Program Resolved → String) ∧
    TellsApart Stmt.names (fun stmt : Stmt Plain => stmt.outline.text) ∧
    TellsApart Stmt.names (fun stmt : Stmt Resolved => stmt.outline.text) ∧
    TellsApart Exp.names (fun value : Exp Plain => value.outline.text) ∧
    TellsApart Exp.names (fun value : Exp Resolved => value.outline.text) :=
  ⟨Program.tellsApart_text, Program.tellsApart_text, Stmt.tellsApart_text,
    Stmt.tellsApart_text, Exp.tellsApart_text, Exp.tellsApart_text⟩

/-- A constructor that hands `x` to its parent and does nothing, or hands nothing over and
evaluates `x`, in a program that ends with `last`. -/
def handingProgram (args : List (Exp Resolved)) (body : List (Stmt Resolved))
    (last : Stmt Resolved) : Program Resolved where
  classes := [⟨⟨"A"⟩, .root, [], [⟨.int, ⟨"x"⟩⟩], args, body, []⟩]
  entry := last

theorem outlines_lose_nothing_handingProgram :
    (∀ name ∈ (handingProgram [.var ⟨"x"⟩] [] .returnVoid).names, IsIdentifier name) ∧
      (handingProgram [.var ⟨"x"⟩] [] .returnVoid).outlineText ≠
        (handingProgram [] [.exp (.var ⟨"x"⟩)] .returnVoid).outlineText ∧
      (handingProgram [] [] (.block [.returnValue .this])).outlineText ≠
        (handingProgram [] [] (.block [.returnVoid, .exp .this])).outlineText := by
  have hnames : ∀ name ∈ (handingProgram [.var ⟨"x"⟩] [] .returnVoid).names,
      IsIdentifier name := by decide +kernel
  refine ⟨hnames, ?_, ?_⟩
  · intro htext
    have hsame := outlines_lose_nothing.2.1 _ _ hnames (by decide +kernel) htext
    simp [handingProgram] at hsame
  · intro htext
    have hsame := outlines_lose_nothing.2.1 _ _ (by decide +kernel) (by decide +kernel) htext
    simp [handingProgram] at hsame

end ClassLang
