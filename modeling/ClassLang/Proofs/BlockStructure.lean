import ClassLang.Proofs.BlockLayout
import ClassLang.Proofs.ExpressionCode

/-!
# The blocks of a script

A sequence becomes a nest of blocks: every statement after the first one opens a block
around itself and all that follow.  So a block directly holds the lines of one statement,
and with them at most one declaration.

If the names of a program are identifiers, they bring no braces or line breaks into the
script.  Then its blocks can be read off the text, and each line shows by its indentation
how many of them are open.
-/

namespace ClassLang

open Script Text

/-! ## The lines of instructions -/

theorem isInert_of_isWordPart {c : Char} (hc : Expr.isWordPart c = true) : isInert c = true := by
  simp only [isInert, Bool.and_eq_true, decide_eq_true_eq]
  refine ⟨⟨?_, ?_⟩, ?_⟩ <;> rintro rfl <;> revert hc <;> decide

theorem IsIdentifier.isInert {name : String} (hname : IsIdentifier name) :
    ∀ c ∈ name.toList, isInert c = true :=
  fun c hc => isInert_of_isWordPart (Expr.isWordPart_of_isIdentifier hname c hc)

namespace Script

theorem isInert_functionName {owner : ClassName} {member : String}
    (howner : IsIdentifier owner.text) (hmember : ∀ c ∈ member.toList, isInert c = true) :
    ∀ c ∈ (functionName owner member).toList, isInert c = true := by
  simp only [functionName, String.toList_append, List.forall_mem_append]
  exact ⟨⟨howner.isInert, isInert_literal rfl⟩, hmember⟩

theorem isInert_constructorMember : ∀ c ∈ constructorMember.toList, isInert c = true :=
  isInert_literal rfl

theorem isInert_constructorName {name : ClassName} (hname : IsIdentifier name.text) :
    ∀ c ∈ (constructorName name).toList, isInert c = true :=
  isInert_functionName hname isInert_constructorMember

namespace Expr

variable {bindable : VarName → Prop} {code : Expr}

theorem isInert_furtherText {args : List Expr}
    (hargs : ∀ arg ∈ args, ∀ c ∈ arg.text.toList, isInert c = true) :
    ∀ c ∈ (furtherText args).toList, isInert c = true := by
  induction args with
  | nil => simp [furtherText]
  | cons arg rest ih =>
      rw [List.forall_mem_cons] at hargs
      simp only [toList_furtherText_cons, List.forall_mem_cons, List.forall_mem_append]
      exact ⟨by decide, by decide, hargs.1, ih hargs.2⟩

theorem Legible.isInert (hcode : code.Legible bindable) :
    ∀ c ∈ code.text.toList, isInert c = true := by
  have hword {word : Expr} (hlegible : word.Legible bindable) (hopening : word.opening? = none) :
      ∀ c ∈ word.text.toList, Text.isInert c = true :=
    fun c hc => isInert_of_isWordPart (hlegible.isWordPart_of_mem hopening c hc)
  induction hcode with
  | int value => exact hword (.int value) rfl
  | bool value => exact hword (.bool value) rfl
  | binding hname hbindable => exact hword (.binding hname hbindable) rfl
  | member hname => exact hword (.member hname) rfl
  | receiver => exact hword .receiver rfl
  | binary op _ _ ihLhs ihRhs =>
      have hop : ∀ c ∈ op.text.toList, Text.isInert c = true := by
        cases op <;> simp [Op.text] <;> decide
      simp only [toList_text_binary, List.forall_mem_cons, List.forall_mem_append]
      exact ⟨by decide, ihLhs, by decide, hop, by decide, ihRhs, by decide, by simp⟩
  | dispatch slot _ _ ihTarget ihArgs =>
      have hslot : ∀ c ∈ slot.repr.toList, Text.isInert c = true := by
        intro c hc
        rw [Nat.toList_repr] at hc
        have hdigit := (Token.isNumber_toDigits slot).chars c hc
        exact isInert_of_isWordPart (by simp [isWordPart, Token.isWordChar_of_isDigit hdigit])
      simp only [toList_text_dispatch, List.forall_mem_cons, List.forall_mem_append]
      exact ⟨isInert_literal rfl, ihTarget, by decide, by decide, hslot, isInert_furtherText ihArgs,
        by decide, by simp⟩
  | make hname _ ihArgs =>
      simp only [toList_text_make, List.forall_mem_cons, List.forall_mem_append]
      exact ⟨isInert_literal rfl, hname.isInert, by decide, by decide,
        isInert_constructorName hname, isInert_furtherText ihArgs, by decide, by simp⟩

theorem Legible.head_ne (hcode : code.Legible bindable) :
    ∀ c ∈ code.text.toList.head?, c ≠ ' ' := by
  have hspace {c : Char} (hc : isWordPart c = true) : c ≠ ' ' := by
    rintro rfl
    revert hc
    decide
  intro c hc
  cases hopening : code.opening? with
  | none => exact hspace (hcode.isWordPart_of_mem hopening c (List.mem_of_mem_head? hc))
  | some word =>
      rcases exists_text_of_opening? hopening with ⟨hword, inside, hinside⟩
      rw [hinside] at hc
      exact head_append_ne (fun c hc => hspace (hword c (List.mem_of_mem_head? hc))) (by simp) c hc

end Expr

/-- A sentence that consists of code and of fixed words before and after it. -/
theorem isSentence_wrap {bindable : VarName → Prop} {value : Expr} {before after : String}
    (hbefore : ∀ c ∈ before.toList, isInert c = true)
    (hflush : ∀ c ∈ before.toList.head?, c ≠ ' ')
    (hafter : ∀ c ∈ after.toList, isInert c = true) (hend : ∀ c ∈ after.toList.head?, c ≠ ' ')
    (hvalue : value.Legible bindable) : IsSentence (before ++ value.text ++ after) := by
  apply isSentence_of_isInert
  · simp only [String.toList_append, List.forall_mem_append]
    exact ⟨⟨hbefore, hvalue.isInert⟩, hafter⟩
  · rw [String.toList_append, String.toList_append]
    exact head_append_ne (head_append_ne hflush hvalue.head_ne) hend

end Script

namespace Exp

theorem forall_mem_names_erase {κ : Type} [NamedNote κ] {value : Exp κ} {P : String → Prop}
    (hnames : ∀ name ∈ value.names, P name) : ∀ name ∈ value.erase.names, P name := by
  induction value with
  | int | bool | this => simp [erase, names]
  | var name => simpa [erase, names] using hnames
  | binary op lhs rhs ihLhs ihRhs =>
      simp only [erase, names, List.forall_mem_append] at hnames ⊢
      exact ⟨ihLhs hnames.1, ihRhs hnames.2⟩
  | call receiver method args note ihReceiver ihArgs =>
      simp only [erase, names, eraseAll_eq_map, List.forall_mem_append, List.forall_mem_cons,
        forall_mem_namesOfAll, List.forall_mem_map] at hnames ⊢
      exact ⟨ihReceiver hnames.1, hnames.2.1,
        fun arg harg => ihArgs arg harg (hnames.2.2.1 arg harg), by simp [NamedNote.names]⟩
  | new name args ihArgs =>
      simp only [erase, names, eraseAll_eq_map, List.forall_mem_cons, forall_mem_namesOfAll,
        List.forall_mem_map] at hnames ⊢
      exact ⟨hnames.1, fun arg harg => ihArgs arg harg (hnames.2 arg harg)⟩

theorem legible_of_names {tables : DispatchTables} {locals : Locals} {value : Exp Resolved}
    {code : Expr} (hnames : ∀ name ∈ value.names, IsIdentifier name)
    (hlower : value.lower tables locals = .ok code) : code.Legible fun _ => True :=
  legible_lower (forall_mem_names_erase hnames) (by simp) hlower

theorem legible_place (locals : Locals) {name : VarName} (hname : IsIdentifier name.text) :
    Expr.Legible (fun _ => True) (.read (locals.place name)) ∧
      (locals.place name).text.toList ≠ [] := by
  unfold Locals.place
  split
  next =>
    rcases hname.exists_cons with ⟨c, rest, hlist, -⟩
    exact ⟨.binding hname trivial, by simp [Place.text, hlist]⟩
  next => exact ⟨.member hname, by simp [Place.text]⟩

end Exp

namespace Script.Instr

theorem lays_of_sentence {instr : Instr} {content : String} (hcontent : IsSentence content)
    (hlines : ∀ depth, instr.lines depth = [indented depth content]) :
    Lays fun depth => instr.lines depth := by
  simp only [hlines]
  exact lays_line hcontent

theorem linesOfAll_singleton (depth : Nat) (instr : Instr) :
    linesOfAll depth [instr] = instr.lines depth := by
  simp [linesOfAll]

theorem isHeading_nil : IsHeading "" :=
  isHeading_of_isInert (by simp) (by simp) (by simp [BeginsLet])

theorem isHeading_guard {bindable : VarName → Prop} {guard : Expr} {word : String}
    (hword : word ≠ "") (hstart : ∀ c ∈ word.toList.head?, c ≠ ' ' ∧ c ≠ 'l')
    (hinert : ∀ c ∈ word.toList, isInert c = true) (hguard : guard.Legible bindable) :
    IsHeading (word ++ guard.text ++ ") ") := by
  cases hlist : word.toList with
  | nil => exact absurd (String.toList_inj.mp hlist) hword
  | cons c rest =>
      rw [hlist] at hstart
      have hc := hstart c rfl
      apply isHeading_of_isInert
      · simp only [String.toList_append, List.forall_mem_append]
        exact ⟨⟨hinert, hguard.isInert⟩, isInert_literal rfl⟩
      · simp [hlist, hc.1]
      · simp [BeginsLet, hlist, hc.2.symm]

theorem isHeading_if {bindable : VarName → Prop} {guard : Expr} (hguard : guard.Legible bindable) :
    IsHeading ("if (" ++ guard.text ++ ") ") :=
  isHeading_guard (by simp) (by simp) (isInert_literal rfl) hguard

theorem isHeading_while {bindable : VarName → Prop} {guard : Expr}
    (hguard : guard.Legible bindable) : IsHeading ("while (" ++ guard.text ++ ") ") :=
  isHeading_guard (by simp) (by simp) (isInert_literal rfl) hguard

theorem brace_append (text : String) : text ++ ") \x7b" = text ++ ") " ++ "\x7b" := by
  rw [String.append_assoc]
  rfl

variable {body : List Instr}

theorem lines_block (depth : Nat) :
    (block body).lines depth = blockLines "" (fun depth => linesOfAll depth body) depth := by
  simp [lines, blockLines]

theorem lines_whileLoop (guard : Expr) (depth : Nat) :
    (whileLoop guard body).lines depth =
      blockLines ("while (" ++ guard.text ++ ") ") (fun depth => linesOfAll depth body) depth := by
  rw [lines, brace_append, blockLines]

theorem lines_ifElse (guard : Expr) (other : List Instr) (depth : Nat) :
    (ifElse guard body other).lines depth =
      alternativeLines ("if (" ++ guard.text ++ ") ") (fun depth => linesOfAll depth body)
        (fun depth => linesOfAll depth other) depth := by
  rw [lines, brace_append, alternativeLines]

theorem leaves_block (hbody : Lays fun depth => linesOfAll depth body) :
    Leaves fun depth => (block body).lines depth := by
  simp only [lines_block]
  exact leaves_blockLines isHeading_nil hbody

theorem leaves_braced (hbody : Lays fun depth => linesOfAll depth body) :
    Leaves fun depth => linesOfAll depth (braced body) := by
  cases body with
  | nil => exact fun nesting => .nil
  | cons first rest => simpa only [braced, linesOfAll_singleton] using leaves_block hbody

theorem lays_cons_braced {first : Instr} (hfirst : Lays fun depth => first.lines depth)
    (hbody : Lays fun depth => linesOfAll depth body) :
    Lays fun depth => linesOfAll depth (first :: braced body) :=
  hfirst.append (leaves_braced hbody)

end Script.Instr

namespace Stmt

variable {tables : DispatchTables}

theorem lays_lowerAll {body : List (Stmt Resolved)} {codes : List Instr} {locals : Locals}
    (hstmts : ∀ stmt ∈ body, ∀ locals code, stmt.lower tables locals = .ok code →
      Lays fun depth => code.lines depth)
    (hlower : lowerAll tables locals body = .ok codes) :
    Lays fun depth => Instr.linesOfAll depth codes := by
  induction body generalizing codes locals with
  | nil =>
      cases hlower
      exact Leaves.lays fun nesting => .nil
  | cons stmt rest ih =>
      rw [List.forall_mem_cons] at hstmts
      simp only [lowerAll, bind_eq_ok_iff, pure_eq_ok_iff] at hlower
      rcases hlower with ⟨first, hfirst, others, hothers, rfl⟩
      exact Instr.lays_cons_braced (hstmts.1 locals first hfirst) (ih hstmts.2 hothers)

/-- The statements that hold no others. -/
def isSimple {κ : Type} : Stmt κ → Bool
  | ifElse _ _ _ | whileLoop _ _ | block _ => false
  | _ => true

theorem exists_sentence {stmt : Stmt Resolved} {code : Instr} {locals : Locals}
    (hsimple : stmt.isSimple = true) (hnames : ∀ name ∈ stmt.names, IsIdentifier name)
    (hlower : stmt.lower tables locals = .ok code) :
    code.unbraced = [code] ∧
      ∃ content, IsSentence content ∧ ∀ depth, code.lines depth = [indented depth content] := by
  have hsemicolon : ∀ c ∈ ";".toList, isInert c = true := isInert_literal rfl
  have hassign : ∀ c ∈ " = ".toList, isInert c = true := isInert_literal rfl
  cases stmt with
  | exp value =>
      simp only [lower, bind_eq_ok_iff, pure_eq_ok_iff] at hlower
      rcases hlower with ⟨content, hcontent, rfl⟩
      have hlegible := Exp.legible_of_names hnames hcontent
      refine ⟨rfl, "" ++ content.text ++ ";", ?_, by simp [Instr.lines]⟩
      exact isSentence_wrap (by simp) (by simp) hsemicolon (by simp) hlegible
  | declare var value =>
      simp only [names, VarDec.names, List.forall_mem_append, List.forall_mem_singleton] at hnames
      simp only [lower, bind_eq_ok_iff, pure_eq_ok_iff] at hlower
      rcases hlower with ⟨content, hcontent, rfl⟩
      have hlegible := Exp.legible_of_names hnames.2 hcontent
      refine ⟨rfl, "let " ++ var.name.text ++ " = " ++ content.text ++ ";", ?_,
        by simp [Instr.lines]⟩
      apply isSentence_wrap _ (by simp) hsemicolon (by simp) hlegible
      simp only [String.toList_append, List.forall_mem_append]
      exact ⟨⟨isInert_literal rfl, hnames.1.2.isInert⟩, hassign⟩
  | assign target value =>
      simp only [names, List.forall_mem_cons] at hnames
      simp only [lower, bind_eq_ok_iff, pure_eq_ok_iff] at hlower
      rcases hlower with ⟨content, hcontent, rfl⟩
      have hlegible := Exp.legible_of_names hnames.2 hcontent
      have hplace := Exp.legible_place locals hnames.1
      refine ⟨rfl, (locals.place target).text ++ " = " ++ content.text ++ ";", ?_,
        by simp [Instr.lines]⟩
      apply isSentence_wrap _ _ hsemicolon (by simp) hlegible
      · simp only [String.toList_append, List.forall_mem_append]
        exact ⟨hplace.1.isInert, hassign⟩
      · rw [String.toList_append, List.head?_append_of_ne_nil _ hplace.2]
        exact hplace.1.head_ne
  | returnValue value =>
      simp only [lower, bind_eq_ok_iff, pure_eq_ok_iff] at hlower
      rcases hlower with ⟨content, hcontent, rfl⟩
      have hlegible := Exp.legible_of_names hnames hcontent
      refine ⟨rfl, "return " ++ content.text ++ ";", ?_, by simp [Instr.lines]⟩
      exact isSentence_wrap (isInert_literal rfl) (by simp) hsemicolon (by simp) hlegible
  | returnVoid =>
      cases hlower
      refine ⟨rfl, "return;", ?_, by simp [Instr.lines]⟩
      exact isSentence_of_isInert (isInert_literal rfl) (by simp)
  | println value =>
      simp only [lower, bind_eq_ok_iff, pure_eq_ok_iff] at hlower
      rcases hlower with ⟨content, hcontent, rfl⟩
      have hlegible := Exp.legible_of_names hnames hcontent
      refine ⟨rfl, "console.log(" ++ content.text ++ ");", ?_, by simp [Instr.lines]⟩
      exact isSentence_wrap (isInert_literal rfl) (by simp) (isInert_literal rfl) (by simp) hlegible
  | ifElse | whileLoop | block => cases hsimple

theorem lays_lower {stmt : Stmt Resolved} {code : Instr} {locals : Locals}
    (hnames : ∀ name ∈ stmt.names, IsIdentifier name)
    (hlower : stmt.lower tables locals = .ok code) :
    (Lays fun depth => code.lines depth) ∧
      Lays fun depth => Instr.linesOfAll depth code.unbraced := by
  have hsingle {code : Instr} (hunbraced : code.unbraced = [code])
      (hlays : Lays fun depth => code.lines depth) :
      (Lays fun depth => code.lines depth) ∧
        Lays fun depth => Instr.linesOfAll depth code.unbraced := by
    refine ⟨hlays, ?_⟩
    simpa only [hunbraced, Instr.linesOfAll_singleton] using hlays
  induction stmt generalizing code locals with
  | exp | declare | assign | returnValue | returnVoid | println =>
      rcases exists_sentence rfl hnames hlower with ⟨hunbraced, content, hcontent, hlines⟩
      exact hsingle hunbraced (Instr.lays_of_sentence hcontent hlines)
  | ifElse guard thenArm elseArm ihThen ihElse =>
      simp only [names, List.forall_mem_append] at hnames
      simp only [lower, bind_eq_ok_iff, pure_eq_ok_iff] at hlower
      rcases hlower with ⟨test, htest, thenPart, hthen, elsePart, helse, rfl⟩
      have hlegible := Exp.legible_of_names hnames.1 htest
      apply hsingle rfl
      simp only [Instr.lines_ifElse]
      exact (leaves_alternativeLines (Instr.isHeading_if hlegible) (ihThen hnames.2.1 hthen).2
        (ihElse hnames.2.2 helse).2).lays
  | whileLoop guard body ih =>
      simp only [names, List.forall_mem_append] at hnames
      simp only [lower, bind_eq_ok_iff, pure_eq_ok_iff] at hlower
      rcases hlower with ⟨test, htest, inner, hinner, rfl⟩
      have hlegible := Exp.legible_of_names hnames.1 htest
      apply hsingle rfl
      simp only [Instr.lines_whileLoop]
      exact (leaves_blockLines (Instr.isHeading_while hlegible) (ih hnames.2 hinner).2).lays
  | block body ih =>
      simp only [names, forall_mem_namesOfAll] at hnames
      simp only [lower, bind_eq_ok_iff, pure_eq_ok_iff] at hlower
      rcases hlower with ⟨codes, hcodes, rfl⟩
      have hlays := lays_lowerAll
        (fun stmt hstmt locals code hstmtLower => (ih stmt hstmt (hnames stmt hstmt) hstmtLower).1)
        hcodes
      exact ⟨(Instr.leaves_block hlays).lays, hlays⟩

end Stmt

/-! ## Functions, tables and scripts -/

namespace Script

/-- The first line of a function, up to its brace. -/
def Function.heading (function : Function) : String :=
  "function " ++ functionName function.owner function.member ++ "("
    ++ ", ".intercalate ("self" :: function.params.map VarName.text) ++ ") "

theorem Function.lines_eq (function : Function) :
    function.lines =
      blockLines function.heading (fun depth => Instr.linesOfAll depth function.body) 0 := by
  simp only [lines, heading, Instr.brace_append, blockLines, indented_zero]

theorem Function.isHeading_heading {function : Function}
    (howner : IsIdentifier function.owner.text)
    (hmember : ∀ c ∈ function.member.toList, isInert c = true)
    (hparams : ∀ param ∈ function.params, IsIdentifier param.text) :
    IsHeading function.heading := by
  have hall : ∀ c ∈ (", ".intercalate ("self" :: function.params.map VarName.text)).toList,
      isInert c = true := by
    apply isInert_intercalate
    rw [List.forall_mem_cons, List.forall_mem_map]
    exact ⟨isInert_literal rfl, fun param hparam => (hparams param hparam).isInert⟩
  apply isHeading_of_isInert
  · simp only [heading, String.toList_append, List.forall_mem_append]
    exact ⟨⟨⟨⟨isInert_literal rfl, isInert_functionName howner hmember⟩, isInert_literal rfl⟩,
      hall⟩, isInert_literal rfl⟩
  · simp [heading]
  · simp [heading, BeginsLet]

theorem Function.runs_lines {function : Function} (hheading : IsHeading function.heading)
    (hbody : Lays fun depth => Instr.linesOfAll depth function.body) :
    Runs [] function.lines [] := by
  rw [lines_eq]
  exact leaves_blockLines hheading hbody []

theorem runs_preamble : Runs [] preamble [] := by
  have hlines : preamble =
      [indented 0 ("function makeObject(vtable, constructor, ...params) " ++ "\x7b"),
        indented 1 ("let self = " ++ "\x7b\x7d" ++ ";"),
        indented 1 "self.vtable = vtable;",
        indented 1 "constructor(self, ...params);",
        indented 1 "return self;",
        indented 0 "\x7d",
        indented 0 ("function doCall(self, index, ...params) " ++ "\x7b"),
        indented 1 "return self.vtable[index](self, ...params);",
        indented 0 "\x7d",
        indented 0 ("function Object_constructor(self) " ++ "\x7b\x7d" ++ "")] := by
    rfl
  have hobject : IsSentence ("let self = " ++ "\x7b\x7d" ++ ";") :=
    isSentence_pair (isInert_literal rfl) (isInert_literal rfl) (by simp)
  have hroot : IsSentence ("function Object_constructor(self) " ++ "\x7b\x7d" ++ "") :=
    isSentence_pair (isInert_literal rfl) (by simp) (by simp)
  have hplain {content : String} {nesting : Nesting}
      (hinert : ∀ c ∈ content.toList, isInert c = true)
      (hflush : ∀ c ∈ content.toList.head?, c ≠ ' ') (hlet : ¬ BeginsLet content) :
      LineStep nesting (indented nesting.length content) nesting :=
    .sentence (isSentence_of_isInert hinert hflush) hlet
  have hheading {heading : String} (hinert : ∀ c ∈ heading.toList, isInert c = true)
      (hflush : ∀ c ∈ heading.toList.head?, c ≠ ' ') (hlet : ¬ BeginsLet (heading ++ "\x7b")) :
      LineStep [] (indented 0 (heading ++ "\x7b")) [false] :=
    .opening (isHeading_of_isInert hinert hflush hlet)
  rw [hlines]
  refine .cons (hheading (isInert_literal rfl) (by simp) (by simp [BeginsLet])) ?_
  refine .cons (.declaration hobject) ?_
  refine .cons (hplain (isInert_literal rfl) (by simp) (by simp [BeginsLet])) ?_
  refine .cons (hplain (isInert_literal rfl) (by simp) (by simp [BeginsLet])) ?_
  refine .cons (hplain (isInert_literal rfl) (by simp) (by simp [BeginsLet])) ?_
  refine .cons .closing ?_
  refine .cons (hheading (isInert_literal rfl) (by simp) (by simp [BeginsLet])) ?_
  refine .cons (hplain (isInert_literal rfl) (by simp) (by simp [BeginsLet])) ?_
  exact .cons .closing (.cons (.outermost hroot) .nil)

theorem isSentence_superCall {parent : ClassName} {args : List Expr}
    (hparent : IsIdentifier parent.text)
    (hargs : ∀ arg ∈ args, ∀ c ∈ arg.text.toList, isInert c = true) :
    IsSentence (constructorName parent ++ "(self" ++ Expr.furtherText args ++ ");") := by
  apply isSentence_of_isInert
  · simp only [String.toList_append, List.forall_mem_append]
    exact ⟨⟨⟨isInert_constructorName hparent, isInert_literal rfl⟩,
      Expr.isInert_furtherText hargs⟩, isInert_literal rfl⟩
  · rcases hparent.exists_cons with ⟨c, rest, hlist, hstart⟩
    have hc : c ≠ ' ' := by
      rintro rfl
      revert hstart
      decide
    simp [constructorName, functionName, hlist, hc]

theorem isSentence_tableLine {name : ClassName} {table : DispatchTable}
    (hname : IsIdentifier name.text)
    (hentries : ∀ entry ∈ table.entries,
      IsIdentifier entry.owner.text ∧ IsIdentifier entry.method.text) :
    IsSentence (tableLine name table) := by
  have hall : ∀ c ∈ (", ".intercalate (table.entries.map entryName)).toList, isInert c = true := by
    apply isInert_intercalate
    rw [List.forall_mem_map]
    intro entry hentry
    exact isInert_functionName (hentries entry hentry).1 (hentries entry hentry).2.isInert
  apply isSentence_of_isInert
  · simp only [tableLine, tableName, String.toList_append, List.forall_mem_append]
    exact ⟨⟨⟨⟨isInert_literal rfl, isInert_literal rfl, hname.isInert⟩, isInert_literal rfl⟩, hall⟩,
      isInert_literal rfl⟩
  · simp [tableLine]

end Script

section

variable {tables : DispatchTables}

theorem MethodDef.isHeading_lower {owner : ClassName} {method : MethodDef Resolved}
    {function : Function} (howner : IsIdentifier owner.text)
    (hnames : ∀ name ∈ method.names, IsIdentifier name)
    (hlower : method.lower tables owner = .ok function) : IsHeading function.heading := by
  simp only [names, VarDec.names, List.forall_mem_append, List.forall_mem_cons,
    List.forall_mem_flatMap] at hnames
  simp only [lower, bind_eq_ok_iff, pure_eq_ok_iff] at hlower
  rcases hlower with ⟨body, -, rfl⟩
  apply Function.isHeading_heading howner hnames.2.1.isInert
  simp only [Locals.ofParams, List.forall_mem_map]
  exact fun param hparam => (hnames.2.2.1 param hparam).2.1

theorem MethodDef.runs_lower {owner : ClassName} {method : MethodDef Resolved}
    {function : Function} (howner : IsIdentifier owner.text)
    (hnames : ∀ name ∈ method.names, IsIdentifier name)
    (hlower : method.lower tables owner = .ok function) : Runs [] function.lines [] := by
  apply Function.runs_lines (isHeading_lower howner hnames hlower)
  simp only [names, List.forall_mem_append, List.forall_mem_cons] at hnames
  simp only [lower, bind_eq_ok_iff, pure_eq_ok_iff] at hlower
  rcases hlower with ⟨body, hbody, rfl⟩
  simp only [Instr.linesOfAll_singleton]
  exact (Instr.leaves_block (Stmt.lays_lower hnames.2.2.2 hbody).2).lays

namespace ClassDef

variable {definition : ClassDef Resolved}

theorem isHeading_lowerConstructor {function : Function}
    (hnames : ∀ name ∈ definition.names, IsIdentifier name)
    (hlower : definition.lowerConstructor tables = .ok function) :
    IsHeading function.heading := by
  simp only [names, VarDec.names, List.forall_mem_append, List.forall_mem_cons,
    List.forall_mem_flatMap] at hnames
  rcases hnames with ⟨hname, -, ⟨⟨⟨⟨-, hparams⟩, -⟩, -⟩, -⟩⟩
  simp only [lowerConstructor, bind_eq_ok_iff, pure_eq_ok_iff] at hlower
  rcases hlower with ⟨superCodes, -, codes, -, rfl⟩
  apply Function.isHeading_heading hname isInert_constructorMember
  simp only [Locals.ofParams, List.forall_mem_map]
  exact fun param hparam => (hparams param hparam).2.1

theorem isSentence_lowerConstructor {locals : Locals} {codes : List Expr}
    (hnames : ∀ name ∈ definition.names, IsIdentifier name)
    (hlower : Exp.lowerAll tables locals definition.superArgs = .ok codes) :
    IsSentence
      (constructorName definition.parent ++ "(self" ++ Expr.furtherText codes ++ ");") := by
  simp only [names, List.forall_mem_append, List.forall_mem_cons,
    Exp.forall_mem_namesOfAll] at hnames
  have hlegible := Exp.legible_lowerAll
    (fun arg harg code => Exp.legible_of_names (hnames.2.2.1.1.2 arg harg)) hlower
  exact isSentence_superCall hnames.2.1 fun arg harg => (hlegible arg harg).isInert

theorem names_body (hnames : ∀ name ∈ definition.names, IsIdentifier name) :
    ∀ stmt ∈ definition.body, ∀ name ∈ stmt.names, IsIdentifier name := by
  simp only [names, List.forall_mem_append, List.forall_mem_cons,
    Stmt.forall_mem_namesOfAll] at hnames
  exact hnames.2.2.1.2

theorem names_methods (hnames : ∀ name ∈ definition.names, IsIdentifier name) :
    IsIdentifier definition.name.text ∧
      ∀ method ∈ definition.methods, ∀ name ∈ method.names, IsIdentifier name := by
  simp only [names, List.forall_mem_append, List.forall_mem_cons,
    List.forall_mem_flatMap] at hnames
  exact ⟨hnames.1, hnames.2.2.2⟩

theorem runs_lowerConstructor {function : Function}
    (hnames : ∀ name ∈ definition.names, IsIdentifier name)
    (hlower : definition.lowerConstructor tables = .ok function) :
    Runs [] function.lines [] := by
  apply Function.runs_lines (isHeading_lowerConstructor hnames hlower)
  simp only [lowerConstructor, bind_eq_ok_iff, pure_eq_ok_iff] at hlower
  rcases hlower with ⟨superCodes, hsuperCodes, codes, hcodes, rfl⟩
  apply Instr.lays_cons_braced
  · exact Instr.lays_of_sentence (isSentence_lowerConstructor hnames hsuperCodes)
      (by simp [Instr.lines])
  · exact Stmt.lays_lowerAll
      (fun stmt hstmt locals code hstmtLower =>
        (Stmt.lays_lower (names_body hnames stmt hstmt) hstmtLower).1) hcodes

theorem runs_lower {code : ClassCode} (hnames : ∀ name ∈ definition.names, IsIdentifier name)
    (hlower : definition.lower tables = .ok code) : Runs [] code.lines [] := by
  simp only [lower, bind_eq_ok_iff, pure_eq_ok_iff] at hlower
  rcases hlower with ⟨constructor, hconstructor, methods, hmethods, rfl⟩
  apply (definition.runs_lowerConstructor hnames hconstructor).append
  apply runs_flatMap
  intro function hfunction
  rcases exists_right_of_forall₂ (forall₂_of_mapM hmethods).flip hfunction with
    ⟨method, hmethod, hmethodLower⟩
  have hidentifiers := names_methods hnames
  exact MethodDef.runs_lower hidentifiers.1 (hidentifiers.2 method hmethod) hmethodLower

end ClassDef

end

namespace Program.CompilesTo

variable {program : Program Resolved} {hierarchy : Hierarchy Resolved} {script : Script}

theorem runs_tables (hcompiles : program.CompilesTo hierarchy script)
    (hclasses : hierarchy.classes = program.classes)
    (hnames : ∀ definition ∈ program.classes, ∀ name ∈ definition.names, IsIdentifier name) :
    Runs [] (script.tables.map fun (name, table) => tableLine name table) [] := by
  have hclassName : ∀ name ∈ ClassName.root :: program.classes.map ClassDef.name,
      IsIdentifier name.text := by
    rw [List.forall_mem_cons, List.forall_mem_map]
    exact ⟨by decide +kernel, fun definition hmem =>
      (ClassDef.names_methods (hnames definition hmem)).1⟩
  rw [List.map_eq_flatMap]
  apply runs_flatMap
  rintro ⟨name, table⟩ hmem
  rw [hcompiles.tables, List.mem_map] at hmem
  rcases hmem with ⟨owner, howner, htable⟩
  cases htable
  have hentries : ∀ entry ∈ (hierarchy.table name).entries,
      IsIdentifier entry.owner.text ∧ IsIdentifier entry.method.text := by
    intro entry hentry
    rcases Hierarchy.mem_entries_table hentry with
      ⟨definition, hdefinition, hname, method, hmethod, hmethodName⟩
    rw [hclasses] at hdefinition
    have hidentifiers := ClassDef.names_methods (hnames definition hdefinition)
    rw [← hname, ← hmethodName]
    exact ⟨hidentifiers.1, hidentifiers.2 method hmethod _ (by simp [MethodDef.names])⟩
  have hstep := LineStep.outermost (isSentence_tableLine (hclassName name howner) hentries)
  rw [indented_zero] at hstep
  exact .cons hstep .nil

theorem runs_classes (hcompiles : program.CompilesTo hierarchy script)
    (hnames : ∀ definition ∈ program.classes, ∀ name ∈ definition.names, IsIdentifier name) :
    Runs [] (script.classes.flatMap ClassCode.lines) [] := by
  apply runs_flatMap
  intro code hcode
  rcases exists_right_of_forall₂ hcompiles.classes.flip hcode with ⟨definition, hmem, hclass⟩
  exact ClassDef.runs_lower (hnames definition hmem) hclass

/-- The lines of a script leave no block open. -/
theorem runs_lines (hcompiles : program.CompilesTo hierarchy script)
    (hclasses : hierarchy.classes = program.classes)
    (hnames : ∀ name ∈ program.names, IsIdentifier name) : Runs [] script.lines [] := by
  simp only [names, List.forall_mem_append, List.forall_mem_flatMap] at hnames
  have hentry : Runs [] (script.entry.lines 0) [] := by
    rcases (Stmt.lays_lower hnames.2 hcompiles.entry).1 [] (by simp) with ⟨next, hrun, hlength, -⟩
    obtain rfl : next = [] := List.eq_nil_of_length_eq_zero hlength
    exact hrun
  exact ((runs_preamble.append (hcompiles.runs_tables hclasses hnames.1)).append
    (hcompiles.runs_classes hnames.1)).append hentry

end Program.CompilesTo

end ClassLang
