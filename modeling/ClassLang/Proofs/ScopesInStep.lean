import ClassLang.Proofs.WrittenVariables

/-!
# Scopes in step

The two passes see the same names, and so the text of a variable says what it is.  This
file adds what can be read off the text of the entry point: if no name in it has a dot,
`self.` does not occur, for the only dots in it are those of `console.log`.
-/

namespace ClassLang

open Piece

/-! ## The text of the entry point -/

/-- Every dot comes right after an `e`, as that of `console.log` does. -/
def DotsAfterE (text : List Char) : Prop :=
  ∀ before after, text = before ++ '.' :: after → before.getLast? = some 'e'

section

variable {first second text : List Char}

theorem dotsAfterE_of_not_mem (hnone : '.' ∉ text) : DotsAfterE text := by
  intro before after hsplit
  simp [hsplit] at hnone

theorem dotsAfterE_single (hfirst : '.' ∉ first) (hsecond : '.' ∉ second) :
    DotsAfterE (first ++ 'e' :: '.' :: second) := by
  intro before after hsplit
  rcases List.append_eq_append_iff.mp hsplit with ⟨middle, rfl, hrest⟩ | ⟨middle, rfl, hrest⟩
  · rcases middle with _ | ⟨c, _ | ⟨d, others⟩⟩
    · cases hrest
    · cases hrest
      simp
    · simp only [List.cons_append, List.cons.injEq] at hrest
      simp [hrest.2.2] at hsecond
  · rcases middle with _ | ⟨c, others⟩
    · cases hrest
    · cases hrest
      simp at hfirst

theorem DotsAfterE.append (hfirst : DotsAfterE first) (hsecond : DotsAfterE second) :
    DotsAfterE (first ++ second) := by
  intro before after hsplit
  rcases List.append_eq_append_iff.mp hsplit with ⟨middle, rfl, hrest⟩ | ⟨middle, hhere, hrest⟩
  · have hlast := hsecond middle after hrest
    have hsome : middle ≠ [] := by
      rintro rfl
      cases hlast
    rw [List.getLast?_append_of_ne_nil _ hsome, hlast]
  · cases middle with
    | nil =>
        rw [List.append_nil] at hhere
        have hlast := hsecond [] after (by simpa using hrest.symm)
        cases hlast
    | cons c others =>
        obtain ⟨rfl, hothers⟩ := List.cons.inj hrest
        exact hfirst before others hhere

/-- Then a dot does not come after `self`. -/
theorem DotsAfterE.not_contains (htext : DotsAfterE text) : ¬ "self.".toList <:+: text := by
  rintro ⟨before, after, hsplit⟩
  have hlast := htext (before ++ ['s', 'e', 'l', 'f']) after (by simp [← hsplit])
  simp at hlast

end

theorem dotsAfterE_log : DotsAfterE "console.log(".toList := by
  change DotsAfterE ("consol".toList ++ 'e' :: '.' :: "log(".toList)
  exact dotsAfterE_single (by decide) (by decide)

theorem not_mem_repr {value : Int} : '.' ∉ value.repr.toList := by
  intro hmem
  cases isNumeralChar_of_mem_repr hmem

/-- The dots in a piece of code are all after an `e`, and a variable has none in its name. -/
def Piece.KeepsDots : Piece → Prop
  | code text => DotsAfterE text.toList
  | var name _ => '.' ∉ name.text.toList
  | point _ => True

theorem Piece.dotsAfterE_textOfAll {pieces : List Piece}
    (hdots : ∀ piece ∈ pieces, piece.KeepsDots)
    (hbare : ∀ name text, .var name text ∈ pieces → text = name.text) :
    DotsAfterE (textOfAll pieces).toList := by
  induction pieces with
  | nil => exact dotsAfterE_of_not_mem (by simp)
  | cons piece rest ih =>
      rw [List.forall_mem_cons] at hdots
      rw [textOfAll_cons, String.toList_append]
      have hrest := ih hdots.2 fun name text hmem => hbare name text (List.mem_cons_of_mem _ hmem)
      refine DotsAfterE.append ?_ hrest
      cases piece with
      | code text => exact hdots.1
      | var name text =>
          obtain rfl := hbare name text List.mem_cons_self
          exact dotsAfterE_of_not_mem hdots.1
      | point reached => exact dotsAfterE_of_not_mem (by simp)

section

variable {tables : DispatchTables} {locals after : Locals} {pieces : List Piece} {depth : Nat}

theorem not_mem_indentation (depth : Nat) : '.' ∉ (indentation depth).toList := by
  induction depth with
  | zero => simp [indentation]
  | succ depth ih => simp [indentation, ih]

namespace Piece

theorem keepsDots_start {content : String} (hcontent : DotsAfterE content.toList) :
    (start depth content).KeepsDots := by
  change DotsAfterE (indentation depth ++ content).toList
  rw [String.toList_append]
  exact (dotsAfterE_of_not_mem (not_mem_indentation depth)).append hcontent

theorem keepsDots_line {content : String} (hcontent : '.' ∉ content.toList) :
    (line depth content).KeepsDots :=
  dotsAfterE_of_not_mem (by simp [not_mem_indentation, hcontent])

theorem keepsDots_code {content : String} (hcontent : '.' ∉ content.toList) :
    (code content).KeepsDots :=
  dotsAfterE_of_not_mem hcontent

theorem keepsDots_nested {inside : List Piece} (hinside : ∀ piece ∈ inside, piece.KeepsDots) :
    ∀ piece ∈ nested depth inside, piece.KeepsDots := by
  simp only [nested, List.cons_append, List.forall_mem_cons, List.forall_mem_append]
  exact ⟨keepsDots_line (by decide), hinside, keepsDots_line (by decide), by simp⟩

end Piece

namespace Exp

theorem keepsDots_emitArgs {values : List (Exp Resolved)}
    (hvalues : ∀ value ∈ values, ∀ {pieces}, (∀ name ∈ value.erase.names, '.' ∉ name.toList) →
      value.emit tables locals = .ok pieces → ∀ piece ∈ pieces, piece.KeepsDots)
    (hnames : ∀ name ∈ namesOfAll (eraseAll values), '.' ∉ name.toList)
    (hemit : emitArgs tables locals values = .ok pieces) : ∀ piece ∈ pieces, piece.KeepsDots := by
  induction values generalizing pieces with
  | nil => cases hemit; simp
  | cons value rest ih =>
      rw [List.forall_mem_cons] at hvalues
      simp only [eraseAll, namesOfAll, List.forall_mem_append] at hnames
      simp only [emitArgs, bind_eq_ok_iff, pure_eq_ok_iff] at hemit
      rcases hemit with ⟨first, hfirst, others, hothers, rfl⟩
      simp only [List.cons_append, List.forall_mem_cons, List.forall_mem_append]
      exact ⟨keepsDots_code (by decide), hvalues.1 hnames.1 hfirst, ih hvalues.2 hnames.2 hothers⟩

theorem keepsDots_emit {value : Exp Resolved}
    (hnames : ∀ name ∈ value.erase.names, '.' ∉ name.toList)
    (hemit : value.emit tables locals = .ok pieces) : ∀ piece ∈ pieces, piece.KeepsDots := by
  induction value generalizing pieces with
  | int value =>
      cases hemit
      exact List.forall_mem_singleton.mpr (keepsDots_code not_mem_repr)
  | bool value =>
      cases hemit
      exact List.forall_mem_singleton.mpr (keepsDots_code (by cases value <;> decide))
  | this =>
      cases hemit
      exact List.forall_mem_singleton.mpr (keepsDots_code (by decide))
  | var name =>
      cases hemit
      simpa [ofVariable, KeepsDots, erase, names] using hnames
  | binary op lhs rhs ihLhs ihRhs =>
      simp only [erase, names, List.forall_mem_append] at hnames
      simp only [emit, bind_eq_ok_iff, pure_eq_ok_iff] at hemit
      rcases hemit with ⟨first, hfirst, second, hsecond, rfl⟩
      simp only [List.cons_append, List.forall_mem_cons, List.forall_mem_append]
      have hop : '.' ∉ (" " ++ op.text ++ " ").toList := by cases op <;> decide
      exact ⟨keepsDots_code (by decide), ⟨ihLhs hnames.1 hfirst, keepsDots_code hop,
        ihRhs hnames.2 hsecond⟩, keepsDots_code (by decide), by simp⟩
  | call receiver method args name ihReceiver ihArgs =>
      simp only [erase, names, List.forall_mem_append, List.forall_mem_cons] at hnames
      simp only [emit, bind_eq_ok_iff, pure_eq_ok_iff] at hemit
      rcases hemit with ⟨slot, -, target, htarget, further, hfurther, rfl⟩
      have hargs := keepsDots_emitArgs (fun arg harg _ => ihArgs arg harg) hnames.2.2.1 hfurther
      have hslot : '.' ∉ (", " ++ slot.repr).toList := by
        have hrepr : '.' ∉ (Int.ofNat slot).repr.toList := not_mem_repr
        rw [String.toList_append, List.mem_append, not_or]
        exact ⟨by decide, hrepr⟩
      simp only [List.cons_append, List.forall_mem_cons, List.forall_mem_append]
      exact ⟨keepsDots_code (by decide), ⟨ihReceiver hnames.1 htarget, keepsDots_code hslot,
        hargs⟩, keepsDots_code (by decide), by simp⟩
  | new name args ihArgs =>
      simp only [erase, names, List.forall_mem_cons] at hnames
      simp only [emit, bind_eq_ok_iff, pure_eq_ok_iff] at hemit
      rcases hemit with ⟨further, hfurther, rfl⟩
      have hargs := keepsDots_emitArgs (fun arg harg _ => ihArgs arg harg) hnames.2 hfurther
      simp only [List.cons_append, List.forall_mem_cons, List.forall_mem_append]
      exact ⟨keepsDots_code (by simp [hnames.1]), hargs, keepsDots_code (by decide), by simp⟩

end Exp

namespace Stmt

theorem keepsDots_emitStmts {body : List (Stmt Resolved)}
    (hstmts : ∀ stmt ∈ body, ∀ {bare depth locals after pieces},
      (∀ name ∈ stmt.erase.names, '.' ∉ name.toList) →
      stmt.emit tables bare depth locals = .ok (after, pieces) → ∀ piece ∈ pieces, piece.KeepsDots)
    (hnames : ∀ name ∈ namesOfAll (eraseAll body), '.' ∉ name.toList)
    (hemit : emitAll tables depth locals body = .ok pieces) :
    ∀ piece ∈ pieces, piece.KeepsDots := by
  induction body generalizing locals pieces depth with
  | nil => cases hemit; simp [KeepsDots]
  | cons stmt rest ih =>
      rw [List.forall_mem_cons] at hstmts
      simp only [eraseAll, namesOfAll, List.forall_mem_append] at hnames
      simp only [emitAll, bind_eq_ok_iff, pure_eq_ok_iff] at hemit
      rcases hemit with ⟨⟨bound, written⟩, hwritten, further, hfurther, rfl⟩
      have hlater := ih hstmts.2 hnames.2 hfurther
      rw [List.forall_mem_append]
      refine ⟨hstmts.1 hnames.1 hwritten, ?_⟩
      split
      · exact hlater
      · exact keepsDots_nested hlater

/-- What is written for a statement that holds one expression. -/
theorem keepsDots_sentence {value : Exp Resolved} {written : List Piece} {before after : Piece}
    {reached : LowerPoint} (hnames : ∀ name ∈ value.erase.names, '.' ∉ name.toList)
    (hwritten : value.emit tables locals = .ok written) (hbefore : before.KeepsDots)
    (hafter : after.KeepsDots) :
    ∀ piece ∈ .point reached :: before :: written ++ [after], piece.KeepsDots := by
  simp only [List.cons_append, List.forall_mem_cons, List.forall_mem_append]
  exact ⟨trivial, hbefore, Exp.keepsDots_emit hnames hwritten, hafter, by simp⟩

theorem keepsDots_emit {stmt : Stmt Resolved} {bare : Bool}
    (hnames : ∀ name ∈ stmt.erase.names, '.' ∉ name.toList)
    (hemit : stmt.emit tables bare depth locals = .ok (after, pieces)) :
    ∀ piece ∈ pieces, piece.KeepsDots := by
  have hsemicolon : (code ";\n").KeepsDots := keepsDots_code (by decide)
  induction stmt generalizing locals after pieces bare depth with
  | exp value | returnValue value =>
      simp only [erase, names] at hnames
      simp only [emit, bind_eq_ok_iff, pure_eq_ok_iff, Prod.mk.injEq] at hemit
      rcases hemit with ⟨written, hwritten, rfl, rfl⟩
      exact keepsDots_sentence hnames hwritten
        (keepsDots_start (dotsAfterE_of_not_mem (by decide))) hsemicolon
  | println value =>
      simp only [erase, names] at hnames
      simp only [emit, bind_eq_ok_iff, pure_eq_ok_iff, Prod.mk.injEq] at hemit
      rcases hemit with ⟨written, hwritten, rfl, rfl⟩
      exact keepsDots_sentence hnames hwritten (keepsDots_start dotsAfterE_log)
        (keepsDots_code (by decide))
  | declare var value =>
      simp only [erase, names, VarDec.names, List.forall_mem_append] at hnames
      simp only [emit, bind_eq_ok_iff, pure_eq_ok_iff, Prod.mk.injEq] at hemit
      rcases hemit with ⟨written, hwritten, rfl, rfl⟩
      have hname : '.' ∉ var.name.text.toList := hnames.1.2 _ (by simp)
      exact keepsDots_sentence hnames.2 hwritten
        (keepsDots_start (dotsAfterE_of_not_mem (by simp [hname]))) hsemicolon
  | assign target value =>
      simp only [erase, names, List.forall_mem_cons] at hnames
      simp only [emit, bind_eq_ok_iff, pure_eq_ok_iff, Prod.mk.injEq] at hemit
      rcases hemit with ⟨written, hwritten, rfl, rfl⟩
      simp only [List.cons_append, List.forall_mem_cons, List.forall_mem_append]
      exact ⟨trivial, keepsDots_start (dotsAfterE_of_not_mem (by decide)), hnames.1,
        keepsDots_code (by decide), Exp.keepsDots_emit hnames.2 hwritten, hsemicolon, by simp⟩
  | returnVoid =>
      cases hemit
      simp only [List.forall_mem_cons]
      exact ⟨trivial, keepsDots_line (by decide), by simp⟩
  | ifElse guard thenArm elseArm ihThen ihElse =>
      simp only [erase, names, List.forall_mem_append] at hnames
      simp only [emit, bind_eq_ok_iff, pure_eq_ok_iff, Prod.mk.injEq] at hemit
      rcases hemit with ⟨written, hwritten, ⟨_, first⟩, hfirst, ⟨_, second⟩, hsecond, rfl, rfl⟩
      simp only [List.cons_append, List.forall_mem_cons, List.forall_mem_append]
      exact ⟨trivial, keepsDots_start (dotsAfterE_of_not_mem (by decide)),
        ⟨⟨Exp.keepsDots_emit hnames.1 hwritten, keepsDots_code (by decide),
          ihThen hnames.2.1 hfirst⟩, keepsDots_line (by decide), ihElse hnames.2.2 hsecond⟩,
        keepsDots_line (by decide), by simp⟩
  | whileLoop guard body ih =>
      simp only [erase, names, List.forall_mem_append] at hnames
      simp only [emit, bind_eq_ok_iff, pure_eq_ok_iff, Prod.mk.injEq] at hemit
      rcases hemit with ⟨written, hwritten, ⟨_, inside⟩, hinside, rfl, rfl⟩
      simp only [List.cons_append, List.forall_mem_cons, List.forall_mem_append]
      exact ⟨trivial, keepsDots_start (dotsAfterE_of_not_mem (by decide)),
        ⟨Exp.keepsDots_emit hnames.1 hwritten, keepsDots_code (by decide), ih hnames.2 hinside⟩,
        keepsDots_line (by decide), by simp⟩
  | block body ih =>
      simp only [erase, names] at hnames
      simp only [emit, bind_eq_ok_iff, pure_eq_ok_iff, Prod.mk.injEq] at hemit
      rcases hemit with ⟨inside, hinside, rfl, rfl⟩
      have hbody := keepsDots_emitStmts (fun stmt hstmt _ _ _ _ _ => ih stmt hstmt) hnames hinside
      rw [List.forall_mem_cons]
      refine ⟨trivial, ?_⟩
      split
      · exact hbody
      · exact keepsDots_nested hbody

end Stmt

end

/-- If no name in the entry point has a dot, `self.` does not occur in its text. -/
theorem Program.WellTyped.entry_not_qualified {hierarchy : Hierarchy Plain}
    {checked : Program Resolved} {emission : Emission}
    (htyped : checked.WellTyped hierarchy.classes) (hemit : checked.emit = .ok emission)
    (hnames : ∀ name ∈ checked.erase.entry.names, '.' ∉ name.toList) :
    ¬ "self.".toList <:+: (textOfAll emission.entry).toList := by
  have hwrites := htyped.writes_entry hemit
  simp only [Program.emit, bind_eq_ok_iff, pure_eq_ok_iff] at hemit
  rcases hemit with ⟨_, -, _, -, _, -, ⟨_, entry⟩, hentry, rfl⟩
  have hdots := Stmt.keepsDots_emit hnames hentry
  exact (dotsAfterE_textOfAll hdots fun _ _ => hwrites.bare_of_no_fields).not_contains

/-! ## Both passes -/

/-- The checker and the compiler come to the same points of a program that is well
typed, with the same names.  The one has the instance variables among them and the
other leaves them to the receiver.  So a variable is written as a member of `self` exactly
if it is an instance variable that no parameter and no earlier declaration hides, and in
the entry point none is.

Both walk along by themselves: each hands on what it knows after a statement.  Points
apart, the one does what the checker does, and the other writes the text of the script. -/
theorem scopes_in_step :
    (∀ program : Program Plain, program.checkTraced.map Prod.fst = program.check) ∧
    (∀ program : Program Resolved,
      program.emit.map Emission.text = program.lower.map Script.text) ∧
    ∀ (program : Program Plain) (checked : Program Resolved), program.check = .ok checked →
      ∃ hierarchy script points emission,
        program.hierarchy = .ok hierarchy ∧ checked.lower = .ok script ∧
        program.checkTraced = .ok (checked, points) ∧ checked.emit = .ok emission ∧
        emission.text = script.text ∧
        List.Forall₂ (InStep hierarchy) points emission.points ∧
        List.Forall₂
          (fun definition functions => List.Forall₂
            (Routine.Writes (hierarchy.fieldNames (some definition.name)))
            definition.routines functions)
          program.classes emission.classes ∧
        program.entryRoutine.Writes [] emission.entry ∧
        (∀ name text, .var name text ∈ emission.entry → text = name.text) ∧
        ((∀ name ∈ program.entry.names, '.' ∉ name.toList) →
          ¬ "self.".toList <:+: (textOfAll emission.entry).toList) := by
  refine ⟨Program.map_checkTraced, Program.text_emit, ?_⟩
  intro program checked hcheck
  rcases exists_lower_of_check hcheck with ⟨script, hlower⟩
  rcases exists_ok_of_map_eq (Program.text_emit checked).symm hlower with
    ⟨emission, hemit, htext⟩
  have htraced := Program.map_checkTraced program
  rw [hcheck] at htraced
  cases hpoints : program.checkTraced with
  | error error =>
      rw [hpoints] at htraced
      cases htraced
  | ok traced =>
      rw [hpoints] at htraced
      rcases traced with ⟨found, points⟩
      obtain rfl : found = checked := Except.ok.inj htraced
      rcases Program.inStep_walk hpoints hemit with ⟨hierarchy, hhierarchy, hwalk⟩
      rcases Program.check_eq_ok_iff.mp hcheck with ⟨other, hother, htyped, rfl⟩
      have hsame : other = hierarchy := by
        have hfound := Program.hierarchy_eq_ok_iff.mpr hother
        rw [hhierarchy] at hfound
        exact (Except.ok.inj hfound).symm
      subst hsame
      have hentry := htyped.writes_entry hemit
      have hplain : found.erase.entryRoutine.Writes [] emission.entry := by
        unfold Routine.Writes at hentry ⊢
        rwa [← Routine.uses_erase] at hentry
      exact ⟨other, script, points, emission, hhierarchy, hlower, rfl, hemit, htext.symm, hwalk,
        htyped.writes_classes hemit, hplain, fun _ _ => hentry.bare_of_no_fields,
        htyped.entry_not_qualified hemit⟩

/-- A class with an instance variable `x`, and one below it whose constructor and
method hide it, the one with a parameter and the other with a variable. -/
def hidingProgram (κ : Type) : Program κ where
  classes :=
    [⟨⟨"A"⟩, .root, [⟨.int, ⟨"x"⟩⟩], [⟨.int, ⟨"v"⟩⟩], [], [.assign ⟨"x"⟩ (.var ⟨"v"⟩)], []⟩,
      ⟨⟨"B"⟩, ⟨"A"⟩, [⟨.int, ⟨"y"⟩⟩], [⟨.int, ⟨"x"⟩⟩], [.var ⟨"x"⟩],
        [.assign ⟨"y"⟩ (.var ⟨"x"⟩)],
        [⟨.int, ⟨"m"⟩, [], .block [.assign ⟨"y"⟩ (.var ⟨"x"⟩), .declare ⟨.int, ⟨"x"⟩⟩ (.int 1),
          .returnValue (.binary .plus (.var ⟨"x"⟩) (.var ⟨"y"⟩))]⟩]⟩]
  entry := .block [.declare ⟨.int, ⟨"x"⟩⟩ (.int 2), .println (.var ⟨"x"⟩)]

theorem scopes_in_step_hidingProgram :
    (hidingProgram Plain).check = .ok (hidingProgram Resolved) ∧
      ∃ hierarchy points emission,
        (hidingProgram Plain).hierarchy = .ok hierarchy ∧
        (hidingProgram Plain).checkTraced = .ok (hidingProgram Resolved, points) ∧
        (hidingProgram Resolved).emit = .ok emission ∧
        List.Forall₂ (InStep hierarchy) points emission.points ∧
        ¬ "self.".toList <:+: (textOfAll emission.entry).toList := by
  have hcheck : (hidingProgram Plain).check = .ok (hidingProgram Resolved) := by
    rw [Program.check_of_faultless (by decide +kernel)]
    cbv
  have hnames : ∀ name ∈ (hidingProgram Plain).entry.names, '.' ∉ name.toList := by
    decide +kernel
  rcases scopes_in_step.2.2 _ _ hcheck with ⟨hierarchy, _, points, emission, hhierarchy, -,
    hpoints, hemit, -, hwalk, -, -, -, hentry⟩
  exact ⟨hcheck, hierarchy, points, emission, hhierarchy, hpoints, hemit, hwalk, hentry hnames⟩

end ClassLang
