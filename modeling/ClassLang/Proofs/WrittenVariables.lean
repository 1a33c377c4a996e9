import ClassLang.Proofs.Identifiers
import ClassLang.Proofs.NameResolution
import ClassLang.Proofs.ScopeAgreement

/-!
# The text of variables

A variable is written as its bare name where a parameter or an earlier declaration has
that name, and otherwise as a member of `self`.  The checker has found it in its scope, so
then it is an instance variable of the class or of an ancestor.

The entry point belongs to no class: its variables are all declared, and none of them is
written as a member.
-/

namespace ClassLang

open Piece

/-- A use of a variable, with the names of the parameters and of the variables that are
declared before it. -/
structure Use where
  name : VarName
  visible : List VarName

def Use.text (use : Use) : String :=
  if use.name ∈ use.visible then use.name.text else "self." ++ use.name.text

def Occurrence.use? (occurrence : Occurrence) : Option Use :=
  match occurrence.subject with
  | .this => none
  | .var name _ => some ⟨name, occurrence.point.visible.map Prod.fst⟩

/-- The variables that a routine uses, in the order of the text. -/
def Routine.uses {κ : Type} (routine : Routine κ) : List Use :=
  routine.occurrences.filterMap Occurrence.use?

/-- Uses as they are written. -/
def writtenUses (occurrences : List Occurrence) : List (VarName × String) :=
  (occurrences.filterMap Occurrence.use?).map fun use => (use.name, use.text)

theorem writtenUses_append (first second : List Occurrence) :
    writtenUses (first ++ second) = writtenUses first ++ writtenUses second := by
  simp [writtenUses]

/-- The names that are bound in the code are those that are visible in the program. -/
def SameNames (locals : Locals) (visible : Visible) : Prop :=
  ∀ name, name ∈ locals ↔ name ∈ visible.map Prod.fst

/-! ## What is written -/

section

variable {tables : DispatchTables} {locals after : Locals} {pieces : List Piece} {point : Point}
  {visible : Visible}

theorem SameNames.text_eq (hsame : SameNames locals visible) (name : VarName) :
    (if name ∈ locals then name.text else "self." ++ name.text) =
      Use.text ⟨name, visible.map Prod.fst⟩ := by
  simp only [Use.text, hsame name]

theorem SameNames.declare (hsame : SameNames locals visible) (name : VarName) (binder : Binder) :
    SameNames (name :: locals) ((name, binder) :: visible) := by
  intro other
  simp only [List.map_cons, List.mem_cons, hsame other]

theorem Routine.sameNames {κ : Type} (routine : Routine κ) :
    SameNames (routine.params.map VarDec.name) routine.visible := by
  intro name
  simp only [Routine.visible, List.map_reverse, List.map_map, List.mem_reverse]
  change _ ↔ name ∈ List.map (VarDec.name ∘ Prod.fst) routine.params.zipIdx
  rw [← List.map_map, List.zipIdx_map_fst]

namespace Exp

theorem occurrencesOfAll_cons {κ : Type} (value : Exp κ) (rest : List (Exp κ)) :
    occurrencesOfAll point (value :: rest) =
      value.occurrences point ++ occurrencesOfAll point rest := by
  simp [occurrencesOfAll, occurrences, subjectsOfAll]

theorem variables_emitArgs {values : List (Exp Resolved)}
    (hvalues : ∀ value ∈ values, ∀ {pieces}, value.emit tables locals = .ok pieces →
      variablesOf pieces = writtenUses (value.occurrences point))
    (hemit : emitArgs tables locals values = .ok pieces) :
    variablesOf pieces = writtenUses (occurrencesOfAll point values) := by
  induction values generalizing pieces with
  | nil => cases hemit; rfl
  | cons value rest ih =>
      rw [List.forall_mem_cons] at hvalues
      simp only [emitArgs, bind_eq_ok_iff, pure_eq_ok_iff] at hemit
      rcases hemit with ⟨first, hfirst, others, hothers, rfl⟩
      rw [occurrencesOfAll_cons, writtenUses_append, ← hvalues.1 hfirst, ← ih hvalues.2 hothers]
      simp

theorem variables_emit (hsame : SameNames locals point.visible) {value : Exp Resolved}
    (hemit : value.emit tables locals = .ok pieces) :
    variablesOf pieces = writtenUses (value.occurrences point) := by
  induction value generalizing pieces with
  | int | bool | this => cases hemit; rfl
  | var name =>
      cases hemit
      rw [variablesOf_cons, var?_ofVariable, hsame.text_eq]
      rfl
  | binary op lhs rhs ihLhs ihRhs =>
      simp only [emit, bind_eq_ok_iff, pure_eq_ok_iff] at hemit
      rcases hemit with ⟨first, hfirst, second, hsecond, rfl⟩
      have hparts : (binary op lhs rhs).occurrences point =
          lhs.occurrences point ++ rhs.occurrences point := by
        simp [occurrences, subjects]
      rw [hparts, writtenUses_append, ← ihLhs hfirst, ← ihRhs hsecond]
      simp
  | call receiver method args name ihReceiver ihArgs =>
      simp only [emit, bind_eq_ok_iff, pure_eq_ok_iff] at hemit
      rcases hemit with ⟨slot, -, target, htarget, further, hfurther, rfl⟩
      have hargs := variables_emitArgs (fun arg harg _ => ihArgs arg harg) hfurther
      have hparts : (call receiver method args name).occurrences point =
          receiver.occurrences point ++ occurrencesOfAll point args := by
        simp [occurrences, occurrencesOfAll, subjects]
      rw [hparts, writtenUses_append, ← ihReceiver htarget, ← hargs]
      simp
  | new name args ihArgs =>
      simp only [emit, bind_eq_ok_iff, pure_eq_ok_iff] at hemit
      rcases hemit with ⟨further, hfurther, rfl⟩
      have hargs := variables_emitArgs (fun arg harg _ => ihArgs arg harg) hfurther
      have hparts : (new name args).occurrences point = occurrencesOfAll point args := by
        simp [occurrences, occurrencesOfAll, subjects]
      rw [hparts, ← hargs]
      simp

end Exp

namespace Stmt

theorem variables_emitStmts {body : List (Stmt Resolved)} {depth : Nat}
    (hstmts : ∀ stmt ∈ body, ∀ {locals after pieces visible bare depth} number,
      SameNames locals visible → stmt.emit tables bare depth locals = .ok (after, pieces) →
        variablesOf pieces = writtenUses (stmt.occurrences visible number) ∧
          SameNames after (stmt.extend visible number))
    (number : Nat) (hsame : SameNames locals visible)
    (hemit : emitAll tables depth locals body = .ok pieces) :
    variablesOf pieces = writtenUses (occurrencesOfAll visible number body) := by
  induction body generalizing locals pieces visible depth number with
  | nil => cases hemit; rfl
  | cons stmt rest ih =>
      rw [List.forall_mem_cons] at hstmts
      simp only [emitAll, bind_eq_ok_iff, pure_eq_ok_iff] at hemit
      rcases hemit with ⟨⟨bound, written⟩, hwritten, further, hfurther, rfl⟩
      rcases hstmts.1 number hsame hwritten with ⟨hhere, hbound⟩
      have hlater := ih hstmts.2 (number + stmt.declarations.length) hbound hfurther
      have hpieces : variablesOf (written ++ if rest.isEmpty then further else
          nested depth further) = variablesOf written ++ variablesOf further := by
        cases rest.isEmpty <;> simp
      rw [hpieces, occurrencesOfAll, writtenUses_append, hhere, hlater]

theorem variables_emit {stmt : Stmt Resolved} {bare : Bool} {depth : Nat} (number : Nat)
    (hsame : SameNames locals visible)
    (hemit : stmt.emit tables bare depth locals = .ok (after, pieces)) :
    variablesOf pieces = writtenUses (stmt.occurrences visible number) ∧
      SameNames after (stmt.extend visible number) := by
  induction stmt generalizing locals after pieces visible bare depth number with
  | exp value | returnValue value | println value =>
      simp only [emit, bind_eq_ok_iff, pure_eq_ok_iff, Prod.mk.injEq] at hemit
      rcases hemit with ⟨written, hwritten, rfl, rfl⟩
      refine ⟨?_, hsame⟩
      have hvalue : variablesOf written = writtenUses (value.occurrences ⟨visible, none⟩) :=
        Exp.variables_emit hsame hwritten
      rw [occurrences, ← hvalue]
      simp
  | declare var value =>
      simp only [emit, bind_eq_ok_iff, pure_eq_ok_iff, Prod.mk.injEq] at hemit
      rcases hemit with ⟨written, hwritten, rfl, rfl⟩
      refine ⟨?_, hsame.declare var.name _⟩
      rw [occurrences, ← Exp.variables_emit hsame hwritten]
      simp
  | assign target value =>
      simp only [emit, bind_eq_ok_iff, pure_eq_ok_iff, Prod.mk.injEq] at hemit
      rcases hemit with ⟨written, hwritten, rfl, rfl⟩
      refine ⟨?_, hsame⟩
      have hvalue : variablesOf written = writtenUses (value.occurrences ⟨visible, none⟩) :=
        Exp.variables_emit hsame hwritten
      have htarget : (assign target value).occurrences visible number =
          [⟨.var target .write, ⟨visible, none⟩⟩] ++ value.occurrences ⟨visible, none⟩ := rfl
      rw [htarget, writtenUses_append, ← hvalue]
      simp [writtenUses, Occurrence.use?, hsame.text_eq]
  | returnVoid =>
      cases hemit
      exact ⟨rfl, hsame⟩
  | ifElse guard thenArm elseArm ihThen ihElse =>
      simp only [emit, bind_eq_ok_iff, pure_eq_ok_iff, Prod.mk.injEq] at hemit
      rcases hemit with ⟨written, hwritten, ⟨_, first⟩, hfirst, ⟨_, second⟩, hsecond, rfl, rfl⟩
      refine ⟨?_, hsame⟩
      rw [occurrences, writtenUses_append, writtenUses_append, ← Exp.variables_emit hsame hwritten,
        ← (ihThen number hsame hfirst).1,
        ← (ihElse _ hsame hsecond).1]
      simp
  | whileLoop guard body ih =>
      simp only [emit, bind_eq_ok_iff, pure_eq_ok_iff, Prod.mk.injEq] at hemit
      rcases hemit with ⟨written, hwritten, ⟨_, inside⟩, hinside, rfl, rfl⟩
      refine ⟨?_, hsame⟩
      rw [occurrences, writtenUses_append, ← Exp.variables_emit hsame hwritten,
        ← (ih number hsame hinside).1]
      simp
  | block body ih =>
      simp only [emit, bind_eq_ok_iff, pure_eq_ok_iff, Prod.mk.injEq] at hemit
      rcases hemit with ⟨inside, hinside, rfl, rfl⟩
      refine ⟨?_, hsame⟩
      rw [occurrences, ← variables_emitStmts (fun stmt hstmt _ _ _ _ _ _ => ih stmt hstmt) number
        hsame hinside]
      cases bare <;> simp

end Stmt

theorem Routine.writtenUses_occurrences {κ : Type} (routine : Routine κ) :
    writtenUses routine.occurrences = routine.uses.map fun use => (use.name, use.text) :=
  rfl

theorem MethodDef.variables_emit {owner : ClassName} {method : MethodDef Resolved}
    (hemit : method.emit tables owner = .ok pieces) :
    variablesOf pieces = writtenUses method.routine.occurrences := by
  simp only [emit, bind_eq_ok_iff, pure_eq_ok_iff] at hemit
  rcases hemit with ⟨⟨_, body⟩, hbody, rfl⟩
  have hsame := method.routine.sameNames
  have hvariables := (Stmt.variables_emit 0 hsame hbody).1
  have hoccurrences : method.routine.occurrences =
      method.body.occurrences method.routine.visible 0 := by
    simp [Routine.occurrences, routine, Exp.occurrencesOfAll, Exp.subjectsOfAll,
      Stmt.occurrencesOfAll]
  rw [hoccurrences, ← hvariables]
  simp [functionHead]

namespace ClassDef

theorem variables_emitConstructor {definition : ClassDef Resolved}
    (hemit : definition.emitConstructor tables = .ok pieces) :
    variablesOf pieces = writtenUses
      (Routine.occurrences ⟨definition.params, definition.superArgs, definition.body⟩) := by
  simp only [emitConstructor, bind_eq_ok_iff, pure_eq_ok_iff] at hemit
  rcases hemit with ⟨superArgs, hsuper, body, hbody, rfl⟩
  have hsame :=
    Routine.sameNames ⟨definition.params, definition.superArgs, definition.body⟩
  rw [Routine.occurrences, writtenUses_append]
  generalize Routine.visible ⟨definition.params, definition.superArgs, definition.body⟩ = visible
    at hsame ⊢
  have hargs : variablesOf superArgs =
      writtenUses (Exp.occurrencesOfAll ⟨visible, none⟩ definition.superArgs) :=
    Exp.variables_emitArgs (fun _ _ _ => Exp.variables_emit hsame) hsuper
  have hstmts := Stmt.variables_emitStmts
    (fun _ _ _ _ _ _ _ _ number => Stmt.variables_emit number) 0 hsame hbody
  have hbraces : variablesOf (if definition.body.isEmpty then body else nested 1 body) =
      variablesOf body := by
    cases definition.body.isEmpty <;> simp
  generalize (if definition.body.isEmpty then body else nested 1 body) = inside at hbraces
  rw [← hargs, ← hstmts, ← hbraces]
  simp [functionHead]

/-- The code of a class has the uses of its routines, function by function. -/
theorem variables_emit {definition : ClassDef Resolved} {functions : List (List Piece)}
    (hemit : definition.emit tables = .ok functions) :
    functions.map variablesOf =
      definition.routines.map fun routine => writtenUses routine.occurrences := by
  simp only [emit, bind_eq_ok_iff, pure_eq_ok_iff] at hemit
  rcases hemit with ⟨constructor, hconstructor, methods, hmethods, rfl⟩
  have hlater : methods.map variablesOf = definition.methods.map fun method =>
      writtenUses method.routine.occurrences :=
    map_of_mapM (fun _ _ => MethodDef.variables_emit) hmethods
  rw [routines, List.map_cons, List.map_cons, variables_emitConstructor hconstructor, hlater,
    List.map_map]
  rfl

end ClassDef

end

/-! ## Variables that are no local ones -/

/-- A variable that the program uses is a local one or one of the given fields. -/
def Occurrence.Known (fields : List VarName) (occurrence : Occurrence) : Prop :=
  ∀ name access, occurrence.subject = .var name access →
    name ∈ fields ∨ name ∈ occurrence.point.visible.map Prod.fst

theorem Covers.extend {κ : Type} {fields : List VarName} {scope : Scope} {visible : Visible}
    (hcovers : Covers fields scope (visible.map Prod.fst)) (stmt : Stmt κ) (number : Nat) :
    Covers fields (scope.after stmt) ((stmt.extend visible number).map Prod.fst) := by
  unfold Scope.after Stmt.extend
  cases stmt.declared? with
  | none => exact hcovers
  | some var => exact hcovers.declare var

theorem Routine.covers_visible {κ : Type} (hierarchy : Hierarchy Plain) (owner : ClassName)
    (routine : Routine κ) :
    Covers (hierarchy.fieldNames (some owner)) (.ofBody (hierarchy.fields owner) routine.params)
      (routine.visible.map Prod.fst) := by
  intro name
  rw [← routine.sameNames name]
  exact covers_bodyScope hierarchy owner routine.params name

section

variable {κ : Type} [Note κ] {hierarchy : Hierarchy Plain} {context : Context}
  {fields : List VarName} {scope : Scope}

theorem Scope.Binds.mem {name : VarName} {ty : Ty} (hbinds : scope.Binds name ty) :
    name ∈ scope.map VarDec.name := by
  induction hbinds with
  | latest => exact List.mem_cons_self
  | earlier _ _ ih => exact List.mem_cons_of_mem _ ih

namespace Exp

theorem subjects_of_fit {args : List (Exp κ)} {params : List VarDec} {name : VarName}
    {access : Access}
    (hargs : ∀ arg ∈ args, ∀ ty, arg.HasType hierarchy.classes context scope ty →
      .var name access ∈ arg.subjects → name ∈ scope.map VarDec.name)
    (hfit : Fit hierarchy.classes context scope args params)
    (hsubject : .var name access ∈ subjectsOfAll args) : name ∈ scope.map VarDec.name := by
  induction args generalizing params with
  | nil => cases hsubject
  | cons arg rest ih =>
      rw [List.forall_mem_cons] at hargs
      rw [subjectsOfAll, List.mem_append] at hsubject
      cases hfit with
      | cons htype _ hrest =>
          rcases hsubject with hhead | htail
          · exact hargs.1 _ htype hhead
          · exact ih hargs.2 hrest htail

/-- Every variable of a typed expression is in scope. -/
theorem HasType.mem_scope {value : Exp κ} {ty : Ty} {name : VarName} {access : Access}
    (htype : value.HasType hierarchy.classes context scope ty)
    (hsubject : .var name access ∈ value.subjects) : name ∈ scope.map VarDec.name := by
  induction value generalizing ty with
  | int | bool => simp [subjects] at hsubject
  | this => simp [subjects] at hsubject
  | var other =>
      cases htype with
      | var hbinds =>
          simp only [subjects, List.mem_singleton, Subject.var.injEq] at hsubject
          rw [hsubject.1]
          exact hbinds.mem
  | binary op lhs rhs ihLhs ihRhs =>
      rw [subjects, List.mem_append] at hsubject
      cases htype with
      | binary hlhs hrhs => exact hsubject.elim (ihLhs hlhs) (ihRhs hrhs)
  | call receiver method args note ihReceiver ihArgs =>
      rw [subjects, List.mem_append] at hsubject
      cases htype with
      | call hreceiver _ hfit _ =>
          rcases hsubject with hhere | hargs
          · exact ihReceiver hreceiver hhere
          · exact subjects_of_fit (fun arg harg _ => ihArgs arg harg) hfit hargs
  | new name args ihArgs =>
      rw [subjects] at hsubject
      cases htype with
      | new _ hfit => exact subjects_of_fit (fun arg harg _ => ihArgs arg harg) hfit hsubject

theorem HasType.known {value : Exp κ} {ty : Ty} {point : Point}
    (hcovers : Covers fields scope (point.visible.map Prod.fst))
    (htype : value.HasType hierarchy.classes context scope ty) :
    ∀ occurrence ∈ value.occurrences point, occurrence.Known fields := by
  intro occurrence hoccurrence name access hsubject
  rcases List.mem_map.mp hoccurrence with ⟨subject, hmem, rfl⟩
  subst hsubject
  exact (hcovers name).mp (htype.mem_scope hmem)

theorem Fit.known {args : List (Exp κ)} {params : List VarDec} {point : Point}
    (hcovers : Covers fields scope (point.visible.map Prod.fst))
    (hfit : Fit hierarchy.classes context scope args params) :
    ∀ occurrence ∈ occurrencesOfAll point args, occurrence.Known fields := by
  intro occurrence hoccurrence name access hsubject
  rcases List.mem_map.mp hoccurrence with ⟨subject, hmem, rfl⟩
  subst hsubject
  exact (hcovers name).mp (subjects_of_fit (fun _ _ _ => HasType.mem_scope) hfit hmem)

end Exp

namespace Stmt

theorem known_of_seqWellTyped {body : List (Stmt κ)} {visible : Visible}
    (hstmts : ∀ stmt ∈ body, ∀ {scope visible} number,
      Covers fields scope (visible.map Prod.fst) → stmt.WellTyped hierarchy.classes context scope →
        ∀ occurrence ∈ stmt.occurrences visible number, occurrence.Known fields)
    (number : Nat) (hcovers : Covers fields scope (visible.map Prod.fst))
    (htyped : SeqWellTyped hierarchy.classes context scope body) :
    ∀ occurrence ∈ occurrencesOfAll visible number body, occurrence.Known fields := by
  induction body generalizing scope visible number with
  | nil => simp [occurrencesOfAll]
  | cons stmt rest ih =>
      rw [List.forall_mem_cons] at hstmts
      rw [occurrencesOfAll, List.forall_mem_append]
      rcases seqWellTyped_cons_iff.mp htyped with ⟨hstmt, hrest⟩
      exact ⟨hstmts.1 number hcovers hstmt, ih hstmts.2 _ (hcovers.extend stmt number) hrest⟩

theorem known_of_wellTyped {stmt : Stmt κ} {visible : Visible} (number : Nat)
    (hcovers : Covers fields scope (visible.map Prod.fst))
    (htyped : stmt.WellTyped hierarchy.classes context scope) :
    ∀ occurrence ∈ stmt.occurrences visible number, occurrence.Known fields := by
  induction stmt generalizing scope visible number with
  | exp value =>
      cases htyped with
      | exp htype => exact htype.known hcovers
  | println value =>
      cases htyped with
      | println htype => exact htype.known hcovers
  | declare var value =>
      cases htyped with
      | declare _ hused =>
          rcases hused with ⟨actual, htype, -⟩
          exact htype.known hcovers
  | returnValue value =>
      cases htyped with
      | returnValue _ hused =>
          rcases hused with ⟨actual, htype, -⟩
          exact htype.known hcovers
  | returnVoid => simp [occurrences]
  | assign target value =>
      cases htyped with
      | assign hbinds hused =>
          rcases hused with ⟨actual, htype, -⟩
          rw [occurrences, List.forall_mem_cons]
          refine ⟨?_, htype.known hcovers⟩
          intro name access hsubject
          cases hsubject
          exact (hcovers target).mp hbinds.mem
  | ifElse guard thenArm elseArm ihThen ihElse =>
      cases htyped with
      | ifElse hguard hthen helse =>
          rw [occurrences, List.forall_mem_append, List.forall_mem_append]
          exact ⟨hguard.known hcovers, ihThen number hcovers hthen, ihElse _ hcovers helse⟩
  | whileLoop guard body ih =>
      cases htyped with
      | whileLoop hguard hbody =>
          rw [occurrences, List.forall_mem_append]
          exact ⟨hguard.known hcovers, ih number hcovers hbody⟩
  | block body ih =>
      cases htyped with
      | block hbody =>
          exact known_of_seqWellTyped (fun stmt hstmt _ _ => ih stmt hstmt) number hcovers hbody

end Stmt

theorem ClassDef.WellTyped.known {definition : ClassDef κ}
    (htyped : definition.WellTyped hierarchy.classes) :
    ∀ routine ∈ definition.routines, ∀ occurrence ∈ routine.occurrences,
      occurrence.Known (hierarchy.fieldNames (some definition.name)) := by
  rcases htyped with ⟨fields, htyped⟩
  rcases Hierarchy.hasFields_iff.mp htyped.hasFields with ⟨-, rfl⟩
  rcases htyped.superArgs with ⟨taken, -, hfit⟩
  unfold ClassDef.routines
  rw [List.forall_mem_cons, List.forall_mem_map]
  constructor
  · have hcovers := Routine.covers_visible hierarchy definition.name
      ⟨definition.params, definition.superArgs, definition.body⟩
    rw [Routine.occurrences, List.forall_mem_append]
    refine ⟨hfit.known hcovers, ?_⟩
    exact Stmt.known_of_seqWellTyped (fun _ _ _ _ => Stmt.known_of_wellTyped) 0 hcovers
      htyped.body
  · intro method hmethod
    have hcovers := Routine.covers_visible hierarchy definition.name method.routine
    have hbody := Stmt.known_of_wellTyped 0 hcovers (htyped.methods method hmethod).body
    simpa [Routine.occurrences, MethodDef.routine, Exp.occurrencesOfAll, Exp.subjectsOfAll,
      Stmt.occurrencesOfAll] using hbody

end

/-! ## The variables of a routine -/

/-- How a use is written: as a bare name exactly if the name is that of a parameter or of an
earlier declaration, and as a member of `self` exactly if it is not, and then it is that of
one of the fields. -/
structure Writes (fields : List VarName) (use : Use) (written : VarName × String) : Prop where
  name : written.1 = use.name
  bare : written.2 = use.name.text ↔ use.name ∈ use.visible
  member : written.2 = "self." ++ use.name.text ↔ use.name ∉ use.visible
  field : use.name ∉ use.visible → use.name ∈ fields

/-- The code of a routine, use by use. -/
def Routine.Writes {κ : Type} (fields : List VarName) (routine : Routine κ)
    (pieces : List Piece) : Prop :=
  List.Forall₂ (ClassLang.Writes fields) routine.uses (variablesOf pieces)

theorem qualified_ne (name : VarName) : "self." ++ name.text ≠ name.text := by
  intro hsame
  have hlength := congrArg String.length hsame
  simp at hlength

theorem Use.writes {fields : List VarName} {use : Use}
    (hknown : use.name ∈ fields ∨ use.name ∈ use.visible) :
    Writes fields use (use.name, use.text) := by
  by_cases hvisible : use.name ∈ use.visible
  · refine ⟨rfl, ?_, ?_, fun hhidden => absurd hvisible hhidden⟩
    · simp [text, hvisible]
    · simp [text, hvisible, (qualified_ne use.name).symm]
  · refine ⟨rfl, ?_, ?_, fun hhidden => hknown.resolve_right hhidden⟩
    · simp [text, hvisible]
    · simp [text, hvisible]

theorem Routine.writes_of_known {κ : Type} {fields : List VarName} {routine : Routine κ}
    {pieces : List Piece} (hknown : ∀ occurrence ∈ routine.occurrences, occurrence.Known fields)
    (hvariables : variablesOf pieces = writtenUses routine.occurrences) :
    routine.Writes fields pieces := by
  unfold Writes
  rw [hvariables, writtenUses_occurrences, List.forall₂_map_right_iff, List.forall₂_same]
  intro use huse
  rcases List.mem_filterMap.mp huse with ⟨⟨subject, point⟩, hoccurrence, hfound⟩
  cases subject with
  | this => cases hfound
  | var name access =>
      cases hfound
      exact Use.writes (hknown _ hoccurrence name access rfl)

theorem Routine.uses_erase {κ : Type} (routine : Routine κ) :
    routine.erase.uses = routine.uses := by
  rw [uses, uses, occurrences_erase]

theorem ClassDef.WellTyped.writes {hierarchy : Hierarchy Plain} {tables : DispatchTables}
    {definition : ClassDef Resolved} {functions : List (List Piece)}
    (htyped : definition.WellTyped hierarchy.classes)
    (hemit : definition.emit tables = .ok functions) :
    List.Forall₂ (Routine.Writes (hierarchy.fieldNames (some definition.name)))
      definition.erase.routines functions := by
  rw [ClassDef.routines_erase, List.forall₂_map_left_iff]
  apply forall₂_imp_of_mem (forall₂_of_map_eq (variables_emit hemit))
  intro routine hroutine pieces hvariables
  have hwrites := Routine.writes_of_known (htyped.known routine hroutine) hvariables
  unfold Routine.Writes at hwrites ⊢
  rwa [Routine.uses_erase]

namespace Program

theorem WellTyped.writes_classes {hierarchy : Hierarchy Plain} {checked : Program Resolved}
    {emission : Emission} (htyped : checked.WellTyped hierarchy.classes)
    (hemit : checked.emit = .ok emission) :
    List.Forall₂
      (fun definition functions => List.Forall₂
        (Routine.Writes (hierarchy.fieldNames (some definition.name)))
        definition.routines functions)
      checked.erase.classes emission.classes := by
  simp only [emit, bind_eq_ok_iff, pure_eq_ok_iff] at hemit
  rcases hemit with ⟨_, -, _, -, classes, hclasses, _, -, rfl⟩
  unfold erase
  rw [List.forall₂_map_left_iff]
  apply forall₂_imp_of_mem (forall₂_of_mapM hclasses)
  intro definition hdefinition functions hfunctions
  exact (htyped.definitions definition hdefinition).writes hfunctions

theorem WellTyped.writes_entry {hierarchy : Hierarchy Plain} {checked : Program Resolved}
    {emission : Emission} (htyped : checked.WellTyped hierarchy.classes)
    (hemit : checked.emit = .ok emission) :
    checked.entryRoutine.Writes [] emission.entry := by
  simp only [emit, bind_eq_ok_iff, pure_eq_ok_iff] at hemit
  rcases hemit with ⟨_, -, _, -, _, -, ⟨_, entry⟩, hentry, rfl⟩
  have hoccurrences : checked.entryRoutine.occurrences = checked.entry.occurrences [] 0 := by
    simp [Routine.occurrences, Routine.visible, entryRoutine, Exp.occurrencesOfAll,
      Exp.subjectsOfAll, Stmt.occurrencesOfAll]
  have hcovers : Covers [] [] (List.map Prod.fst ([] : Visible)) := by
    intro name
    simp
  have hsame : SameNames [] [] := by
    intro name
    simp
  apply Routine.writes_of_known
  · rw [hoccurrences]
    exact Stmt.known_of_wellTyped 0 hcovers htyped.entry
  · rw [hoccurrences]
    exact (Stmt.variables_emit 0 hsame hentry).1

end Program

theorem Routine.Writes.bare_of_no_fields {κ : Type} {routine : Routine κ} {pieces : List Piece}
    (hwrites : routine.Writes [] pieces) {name : VarName} {text : String}
    (hpiece : .var name text ∈ pieces) : text = name.text := by
  have hmem : (name, text) ∈ variablesOf pieces := List.mem_filterMap.mpr ⟨_, hpiece, rfl⟩
  rcases exists_right_of_forall₂ hwrites.flip hmem with ⟨use, -, hname, hbare, -, hfield⟩
  have hvisible : use.name ∈ use.visible := by
    by_contra hhidden
    cases hfield hhidden
  exact (hbare.mpr hvisible).trans (congrArg VarName.text hname.symm)

end ClassLang
