import ClassLang.Proofs.CodeEmission
import ClassLang.Proofs.Pointwise

/-!
# The checker and the compiler see the same names

The checker keeps everything that can be named in one scope.  The compiler keeps the
parameters and the variables of the function only, and takes every other name for a
member of the receiver.  This is right because both walk through the same points of
the program, and at every point the scope holds the names that the compiler keeps and
those of the instance variables of the class, and no others.

Each of the two hands on by itself what is known after a statement.  So the agreement is
carried along a statement on both sides at once: if both agree before it, they agree at all
points inside of it and on what they hand on.
-/

namespace ClassLang

open Piece

/-- The names of the instance variables around a piece of code. -/
def Hierarchy.fieldNames (hierarchy : Hierarchy Plain) : Option ClassName → List VarName
  | some owner => (hierarchy.fields owner).map VarDec.name
  | none => []

/-- The names in scope are those of instance variables and the local ones. -/
def Covers (fields : List VarName) (scope : Scope) (locals : Locals) : Prop :=
  ∀ name, name ∈ scope.map VarDec.name ↔ name ∈ fields ∨ name ∈ locals

/-- The checker and the compiler come to the same point: the compiler has before it what
the checker has made of what is there. -/
inductive SameSite (hierarchy : Hierarchy Plain) : CheckPoint → LowerPoint → Prop where
  | stmt {next : Stmt Plain} {resolved : Stmt Resolved} {context : Context} {scope : Scope}
      {locals : Locals} :
      next.check hierarchy context scope = .ok resolved →
      SameSite hierarchy ⟨.stmt next, context, scope⟩ ⟨.stmt resolved, locals⟩
  | sequenceEnd {context : Context} {scope : Scope} {locals : Locals} :
      SameSite hierarchy ⟨.sequenceEnd, context, scope⟩ ⟨.sequenceEnd, locals⟩
  | superArgs {callee : Callee} {params : List VarDec} {values : List (Exp Plain)}
      {resolved : List (Exp Resolved)} {context : Context} {scope : Scope} {locals : Locals} :
      Exp.checkCall hierarchy context scope callee params values = .ok resolved →
      SameSite hierarchy ⟨.superArgs values, context, scope⟩ ⟨.superArgs resolved, locals⟩

structure InStep (hierarchy : Hierarchy Plain) (checked : CheckPoint) (lowered : LowerPoint) :
    Prop where
  site : SameSite hierarchy checked lowered
  names : Covers (hierarchy.fieldNames checked.context.receiver) checked.scope lowered.locals

/-! ## One step -/

section

variable {fields : List VarName} {scope : Scope} {locals : Locals}

/-- A declaration reaches both sides. -/
theorem Covers.declare (hcovers : Covers fields scope locals) (var : VarDec) :
    Covers fields (var :: scope) (var.name :: locals) := by
  intro name
  have hname := hcovers name
  simp only [List.map_cons, List.mem_cons, hname]
  tauto

theorem covers_bodyScope (hierarchy : Hierarchy Plain) (owner : ClassName)
    (params : List VarDec) :
    Covers (hierarchy.fieldNames (some owner)) (.ofBody (hierarchy.fields owner) params)
      (params.map VarDec.name) := by
  intro name
  simp only [Scope.ofBody, Hierarchy.fieldNames, List.map_append, List.map_reverse,
    List.mem_append, List.mem_reverse]
  tauto

end

/-! ## The points among the pieces -/

section

variable {tables : DispatchTables} {locals after : Locals} {pieces : List Piece}

namespace Exp

theorem points_emitArgs {values : List (Exp Resolved)}
    (hvalues : ∀ value ∈ values, ∀ {pieces}, value.emit tables locals = .ok pieces →
      pointsOf pieces = [])
    (hemit : emitArgs tables locals values = .ok pieces) : pointsOf pieces = [] := by
  induction values generalizing pieces with
  | nil => cases hemit; rfl
  | cons value rest ih =>
      rw [List.forall_mem_cons] at hvalues
      simp only [emitArgs, bind_eq_ok_iff, pure_eq_ok_iff] at hemit
      rcases hemit with ⟨first, hfirst, others, hothers, rfl⟩
      simp [hvalues.1 hfirst, ih hvalues.2 hothers]

/-- No point lies inside of an expression. -/
theorem points_emit {value : Exp Resolved} (hemit : value.emit tables locals = .ok pieces) :
    pointsOf pieces = [] := by
  induction value generalizing pieces with
  | int | bool | var | this => cases hemit; rfl
  | binary op lhs rhs ihLhs ihRhs =>
      simp only [emit, bind_eq_ok_iff, pure_eq_ok_iff] at hemit
      rcases hemit with ⟨first, hfirst, second, hsecond, rfl⟩
      simp [ihLhs hfirst, ihRhs hsecond]
  | call receiver method args name ihReceiver ihArgs =>
      simp only [emit, bind_eq_ok_iff, pure_eq_ok_iff] at hemit
      rcases hemit with ⟨slot, -, target, htarget, further, hfurther, rfl⟩
      have hargs := points_emitArgs (fun arg harg _ => ihArgs arg harg) hfurther
      simp [ihReceiver htarget, hargs]
  | new name args ihArgs =>
      simp only [emit, bind_eq_ok_iff, pure_eq_ok_iff] at hemit
      rcases hemit with ⟨further, hfurther, rfl⟩
      have hargs := points_emitArgs (fun arg harg _ => ihArgs arg harg) hfurther
      simp [hargs]

end Exp

/-- A statement that holds no others is one point, and hands on the names that it gets. -/
theorem Stmt.points_emit_of_isLeaf {stmt : Stmt Resolved} {bare : Bool} {depth : Nat}
    (hleaf : stmt.isLeaf = true)
    (hemit : stmt.emit tables bare depth locals = .ok (after, pieces)) :
    after = locals ∧ pointsOf pieces = [⟨.stmt stmt, locals⟩] := by
  cases stmt with
  | declare | ifElse | whileLoop | block => cases hleaf
  | returnVoid =>
      cases hemit
      exact ⟨rfl, rfl⟩
  | exp value | assign _ value | returnValue value | println value =>
      simp only [emit, bind_eq_ok_iff, pure_eq_ok_iff, Prod.mk.injEq] at hemit
      rcases hemit with ⟨written, hwritten, rfl, rfl⟩
      exact ⟨rfl, by simp [Exp.points_emit hwritten]⟩

end

/-! ## Whole walks -/

theorem forall₂_of_passes {ε ε' ρ ρ' α β γ : Type} {R : ρ → ρ' → Prop}
    {first : α → Except ε (β × List ρ)} {second : β → Except ε' γ} {reports : γ → List ρ'}
    (hitems : ∀ item result points code, first item = .ok (result, points) →
      second result = .ok code → List.Forall₂ R points (reports code))
    {items : List α} {results : List (β × List ρ)} {codes : List γ}
    (hfirst : items.mapM first = .ok results)
    (hsecond : (results.map Prod.fst).mapM second = .ok codes) :
    List.Forall₂ R (results.flatMap Prod.snd) (codes.flatMap reports) := by
  have hcodes := forall₂_of_mapM hsecond
  rw [List.forall₂_map_left_iff] at hcodes
  refine forall₂_flatMap hcodes fun result hresult code hcode => ?_
  rcases exists_right_of_forall₂ (forall₂_of_mapM hfirst).flip hresult with ⟨item, -, hitem⟩
  exact hitems item result.1 result.2 code hitem hcode

section

variable {hierarchy : Hierarchy Plain} {tables : DispatchTables} {context : Context}
  {scope next : Scope} {locals after : Locals} {points : List CheckPoint} {pieces : List Piece}
  {bare : Bool} {depth : Nat}

namespace Stmt

theorem isLeaf_erase {κ : Type} (stmt : Stmt κ) : stmt.erase.isLeaf = stmt.isLeaf := by
  cases stmt <;> rfl

theorem check_of_checkTraced {stmt : Stmt Plain} {resolved : Stmt Resolved}
    (hcheck : stmt.checkTraced hierarchy context scope = .ok ((resolved, next), points)) :
    stmt.check hierarchy context scope = .ok resolved := by
  rcases exists_ok_of_map_eq (map_checkTraced stmt scope) hcheck with ⟨found, hfound, hsame⟩
  rw [hfound, (Prod.mk.inj hsame).1]

/-- The checker and the compiler are in step before a statement. -/
theorem inStep_here {stmt : Stmt Plain} {resolved : Stmt Resolved}
    (hcovers : Covers (hierarchy.fieldNames context.receiver) scope locals)
    (hcheck : stmt.checkTraced hierarchy context scope = .ok ((resolved, next), points)) :
    InStep hierarchy ⟨.stmt stmt, context, scope⟩ ⟨.stmt resolved, locals⟩ :=
  ⟨.stmt (check_of_checkTraced hcheck), hcovers⟩

theorem inStep_of_isLeaf {stmt : Stmt Plain} {resolved : Stmt Resolved}
    (hleaf : stmt.isLeaf = true)
    (hcovers : Covers (hierarchy.fieldNames context.receiver) scope locals)
    (hcheck : stmt.checkTraced hierarchy context scope = .ok ((resolved, next), points))
    (hemit : resolved.emit tables bare depth locals = .ok (after, pieces)) :
    List.Forall₂ (InStep hierarchy) points (pointsOf pieces) ∧
      Covers (hierarchy.fieldNames context.receiver) next after := by
  have hhere := inStep_here hcovers hcheck
  have hsame : resolved.isLeaf = true := by
    rw [← isLeaf_erase, (wellTyped_of_check (check_of_checkTraced hcheck)).2]
    exact hleaf
  rcases points_emit_of_isLeaf hsame hemit with ⟨rfl, hpieces⟩
  rw [checkTraced_of_isLeaf hleaf] at hcheck
  simp only [bind_eq_ok_iff, pure_eq_ok_iff, Prod.mk.injEq] at hcheck
  rcases hcheck with ⟨_, -, ⟨rfl, rfl⟩, rfl⟩
  rw [hpieces]
  exact ⟨.cons hhere .nil, hcovers⟩

theorem inStep_stmts {body : List (Stmt Plain)} {resolved : List (Stmt Resolved)}
    (hstmts : ∀ stmt ∈ body, ∀ {scope next locals after points pieces resolved bare depth},
      Covers (hierarchy.fieldNames context.receiver) scope locals →
      stmt.checkTraced hierarchy context scope = .ok ((resolved, next), points) →
      resolved.emit tables bare depth locals = .ok (after, pieces) →
        List.Forall₂ (InStep hierarchy) points (pointsOf pieces) ∧
          Covers (hierarchy.fieldNames context.receiver) next after)
    (hcovers : Covers (hierarchy.fieldNames context.receiver) scope locals)
    (hcheck : checkAllTraced hierarchy context scope body = .ok ((resolved, next), points))
    (hemit : emitAll tables depth locals resolved = .ok pieces) :
    List.Forall₂ (InStep hierarchy) points (pointsOf pieces) := by
  induction body generalizing scope next locals points pieces resolved depth with
  | nil =>
      cases hcheck
      cases hemit
      exact .cons ⟨.sequenceEnd, hcovers⟩ .nil
  | cons stmt rest ih =>
      rw [List.forall_mem_cons] at hstmts
      simp only [checkAllTraced, bind_eq_ok_iff, pure_eq_ok_iff, Prod.mk.injEq] at hcheck
      rcases hcheck with ⟨⟨⟨first, between⟩, firstPoints⟩, hfirst, ⟨⟨others, behind⟩, otherPoints⟩,
        hothers, ⟨rfl, rfl⟩, rfl⟩
      simp only [emitAll, bind_eq_ok_iff, pure_eq_ok_iff] at hemit
      rcases hemit with ⟨⟨bound, written⟩, hwritten, further, hfurther, rfl⟩
      -- What the one hands on is covered by what the other hands on.
      rcases hstmts.1 hcovers hfirst hwritten with ⟨hhere, hbetween⟩
      have hlater := ih hstmts.2 hbetween hothers hfurther
      have hpieces : pointsOf (written ++ if others.isEmpty then further else
          nested depth further) = pointsOf written ++ pointsOf further := by
        cases others.isEmpty <;> simp
      rw [hpieces]
      exact List.rel_append hhere hlater

/-- The checker and the compiler walk along a statement in step, and what they hand on
agrees again. -/
theorem inStep_walk {stmt : Stmt Plain} {resolved : Stmt Resolved}
    (hcovers : Covers (hierarchy.fieldNames context.receiver) scope locals)
    (hcheck : stmt.checkTraced hierarchy context scope = .ok ((resolved, next), points))
    (hemit : resolved.emit tables bare depth locals = .ok (after, pieces)) :
    List.Forall₂ (InStep hierarchy) points (pointsOf pieces) ∧
      Covers (hierarchy.fieldNames context.receiver) next after := by
  induction stmt generalizing scope next locals after points pieces resolved bare depth with
  | exp | assign | returnValue | returnVoid | println =>
      exact inStep_of_isLeaf rfl hcovers hcheck hemit
  | declare var value =>
      have hhere := inStep_here hcovers hcheck
      simp only [checkTraced, bind_eq_ok_iff, pure_eq_ok_iff, Prod.mk.injEq] at hcheck
      rcases hcheck with ⟨_, -, found, hfound, ⟨rfl, rfl⟩, rfl⟩
      simp only [emit, bind_eq_ok_iff, pure_eq_ok_iff, Prod.mk.injEq] at hemit
      rcases hemit with ⟨written, hwritten, rfl, rfl⟩
      simp only [List.cons_append, pointsOf_cons, pointsOf_append, Exp.points_emit hwritten]
      exact ⟨.cons hhere .nil, hcovers.declare var⟩
  | ifElse guard thenArm elseArm ihThen ihElse =>
      have hhere := inStep_here hcovers hcheck
      simp only [checkTraced, bind_eq_ok_iff, pure_eq_ok_iff, Prod.mk.injEq] at hcheck
      rcases hcheck with ⟨_, -, ⟨⟨first, _⟩, firstPoints⟩, hfirst, ⟨⟨second, _⟩, secondPoints⟩,
        hsecond, ⟨rfl, rfl⟩, rfl⟩
      simp only [emit, bind_eq_ok_iff, pure_eq_ok_iff, Prod.mk.injEq] at hemit
      rcases hemit with ⟨written, hwritten, ⟨_, thenPieces⟩, hthen, ⟨_, elsePieces⟩, helse,
        rfl, rfl⟩
      -- Whatever an arm declares is dropped on both sides.
      have hthenWalk := (ihThen hcovers hfirst hthen).1
      have helseWalk := (ihElse hcovers hsecond helse).1
      refine ⟨?_, hcovers⟩
      simpa [Exp.points_emit hwritten] using
        List.Forall₂.cons hhere (List.rel_append hthenWalk helseWalk)
  | whileLoop guard body ih =>
      have hhere := inStep_here hcovers hcheck
      simp only [checkTraced, bind_eq_ok_iff, pure_eq_ok_iff, Prod.mk.injEq] at hcheck
      rcases hcheck with ⟨_, -, ⟨⟨inner, _⟩, innerPoints⟩, hinner, ⟨rfl, rfl⟩, rfl⟩
      simp only [emit, bind_eq_ok_iff, pure_eq_ok_iff, Prod.mk.injEq] at hemit
      rcases hemit with ⟨written, hwritten, ⟨_, innerPieces⟩, hpieces, rfl, rfl⟩
      have hwalk := (ih hcovers hinner hpieces).1
      refine ⟨?_, hcovers⟩
      simpa [Exp.points_emit hwritten] using List.Forall₂.cons hhere hwalk
  | block body ih =>
      have hhere := inStep_here hcovers hcheck
      simp only [checkTraced, bind_eq_ok_iff, pure_eq_ok_iff, Prod.mk.injEq] at hcheck
      rcases hcheck with ⟨⟨⟨inner, _⟩, innerPoints⟩, hinner, ⟨rfl, rfl⟩, rfl⟩
      simp only [emit, bind_eq_ok_iff, pure_eq_ok_iff, Prod.mk.injEq] at hemit
      rcases hemit with ⟨innerPieces, hpieces, rfl, rfl⟩
      have hwalk := inStep_stmts (fun stmt hstmt _ _ _ _ _ _ _ _ _ => ih stmt hstmt) hcovers
        hinner hpieces
      refine ⟨?_, hcovers⟩
      cases bare with
      | true => simpa using List.Forall₂.cons hhere hwalk
      | false => simpa using List.Forall₂.cons hhere hwalk

theorem inStep_walkAll {body : List (Stmt Plain)} {resolved : List (Stmt Resolved)}
    (hcovers : Covers (hierarchy.fieldNames context.receiver) scope locals)
    (hcheck : checkAllTraced hierarchy context scope body = .ok ((resolved, next), points))
    (hemit : emitAll tables depth locals resolved = .ok pieces) :
    List.Forall₂ (InStep hierarchy) points (pointsOf pieces) :=
  inStep_stmts (fun _ _ _ _ _ _ _ _ _ _ _ => inStep_walk) hcovers hcheck hemit

end Stmt

theorem MethodDef.inStep_walk {owner : ClassName} {method : MethodDef Plain}
    {resolved : MethodDef Resolved}
    (hcheck : method.checkTraced hierarchy owner (hierarchy.fields owner).reverse =
      .ok (resolved, points))
    (hemit : resolved.emit tables owner = .ok pieces) :
    List.Forall₂ (InStep hierarchy) points (pointsOf pieces) := by
  simp only [checkTraced, bind_eq_ok_iff, pure_eq_ok_iff, Prod.mk.injEq,
    Scope.ofParams_eq_ok_iff] at hcheck
  rcases hcheck with ⟨-, -, _, ⟨-, rfl⟩, ⟨⟨body, _⟩, bodyPoints⟩, hbody, rfl, rfl⟩
  simp only [emit, bind_eq_ok_iff, pure_eq_ok_iff] at hemit
  rcases hemit with ⟨⟨_, written⟩, hwritten, rfl⟩
  have hwalk := (Stmt.inStep_walk (covers_bodyScope hierarchy owner method.params) hbody
    hwritten).1
  simpa [functionHead] using hwalk

namespace ClassDef

theorem inStep_constructor {definition : ClassDef Plain} {constructor : CheckedConstructor}
    {methods : List (MethodDef Resolved)}
    (hcheck : definition.checkConstructorTraced hierarchy = .ok (constructor, points))
    (hemit : emitConstructor tables ⟨definition.name, definition.parent,
      definition.fields, definition.params, constructor.superArgs, constructor.body, methods⟩ =
        .ok pieces) :
    constructor.fields = (hierarchy.fields definition.name).reverse ∧
      List.Forall₂ (InStep hierarchy) points (pointsOf pieces) := by
  simp only [checkConstructorTraced, bind_eq_ok_iff, pure_eq_ok_iff, Prod.mk.injEq,
    fieldScope_eq_ok_iff, Scope.ofParams_eq_ok_iff] at hcheck
  rcases hcheck with ⟨_, ⟨-, rfl⟩, -, -, _, ⟨-, rfl⟩, superArgs, hsuper, ⟨⟨body, _⟩, bodyPoints⟩,
    hbody, rfl, rfl⟩
  simp only [emitConstructor, bind_eq_ok_iff, pure_eq_ok_iff] at hemit
  rcases hemit with ⟨superPieces, hsuperPieces, written, hwritten, rfl⟩
  have hcovers := covers_bodyScope hierarchy definition.name definition.params
  have hwalk := Stmt.inStep_walkAll hcovers hbody hwritten
  have hargs := Exp.points_emitArgs (fun _ _ _ => Exp.points_emit) hsuperPieces
  have hbraces : pointsOf (if body.isEmpty then written else nested 1 written) =
      pointsOf written := by
    cases body.isEmpty <;> simp
  generalize (if body.isEmpty then written else nested 1 written) = inside at hbraces
  refine ⟨rfl, ?_⟩
  simpa [functionHead, hargs, hbraces] using
    List.Forall₂.cons (⟨.superArgs hsuper, hcovers⟩ : InStep hierarchy _ _) hwalk

theorem inStep_walk {definition : ClassDef Plain} {resolved : ClassDef Resolved}
    {functions : List (List Piece)}
    (hcheck : definition.checkTraced hierarchy = .ok (resolved, points))
    (hemit : resolved.emit tables = .ok functions) :
    List.Forall₂ (InStep hierarchy) points (functions.flatMap pointsOf) := by
  simp only [checkTraced, bind_eq_ok_iff, pure_eq_ok_iff, Prod.mk.injEq] at hcheck
  rcases hcheck with ⟨⟨constructor, constructorPoints⟩, hconstructor, methods, hmethods, rfl, rfl⟩
  simp only [emit, bind_eq_ok_iff, pure_eq_ok_iff] at hemit
  rcases hemit with ⟨function, hfunction, functions, hfunctions, rfl⟩
  rcases inStep_constructor hconstructor hfunction with ⟨hfields, hwalk⟩
  rw [hfields] at hmethods
  exact List.rel_append hwalk
    (forall₂_of_passes (fun _ _ _ _ => MethodDef.inStep_walk) hmethods hfunctions)

end ClassDef

end

namespace Program

theorem hierarchy_eq_ok_iff {κ : Type} {program : Program κ} {hierarchy : Hierarchy κ} :
    program.hierarchy = .ok hierarchy ↔ hierarchy.classes = program.classes :=
  Hierarchy.ofClasses_eq_ok_iff

theorem pointsOf_heads {tables : DispatchTables} {names : List ClassName} {heads : List Piece}
    (hheads : (names.mapM fun name => do
      let table ← tables.table name
      return Piece.ofTable name table) = Except.ok heads) : pointsOf heads = [] := by
  induction names generalizing heads with
  | nil => cases hheads; rfl
  | cons name rest ih =>
      simp only [List.mapM_cons, bind_eq_ok_iff, pure_eq_ok_iff] at hheads
      rcases hheads with ⟨_, ⟨table, -, rfl⟩, others, hothers, rfl⟩
      simp [ofTable, ih hothers]

theorem inStep_walk {program : Program Plain} {checked : Program Resolved}
    {points : List CheckPoint} {emission : Emission}
    (hcheck : program.checkTraced = .ok (checked, points))
    (hemit : checked.emit = .ok emission) :
    ∃ hierarchy, program.hierarchy = .ok hierarchy ∧
      List.Forall₂ (InStep hierarchy) points emission.points := by
  simp only [checkTraced, bind_eq_ok_iff, pure_eq_ok_iff, Prod.mk.injEq,
    mapError_eq_ok_iff] at hcheck
  rcases hcheck with ⟨hierarchy, hhierarchy, classes, hclasses, ⟨⟨entry, _⟩, entryPoints⟩,
    hentry, rfl, rfl⟩
  simp only [emit, bind_eq_ok_iff, pure_eq_ok_iff, mapError_eq_ok_iff] at hemit
  rcases hemit with ⟨resolved, -, heads, hheads, codes, hcodes, ⟨_, entryPieces⟩, hentryPieces,
    rfl⟩
  have hcovers : Covers (hierarchy.fieldNames Context.entry.receiver) [] [] := by
    intro name
    simp [Hierarchy.fieldNames, Context.entry]
  have hmembers := forall₂_of_passes (fun _ _ _ _ => ClassDef.inStep_walk) hclasses hcodes
  have hlast := (Stmt.inStep_walk hcovers hentry hentryPieces).1
  refine ⟨hierarchy, hhierarchy, ?_⟩
  have hpoints : pointsOf codes.flatten.flatten = codes.flatMap fun functions =>
      functions.flatMap pointsOf := by
    rw [pointsOf_flatten, List.flatten_eq_flatMap, List.flatMap_assoc]
    rfl
  simp only [Emission.points, Emission.pieces, List.cons_append, pointsOf_cons, pointsOf_append,
    pointsOf_heads hheads, hpoints]
  exact List.rel_append hmembers hlast

end Program

end ClassLang
