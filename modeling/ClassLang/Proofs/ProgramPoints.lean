import ClassLang.Proofs.Erasure
import ClassLang.Proofs.Results
import ClassLang.Typing.Program

/-!
# What the checker knows at the points of a program

Checking a program walks along its text and takes a scope along.  Every statement hands on
the scope of the statements after it: a declaration adds its variable, and whatever the
parts of a statement add ends with it.

The walk of this file hands the scopes on in this way.  It also reports for every point that
it comes to which scope it has taken there.  Otherwise its result is that of the checker,
failures included.
-/

namespace ClassLang

/-- A point of a program, by what comes next there: a statement, the end of a sequence, or
the arguments that a constructor hands to its parent. -/
inductive Site (κ : Type) where
  | stmt (next : Stmt κ)
  | sequenceEnd
  | superArgs (values : List (Exp κ))

/-- What the checker knows at a point. -/
structure CheckPoint where
  site : Site Plain
  context : Context
  scope : Scope

section

variable (hierarchy : Hierarchy Plain)

namespace Stmt

variable (context : Context)

mutual

/-- Checks a statement, and gives the scope of the statements after it. -/
def checkTraced (scope : Scope) :
    Stmt Plain → Except TypeError ((Stmt Resolved × Scope) × List CheckPoint)
  | declare var value => do
    var.ty.check hierarchy
    let resolved ← value.checkAgainst hierarchy context scope var.ty
    return ((declare var resolved, var :: scope), [⟨.stmt (declare var value), context, scope⟩])
  | ifElse guard thenArm elseArm => do
    let resolved ← guard.checkGuard hierarchy context scope
    let first ← thenArm.checkTraced scope
    let second ← elseArm.checkTraced scope
    return ((ifElse resolved first.1.1 second.1.1, scope),
      ⟨.stmt (ifElse guard thenArm elseArm), context, scope⟩ :: (first.2 ++ second.2))
  | whileLoop guard body => do
    let resolved ← guard.checkGuard hierarchy context scope
    let inner ← body.checkTraced scope
    return ((whileLoop resolved inner.1.1, scope),
      ⟨.stmt (whileLoop guard body), context, scope⟩ :: inner.2)
  | block body => do
    let inner ← checkAllTraced scope body
    return ((block inner.1.1, scope), ⟨.stmt (block body), context, scope⟩ :: inner.2)
  | stmt => do
    let resolved ← stmt.check hierarchy context scope
    return ((resolved, scope), [⟨.stmt stmt, context, scope⟩])

/-- Checks statements that follow each other, and gives the scope behind them. -/
def checkAllTraced (scope : Scope) :
    List (Stmt Plain) → Except TypeError ((List (Stmt Resolved) × Scope) × List CheckPoint)
  | [] => .ok (([], scope), [⟨.sequenceEnd, context, scope⟩])
  | stmt :: rest => do
    let first ← stmt.checkTraced scope
    let others ← checkAllTraced first.1.2 rest
    return ((first.1.1 :: others.1.1, others.1.2), first.2 ++ others.2)

end

end Stmt

def MethodDef.checkTraced (owner : ClassName) (fields : Scope) (method : MethodDef Plain) :
    Except TypeError (MethodDef Resolved × List CheckPoint) := do
  method.returnTy.check hierarchy
  let params ← Scope.ofParams hierarchy method.params
  let body ← method.body.checkTraced hierarchy ⟨some owner, some method.returnTy⟩
    (params ++ fields)
  return (⟨method.returnTy, method.name, method.params, body.1.1⟩, body.2)

namespace ClassDef

def checkConstructorTraced (definition : ClassDef Plain) :
    Except TypeError (CheckedConstructor × List CheckPoint) := do
  let fields ← definition.fieldScope hierarchy
  definition.checkMethodNames
  let params ← Scope.ofParams hierarchy definition.params
  let context : Context := ⟨some definition.name, some .void⟩
  let superArgs ← Exp.checkCall hierarchy context (params ++ fields)
    (.constructor definition.parent) (hierarchy.constructorParams definition.parent)
    definition.superArgs
  let body ← Stmt.checkAllTraced hierarchy context (params ++ fields) definition.body
  return (⟨fields, superArgs, body.1.1⟩,
    ⟨.superArgs definition.superArgs, context, params ++ fields⟩ :: body.2)

def checkTraced (definition : ClassDef Plain) :
    Except TypeError (ClassDef Resolved × List CheckPoint) := do
  let constructor ← definition.checkConstructorTraced hierarchy
  let methods ← definition.methods.mapM
    (MethodDef.checkTraced hierarchy definition.name constructor.1.fields)
  return (⟨definition.name, definition.parent, definition.fields, definition.params,
    constructor.1.superArgs, constructor.1.body, methods.map Prod.fst⟩,
    constructor.2 ++ methods.flatMap Prod.snd)

end ClassDef

end

def Program.checkTraced (program : Program Plain) :
    Except TypeError (Program Resolved × List CheckPoint) := do
  let hierarchy ← program.hierarchy.mapError .hierarchy
  let classes ← program.classes.mapM (ClassDef.checkTraced hierarchy)
  let entry ← program.entry.checkTraced hierarchy .entry []
  return (⟨classes.map Prod.fst, entry.1.1⟩, classes.flatMap Prod.snd ++ entry.2)

/-! ## The result of the checker -/

section

variable {hierarchy : Hierarchy Plain} {context : Context}

namespace Stmt

/-- The statements that hold no others and declare nothing. -/
def isLeaf {κ : Type} : Stmt κ → Bool
  | declare _ _ | ifElse _ _ _ | whileLoop _ _ | block _ => false
  | _ => true

theorem checkTraced_of_isLeaf {stmt : Stmt Plain} (hleaf : stmt.isLeaf = true)
    (scope : Scope) :
    stmt.checkTraced hierarchy context scope = do
      let resolved ← stmt.check hierarchy context scope
      return ((resolved, scope), [⟨.stmt stmt, context, scope⟩]) := by
  cases stmt with
  | declare | ifElse | whileLoop | block => cases hleaf
  | _ => rfl

theorem map_checkStmtsTraced {body : List (Stmt Plain)}
    (hstmts : ∀ stmt ∈ body, ∀ scope,
      (stmt.checkTraced hierarchy context scope).map Prod.fst =
        (stmt.check hierarchy context scope).map fun resolved => (resolved, scope.after stmt))
    (scope : Scope) :
    (checkAllTraced hierarchy context scope body).map (fun traced => traced.1.1) =
      (checkAll hierarchy context scope body).map id := by
  induction body generalizing scope with
  | nil => rfl
  | cons stmt rest ih =>
      rw [List.forall_mem_cons] at hstmts
      rw [checkAllTraced, checkAll]
      refine map_bind_eq (hstmts.1 scope) fun first resolved hfirst => ?_
      rw [hfirst]
      refine map_bind_eq (ih hstmts.2 _) fun others found hothers => ?_
      exact congrArg Except.ok (congrArg (resolved :: ·) hothers)

/-- Reports apart the walk gives what the checker gives, and the scope that the checker
takes on. -/
theorem map_checkTraced (stmt : Stmt Plain) (scope : Scope) :
    (stmt.checkTraced hierarchy context scope).map Prod.fst =
      (stmt.check hierarchy context scope).map fun resolved => (resolved, scope.after stmt) := by
  induction stmt generalizing scope with
  | declare var value =>
      rw [checkTraced, check]
      exact map_bind_same fun _ => map_bind_same fun resolved => rfl
  | ifElse guard thenArm elseArm ihThen ihElse =>
      rw [checkTraced, check]
      refine map_bind_same fun resolved => ?_
      refine map_bind_eq (ihThen scope) fun first other hfirst => ?_
      refine map_bind_eq (ihElse scope) fun second another hsecond => ?_
      refine congrArg Except.ok ?_
      rw [hfirst, hsecond]
      rfl
  | whileLoop guard body ih =>
      rw [checkTraced, check]
      refine map_bind_same fun resolved => ?_
      refine map_bind_eq (ih scope) fun inner other hinner => ?_
      refine congrArg Except.ok ?_
      rw [hinner]
      rfl
  | block body ih =>
      rw [checkTraced, check]
      refine map_bind_eq (map_checkStmtsTraced ih scope) fun inner other hinner => ?_
      exact congrArg Except.ok (congrArg (block · , scope) hinner)
  | exp | assign | returnValue | returnVoid | println =>
      rw [checkTraced_of_isLeaf rfl]
      generalize check hierarchy context scope _ = result
      cases result <;> rfl

theorem map_checkAllTraced (body : List (Stmt Plain)) (scope : Scope) :
    (checkAllTraced hierarchy context scope body).map (fun traced => traced.1.1) =
      (checkAll hierarchy context scope body).map id :=
  map_checkStmtsTraced (fun stmt _ => map_checkTraced stmt) scope

end Stmt

theorem MethodDef.map_checkTraced (owner : ClassName) (fields : Scope)
    (method : MethodDef Plain) :
    (method.checkTraced hierarchy owner fields).map Prod.fst =
      (method.check hierarchy owner fields).map id := by
  rw [checkTraced, check]
  refine map_bind_same fun _ => map_bind_same fun params => ?_
  refine map_bind_eq (method.body.map_checkTraced _) fun body resolved hbody => ?_
  refine congrArg Except.ok ?_
  rw [hbody]
  rfl

namespace ClassDef

theorem map_checkConstructorTraced (definition : ClassDef Plain) :
    (definition.checkConstructorTraced hierarchy).map Prod.fst =
      (definition.checkConstructor hierarchy).map id := by
  rw [checkConstructorTraced, checkConstructor]
  refine map_bind_same fun fields => map_bind_same fun _ => map_bind_same fun params => ?_
  refine map_bind_same fun superArgs => ?_
  refine map_bind_eq (Stmt.map_checkAllTraced definition.body _) fun body resolved hbody => ?_
  exact congrArg Except.ok (congrArg (CheckedConstructor.mk fields superArgs) hbody)

theorem map_checkTraced (definition : ClassDef Plain) :
    (definition.checkTraced hierarchy).map Prod.fst = (definition.check hierarchy).map id := by
  rw [checkTraced, check]
  refine map_bind_eq definition.map_checkConstructorTraced fun traced constructor hhere => ?_
  obtain rfl : traced.1 = constructor := hhere
  refine map_bind_eq (map_mapM_eq fun method _ => method.map_checkTraced _ _)
    fun methods resolved hmethods => ?_
  refine congrArg Except.ok ?_
  rw [List.map_id] at hmethods
  rw [hmethods]
  rfl

end ClassDef

end

theorem Program.map_checkTraced (program : Program Plain) :
    program.checkTraced.map Prod.fst = program.check := by
  have hmapped : program.checkTraced.map Prod.fst = program.check.map id := by
    rw [checkTraced, check]
    refine map_bind_same fun hierarchy => ?_
    refine map_bind_eq (map_mapM_eq fun definition _ => definition.map_checkTraced)
      fun classes resolved hclasses => ?_
    refine map_bind_eq (program.entry.map_checkTraced []) fun entry other hentry => ?_
    refine congrArg Except.ok ?_
    rw [List.map_id] at hclasses
    rw [hclasses, hentry]
    rfl
  rw [hmapped]
  cases program.check <;> rfl

end ClassLang
