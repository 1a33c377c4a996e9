import ClassLang.Proofs.DispatchSlots

/-!
# Trees without notes

Erasing the notes of a tree keeps everything that the hierarchy and the dispatch
tables look at: names, parents, fields and signatures.  Class definitions form a
hierarchy exactly when they do without their notes, and the tables built from
both are the same.

The file also gives the inductions on expressions and statements, with one
hypothesis for each tree in a list.
-/

namespace ClassLang

variable {κ : Type}

/-! ## Induction on trees -/

@[induction_eliminator]
theorem Exp.tree_induction {motive : Exp κ → Prop}
    (int : ∀ value, motive (.int value))
    (bool : ∀ value, motive (.bool value))
    (var : ∀ name, motive (.var name))
    (this : motive .this)
    (binary : ∀ op lhs rhs, motive lhs → motive rhs → motive (.binary op lhs rhs))
    (call : ∀ receiver method args note, motive receiver →
      (∀ arg ∈ args, motive arg) → motive (.call receiver method args note))
    (new : ∀ name args, (∀ arg ∈ args, motive arg) → motive (.new name args))
    (value : Exp κ) : motive value := by
  refine @Exp.rec κ motive (fun args => ∀ arg ∈ args, motive arg)
    int bool var this (fun op lhs rhs => binary op lhs rhs)
    (fun receiver method args note => call receiver method args note)
    (fun name args => new name args) ?_ ?_ value
  · simp
  · intro first rest hfirst hrest
    simpa using ⟨hfirst, hrest⟩

@[induction_eliminator]
theorem Stmt.tree_induction {motive : Stmt κ → Prop}
    (exp : ∀ value, motive (.exp value))
    (declare : ∀ var value, motive (.declare var value))
    (assign : ∀ target value, motive (.assign target value))
    (ifElse : ∀ guard thenArm elseArm, motive thenArm → motive elseArm →
      motive (.ifElse guard thenArm elseArm))
    (whileLoop : ∀ guard body, motive body → motive (.whileLoop guard body))
    (returnValue : ∀ value, motive (.returnValue value))
    (returnVoid : motive .returnVoid)
    (println : ∀ value, motive (.println value))
    (block : ∀ body, (∀ stmt ∈ body, motive stmt) → motive (.block body))
    (stmt : Stmt κ) : motive stmt := by
  refine @Stmt.rec κ motive (fun body => ∀ stmt ∈ body, motive stmt)
    exp declare assign ifElse whileLoop returnValue returnVoid println block ?_ ?_ stmt
  · simp
  · intro first rest hfirst hrest
    simpa using ⟨hfirst, hrest⟩

/-! ## Erasing notes -/

namespace Exp

mutual

def erase : Exp κ → Exp Plain
  | int value => int value
  | bool value => bool value
  | var name => var name
  | this => this
  | binary op lhs rhs => binary op lhs.erase rhs.erase
  | call receiver method args _ => call receiver.erase method (eraseAll args) ()
  | new name args => new name (eraseAll args)

def eraseAll : List (Exp κ) → List (Exp Plain)
  | [] => []
  | value :: rest => value.erase :: eraseAll rest

end

theorem eraseAll_eq_map (values : List (Exp κ)) : eraseAll values = values.map erase := by
  induction values with
  | nil => rfl
  | cons value rest ih => rw [eraseAll, ih, List.map_cons]

end Exp

namespace Stmt

mutual

def erase : Stmt κ → Stmt Plain
  | exp value => exp value.erase
  | declare var value => declare var value.erase
  | assign target value => assign target value.erase
  | ifElse guard thenArm elseArm => ifElse guard.erase thenArm.erase elseArm.erase
  | whileLoop guard body => whileLoop guard.erase body.erase
  | returnValue value => returnValue value.erase
  | returnVoid => returnVoid
  | println value => println value.erase
  | block body => block (eraseAll body)

def eraseAll : List (Stmt κ) → List (Stmt Plain)
  | [] => []
  | stmt :: rest => stmt.erase :: eraseAll rest

end

end Stmt

def MethodDef.erase (method : MethodDef κ) : MethodDef Plain :=
  ⟨method.returnTy, method.name, method.params, method.body.erase⟩

def ClassDef.erase (definition : ClassDef κ) : ClassDef Plain :=
  ⟨definition.name, definition.parent, definition.fields, definition.params,
    Exp.eraseAll definition.superArgs, Stmt.eraseAll definition.body,
    definition.methods.map MethodDef.erase⟩

/-- The program with the notes on its calls left out. -/
def Program.erase (program : Program κ) : Program Plain :=
  ⟨program.classes.map ClassDef.erase, program.entry.erase⟩

/-! ## Hierarchies and tables do not depend on notes -/

namespace ClassDef

variable {classes : List (ClassDef κ)}

@[simp] theorem name_erase (definition : ClassDef κ) :
    definition.erase.name = definition.name := rfl

@[simp] theorem parent_erase (definition : ClassDef κ) :
    definition.erase.parent = definition.parent := rfl

theorem map_name_map_erase : (classes.map erase).map name = classes.map name := by
  simp [Function.comp_def]

theorem find?_map_erase {name : ClassName} :
    find? (classes.map erase) name = (find? classes name).map erase := by
  unfold find?
  rw [List.find?_map]
  rfl

theorem extends_map_erase : Extends (classes.map erase) = Extends classes := by
  funext sub sup
  simp [Extends, find?_map_erase, Function.comp_def]

theorem declares_map_erase {name : ClassName} :
    declares (classes.map erase) name = declares classes name := by
  rw [Bool.eq_iff_iff, declares_iff, declares_iff, map_name_map_erase]

theorem formHierarchy_map_erase_iff :
    FormHierarchy (classes.map erase) ↔ FormHierarchy classes := by
  constructor
  · intro hform
    have hdistinct := hform.distinct
    rw [map_name_map_erase] at hdistinct
    refine ⟨hdistinct, ?_, ?_⟩
    · intro definition hmem
      have hparent := hform.parents definition.erase (List.mem_map_of_mem hmem)
      rwa [declares_map_erase] at hparent
    · intro definition hmem
      have hreach := hform.rooted definition.erase (List.mem_map_of_mem hmem)
      rwa [extends_map_erase] at hreach
  · intro hform
    refine ⟨by rw [map_name_map_erase]; exact hform.distinct, ?_, ?_⟩
    · intro erased hmem
      obtain ⟨definition, hdefinition, rfl⟩ := List.mem_map.mp hmem
      rw [declares_map_erase]
      exact hform.parents definition hdefinition
    · intro erased hmem
      obtain ⟨definition, hdefinition, rfl⟩ := List.mem_map.mp hmem
      rw [extends_map_erase]
      exact hform.rooted definition hdefinition

end ClassDef

theorem DispatchTable.extend_erase (table : DispatchTable) (definition : ClassDef κ) :
    table.extend definition.erase = table.extend definition := by
  simp [extend, ClassDef.erase, List.foldl_map, MethodDef.erase]

theorem Hierarchy.table_eq_of_erase {erased : Hierarchy Plain} {hierarchy : Hierarchy κ}
    (hclasses : hierarchy.classes.map ClassDef.erase = erased.classes) (name : ClassName) :
    hierarchy.table name = erased.table name := by
  have hget (name : ClassName) :
      erased.get? name = (hierarchy.get? name).map ClassDef.erase := by
    unfold get?
    rw [← hclasses, ClassDef.find?_map_erase]
  induction name using hierarchy.parent_induction with
  | undeclared name hnone =>
      have herased : erased.get? name = none := by rw [hget, hnone]; rfl
      rw [table_of_get?_eq_none hnone, table_of_get?_eq_none herased]
  | declared name definition hsome ih =>
      have herased : erased.get? name = some definition.erase := by rw [hget, hsome]; rfl
      rw [table_of_get?_eq_some hsome, table_of_get?_eq_some herased, ih,
        DispatchTable.extend_erase]
      rfl

theorem DispatchTables.get?_build_eq_of_erase {erased : Hierarchy Plain}
    {hierarchy : Hierarchy κ}
    (hclasses : hierarchy.classes.map ClassDef.erase = erased.classes) (name : ClassName) :
    (build hierarchy).get? name = (build erased).get? name := by
  have hcontains : erased.contains name = hierarchy.contains name := by
    unfold Hierarchy.contains
    rw [← hclasses, ClassDef.declares_map_erase]
  rw [get?_build, get?_build, hcontains, Hierarchy.table_eq_of_erase hclasses]

end ClassLang
