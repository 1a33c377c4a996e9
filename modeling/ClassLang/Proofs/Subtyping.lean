import ClassLang.Proofs.TypingExactness

/-!
# The order of types

A class is a subclass of another one if some number of steps to the parent leads
from it there.  Every step up leaves fewer ancestors, so that no two classes are
subclasses of each other, and a walk takes at most one step for each class that is
declared: a bound on the number of steps that is not below this makes no
difference.

The types are ordered by their classes.  A type that is no class has no other
type below or above it.
-/

namespace ClassLang

variable {κ : Type}

theorem ClassDef.length_chain_le {classes : List (ClassDef κ)} {name : ClassName} :
    (chain classes name).length ≤ classes.length := by
  fun_induction chain classes name with
  | case1 => exact Nat.zero_le _
  | case2 classes name definition hfound ih =>
      have hshort := length_without_lt hfound
      rw [List.length_cons]
      omega

namespace Hierarchy

/-- The question for a superclass asked with a bound: the walk up compares each
name that it meets and gives up after so many steps. -/
def isSubclassWithin (hierarchy : Hierarchy κ) (sup : ClassName) : Nat → ClassName → Bool
  | 0, sub => sub = sup
  | steps + 1, sub =>
    sub = sup ||
      match hierarchy.parent? sub with
      | some parent => hierarchy.isSubclassWithin sup steps parent
      | none => false

variable {hierarchy : Hierarchy κ} {name sub sup : ClassName} {definition : ClassDef κ}

theorem isSubclass_of_get?_eq_none (hget : hierarchy.get? sub = none) :
    hierarchy.isSubclass sub sup = decide (sub = sup) := by
  simp [isSubclass, ancestors_of_get?_eq_none hget]

theorem isSubclass_of_get?_eq_some (hget : hierarchy.get? sub = some definition) :
    hierarchy.isSubclass sub sup =
      (decide (sub = sup) || hierarchy.isSubclass definition.parent sup) := by
  simp [isSubclass, ancestors_of_get?_eq_some hget]

/-- A bound that is not below the number of ancestors makes no difference. -/
theorem isSubclassWithin_eq {steps : Nat} (hsteps : (hierarchy.ancestors sub).length ≤ steps) :
    hierarchy.isSubclassWithin sup steps sub = hierarchy.isSubclass sub sup := by
  induction sub using hierarchy.parent_induction generalizing steps with
  | undeclared sub hget =>
      rw [isSubclass_of_get?_eq_none hget]
      cases steps with
      | zero => rfl
      | succ steps => simp [isSubclassWithin, parent?, hget]
  | declared sub definition hget ih =>
      rw [ancestors_of_get?_eq_some hget, List.length_cons] at hsteps
      cases steps with
      | zero => omega
      | succ steps =>
          rw [isSubclass_of_get?_eq_some hget, ← ih (Nat.le_of_succ_le_succ hsteps)]
          simp [isSubclassWithin, parent?, hget]

theorem length_ancestors_le : (hierarchy.ancestors name).length ≤ hierarchy.classes.length :=
  ClassDef.length_chain_le

/-- A proper subclass has more ancestors. -/
theorem Subclass.eq_or_length_lt (hsub : hierarchy.Subclass sub sup) :
    sub = sup ∨ (hierarchy.ancestors sup).length < (hierarchy.ancestors sub).length := by
  induction hsub using Relation.ReflTransGen.head_induction_on with
  | refl => exact .inl rfl
  | head hstep _ ih =>
      rcases ClassDef.extends_iff.mp hstep with ⟨definition, hget, rfl⟩
      right
      rw [ancestors_of_get?_eq_some hget, List.length_cons]
      rcases ih with rfl | hlt
      · omega
      · omega

theorem Subclass.antisymm (hsub : hierarchy.Subclass sub sup)
    (hsup : hierarchy.Subclass sup sub) : sub = sup := by
  rcases hsub.eq_or_length_lt with heq | hlt
  · exact heq
  · rcases hsup.eq_or_length_lt with heq | hlt'
    · exact heq.symm
    · omega

theorem subclass_iff_mem_lineage (hdeclared : hierarchy.get? sup ≠ none) :
    hierarchy.Subclass sub sup ↔ sup ∈ (hierarchy.lineage sub).map ClassDef.name := by
  induction sub using hierarchy.parent_induction with
  | undeclared sub hget =>
      rw [subclass_of_get?_eq_none hget, lineage_of_get?_eq_none hget]
      constructor
      · rintro rfl
        exact absurd hget hdeclared
      · intro hmem
        simp at hmem
  | declared sub definition hget ih =>
      rw [subclass_of_get?_eq_some hget, lineage_of_get?_eq_some hget, ih, List.map_append,
        List.mem_append, List.map_singleton, List.mem_singleton, name_of_get? hget,
        or_comm, eq_comm]

theorem subclass_root (hmem : definition ∈ hierarchy.classes) :
    hierarchy.Subclass definition.name .root :=
  hierarchy.formed.rooted definition hmem

variable {lower middle upper : Ty}

theorem conforms_trans (hlower : lower.Conforms hierarchy.classes middle)
    (hupper : middle.Conforms hierarchy.classes upper) :
    lower.Conforms hierarchy.classes upper := by
  cases hlower with
  | same => exact hupper
  | object hsub =>
      cases hupper with
      | same => exact .object hsub
      | object hsup =>
          rw [inherits_iff] at hsub hsup
          exact .object (inherits_iff.mpr (Relation.ReflTransGen.trans hsub hsup))

theorem conforms_antisymm (hlower : lower.Conforms hierarchy.classes upper)
    (hupper : upper.Conforms hierarchy.classes lower) : lower = upper := by
  cases hlower with
  | same => rfl
  | object hsub =>
      cases hupper with
      | same => rfl
      | object hsup => rw [(inherits_iff.mp hsub).antisymm (inherits_iff.mp hsup)]

theorem conforms_object_iff :
    (Ty.object sub).Conforms hierarchy.classes (.object sup) ↔ hierarchy.Subclass sub sup := by
  rw [← inherits_iff]
  constructor
  · intro hconforms
    cases hconforms with
    | same => exact .same sub
    | object hsub => exact hsub
  · exact .object

theorem conforms_iff_eq
    (hplain : lower ∈ [Ty.int, .bool, .void] ∨ upper ∈ [Ty.int, .bool, .void]) :
    lower.Conforms hierarchy.classes upper ↔ lower = upper := by
  constructor
  · intro hconforms
    cases hconforms with
    | same => rfl
    | object => simp at hplain
  · rintro rfl
    exact .same _

/-- Subclasses are found by steps to the parent, and a bound on the steps that is
not below the number of classes makes no difference.  So subtyping is an order in
which the types that are no classes stand alone and the root is above every class,
and a class is below those that its line consists of. -/
theorem isSubtype_partial_order (hierarchy : Hierarchy κ) :
    (∀ sub sup, hierarchy.isSubclass sub sup = true ↔
      Relation.ReflTransGen (ClassDef.Extends hierarchy.classes) sub sup) ∧
    (∀ steps, hierarchy.classes.length ≤ steps → ∀ sub sup,
      hierarchy.isSubclassWithin sup steps sub = hierarchy.isSubclass sub sup) ∧
    (∀ ty, hierarchy.isSubtype ty ty = true) ∧
    (∀ lower middle upper, hierarchy.isSubtype lower middle = true →
      hierarchy.isSubtype middle upper = true → hierarchy.isSubtype lower upper = true) ∧
    (∀ lower upper, hierarchy.isSubtype lower upper = true →
      hierarchy.isSubtype upper lower = true → lower = upper) ∧
    (∀ ty ∈ [Ty.int, .bool, .void], ∀ other,
      (hierarchy.isSubtype ty other = true ↔ ty = other) ∧
        (hierarchy.isSubtype other ty = true ↔ other = ty)) ∧
    (∀ definition ∈ hierarchy.classes,
      hierarchy.isSubtype (.object definition.name) (.object .root) = true) ∧
    ∀ sub ∈ hierarchy.classes.map ClassDef.name, ∀ sup ∈ hierarchy.classes.map ClassDef.name,
      hierarchy.isSubtype (.object sub) (.object sup) = true ↔
        sup ∈ (hierarchy.lineage sub).map ClassDef.name := by
  simp only [isSubtype_iff]
  refine ⟨fun _ _ => isSubclass_iff, ?_, .same, fun _ _ _ => conforms_trans,
    fun _ _ => conforms_antisymm, ?_, ?_, ?_⟩
  · intro steps hsteps sub sup
    exact isSubclassWithin_eq (length_ancestors_le.trans hsteps)
  · intro ty hplain other
    exact ⟨conforms_iff_eq (.inl hplain), conforms_iff_eq (.inr hplain)⟩
  · intro definition hmem
    exact conforms_object_iff.mpr (subclass_root hmem)
  · intro sub _ sup hsup
    rw [conforms_object_iff, subclass_iff_mem_lineage]
    rwa [get?, Ne, ClassDef.find?_eq_none_iff, Classical.not_not]

theorem isSubtype_partial_order_overridingLine :
    let hierarchy := DispatchTables.overridingLine
    hierarchy.classes.length ≤ 4 ∧
      hierarchy.isSubclassWithin .root 4 ⟨"C"⟩ = hierarchy.isSubclass ⟨"C"⟩ .root ∧
      hierarchy.isSubtype (.object ⟨"C"⟩) (.object ⟨"B"⟩) = true ∧
      hierarchy.isSubtype (.object ⟨"B"⟩) (.object ⟨"A"⟩) = true ∧
      hierarchy.isSubtype (.object ⟨"C"⟩) (.object ⟨"A"⟩) = true ∧
      (hierarchy.isSubtype (.object ⟨"C"⟩) (.object ⟨"A"⟩) = true ↔
        ⟨"A"⟩ ∈ (hierarchy.lineage ⟨"C"⟩).map ClassDef.name) := by
  intro hierarchy
  rcases isSubtype_partial_order hierarchy with ⟨-, hbound, -, htrans, -, -, -, hlineage⟩
  have hlength : hierarchy.classes.length ≤ 4 := by decide
  have hlower : hierarchy.isSubtype (.object ⟨"C"⟩) (.object ⟨"B"⟩) = true := by decide +kernel
  have hupper : hierarchy.isSubtype (.object ⟨"B"⟩) (.object ⟨"A"⟩) = true := by decide +kernel
  have hsub : ⟨"C"⟩ ∈ hierarchy.classes.map ClassDef.name := by decide +kernel
  have hsup : ⟨"A"⟩ ∈ hierarchy.classes.map ClassDef.name := by decide +kernel
  exact ⟨hlength, hbound 4 hlength ⟨"C"⟩ .root, hlower, hupper,
    htrans _ _ _ hlower hupper, hlineage _ hsub _ hsup⟩

end Hierarchy

end ClassLang
