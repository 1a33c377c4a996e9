import ClassLang.Proofs.MethodLookup
import ClassLang.Proofs.TypingRules
import ClassLang.Typing.Expression

/-!
# What the typing rules ask for

The rules read their premises off the definitions.  The checker looks the same things
up: in a hierarchy each premise of a rule holds exactly if the look-up finds it.
-/

namespace ClassLang

variable {κ : Type}

/-! ## Classes -/

namespace ClassDef

variable {classes : List (ClassDef κ)} {name sub sup : ClassName}

theorem known_iff : Known classes name ↔ declares classes name = true := by
  rw [declares_iff]
  constructor
  · intro hknown
    cases hknown with
    | root => exact .inl rfl
    | definition hmem => exact .inr (List.mem_map_of_mem hmem)
  · intro hdeclared
    rcases hdeclared with rfl | hname
    · exact .root
    · rcases List.mem_map.mp hname with ⟨definition, hmem, rfl⟩
      exact .definition hmem

theorem inherits_iff_reaches (hdistinct : (classes.map ClassDef.name).Nodup) :
    Inherits classes sub sup ↔ Relation.ReflTransGen (Extends classes) sub sup := by
  constructor
  · intro hinherits
    induction hinherits with
    | same name => exact .refl
    | parent hmem _ ih => exact ih.head (extends_iff.mpr ⟨_, find?_of_mem hdistinct hmem, rfl⟩)
  · intro hreach
    induction hreach using Relation.ReflTransGen.head_induction_on with
    | refl => exact .same sup
    | head hstep _ ih =>
        rcases extends_iff.mp hstep with ⟨definition, hfound, rfl⟩
        rw [← name_of_find? hfound]
        exact .parent (mem_of_find? hfound) ih

theorem formTree_iff : FormTree classes ↔ FormHierarchy classes := by
  constructor
  · intro htree
    refine ⟨?_, fun definition hmem => known_iff.mp (htree.parents definition hmem),
      fun definition hmem =>
        (inherits_iff_reaches htree.distinct).mp (htree.rooted definition hmem)⟩
    rw [List.nodup_cons, List.mem_map]
    refine ⟨?_, htree.distinct⟩
    rintro ⟨definition, hmem, hname⟩
    exact htree.notRoot definition hmem hname
  · intro hform
    rcases List.nodup_cons.mp hform.distinct with ⟨hroot, hdistinct⟩
    exact ⟨hdistinct, fun definition hmem hname => hroot (hname ▸ List.mem_map_of_mem hmem),
      fun definition hmem => known_iff.mpr (hform.parents definition hmem),
      fun definition hmem => (inherits_iff_reaches hdistinct).mpr (hform.rooted definition hmem)⟩

end ClassDef

namespace Hierarchy

variable {hierarchy : Hierarchy κ} {name sub sup : ClassName}

theorem contains_iff_known :
    hierarchy.contains name = true ↔ ClassDef.Known hierarchy.classes name :=
  ClassDef.known_iff.symm

theorem isDefined_iff_known {ty : Ty} :
    hierarchy.isDefined ty = true ↔ ty.Known hierarchy.classes := by
  constructor
  · intro hdefined
    cases ty with
    | int => exact .int
    | bool => exact .bool
    | void => exact .void
    | object name => exact .object (contains_iff_known.mp hdefined)
  · intro hknown
    cases hknown with
    | int | bool | void => rfl
    | object hname => exact contains_iff_known.mpr hname

theorem inherits_iff :
    ClassDef.Inherits hierarchy.classes sub sup ↔ hierarchy.Subclass sub sup :=
  ClassDef.inherits_iff_reaches (List.nodup_cons.mp hierarchy.formed.distinct).2

theorem isSubtype_iff {actual expected : Ty} :
    hierarchy.isSubtype actual expected = true ↔ actual.Conforms hierarchy.classes expected := by
  constructor
  · intro hsub
    cases actual with
    | object sub =>
        cases expected with
        | object sup => exact .object (inherits_iff.mpr (isSubclass_iff.mp hsub))
        | int | bool | void => simp [isSubtype] at hsub
    | int | bool | void =>
        have heq := of_decide_eq_true hsub
        rw [← heq]
        exact .same _
  · intro hconforms
    cases hconforms with
    | same =>
        cases actual with
        | object name => exact isSubclass_iff.mpr .refl
        | int | bool | void => rfl
    | object hsub => exact isSubclass_iff.mpr (inherits_iff.mp hsub)

theorem constructorTakes_iff {params : List VarDec} :
    ClassDef.ConstructorTakes hierarchy.classes name params ↔
      hierarchy.contains name = true ∧ hierarchy.constructorParams name = params := by
  constructor
  · intro htakes
    cases htakes with
    | root => exact ⟨contains_iff.mpr (.inl rfl), by simp [constructorParams, get?_root]⟩
    | definition hmem =>
        exact ⟨contains_of_mem hmem, by simp [constructorParams, get?_of_mem hmem]⟩
  · intro htakes
    rcases htakes with ⟨hknown, rfl⟩
    rcases contains_iff.mp hknown with rfl | ⟨definition, hget⟩
    · simp only [constructorParams, get?_root]
      exact .root
    · simp only [constructorParams, hget]
      rw [← name_of_get? hget]
      exact .definition (mem_of_get? hget)

/-- The instance variables of a class, those of its ancestors first. -/
def fields (hierarchy : Hierarchy κ) (name : ClassName) : List VarDec :=
  (hierarchy.lineage name).flatMap ClassDef.fields

theorem fields_root : hierarchy.fields .root = [] := by
  simp [fields, lineage_of_get?_eq_none get?_root]

theorem fields_of_mem {definition : ClassDef κ} (hmem : definition ∈ hierarchy.classes) :
    hierarchy.fields definition.name =
      hierarchy.fields definition.parent ++ definition.fields := by
  simp [fields, lineage_of_get?_eq_some (get?_of_mem hmem)]

theorem hasFields_iff {fields : List VarDec} :
    ClassDef.HasFields hierarchy.classes name fields ↔
      hierarchy.contains name = true ∧ hierarchy.fields name = fields := by
  constructor
  · intro hfields
    induction hfields with
    | root => exact ⟨contains_iff.mpr (.inl rfl), fields_root⟩
    | definition hmem _ ih => exact ⟨contains_of_mem hmem, by rw [fields_of_mem hmem, ih.2]⟩
  · intro hfields
    rcases hfields with ⟨hknown, rfl⟩
    induction name using hierarchy.parent_induction with
    | undeclared name hget =>
        rcases contains_iff.mp hknown with rfl | ⟨definition, hdefined⟩
        · rw [fields_root]
          exact .root
        · rw [hget] at hdefined
          cases hdefined
    | declared name definition hget ih =>
        have hmem := mem_of_get? hget
        rw [← name_of_get? hget, fields_of_mem hmem]
        exact .definition hmem (ih (contains_parent hget))

theorem hasMethod_iff {called : MethodName} {method : MethodDef κ} :
    ClassDef.HasMethod hierarchy.classes called name method ↔
      ∃ owner, hierarchy.method? name called = some ⟨owner, method⟩ := by
  constructor
  · intro hmethod
    induction hmethod with
    | @own definition earlier later method hmem hmethods hname hlast =>
        subst hname
        have hfound := ClassDef.find?_reverse_eq_some_iff.mpr
          ⟨earlier, later, hmethods, by simpa using hlast⟩
        rw [method?_of_get?_eq_some (get?_of_mem hmem), hfound]
        exact ⟨definition.name, rfl⟩
    | @inherited definition method hmem hfresh _ ih =>
        have hnone := ClassDef.find?_reverse_eq_none_iff.mpr
          (show called ∉ definition.methods.map MethodDef.name by simpa using hfresh)
        rw [method?_of_get?_eq_some (get?_of_mem hmem), hnone]
        exact ih
  · rintro ⟨owner, hfound⟩
    induction name using hierarchy.parent_induction with
    | undeclared name hget =>
        rw [method?_of_get?_eq_none hget] at hfound
        cases hfound
    | declared name definition hget ih =>
        have hmem := mem_of_get? hget
        rw [method?_of_get?_eq_some hget] at hfound
        rw [← name_of_get? hget]
        cases hown : definition.methods.reverse.find? fun candidate => candidate.name = called with
        | none =>
            rw [hown] at hfound
            have hfresh := ClassDef.find?_reverse_eq_none_iff.mp hown
            exact .inherited hmem (by simpa using hfresh) (ih hfound)
        | some last =>
            rw [hown] at hfound
            cases hfound
            obtain rfl : method.name = called := by simpa using List.find?_some hown
            rcases ClassDef.find?_reverse_eq_some_iff.mp hown with
              ⟨earlier, later, hmethods, hlast⟩
            exact .own hmem hmethods rfl (by simpa using hlast)

end Hierarchy

/-! ## Expressions and statements -/

theorem Scope.lookup?_eq_some_iff {scope : Scope} {name : VarName} {ty : Ty} :
    scope.lookup? name = some ty ↔ scope.Binds name ty := by
  induction scope with
  | nil =>
      constructor
      · intro hlookup
        cases hlookup
      · intro hbinds
        cases hbinds
  | cons var earlier ih =>
      have hstep : Scope.lookup? (var :: earlier) name =
          if var.name = name then some var.ty else Scope.lookup? earlier name := by
        simp only [Scope.lookup?, List.find?_cons]
        split <;> simp_all
      rw [hstep]
      by_cases heq : var.name = name
      · rw [if_pos heq, Option.some.injEq]
        constructor
        · intro hty
          rcases var with ⟨varTy, varName⟩
          subst hty heq
          exact .latest
        · intro hbinds
          cases hbinds with
          | latest => rfl
          | earlier hne => exact absurd heq hne
      · rw [if_neg heq, ih]
        constructor
        · exact .earlier heq
        · intro hbinds
          cases hbinds with
          | latest => exact absurd rfl heq
          | earlier _ hearlier => exact hearlier

theorem Op.yields_iff {op : Op} {ty : Ty} : op.Yields ty ↔ op.resultTy = ty := by
  constructor
  · intro hyields
    cases hyields <;> rfl
  · rintro rfl
    cases op with
    | plus => exact .plus
    | less => exact .less
    | equals => exact .equals

theorem Stmt.seqWellTyped_cons_iff [Note κ] {classes : List (ClassDef Plain)} {context : Context}
    {scope : Scope} {stmt : Stmt κ} {rest : List (Stmt κ)} :
    SeqWellTyped classes context scope (stmt :: rest) ↔
      stmt.WellTyped classes context scope ∧
        SeqWellTyped classes context (scope.after stmt) rest := by
  constructor
  · intro htyped
    cases htyped with
    | declare hstmt hrest => exact ⟨hstmt, hrest⟩
    | other hother hstmt hrest =>
        refine ⟨hstmt, ?_⟩
        cases stmt with
        | declare var value => exact absurd rfl (hother var value)
        | _ => exact hrest
  · rintro ⟨hstmt, hrest⟩
    cases stmt with
    | declare var value => exact .declare hstmt hrest
    | _ => exact .other (by simp) hstmt hrest

end ClassLang
