import ClassLang.Hierarchy
import Mathlib.Data.List.Chain
import Mathlib.Logic.Relation

/-!
# Ancestors in a hierarchy

The walk from a class to its ancestors puts every definition aside that it has
met, so that it ends on any list of definitions.  In a hierarchy this caution is
never needed: the walk from a class is the class followed by the walk from its
parent, and it ends at the root.  All facts about ancestors follow from this
equation by induction from the root down.

Both sides of the definition of a hierarchy meet here: no fault is found exactly
if the names are distinct, the parents exist and the root is reached from every
class by steps to the parent.
-/

namespace ClassLang

variable {κ : Type}

theorem firstRepeat?_eq_none_iff {α : Type} [DecidableEq α] {seen items : List α} :
    firstRepeat? seen items = none ↔ items.Nodup ∧ ∀ item ∈ items, item ∉ seen := by
  induction items generalizing seen with
  | nil => simp [firstRepeat?]
  | cons item rest ih =>
      unfold firstRepeat?
      split
      next hmem => simp [hmem]
      next hmem =>
        rw [ih]
        simp only [List.nodup_cons, List.mem_cons, forall_eq_or_imp, not_or]
        constructor
        · intro hrest
          obtain ⟨hnodup, hfresh⟩ := hrest
          exact ⟨⟨fun hin => (hfresh item hin).1 rfl, hnodup⟩, hmem,
            fun other hother => (hfresh other hother).2⟩
        · intro hall
          obtain ⟨⟨hnotin, hnodup⟩, -, hfresh⟩ := hall
          refine ⟨hnodup, fun other hother => ⟨?_, hfresh other hother⟩⟩
          intro heq
          exact hnotin (heq ▸ hother)

namespace ClassDef

variable {classes : List (ClassDef κ)} {name other : ClassName} {definition : ClassDef κ}

theorem mem_of_find? (hfound : find? classes name = some definition) :
    definition ∈ classes :=
  List.mem_of_find?_eq_some hfound

theorem name_of_find? (hfound : find? classes name = some definition) :
    definition.name = name := by
  simpa using List.find?_some hfound

theorem find?_eq_none_iff :
    find? classes name = none ↔ name ∉ classes.map ClassDef.name := by
  simp [find?]

theorem find?_of_mem (hnodup : (classes.map ClassDef.name).Nodup)
    (hmem : definition ∈ classes) : find? classes definition.name = some definition := by
  induction classes with
  | nil => simp at hmem
  | cons first rest ih =>
      simp only [List.map_cons, List.nodup_cons] at hnodup
      rcases List.mem_cons.mp hmem with rfl | hrest
      · simp [find?]
      · have hne : first.name ≠ definition.name := by
          intro heq
          exact hnodup.1 (heq ▸ List.mem_map_of_mem hrest)
        have hfound := ih hnodup.2 hrest
        simpa [find?, hne] using hfound

theorem declares_iff :
    declares classes name = true ↔ name = .root ∨ name ∈ classes.map ClassDef.name := by
  simp [declares]

theorem find?_without_self : find? (without classes name) name = none := by
  simp [find?, without]

theorem find?_without_of_ne (hne : other ≠ name) :
    find? (without classes name) other = find? classes other := by
  simp only [find?, without, List.find?_filter]
  congr 1
  funext definition
  by_cases heq : definition.name = other
  · simp [heq, hne]
  · simp [heq]

theorem without_comm :
    without (without classes name) other = without (without classes other) name := by
  simp only [without, List.filter_filter]
  congr 1
  funext definition
  exact Bool.and_comm _ _

theorem chain_of_find?_eq_none (hnone : find? classes name = none) :
    chain classes name = [] := by
  rw [chain]
  split
  next => rfl
  next hsome => simp [hnone] at hsome

theorem chain_of_find?_eq_some (hfound : find? classes name = some definition) :
    chain classes name = definition :: chain (without classes name) definition.parent := by
  rw [chain]
  split
  next hnone => simp [hfound] at hnone
  next found hsome =>
    obtain rfl : definition = found := by simpa [hfound] using hsome
    rfl

theorem mem_of_mem_without (hmem : definition ∈ without classes name) :
    definition ∈ classes ∧ definition.name ≠ name := by
  simpa [without] using hmem

theorem mem_of_mem_chain (hmem : definition ∈ chain classes name) : definition ∈ classes := by
  fun_induction chain classes name with
  | case1 => simp at hmem
  | case2 classes name found hfound ih =>
      rcases List.mem_cons.mp hmem with rfl | hrest
      · exact mem_of_find? hfound
      · exact (mem_of_mem_without (ih hrest)).1

/-- No definition is met twice on the way up. -/
theorem nodup_names_chain : ((chain classes name).map ClassDef.name).Nodup := by
  fun_induction chain classes name with
  | case1 => exact List.nodup_nil
  | case2 classes name found hfound ih =>
      rw [List.map_cons, List.nodup_cons]
      refine ⟨?_, ih⟩
      intro hmem
      rcases List.mem_map.mp hmem with ⟨other, hother, hsame⟩
      exact (mem_of_mem_without (mem_of_mem_chain hother)).2
        (hsame.trans (name_of_find? hfound))

theorem chainEnd_of_find?_eq_none (hnone : find? classes name = none) :
    chainEnd classes name = name := by
  simp [chainEnd, chain_of_find?_eq_none hnone]

theorem chainEnd_of_find?_eq_some (hfound : find? classes name = some definition) :
    chainEnd classes name = chainEnd (without classes name) definition.parent := by
  unfold chainEnd
  rw [chain_of_find?_eq_some hfound]
  cases hlast : (chain (without classes name) definition.parent).getLast? with
  | none => simp_all
  | some oldest => rw [List.getLast?_cons, hlast]; rfl


/-- A walk that does not end at a name never needs the definition of that
name. -/
theorem chain_without_of_chainEnd_ne
    (hend : chainEnd (without classes name) other ≠ name) :
    chain (without classes name) other = chain classes other := by
  induction hsize : classes.length using Nat.strongRecOn
    generalizing classes other with
  | _ size ih =>
      by_cases heq : other = name
      · subst heq
        exact absurd (chainEnd_of_find?_eq_none find?_without_self) hend
      · have hsame : find? (without classes name) other = find? classes other :=
          find?_without_of_ne heq
        cases hfound : find? classes other with
        | none =>
            rw [chain_of_find?_eq_none hfound,
              chain_of_find?_eq_none (hsame.trans hfound)]
        | some definition =>
            have hfound' := hsame.trans hfound
            rw [chainEnd_of_find?_eq_some hfound', without_comm] at hend
            rw [chain_of_find?_eq_some hfound,
              chain_of_find?_eq_some hfound', without_comm]
            have hshort := length_without_lt hfound
            rw [ih _ (hsize ▸ hshort) hend rfl]

/-- One step up: a declared class extends its parent. -/
def Extends (classes : List (ClassDef κ)) (sub sup : ClassName) : Prop :=
  (find? classes sub).map ClassDef.parent = some sup

theorem extends_iff {sub sup : ClassName} :
    Extends classes sub sup ↔
      ∃ definition, find? classes sub = some definition ∧ definition.parent = sup := by
  simp [Extends]

theorem Extends.of_without {sub sup : ClassName}
    (hstep : Extends (without classes name) sub sup) : Extends classes sub sup := by
  by_cases heq : sub = name
  · subst heq
    simp [Extends, find?_without_self] at hstep
  · simpa [Extends, find?_without_of_ne heq] using hstep

theorem reaches_of_without {sub sup : ClassName}
    (hreach : Relation.ReflTransGen (Extends (without classes name)) sub sup) :
    Relation.ReflTransGen (Extends classes) sub sup :=
  Relation.ReflTransGen.mono (fun _ _ => Extends.of_without) sub sup hreach

theorem Extends.unique {sub sup sup' : ClassName}
    (hstep : Extends classes sub sup) (hstep' : Extends classes sub sup') :
    sup = sup' := by
  simpa using hstep.symm.trans hstep'

/-- The walk up follows steps of the hierarchy. -/
theorem reaches_chainEnd :
    Relation.ReflTransGen (Extends classes) name (chainEnd classes name) := by
  induction hsize : classes.length using Nat.strongRecOn
    generalizing classes name with
  | _ size ih =>
      cases hfound : find? classes name with
      | none => rw [chainEnd_of_find?_eq_none hfound]
      | some definition =>
          rw [chainEnd_of_find?_eq_some hfound]
          have hshort := length_without_lt hfound
          have hrest : Relation.ReflTransGen (Extends (without classes name))
              definition.parent (chainEnd (without classes name) definition.parent) :=
            ih _ (hsize ▸ hshort) rfl
          exact (reaches_of_without hrest).head (extends_iff.mpr ⟨definition, hfound, rfl⟩)

/-- What is reached from a class on a circle leads back to it. -/
theorem reaches_back {next target : ClassName}
    (hstep : Extends classes name next)
    (hcircle : Relation.ReflTransGen (Extends classes) next name)
    (hreach : Relation.ReflTransGen (Extends classes) name target) :
    Relation.ReflTransGen (Extends classes) target name := by
  induction hreach with
  | refl => exact .refl
  | tail _ hlast ih =>
      rcases ih.cases_head with rfl | ⟨after, hfirst, hrest⟩
      · rwa [hlast.unique hstep]
      · rwa [hlast.unique hfirst]

/-- A walk ends at the root exactly if it can reach it. -/
theorem chainEnd_eq_root_iff (hroot : find? classes .root = none) :
    chainEnd classes name = .root ↔
      Relation.ReflTransGen (Extends classes) name .root := by
  constructor
  · intro hend
    exact hend ▸ reaches_chainEnd
  · intro hreach
    induction hreach using Relation.ReflTransGen.head_induction_on with
    | refl => exact chainEnd_of_find?_eq_none hroot
    | head hstep htail ih =>
        rename_i start next
        obtain ⟨definition, hfound, rfl⟩ := extends_iff.mp hstep
        rw [chainEnd_of_find?_eq_some hfound]
        have hne : chainEnd (without classes start) definition.parent ≠ start := by
          intro hend
          have hcircle : Relation.ReflTransGen (Extends classes) definition.parent
              (chainEnd (without classes start) definition.parent) :=
            reaches_of_without reaches_chainEnd
          rw [hend] at hcircle
          rcases (reaches_back hstep hcircle (htail.head hstep)).cases_head
            with heq | ⟨after, hbeyond, -⟩
          · rw [← heq, hroot] at hfound
            cases hfound
          · simp [Extends, hroot] at hbeyond
        rw [← ih]
        simp only [chainEnd, chain_without_of_chainEnd_ne hne]

/-- The definitions form a hierarchy: no name is taken twice or is that of the
root, every parent exists, and every class has the root as an ancestor. -/
structure FormHierarchy (classes : List (ClassDef κ)) : Prop where
  distinct : (ClassName.root :: classes.map ClassDef.name).Nodup
  parents : ∀ definition ∈ classes, declares classes definition.parent = true
  rooted : ∀ definition ∈ classes,
    Relation.ReflTransGen (Extends classes) definition.name .root

end ClassDef

namespace Hierarchy

theorem firstRepeat?_names_eq_none_iff {classes : List (ClassDef κ)} :
    firstRepeat? [ClassName.root] (classes.map ClassDef.name) = none ↔
      (ClassName.root :: classes.map ClassDef.name).Nodup := by
  rw [firstRepeat?_eq_none_iff, List.nodup_cons]
  simp only [List.mem_singleton]
  constructor
  · intro hfresh
    exact ⟨fun hroot => hfresh.2 _ hroot rfl, hfresh.1⟩
  · intro hnodup
    exact ⟨hnodup.2, fun name hname heq => hnodup.1 (heq ▸ hname)⟩

theorem fault?_eq_none_iff {classes : List (ClassDef κ)} :
    fault? classes = none ↔ ClassDef.FormHierarchy classes := by
  have hparents :
      classes.find? (fun definition =>
          !ClassDef.declares classes definition.parent) = none ↔
        ∀ definition ∈ classes,
          ClassDef.declares classes definition.parent = true := by
    simp
  have hrooted (hnodup : (ClassName.root :: classes.map ClassDef.name).Nodup) :
      classes.find? (fun definition =>
          ClassDef.chainEnd classes definition.name ≠ .root) = none ↔
        ∀ definition ∈ classes,
          Relation.ReflTransGen (ClassDef.Extends classes) definition.name .root := by
    have hroot : ClassDef.find? classes .root = none :=
      ClassDef.find?_eq_none_iff.mpr (List.nodup_cons.mp hnodup).1
    simp [ClassDef.chainEnd_eq_root_iff hroot]
  unfold fault?
  constructor
  · intro hnone
    split at hnone
    next => cases hnone
    next hfresh =>
      split at hnone
      next => cases hnone
      next hknown =>
        have hnodup := firstRepeat?_names_eq_none_iff.mp hfresh
        exact ⟨hnodup, hparents.mp hknown,
          (hrooted hnodup).mp (Option.map_eq_none_iff.mp hnone)⟩
  · intro hform
    rw [firstRepeat?_names_eq_none_iff.mpr hform.distinct, hparents.mpr hform.parents,
      (hrooted hform.distinct).mpr hform.rooted]
    rfl


variable {hierarchy : Hierarchy κ} {name sub sup : ClassName} {definition : ClassDef κ}

theorem formed (hierarchy : Hierarchy κ) : ClassDef.FormHierarchy hierarchy.classes :=
  fault?_eq_none_iff.mp hierarchy.faultless

theorem ofClasses_eq_ok_iff {classes : List (ClassDef κ)} :
    ofClasses classes = .ok hierarchy ↔ hierarchy.classes = classes := by
  unfold ofClasses
  constructor
  · intro hok
    split at hok
    next => cases hok
    next => cases hok; rfl
  · intro hclasses
    subst hclasses
    split
    next error hfault => simp [hierarchy.faultless] at hfault
    next => rfl

theorem get?_root : hierarchy.get? .root = none :=
  ClassDef.find?_eq_none_iff.mpr (List.nodup_cons.mp hierarchy.formed.distinct).1

theorem get?_of_mem (hmem : definition ∈ hierarchy.classes) :
    hierarchy.get? definition.name = some definition :=
  ClassDef.find?_of_mem (List.nodup_cons.mp hierarchy.formed.distinct).2 hmem

theorem mem_of_get? (hget : hierarchy.get? name = some definition) :
    definition ∈ hierarchy.classes :=
  ClassDef.mem_of_find? hget

theorem name_of_get? (hget : hierarchy.get? name = some definition) :
    definition.name = name :=
  ClassDef.name_of_find? hget

theorem contains_iff :
    hierarchy.contains name = true ↔
      name = .root ∨ ∃ definition, hierarchy.get? name = some definition := by
  unfold contains
  rw [ClassDef.declares_iff]
  constructor
  · intro hdeclared
    rcases hdeclared with hroot | hname
    · exact .inl hroot
    · obtain ⟨definition, hmem, rfl⟩ := List.mem_map.mp hname
      exact .inr ⟨definition, get?_of_mem hmem⟩
  · intro hknown
    rcases hknown with hroot | ⟨definition, hget⟩
    · exact .inl hroot
    · exact .inr (List.mem_map.mpr ⟨definition, mem_of_get? hget, name_of_get? hget⟩)

theorem contains_iff_mem :
    hierarchy.contains name = true ↔
      name ∈ ClassName.root :: hierarchy.classes.map ClassDef.name := by
  rw [List.mem_cons]
  exact ClassDef.declares_iff

theorem contains_of_mem (hmem : definition ∈ hierarchy.classes) :
    hierarchy.contains definition.name = true :=
  contains_iff_mem.mpr (List.mem_cons_of_mem _ (List.mem_map_of_mem hmem))

theorem contains_parent (hget : hierarchy.get? name = some definition) :
    hierarchy.contains definition.parent = true :=
  hierarchy.formed.parents definition (mem_of_get? hget)

theorem ancestors_of_get?_eq_none (hget : hierarchy.get? name = none) :
    hierarchy.ancestors name = [] :=
  ClassDef.chain_of_find?_eq_none hget

/-- The ancestors of a class are the class and those of its parent: in a
hierarchy no walk comes back to a definition that it has put aside. -/
theorem ancestors_of_get?_eq_some (hget : hierarchy.get? name = some definition) :
    hierarchy.ancestors name = definition :: hierarchy.ancestors definition.parent := by
  have hend : ClassDef.chainEnd hierarchy.classes name = .root := by
    rw [ClassDef.chainEnd_eq_root_iff get?_root, ← name_of_get? hget]
    exact hierarchy.formed.rooted definition (mem_of_get? hget)
  have hne : ClassDef.chainEnd (ClassDef.without hierarchy.classes name)
      definition.parent ≠ name := by
    rw [← ClassDef.chainEnd_of_find?_eq_some hget, hend]
    intro hroot
    rw [← hroot, get?_root] at hget
    cases hget
  unfold ancestors
  rw [ClassDef.chain_of_find?_eq_some hget, ClassDef.chain_without_of_chainEnd_ne hne]

theorem lineage_of_get?_eq_none (hget : hierarchy.get? name = none) :
    hierarchy.lineage name = [] := by
  simp [lineage, ancestors_of_get?_eq_none hget]

theorem lineage_of_get?_eq_some (hget : hierarchy.get? name = some definition) :
    hierarchy.lineage name = hierarchy.lineage definition.parent ++ [definition] := by
  simp [lineage, ancestors_of_get?_eq_some hget]

/-- Induction from the root down: what holds of the names that are not declared
and passes from a parent to the class holds of every name. -/
theorem parent_induction (hierarchy : Hierarchy κ) {motive : ClassName → Prop}
    (undeclared : ∀ name, hierarchy.get? name = none → motive name)
    (declared : ∀ name definition, hierarchy.get? name = some definition →
      motive definition.parent → motive name)
    (name : ClassName) : motive name := by
  induction hsize : (hierarchy.ancestors name).length using Nat.strongRecOn
    generalizing name with
  | _ size ih =>
      cases hget : hierarchy.get? name with
      | none => exact undeclared name hget
      | some definition =>
          apply declared name definition hget
          refine ih _ ?_ definition.parent rfl
          simp [← hsize, ancestors_of_get?_eq_some hget]

theorem getLast?_lineage : (hierarchy.lineage name).getLast? = hierarchy.get? name := by
  cases hget : hierarchy.get? name with
  | none => rw [lineage_of_get?_eq_none hget]; rfl
  | some definition => rw [lineage_of_get?_eq_some hget, List.getLast?_concat]

theorem parent_of_mem_head?_lineage {oldest : ClassDef κ}
    (holdest : oldest ∈ (hierarchy.lineage name).head?) : oldest.parent = .root := by
  induction name using hierarchy.parent_induction with
  | undeclared name hget => simp [lineage_of_get?_eq_none hget] at holdest
  | declared name definition hget ih =>
      rw [lineage_of_get?_eq_some hget] at holdest
      cases hparent : hierarchy.get? definition.parent with
      | some parent =>
          apply ih
          rw [lineage_of_get?_eq_some hparent] at holdest ⊢
          simpa using holdest
      | none =>
          -- A parent without definition is the root.
          rw [lineage_of_get?_eq_none hparent] at holdest
          rcases contains_iff.mp (contains_parent hget) with hroot | ⟨parent, hsome⟩
          · simp only [List.nil_append, List.head?_cons, Option.mem_some_iff] at holdest
            exact holdest ▸ hroot
          · simp [hparent] at hsome

theorem isChain_lineage :
    (hierarchy.lineage name).IsChain fun above below => below.parent = above.name := by
  induction name using hierarchy.parent_induction with
  | undeclared name hget => simp [lineage_of_get?_eq_none hget]
  | declared name definition hget ih =>
      rw [lineage_of_get?_eq_some hget]
      apply ih.append (List.isChain_singleton definition)
      intro above habove below hbelow
      rw [getLast?_lineage] at habove
      simp only [List.head?_cons, Option.mem_some_iff] at hbelow
      exact hbelow ▸ (name_of_get? habove).symm

/-- A class is the other one or has it as an ancestor, by any number of steps. -/
def Subclass (hierarchy : Hierarchy κ) : ClassName → ClassName → Prop :=
  Relation.ReflTransGen (ClassDef.Extends hierarchy.classes)

theorem subclass_of_get?_eq_none (hget : hierarchy.get? sub = none) :
    hierarchy.Subclass sub sup ↔ sub = sup := by
  unfold Subclass
  rw [Relation.ReflTransGen.cases_head_iff]
  constructor
  · intro hreach
    rcases hreach with heq | ⟨next, hstep, -⟩
    · exact heq
    · obtain ⟨definition, hfound, -⟩ := ClassDef.extends_iff.mp hstep
      exact absurd (hget.symm.trans hfound) (by simp)
  · exact .inl

theorem subclass_of_get?_eq_some (hget : hierarchy.get? sub = some definition) :
    hierarchy.Subclass sub sup ↔
      sub = sup ∨ hierarchy.Subclass definition.parent sup := by
  unfold Subclass
  rw [Relation.ReflTransGen.cases_head_iff]
  constructor
  · intro hreach
    rcases hreach with heq | ⟨next, hstep, hrest⟩
    · exact .inl heq
    · obtain ⟨found, hfound, rfl⟩ := ClassDef.extends_iff.mp hstep
      obtain rfl : definition = found := by simpa using hget.symm.trans hfound
      exact .inr hrest
  · intro hcases
    rcases hcases with heq | hrest
    · exact .inl heq
    · exact .inr ⟨_, ClassDef.extends_iff.mpr ⟨definition, hget, rfl⟩, hrest⟩

theorem isSubclass_iff : hierarchy.isSubclass sub sup = true ↔ hierarchy.Subclass sub sup := by
  have hunfold : hierarchy.isSubclass sub sup = true ↔
      sub = sup ∨ ∃ definition ∈ hierarchy.ancestors sub, definition.parent = sup := by
    simp [isSubclass]
  rw [hunfold]
  clear hunfold
  induction sub using hierarchy.parent_induction with
  | undeclared sub hget =>
      rw [subclass_of_get?_eq_none hget, ancestors_of_get?_eq_none hget]
      simp
  | declared sub definition hget ih =>
      rw [subclass_of_get?_eq_some hget, ancestors_of_get?_eq_some hget]
      simp [← ih]

end Hierarchy

end ClassLang
