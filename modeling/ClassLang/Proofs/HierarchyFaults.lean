import ClassLang.Proofs.Ancestry

/-!
# Faults of a hierarchy

Class definitions are examined in three rounds, each of which goes through them
in source order: for names that are taken, for parents that do not exist, and for
classes that do not descend from the root.  The first class at fault in the first
round that finds one is reported.

The last round walks up from each class.  Definitions are finitely many and every
parent exists, so a walk that misses the root comes back to a class that it has
met; and since a class has only one parent, no walk that has come back reaches
the root later.
-/

namespace ClassLang

variable {κ : Type}

/-! ## The first item at fault -/

section

variable {α : Type}

/-- The first item of a list that is at fault.  Whether an item is at fault may
depend on the items before it. -/
def IsFirst (fault : List α → α → Prop) (items : List α) (item : α) : Prop :=
  ∃ before after, items = before ++ item :: after ∧ fault before item ∧
    ∀ earlier other later, before = earlier ++ other :: later → ¬ fault earlier other

variable {fault : List α → α → Prop} {head item : α} {items rest : List α}

theorem not_isFirst_nil : ¬ IsFirst fault [] item := by
  rintro ⟨before, after, hsplit, -, -⟩
  simp at hsplit

theorem isFirst_cons_iff :
    IsFirst fault (head :: rest) item ↔
      (fault [] head ∧ head = item) ∨
        (¬ fault [] head ∧ IsFirst (fun before => fault (head :: before)) rest item) := by
  constructor
  · rintro ⟨before, after, hsplit, hfault, hearlier⟩
    cases before with
    | nil =>
        rcases List.cons.inj hsplit with ⟨rfl, rfl⟩
        exact .inl ⟨hfault, rfl⟩
    | cons first others =>
        rcases List.cons.inj hsplit with ⟨rfl, hrest⟩
        refine .inr ⟨hearlier [] head others rfl, others, after, hrest, hfault, ?_⟩
        intro earlier other later heq
        exact hearlier (head :: earlier) other later (by rw [heq, List.cons_append])
  · rintro (⟨hfault, rfl⟩ | ⟨hhead, before, after, hrest, hfault, hearlier⟩)
    · refine ⟨[], rest, rfl, hfault, ?_⟩
      intro earlier other later heq
      simp at heq
    · refine ⟨head :: before, after, by rw [hrest, List.cons_append], hfault, ?_⟩
      intro earlier other later heq
      cases earlier with
      | nil =>
          rcases List.cons.inj heq with ⟨rfl, -⟩
          exact hhead
      | cons first others =>
          rcases List.cons.inj heq with ⟨rfl, hbefore⟩
          exact hearlier others other later hbefore

theorem find?_eq_some_iff_isFirst {test : α → Bool} {fault : α → Prop}
    (htest : ∀ other, test other = true ↔ fault other) :
    items.find? test = some item ↔ IsFirst (fun _ => fault) items item := by
  induction items with
  | nil => simp [not_isFirst_nil]
  | cons head rest ih =>
      rw [isFirst_cons_iff, List.find?_cons, ← htest]
      cases hhead : test head with
      | true => simp
      | false => simpa using ih

theorem firstRepeat?_eq_some_iff [DecidableEq α] {seen : List α} :
    firstRepeat? seen items = some item ↔
      IsFirst (fun before other => other ∈ seen ∨ other ∈ before) items item := by
  induction items generalizing seen with
  | nil => simp [firstRepeat?, not_isFirst_nil]
  | cons head rest ih =>
      rw [isFirst_cons_iff, firstRepeat?]
      by_cases hhead : head ∈ seen
      · simp [hhead]
      · simp only [hhead, if_false, ih, List.not_mem_nil, or_self, false_and, false_or,
          not_false_eq_true, true_and, List.mem_cons, or_left_comm, or_assoc]

end

/-! ## Ways up -/

namespace ClassDef

/-- The class extends a name that is neither declared nor that of the root. -/
def Orphan (classes : List (ClassDef κ)) (definition : ClassDef κ) : Prop :=
  definition.parent ≠ .root ∧ definition.parent ∉ classes.map ClassDef.name

/-- The root is reached from the class by steps to the parent. -/
def Rooted (classes : List (ClassDef κ)) (definition : ClassDef κ) : Prop :=
  Relation.ReflTransGen (Extends classes) definition.name .root

/-- The way up from a name comes to a class that is reached from itself. -/
def LeadsIntoCircle (classes : List (ClassDef κ)) (name : ClassName) : Prop :=
  ∃ member, Relation.ReflTransGen (Extends classes) name member ∧
    Relation.TransGen (Extends classes) member member

/-- The definitions on a way from a name up to the root, the nearest first. -/
inductive Line (classes : List (ClassDef κ)) : ClassName → List (ClassDef κ) → Prop where
  | root : Line classes .root []
  | step {definition : ClassDef κ} {line : List (ClassDef κ)} :
      definition ∈ classes → Line classes definition.parent line →
      Line classes definition.name (definition :: line)

variable {classes : List (ClassDef κ)} {name : ClassName} {definition : ClassDef κ}

theorem not_declares_parent_iff :
    (!declares classes definition.parent) = true ↔ Orphan classes definition := by
  rw [Bool.not_eq_true', ← Bool.not_eq_true, declares_iff, not_or]
  rfl

theorem forall_not_orphan_iff :
    (∀ definition ∈ classes, ¬ Orphan classes definition) ↔
      ∀ definition ∈ classes, declares classes definition.parent = true := by
  simp only [← not_declares_parent_iff, Bool.not_eq_true', Bool.not_eq_false]

/-- A definition that is met on the way up is reached from the start, and from it
the walk goes on to its end. -/
theorem reaches_of_mem_chain (hmem : definition ∈ chain classes name) :
    Relation.ReflTransGen (Extends classes) name definition.name ∧
      Relation.TransGen (Extends classes) definition.name (chainEnd classes name) := by
  fun_induction chain classes name with
  | case1 => simp at hmem
  | case2 classes name found hfound ih =>
      have hstep : Extends classes name found.parent :=
        extends_iff.mpr ⟨found, hfound, rfl⟩
      rw [chainEnd_of_find?_eq_some hfound]
      rcases List.mem_cons.mp hmem with rfl | hrest
      · rw [name_of_find? hfound]
        exact ⟨.refl, .head' hstep (reaches_of_without reaches_chainEnd)⟩
      · rcases ih hrest with ⟨hreach, hend⟩
        exact ⟨(reaches_of_without hreach).head hstep,
          Relation.TransGen.mono (fun _ _ => Extends.of_without) _ _ hend⟩

/-- A walk that ends at a declared class has met it before. -/
theorem chainEnd_mem_of_declared
    (hdeclared : find? classes (chainEnd classes name) ≠ none) :
    chainEnd classes name ∈ (chain classes name).map ClassDef.name := by
  fun_induction chain classes name with
  | case1 classes name hnone =>
      rw [chainEnd_of_find?_eq_none hnone] at hdeclared
      exact absurd hnone hdeclared
  | case2 classes name found hfound ih =>
      rw [chainEnd_of_find?_eq_some hfound] at hdeclared ⊢
      rw [List.map_cons, List.mem_cons, name_of_find? hfound]
      by_cases heq : chainEnd (without classes name) found.parent = name
      · exact .inl heq
      · refine .inr (ih ?_)
        rwa [find?_without_of_ne heq]

theorem not_reaches_of_undeclared {target : ClassName} (hnone : find? classes name = none) :
    ¬ Relation.TransGen (Extends classes) name target := by
  intro hreach
  rcases Relation.TransGen.head'_iff.mp hreach with ⟨next, hstep, -⟩
  simp [Extends, hnone] at hstep

theorem declares_chainEnd
    (hparents : ∀ definition ∈ classes, declares classes definition.parent = true)
    (hdeclared : declares classes name = true) :
    declares classes (chainEnd classes name) = true := by
  unfold chainEnd
  cases hlast : (chain classes name).getLast? with
  | none => exact hdeclared
  | some oldest => exact hparents oldest (mem_of_mem_chain (List.mem_of_getLast? hlast))

/-- Where every parent exists, a way up misses the root exactly if it leads into
a circle. -/
theorem not_reaches_root_iff (hroot : find? classes .root = none)
    (hparents : ∀ definition ∈ classes, declares classes definition.parent = true)
    (hdeclared : declares classes name = true) :
    ¬ Relation.ReflTransGen (Extends classes) name .root ↔ LeadsIntoCircle classes name := by
  constructor
  · intro hmiss
    rw [← chainEnd_eq_root_iff hroot] at hmiss
    have hend := declares_chainEnd hparents hdeclared
    have hmet : chainEnd classes name ∈ (chain classes name).map ClassDef.name := by
      apply chainEnd_mem_of_declared
      rw [Ne, find?_eq_none_iff, Classical.not_not]
      exact (declares_iff.mp hend).resolve_left hmiss
    rcases List.mem_map.mp hmet with ⟨member, hmember, hname⟩
    rcases reaches_of_mem_chain hmember with ⟨hreach, hcircle⟩
    rw [← hname] at hcircle
    exact ⟨member.name, hreach, hcircle⟩
  · rintro ⟨member, hreach, hcircle⟩ hup
    have hunique : Relator.RightUnique (Extends classes) :=
      fun _ _ _ hstep hstep' => hstep.unique hstep'
    -- The way up is one line, so the root stands after the circle or before it.
    have hback : Relation.ReflTransGen (Extends classes) .root member := by
      rcases Relation.ReflTransGen.total_of_right_unique hunique hreach hup
        with hafter | hbefore
      · rcases Relation.TransGen.head'_iff.mp hcircle with ⟨next, hstep, hrest⟩
        exact reaches_back hstep hrest hafter
      · exact hbefore
    exact not_reaches_of_undeclared hroot (Relation.TransGen.trans_right hback hcircle)

end ClassDef

/-! ## What is reported -/

namespace Hierarchy

variable {classes : List (ClassDef κ)} {name parent : ClassName}

theorem ofClasses_eq_error_iff {error : HierarchyError} :
    ofClasses classes = .error error ↔ fault? classes = some error := by
  unfold ofClasses
  split
  next cause hfault => simp [hfault]
  next hfault => simp [hfault]

theorem fault?_eq_duplicateClass_iff :
    fault? classes = some (.duplicateClass name) ↔
      IsFirst (fun before other => other = .root ∨ other ∈ before)
        (classes.map ClassDef.name) name := by
  have hfirst : firstRepeat? [.root] (classes.map ClassDef.name) = some name ↔
      IsFirst (fun before other => other = .root ∨ other ∈ before)
        (classes.map ClassDef.name) name := by
    rw [firstRepeat?_eq_some_iff]
    simp only [List.mem_singleton]
  rw [← hfirst]
  unfold fault?
  split
  next repeated hrepeated => simp [hrepeated]
  next hdistinct =>
    split
    next => simp [hdistinct]
    next => simp [hdistinct]

theorem fault?_eq_undefinedParent_iff :
    fault? classes = some (.undefinedParent name parent) ↔
      (ClassName.root :: classes.map ClassDef.name).Nodup ∧
        ∃ orphan, IsFirst (fun _ => ClassDef.Orphan classes) classes orphan ∧
          orphan.name = name ∧ orphan.parent = parent := by
  simp only [← firstRepeat?_names_eq_none_iff,
    ← find?_eq_some_iff_isFirst fun _ => ClassDef.not_declares_parent_iff]
  unfold fault?
  split
  next repeated hrepeated => simp [hrepeated]
  next hdistinct =>
    split
    next orphan horphan => simp [hdistinct, horphan]
    next hnone => simp [hdistinct, hnone]

theorem fault?_eq_inheritanceCycle_iff :
    fault? classes = some (.inheritanceCycle name) ↔
      (ClassName.root :: classes.map ClassDef.name).Nodup ∧
        (∀ definition ∈ classes, ¬ ClassDef.Orphan classes definition) ∧
        ∃ lost, IsFirst (fun _ definition => ¬ ClassDef.Rooted classes definition)
          classes lost ∧ lost.name = name := by
  have hadopted : (∀ definition ∈ classes, ¬ ClassDef.Orphan classes definition) ↔
      classes.find? (fun definition => !ClassDef.declares classes definition.parent) = none := by
    simp only [List.find?_eq_none, ClassDef.not_declares_parent_iff]
  rw [hadopted, ← firstRepeat?_names_eq_none_iff]
  unfold fault?
  split
  next repeated hrepeated => simp [hrepeated]
  next hdistinct =>
    have hnodup := firstRepeat?_names_eq_none_iff.mp hdistinct
    have hmiss (definition : ClassDef κ) :
        decide (ClassDef.chainEnd classes definition.name ≠ .root) = true ↔
          ¬ ClassDef.Rooted classes definition := by
      rw [decide_eq_true_iff, Ne, ClassDef.chainEnd_eq_root_iff
        (ClassDef.find?_eq_none_iff.mpr (List.nodup_cons.mp hnodup).1)]
      rfl
    simp only [← find?_eq_some_iff_isFirst hmiss]
    split
    next orphan horphan => simp [horphan]
    next hnone => simp [hdistinct, hnone]

theorem exists_ofClasses_iff :
    (∃ hierarchy, ofClasses classes = .ok hierarchy) ↔ ClassDef.FormHierarchy classes := by
  constructor
  · rintro ⟨hierarchy, hok⟩
    rw [← ofClasses_eq_ok_iff.mp hok]
    exact hierarchy.formed
  · intro hform
    exact ⟨⟨classes, fault?_eq_none_iff.mpr hform⟩, ofClasses_eq_ok_iff.mpr rfl⟩

/-- The ancestors of a class are the way from it up to the root. -/
theorem line_ancestors {hierarchy : Hierarchy κ} (hknown : hierarchy.contains name = true) :
    ClassDef.Line hierarchy.classes name (hierarchy.ancestors name) := by
  induction name using hierarchy.parent_induction with
  | undeclared name hget =>
      rcases contains_iff.mp hknown with rfl | ⟨definition, hsome⟩
      · rw [ancestors_of_get?_eq_none hget]
        exact .root
      · simp [hget] at hsome
  | declared name definition hget ih =>
      rw [ancestors_of_get?_eq_some hget, ← name_of_get? hget]
      exact .step (mem_of_get? hget) (ih (contains_parent hget))

theorem eq_ancestors_of_line {hierarchy : Hierarchy κ} {line : List (ClassDef κ)}
    (hline : ClassDef.Line hierarchy.classes name line) : line = hierarchy.ancestors name := by
  induction hline with
  | root => rw [ancestors_of_get?_eq_none get?_root]
  | step hmem _ ih => rw [ancestors_of_get?_eq_some (get?_of_mem hmem), ih]

/-- Definitions are refused for the first class at fault and for nothing else: a
name that is taken comes before a parent that does not exist, and this before a
class from which the root is not reached, that is, one from which the way up leads
into a circle.  Otherwise they are accepted, and the way up from every class ends
at the root and meets no class twice. -/
theorem ofClasses_reports_first_fault (classes : List (ClassDef κ)) :
    (∀ name, ofClasses classes = .error (.duplicateClass name) ↔
      IsFirst (fun before other => other = .root ∨ other ∈ before)
        (classes.map ClassDef.name) name) ∧
    (∀ name parent, ofClasses classes = .error (.undefinedParent name parent) ↔
      (ClassName.root :: classes.map ClassDef.name).Nodup ∧
        ∃ orphan, IsFirst (fun _ => ClassDef.Orphan classes) classes orphan ∧
          orphan.name = name ∧ orphan.parent = parent) ∧
    (∀ name, ofClasses classes = .error (.inheritanceCycle name) ↔
      (ClassName.root :: classes.map ClassDef.name).Nodup ∧
        (∀ definition ∈ classes, ¬ ClassDef.Orphan classes definition) ∧
        ∃ lost, IsFirst (fun _ definition => ¬ ClassDef.Rooted classes definition)
          classes lost ∧ lost.name = name) ∧
    ((∃ hierarchy, ofClasses classes = .ok hierarchy) ↔
      (ClassName.root :: classes.map ClassDef.name).Nodup ∧
        (∀ definition ∈ classes, ¬ ClassDef.Orphan classes definition) ∧
        ∀ definition ∈ classes, ClassDef.Rooted classes definition) ∧
    ((ClassName.root :: classes.map ClassDef.name).Nodup →
      (∀ definition ∈ classes, ¬ ClassDef.Orphan classes definition) →
      ∀ definition ∈ classes, ¬ ClassDef.Rooted classes definition ↔
        ClassDef.LeadsIntoCircle classes definition.name) ∧
    ∀ hierarchy, ofClasses classes = .ok hierarchy → ∀ definition ∈ classes,
      (∃ line, ClassDef.Line classes definition.name line) ∧
        ∀ line, ClassDef.Line classes definition.name line →
          (line.map ClassDef.name).Nodup := by
  refine ⟨?_, ?_, ?_, ?_, ?_, ?_⟩
  · intro name
    rw [ofClasses_eq_error_iff, fault?_eq_duplicateClass_iff]
  · intro name parent
    rw [ofClasses_eq_error_iff, fault?_eq_undefinedParent_iff]
  · intro name
    rw [ofClasses_eq_error_iff, fault?_eq_inheritanceCycle_iff]
  · rw [exists_ofClasses_iff, ClassDef.forall_not_orphan_iff]
    constructor
    · intro hform
      exact ⟨hform.distinct, hform.parents, hform.rooted⟩
    · rintro ⟨hdistinct, hparents, hrooted⟩
      exact ⟨hdistinct, hparents, hrooted⟩
  · intro hdistinct hadopted definition hmem
    apply ClassDef.not_reaches_root_iff
    · exact ClassDef.find?_eq_none_iff.mpr (List.nodup_cons.mp hdistinct).1
    · exact ClassDef.forall_not_orphan_iff.mp hadopted
    · exact ClassDef.declares_iff.mpr (.inr (List.mem_map_of_mem hmem))
  · intro hierarchy hok definition hmem
    rw [← ofClasses_eq_ok_iff.mp hok] at hmem ⊢
    refine ⟨⟨_, line_ancestors (contains_of_mem hmem)⟩, ?_⟩
    intro line hline
    rw [eq_ancestors_of_line hline]
    exact ClassDef.nodup_names_chain

def bareClass (name parent : String) : ClassDef Plain :=
  ⟨⟨name⟩, ⟨parent⟩, [], [], [], [], []⟩

/-- The second class leads into a circle of the two classes after it. -/
def circularClasses : List (ClassDef Plain) :=
  [bareClass "A" "Object", bareClass "B" "C", bareClass "C" "D", bareClass "D" "C"]

def childFirstClasses : List (ClassDef Plain) :=
  [bareClass "B" "A", bareClass "A" "Object"]

theorem ofClasses_reports_first_fault_circularClasses :
    (ofClasses circularClasses = .error (.inheritanceCycle ⟨"B"⟩) ∧
      ∃ lost, IsFirst (fun _ definition => ¬ ClassDef.Rooted circularClasses definition)
        circularClasses lost ∧ lost.name = ⟨"B"⟩ ∧
        ClassDef.LeadsIntoCircle circularClasses lost.name) ∧
      (∃ hierarchy, ofClasses childFirstClasses = .ok hierarchy) ∧
      bareClass "B" "A" ∈ childFirstClasses ∧
      (∃ line, ClassDef.Line childFirstClasses ⟨"B"⟩ line) ∧
      ∀ line, ClassDef.Line childFirstClasses ⟨"B"⟩ line → (line.map ClassDef.name).Nodup := by
  have hfault : ofClasses circularClasses = .error (.inheritanceCycle ⟨"B"⟩) :=
    ofClasses_eq_error_iff.mpr (by decide +kernel)
  have hformed : ∃ hierarchy, ofClasses childFirstClasses = .ok hierarchy :=
    ⟨⟨childFirstClasses, by decide +kernel⟩, ofClasses_eq_ok_iff.mpr rfl⟩
  have hmem : bareClass "B" "A" ∈ childFirstClasses := List.mem_cons_self
  rcases ofClasses_reports_first_fault circularClasses with ⟨-, -, hcycle, -, hcircle, -⟩
  rcases (hcycle ⟨"B"⟩).mp hfault with ⟨hdistinct, hadopted, lost, hlost, hname⟩
  have hlostMem : lost ∈ circularClasses ∧ ¬ ClassDef.Rooted circularClasses lost := by
    rcases hlost with ⟨before, after, hsplit, hmiss, -⟩
    exact ⟨by simp [hsplit], hmiss⟩
  have hleads := (hcircle hdistinct hadopted lost hlostMem.1).mp hlostMem.2
  refine ⟨⟨hfault, lost, hlost, hname, hleads⟩, hformed, hmem, ?_⟩
  rcases hformed with ⟨hierarchy, hok⟩
  exact (ofClasses_reports_first_fault childFirstClasses).2.2.2.2.2 hierarchy hok _ hmem

end Hierarchy

end ClassLang
