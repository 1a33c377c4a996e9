import ClassLang.Proofs.Ancestry

/-!
# Looking up methods

A class has the methods of all classes on the way up.  A look-up by name goes to
the nearest class that defines one, and the list of all methods consists of the
results of these look-ups.
-/

namespace ClassLang

variable {κ : Type} {hierarchy : Hierarchy κ} {name : ClassName}
  {definition : ClassDef κ} {method : MethodName} {owned : OwnedMethod κ}

namespace ClassDef

/-- The last definition of a name in a class. -/
theorem find?_reverse_eq_some_iff {found : MethodDef κ} :
    (definition.methods.reverse.find? fun candidate => candidate.name = found.name) =
        some found ↔
      ∃ earlier later, definition.methods = earlier ++ found :: later ∧
        found.name ∉ later.map MethodDef.name := by
  rw [List.find?_eq_some_iff_append]
  constructor
  · rintro ⟨-, later, earlier, hsplit, hlater⟩
    refine ⟨earlier.reverse, later.reverse, ?_, ?_⟩
    · simpa using congrArg List.reverse hsplit
    · simpa using hlater
  · rintro ⟨earlier, later, hsplit, hlater⟩
    refine ⟨decide_eq_true rfl, later.reverse, earlier.reverse, ?_, ?_⟩
    · simp [hsplit]
    · simpa using hlater

theorem find?_reverse_eq_none_iff :
    (definition.methods.reverse.find? fun candidate => candidate.name = method) = none ↔
      method ∉ definition.methods.map MethodDef.name := by
  simp

end ClassDef

namespace Hierarchy

theorem method?_of_get?_eq_none (hget : hierarchy.get? name = none) :
    hierarchy.method? name method = none := by
  simp [method?, ancestors_of_get?_eq_none hget]

theorem method?_of_get?_eq_some (hget : hierarchy.get? name = some definition) :
    hierarchy.method? name method =
      ((definition.methods.reverse.find? fun candidate => candidate.name = method).map
          fun found => ⟨definition.name, found⟩).or
        (hierarchy.method? definition.parent method) := by
  unfold method?
  rw [ancestors_of_get?_eq_some hget, List.findSome?_cons]
  cases definition.methods.reverse.find? fun candidate => candidate.name = method <;> rfl

/-- The method that a class has under a name comes from the nearest class that
defines one: no class on the way to the owner has a method of that name. -/
theorem exists_nearest_owner (hfound : hierarchy.method? name method = some owned) :
    ∃ nearer owner farther,
      hierarchy.ancestors name = nearer ++ owner :: farther ∧
      owner.name = owned.owner ∧
      owned.definition ∈ owner.methods ∧
      owned.definition.name = method ∧
      ∀ definition ∈ nearer, method ∉ definition.methods.map MethodDef.name := by
  obtain ⟨nearer, owner, farther, hsplit, howner, hnearer⟩ :=
    List.findSome?_eq_some_iff.mp hfound
  obtain ⟨found, hlast, rfl⟩ := Option.map_eq_some_iff.mp howner
  refine ⟨nearer, owner, farther, hsplit, rfl, ?_, ?_, ?_⟩
  · exact List.mem_reverse.mp (List.mem_of_find?_eq_some hlast)
  · simpa using List.find?_some hlast
  · intro definition hdefinition hdefines
    have hnone := hnearer definition hdefinition
    obtain ⟨candidate, hcandidate, rfl⟩ := List.mem_map.mp hdefines
    simp only [Option.map_eq_none_iff, List.find?_eq_none, List.mem_reverse,
      decide_eq_true_eq] at hnone
    exact hnone candidate hcandidate rfl

/-- The methods of a class are the results of looking up names. -/
theorem mem_methods_iff :
    owned ∈ hierarchy.methods name ↔
      hierarchy.method? name owned.definition.name = some owned := by
  unfold methods
  simp only [List.mem_filterMap, List.mem_mergeSort, List.mem_eraseDups]
  constructor
  · intro hmem
    obtain ⟨method, -, hfound⟩ := hmem
    obtain ⟨-, -, -, -, -, -, hname, -⟩ := exists_nearest_owner hfound
    rwa [hname]
  · intro hfound
    obtain ⟨nearer, owner, farther, hsplit, -, hmem, -⟩ := exists_nearest_owner hfound
    refine ⟨owned.definition.name, List.mem_flatMap.mpr ⟨owner, ?_, ?_⟩, hfound⟩
    · simp [hsplit]
    · exact List.mem_map_of_mem hmem

end Hierarchy

end ClassLang
