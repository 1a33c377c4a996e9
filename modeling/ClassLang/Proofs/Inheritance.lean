import ClassLang.Proofs.TableConstruction
import Mathlib.Data.List.Nodup
import Mathlib.Logic.Function.Basic

/-!
# Lines of classes and what they inherit

The line of a class runs from the oldest class above it, which extends the root,
down to the class itself.  Going down the line and writing the methods of each
class over those collected so far gives every name the last definition in the
class nearest to the end.  A look-up, which goes up instead and stops at the
first class that has one, finds the same.
-/

namespace ClassLang

variable {κ : Type}

theorem nodup_eraseDups {α : Type} [DecidableEq α] (items : List α) :
    items.eraseDups.Nodup := by
  induction hlength : items.length using Nat.strongRecOn generalizing items with
  | _ length ih =>
      cases items with
      | nil => exact List.nodup_nil
      | cons first rest =>
          have hshorter : (rest.filter fun item => !item == first).length < length :=
            hlength ▸ Nat.lt_succ_of_le (List.length_filter_le _ _)
          rw [List.eraseDups_cons, List.nodup_cons]
          exact ⟨by simp, ih _ hshorter _ rfl⟩

/-- A line that ends with a given class, or is empty without one: it starts below the
root, each class extends the one before it, and no class comes twice. -/
structure ClassDef.IsLine (line : List (ClassDef κ)) (last : Option (ClassDef κ)) : Prop where
  top : ∀ oldest ∈ line.head?, oldest.parent = .root
  linked : line.IsChain fun above below => below.parent = above.name
  ends : line.getLast? = last
  once : (line.map ClassDef.name).Nodup

/-- A method is the one that the end of a line has under its name: the last definition
of the name in a class after which no class of the line has one. -/
def OwnedMethod.PrevailsIn (line : List (ClassDef κ)) (owned : OwnedMethod κ) : Prop :=
  ∃ farther owner nearer earlier later,
    line = farther ++ owner :: nearer ∧ owner.name = owned.owner ∧
      owner.methods = earlier ++ owned.definition :: later ∧
      owned.definition.name ∉ later.map MethodDef.name ∧
      ∀ definition ∈ nearer, owned.definition.name ∉ definition.methods.map MethodDef.name

/-- Writes the methods of a class over what stands under their names, one after the
other. -/
def ClassDef.overwrite (served : MethodName → Option (OwnedMethod κ))
    (definition : ClassDef κ) : MethodName → Option (OwnedMethod κ) :=
  definition.methods.foldl
    (fun served method => Function.update served method.name
      (some ⟨definition.name, method⟩)) served

namespace ClassDef

variable {definition : ClassDef κ} {method : MethodName}

theorem overwrite_eq (served : MethodName → Option (OwnedMethod κ)) :
    definition.overwrite served method =
      ((definition.methods.reverse.find? fun candidate => candidate.name = method).map
        fun found => ⟨definition.name, found⟩).or (served method) := by
  unfold overwrite
  induction definition.methods generalizing served with
  | nil => rfl
  | cons first rest ih =>
      rw [List.foldl_cons, ih, List.reverse_cons, List.find?_append, Option.map_or,
        Option.or_assoc]
      congr 1
      by_cases hname : first.name = method
      · subst hname
        simp
      · simp [Function.update, hname, Ne.symm hname]

end ClassDef

namespace Hierarchy

variable {hierarchy : Hierarchy κ} {name : ClassName} {definition : ClassDef κ}
  {method : MethodName} {owned : OwnedMethod κ}

/-! ## The line of a class -/

theorem nodup_names_lineage : ((hierarchy.lineage name).map ClassDef.name).Nodup := by
  rw [lineage, List.map_reverse, List.nodup_reverse]
  exact ClassDef.nodup_names_chain

theorem isLine_lineage (hierarchy : Hierarchy κ) (name : ClassName) :
    ClassDef.IsLine (hierarchy.lineage name) (hierarchy.get? name) :=
  ⟨fun _ => parent_of_mem_head?_lineage, isChain_lineage, getLast?_lineage,
    nodup_names_lineage⟩

/-! ## Inherited methods -/

theorem method?_eq_some_iff :
    hierarchy.method? name owned.definition.name = some owned ↔
      owned.PrevailsIn (hierarchy.lineage name) := by
  unfold method? OwnedMethod.PrevailsIn lineage
  rw [List.findSome?_eq_some_iff]
  simp only [Option.map_eq_some_iff, Option.map_eq_none_iff, ClassDef.find?_reverse_eq_none_iff]
  constructor
  · rintro ⟨nearer, owner, farther, hsplit, ⟨found, hlast, rfl⟩, hnearer⟩
    obtain ⟨earlier, later, hmethods, hlater⟩ := ClassDef.find?_reverse_eq_some_iff.mp hlast
    refine ⟨farther.reverse, owner, nearer.reverse, earlier, later, ?_, rfl, hmethods,
      hlater, ?_⟩
    · simp [hsplit]
    · simpa only [List.mem_reverse] using hnearer
  · rintro ⟨farther, owner, nearer, earlier, later, hsplit, howner, hmethods, hlater,
      hnearer⟩
    have hlast := ClassDef.find?_reverse_eq_some_iff.mpr ⟨earlier, later, hmethods, hlater⟩
    refine ⟨nearer.reverse, owner, farther.reverse, ?_, ⟨_, hlast, by rw [howner]⟩, ?_⟩
    · simpa using congrArg List.reverse hsplit
    · simpa only [List.mem_reverse] using hnearer

theorem name_of_method? (hfound : hierarchy.method? name method = some owned) :
    owned.definition.name = method := by
  obtain ⟨-, -, -, -, -, -, hname, -⟩ := exists_nearest_owner hfound
  exact hname

theorem nodup_methodNames : (hierarchy.methodNames name).Nodup := by
  unfold methodNames methods
  rw [List.map_filterMap]
  apply List.Nodup.filterMap
  · intro first second found hfirst hsecond
    rw [Option.mem_def, Option.map_eq_some_iff] at hfirst hsecond
    obtain ⟨owned, howned, rfl⟩ := hfirst
    obtain ⟨other, hother, hsame⟩ := hsecond
    rw [← name_of_method? howned, ← name_of_method? hother, hsame]
  · exact (List.mergeSort_perm _ _).nodup_iff.mpr (nodup_eraseDups _)

theorem foldl_overwrite_lineage (hierarchy : Hierarchy κ) (name : ClassName) :
    (hierarchy.lineage name).foldl ClassDef.overwrite (fun _ => none) =
      hierarchy.method? name := by
  funext method
  induction name using hierarchy.parent_induction with
  | undeclared name hget =>
      rw [lineage_of_get?_eq_none hget, method?_of_get?_eq_none hget]
      rfl
  | declared name definition hget ih =>
      rw [lineage_of_get?_eq_some hget, List.foldl_append, List.foldl_cons, List.foldl_nil,
        ClassDef.overwrite_eq, ih, method?_of_get?_eq_some hget]

theorem mem_methodNames_iff_lineage :
    method ∈ hierarchy.methodNames name ↔
      ∃ definition ∈ hierarchy.lineage name, method ∈ definition.methods.map MethodDef.name := by
  rw [mem_methodNames_iff, ← Option.isSome_iff_exists]
  simp [method?, lineage]

theorem method?_eq_some_iff_mem :
    hierarchy.method? name method = some owned ↔
      owned ∈ hierarchy.methods name ∧ owned.definition.name = method := by
  rw [mem_methods_iff]
  constructor
  · intro hfound
    obtain rfl := name_of_method? hfound
    exact ⟨hfound, rfl⟩
  · rintro ⟨hfound, rfl⟩
    exact hfound

/-- In a hierarchy built from class definitions the line of an undeclared name, such as
the root, is empty, and that of a class is the line of its parent followed by the class.
So it starts below the root, every class extends the one before it, and none comes twice.
The methods of a class are named as those that the classes of its line define, each name
once, and the method of a name is the last definition in the nearest class that has one.
It is found going up the line, and also by writing the methods of each class over those
of its line before it. -/
theorem lineage_decides_lookup {classes : List (ClassDef κ)}
    (hbuilt : ofClasses classes = .ok hierarchy) (name : ClassName) :
    ClassName.root ∉ classes.map ClassDef.name ∧
    (name ∉ classes.map ClassDef.name → hierarchy.lineage name = []) ∧
    (∀ definition ∈ classes, definition.name = name →
      hierarchy.lineage name = hierarchy.lineage definition.parent ++ [definition]) ∧
    ClassDef.IsLine (hierarchy.lineage name)
      (classes.find? fun definition => definition.name = name) ∧
    (hierarchy.methodNames name).Nodup ∧
    (∀ method, method ∈ hierarchy.methodNames name ↔
      ∃ definition ∈ hierarchy.lineage name,
        method ∈ definition.methods.map MethodDef.name) ∧
    (∀ owned, owned ∈ hierarchy.methods name ↔
      owned.PrevailsIn (hierarchy.lineage name)) ∧
    (∀ method owned, hierarchy.method? name method = some owned ↔
      owned ∈ hierarchy.methods name ∧ owned.definition.name = method) ∧
    (hierarchy.lineage name).foldl ClassDef.overwrite (fun _ => none) =
      hierarchy.method? name := by
  obtain rfl := ofClasses_eq_ok_iff.mp hbuilt
  refine ⟨(List.nodup_cons.mp hierarchy.formed.distinct).1, ?_, ?_,
    isLine_lineage hierarchy name, nodup_methodNames, fun _ => mem_methodNames_iff_lineage,
    fun _ => mem_methods_iff.trans method?_eq_some_iff, fun _ _ => method?_eq_some_iff_mem,
    foldl_overwrite_lineage hierarchy name⟩
  · intro hundeclared
    exact lineage_of_get?_eq_none (ClassDef.find?_eq_none_iff.mpr hundeclared)
  · rintro definition hmem rfl
    exact lineage_of_get?_eq_some (get?_of_mem hmem)

def valuedMethod (returnTy : Ty) (name : String) : MethodDef Plain :=
  ⟨returnTy, ⟨name⟩, [], .returnVoid⟩

def valuedBase : ClassDef Plain :=
  ⟨⟨"A"⟩, .root, [], [], [], [], [valuedMethod .int "e", valuedMethod .int "g"]⟩

/-- Defines a method of its parent, and that one twice. -/
def redefiningClass : ClassDef Plain :=
  ⟨⟨"B"⟩, ⟨"A"⟩, [], [], [], [],
    [valuedMethod .int "g", valuedMethod .int "f", valuedMethod .bool "g"]⟩

def redefiningLine : Hierarchy Plain where
  classes := [redefiningClass, valuedBase]
  faultless := by decide +kernel

theorem lineage_decides_lookup_redefiningLine :
    ofClasses [redefiningClass, valuedBase] = .ok redefiningLine ∧
      redefiningLine.lineage ⟨"B"⟩ = [valuedBase, redefiningClass] ∧
      redefiningLine.method? ⟨"B"⟩ ⟨"g"⟩ = some ⟨⟨"B"⟩, valuedMethod .bool "g"⟩ ∧
      redefiningLine.method? ⟨"B"⟩ ⟨"e"⟩ = some ⟨⟨"A"⟩, valuedMethod .int "e"⟩ ∧
      ⟨"h"⟩ ∉ redefiningLine.methodNames ⟨"B"⟩ := by
  have hbuilt : ofClasses [redefiningClass, valuedBase] = .ok redefiningLine :=
    ofClasses_eq_ok_iff.mpr rfl
  obtain ⟨hroot, hempty, -⟩ := lineage_decides_lookup hbuilt .root
  obtain ⟨-, -, hbase, -⟩ := lineage_decides_lookup hbuilt ⟨"A"⟩
  obtain ⟨-, -, hline, -, -, hnames, hmethods, hlookup, -⟩ :=
    lineage_decides_lookup hbuilt ⟨"B"⟩
  have hlineage : redefiningLine.lineage ⟨"B"⟩ = [valuedBase, redefiningClass] := by
    rw [hline redefiningClass (by simp) rfl, redefiningClass,
      hbase valuedBase (by simp) rfl, valuedBase, hempty hroot]
    rfl
  rw [hlineage] at hmethods hnames
  refine ⟨hbuilt, hlineage, (hlookup _ _).mpr ⟨(hmethods _).mpr ?_, rfl⟩,
    (hlookup _ _).mpr ⟨(hmethods _).mpr ?_, rfl⟩, ?_⟩
  · exact ⟨[valuedBase], redefiningClass, [], [valuedMethod .int "g", valuedMethod .int "f"],
      [], rfl, rfl, rfl, by decide, by simp⟩
  · exact ⟨[], valuedBase, [redefiningClass], [], [valuedMethod .int "g"], rfl, rfl, rfl,
      by decide, by decide⟩
  · rw [hnames]
    decide

end Hierarchy

end ClassLang
