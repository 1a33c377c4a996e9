import ClassLang.Proofs.NameResolution

/-!
# What happens to the receiver

A function of a script takes the receiver under a fixed name, and an object keeps
its dispatch table under a fixed member.  Programs may use both names for variables
of their own.  So `self` means the receiver exactly where the program has no
parameter or variable of that name in scope and is not about to declare one, and
the table stays in place exactly if the program never assigns to an instance
variable with the name of that member.
-/

namespace ClassLang

open Script

/-- What the name of the receiver means in a use that is written with it. -/
def Script.Mention.receiver? : Mention → Option Meaning
  | bare _ _ _ => none
  | receiver meaning | member _ _ meaning => some meaning

/-- The member under which an object keeps its dispatch table. -/
def Script.tableMember : VarName := ⟨"vtable"⟩

/-- Wherever the name of the receiver is written it means the receiver. -/
def Script.Naming.KeepsReceiver (naming : Naming) : Prop :=
  ∀ mention ∈ naming.mentions, ∀ meaning ∈ mention.receiver?, meaning = .receiver

/-- The dispatch table of an object is never replaced. -/
def Script.Naming.KeepsTable (naming : Naming) : Prop :=
  ∀ meaning, .member tableMember .write meaning ∉ naming.mentions

structure Script.KeepsReceiver (script : Script) : Prop where
  receiver : ∀ function ∈ script.functions, function.naming.KeepsReceiver
  table : ∀ naming ∈ script.namings, naming.KeepsTable

/-- The name of the receiver is free for the receiver. -/
def Point.SparesReceiver (point : Point) : Prop :=
  point.visible.resolve? receiverName = none ∧
    ∀ declared ∈ point.declaring, receiverName ≠ declared.1

instance : DecidablePred Point.SparesReceiver := fun point =>
  inferInstanceAs (Decidable (_ ∧ ∀ declared ∈ point.declaring, receiverName ≠ declared.1))

namespace Routine

variable {κ : Type}

/-- `this` and instance variables are used only where no parameter and no variable
is called `self`. -/
def SparesReceiver (routine : Routine κ) : Prop :=
  ∀ occurrence ∈ routine.occurrences, occurrence.local? = none →
    occurrence.point.SparesReceiver

/-- Nothing is assigned to an instance variable called `vtable`. -/
def SparesTable (routine : Routine κ) : Prop :=
  ∀ occurrence ∈ routine.occurrences, occurrence.subject = .var tableMember .write →
    occurrence.local? ≠ none

instance (routine : Routine κ) : Decidable routine.SparesReceiver :=
  inferInstanceAs (Decidable (∀ occurrence ∈ routine.occurrences, _ → _))

instance (routine : Routine κ) : Decidable routine.SparesTable :=
  inferInstanceAs (Decidable (∀ occurrence ∈ routine.occurrences, _ → _))

end Routine

structure Program.SparesReceiver {κ : Type} (program : Program κ) : Prop where
  receiver : ∀ routine ∈ program.members, routine.SparesReceiver
  table : ∀ routine ∈ program.routines, routine.SparesTable

theorem Point.meaning_receiverName_iff (point : Point) :
    (point.bindings receiverBindings).meaning receiverName = .receiver ↔
      point.SparesReceiver := by
  have hvisible := point.visible.meaning_bindings receiverBindings receiverName
  obtain ⟨visible, declaring⟩ := point
  have hinner : (visible.bindings receiverBindings).meaning receiverName = .receiver ↔
      visible.resolve? receiverName = none := by
    rw [hvisible]
    cases visible.resolve? receiverName <;> simp [receiverBindings, Bindings.meaning]
  cases declaring with
  | none => simpa [Point.bindings, SparesReceiver] using hinner
  | some declared =>
      obtain ⟨other, binder⟩ := declared
      by_cases hsame : receiverName = other
      · simp [Point.bindings, Bindings.meaning, SparesReceiver, hsame]
      · simpa [Point.bindings, Bindings.meaning, SparesReceiver, hsame] using hinner

namespace Occurrence

theorem receiver?_mention (outer : Bindings) (occurrence : Occurrence) :
    (occurrence.mention outer).receiver? =
      match occurrence.local? with
      | some _ => none
      | none => some ((occurrence.point.bindings outer).meaning receiverName) := by
  obtain ⟨subject, point⟩ := occurrence
  cases subject with
  | this => rfl
  | var name access =>
      unfold mention local?
      cases hresolved : point.visible.resolve? name <;> simp [hresolved, Mention.receiver?]

theorem mention_eq_member_iff (outer : Bindings) (occurrence : Occurrence) (name : VarName)
    (access : Access) :
    (∃ meaning, occurrence.mention outer = .member name access meaning) ↔
      occurrence.subject = .var name access ∧ occurrence.local? = none := by
  obtain ⟨subject, point⟩ := occurrence
  cases subject with
  | this => simp [mention]
  | var other access' =>
      unfold mention local?
      cases hresolved : point.visible.resolve? other <;> simp [hresolved]

end Occurrence

namespace Routine

variable {κ : Type} (routine : Routine κ)

theorem keepsReceiver_naming_iff :
    (routine.naming receiverBindings).KeepsReceiver ↔ routine.SparesReceiver := by
  simp only [Naming.KeepsReceiver, naming, List.forall_mem_map, SparesReceiver]
  refine forall₂_congr fun occurrence _ => ?_
  rw [Occurrence.receiver?_mention]
  cases occurrence.local? <;> simp [Point.meaning_receiverName_iff]

theorem keepsTable_naming_iff (outer : Bindings) :
    (routine.naming outer).KeepsTable ↔ routine.SparesTable := by
  constructor
  · intro hmentions occurrence hoccurrence hsubject hlocal
    obtain ⟨meaning, hmention⟩ :=
      (occurrence.mention_eq_member_iff outer tableMember .write).mpr ⟨hsubject, hlocal⟩
    apply hmentions meaning
    rw [← hmention]
    exact List.mem_map_of_mem hoccurrence
  · intro hoccurrences meaning hmember
    obtain ⟨occurrence, hoccurrence, hmention⟩ := List.mem_map.mp hmember
    obtain ⟨hsubject, hlocal⟩ :=
      (occurrence.mention_eq_member_iff outer tableMember .write).mp ⟨meaning, hmention⟩
    exact hoccurrences occurrence hoccurrence hsubject hlocal

end Routine

section

variable {κ : Type} {program : Program κ} {script : Script}

theorem Program.functions_keepReceiver_iff (hnamings : script.namings = program.namings) :
    (∀ function ∈ script.functions, function.naming.KeepsReceiver) ↔
      ∀ routine ∈ program.members, routine.SparesReceiver := by
  have hfunctions : script.functions.map Function.naming =
      program.members.map (Routine.naming receiverBindings) :=
    List.append_inj_left' hnamings rfl
  simp only [← Routine.keepsReceiver_naming_iff]
  rw [← List.forall_mem_map, hfunctions, List.forall_mem_map]

theorem Program.namings_keepTable_iff (hnamings : script.namings = program.namings) :
    (∀ naming ∈ script.namings, naming.KeepsTable) ↔
      ∀ routine ∈ program.routines, routine.SparesTable := by
  simp only [hnamings, Program.namings, Program.routines, List.forall_mem_append,
    List.forall_mem_map, List.forall_mem_singleton, Routine.keepsTable_naming_iff]

end

/-- A compiled source keeps the receiver of every function and the dispatch table of
every object exactly if it leaves their names alone. -/
theorem compile_keepsReceiver_iff {source text : String} (hcompile : compile source = .ok text) :
    ∃ program script, Source.program source = .ok program ∧
      Source.script source = .ok script ∧ script.text = text ∧
        (script.KeepsReceiver ↔ program.SparesReceiver) := by
  obtain ⟨script, hscript, htext⟩ := compile_eq_ok_iff.mp hcompile
  obtain ⟨program, checked, hprogram, hcheck, hlower⟩ := Source.script_eq_ok_iff.mp hscript
  refine ⟨program, script, hprogram, hscript, htext, ?_⟩
  have hnamings := Program.namings_of_check hcheck hlower
  have hreceiver := Program.functions_keepReceiver_iff hnamings
  have htable := Program.namings_keepTable_iff hnamings
  constructor
  · intro hkeeps
    exact ⟨hreceiver.mp hkeeps.receiver, htable.mp hkeeps.table⟩
  · intro hspares
    exact ⟨hreceiver.mpr hspares.receiver, htable.mpr hspares.table⟩

/-- A class with the given instance variable, which its constructor sets to one, and
a method that has the given parameter and returns the receiver. -/
def settingClass {κ : Type} (field param : VarName) : ClassDef κ where
  name := ⟨"C"⟩
  parent := .root
  fields := [⟨.int, field⟩]
  params := []
  superArgs := []
  body := [.assign field (.int 1)]
  methods := [⟨.object ⟨"C"⟩, ⟨"m"⟩, [⟨.int, param⟩], .returnValue .this⟩]

def settingTokens (field param : String) : List Token :=
  [.keyword .classKw, .ident "C", .keyword .extendsKw, .ident "Object", .symbol .openBrace,
    .keyword .intKw, .ident field, .symbol .semicolon, .keyword .constructorKw,
    .symbol .openParen, .symbol .closeParen, .symbol .openBrace, .keyword .superKw,
    .symbol .openParen, .symbol .closeParen, .symbol .semicolon, .ident field,
    .symbol .assign, .integer 1, .symbol .semicolon, .symbol .closeBrace, .ident "C",
    .ident "m", .symbol .openParen, .keyword .intKw, .ident param, .symbol .closeParen,
    .keyword .returnKw, .keyword .thisKw, .symbol .semicolon, .symbol .closeBrace,
    .keyword .printlnKw, .symbol .openParen, .integer 1, .symbol .closeParen,
    .symbol .semicolon]

def settingProgram (κ : Type) (field param : VarName) : Program κ :=
  ⟨[settingClass field param], .println (.int 1)⟩

def sparingSource : String :=
  "class C extends Object \x7b int n; constructor() \x7b super(); n = 1; \x7d " ++
    "C m(int k) return this; \x7d println(1);"

theorem compile_keepsReceiver_iff_sparingSource :
    ∃ script : Script, compile sparingSource = .ok script.text ∧ script.KeepsReceiver := by
  have hscan : Token.scan sparingSource = .ok (settingTokens "n" "k") := by cbv
  have hprogram : Source.program sparingSource = .ok (settingProgram Plain ⟨"n"⟩ ⟨"k"⟩) :=
    Source.program_eq_ok_iff.mpr ⟨_, hscan, rfl⟩
  have hcheck : (settingProgram Plain ⟨"n"⟩ ⟨"k"⟩).check =
      .ok (settingProgram Resolved ⟨"n"⟩ ⟨"k"⟩) := by
    rw [Program.check_of_faultless (by decide +kernel)]
    cbv
  obtain ⟨script, -, hscript⟩ := Source.exists_script_of_check hprogram hcheck
  have hcompile := compile_eq_ok_iff.mpr ⟨script, hscript, rfl⟩
  obtain ⟨program, other, hother, -, htext, hkeeps⟩ := compile_keepsReceiver_iff hcompile
  rw [hprogram] at hother
  obtain rfl := Except.ok.inj hother
  exact ⟨other, htext ▸ hcompile, hkeeps.mpr ⟨by decide, by decide⟩⟩

def capturingSource : String :=
  "class C extends Object \x7b int vtable; constructor() \x7b super(); vtable = 1; \x7d " ++
    "C m(int self) return this; \x7d println(1);"

/-- The method returns its parameter instead of the receiver, and the constructor
replaces the dispatch table of its object. -/
theorem not_keepsReceiver_capturingSource :
    ∃ script, Source.script capturingSource = .ok script ∧
      (¬ ∀ function ∈ script.functions, function.naming.KeepsReceiver) ∧
        ¬ ∀ naming ∈ script.namings, naming.KeepsTable := by
  have hscan : Token.scan capturingSource = .ok (settingTokens "vtable" "self") := by cbv
  have hprogram : Source.program capturingSource =
      .ok (settingProgram Plain ⟨"vtable"⟩ ⟨"self"⟩) :=
    Source.program_eq_ok_iff.mpr ⟨_, hscan, rfl⟩
  have hcheck : (settingProgram Plain ⟨"vtable"⟩ ⟨"self"⟩).check =
      .ok (settingProgram Resolved ⟨"vtable"⟩ ⟨"self"⟩) := by
    rw [Program.check_of_faultless (by decide +kernel)]
    cbv
  obtain ⟨script, hlower, hscript⟩ := Source.exists_script_of_check hprogram hcheck
  have hnamings := Program.namings_of_check hcheck hlower
  refine ⟨script, hscript, ?_, ?_⟩
  · rw [Program.functions_keepReceiver_iff hnamings]
    decide
  · rw [Program.namings_keepTable_iff hnamings]
    decide

end ClassLang
