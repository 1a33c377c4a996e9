import ClassLang.Command.Run
import ClassLang.Proofs.FileWrites
import ClassLang.Proofs.LoweringTotality

/-!
# Runs write all or nothing

A run reads, renders and writes, and stops at the first step that fails.  Writing
comes last, so a run that fails leaves the files as it found them, and one that
succeeds has replaced one file by the rendering of what it read.

Nothing is said here about when a system can read or write a file.  All that is
assumed is that what is read is in the file, and that only a write that succeeds
changes anything: the one file at its path.

What is to be written matters only after the source has been read and scanned.
So up to there all kinds of output fail alike, and those that need a program also
fail alike where it is parsed.
-/

namespace ClassLang.Command

/-- The text that a source gives, by the stages that the kind of output asks for. -/
def Emit.Yields : Emit → (source text : String) → Prop
  | .tokens, source, text => ∃ tokens, Token.scan source = .ok tokens ∧
      text = Text.unlines (tokens.map Token.text)
  | .outline, source, text => ∃ tokens program, Token.scan source = .ok tokens ∧
      Program.parse tokens = .ok program ∧ text = program.outlineText
  | .script, source, text => compile source = .ok text

variable {emit : Emit} {input output source text : String}

/-! ## Rendering -/

theorem render_eq_ok_iff : render emit source = .ok text ↔ emit.Yields source text := by
  cases emit with
  | tokens =>
      simp only [render, Source.tokens, bind_eq_ok_iff, mapError_eq_ok_iff, pure_eq_ok_iff,
        Emit.Yields, @eq_comm _ text]
  | outline =>
      simp only [render, Source.program_eq_ok_iff, bind_eq_ok_iff, pure_eq_ok_iff, Emit.Yields,
        @eq_comm _ text]
      constructor
      · rintro ⟨program, ⟨tokens, hscan, hparse⟩, htext⟩
        exact ⟨tokens, program, hscan, hparse, htext⟩
      · rintro ⟨tokens, program, hscan, hparse, htext⟩
        exact ⟨program, ⟨tokens, hscan, hparse⟩, htext⟩
  | script => rfl

theorem tokens_eq_error_iff {error : CompileError} :
    Source.tokens source = .error error ↔
      ∃ cause, Token.scan source = .error cause ∧ .scan cause = error :=
  mapError_eq_error_iff

theorem program_eq_error_iff {error : CompileError} :
    Source.program source = .error error ↔
      (∃ cause, Token.scan source = .error cause ∧ .scan cause = error) ∨
        ∃ tokens, Token.scan source = .ok tokens ∧
          ∃ cause, Program.parse tokens = .error cause ∧ .parse cause = error := by
  simp only [Source.program, Source.tokens, bind_eq_error_iff, mapError_eq_error_iff,
    mapError_eq_ok_iff]

/-- Compiling fails where the program cannot be read, or later with an error of another
stage. -/
theorem compile_eq_error_iff {error : CompileError} :
    compile source = .error error ↔
      Source.program source = .error error ∨
        ∃ program, Source.program source = .ok program ∧
          ((∃ cause, program.check = .error cause ∧ .type cause = error) ∨
            ∃ checked, program.check = .ok checked ∧
              ∃ cause, checked.lower = .error cause ∧ .lowering cause = error) := by
  rw [compile, bind_pure_eq_error_iff]
  simp only [Source.script, bind_eq_error_iff, mapError_eq_error_iff, mapError_eq_ok_iff]

/-- A text that cannot be scanned gives the same error for every kind of output. -/
theorem render_eq_scan_error_iff {error : ScanError} :
    render emit source = .error (.scan error) ↔ Token.scan source = .error error := by
  unfold render
  cases emit with
  | tokens =>
      rw [bind_pure_eq_error_iff, tokens_eq_error_iff]
      simp
  | outline =>
      rw [bind_pure_eq_error_iff, program_eq_error_iff]
      simp
  | script =>
      rw [compile_eq_error_iff, program_eq_error_iff]
      simp

/-- Tokens that cannot be parsed give the same error for every kind of output that needs
a program. -/
theorem render_eq_parse_error_iff {error : ParseError} :
    render emit source = .error (.parse error) ↔ emit ≠ .tokens ∧
      ∃ tokens, Token.scan source = .ok tokens ∧ Program.parse tokens = .error error := by
  unfold render
  cases emit with
  | tokens =>
      rw [bind_pure_eq_error_iff, tokens_eq_error_iff]
      simp
  | outline =>
      rw [bind_pure_eq_error_iff, program_eq_error_iff]
      simp
  | script =>
      rw [compile_eq_error_iff, program_eq_error_iff]
      simp

/-! ## Systems with files -/

namespace System

variable {σ κ ε : Type} {system : System (StateM σ) ε} {place : String → κ}
  {files : σ → κ → Option ByteArray} {before after : σ}

/-- What is assumed of a system with the states `σ`.  Paths name places for files, and
`files` says what is there.  A text that is read is in the file at the path.  A write that
fails leaves all files as they were, and one that succeeds sets exactly the file at its
path.  Neither reading nor reporting changes a file. -/
structure HasFiles (system : System (StateM σ) ε) (place : String → κ)
    (files : σ → κ → Option ByteArray) : Prop where
  of_read : ∀ {path text before after}, (system.read path).run before = (.ok text, after) →
    files before (place path) = some text.toUTF8
  read_keeps : ∀ path before, files ((system.read path).run before).2 = files before
  of_failed_write : ∀ {path text reason before after},
    (system.write path text).run before = (.error reason, after) → files after = files before
  of_write : ∀ {path text before after}, (system.write path text).run before = (.ok (), after) →
    files after (place path) = some text.toUTF8 ∧
      ∀ other, other ≠ place path → files after other = files before other
  report_keeps : ∀ event before, files ((system.report event).run before).2 = files before

theorem HasFiles.reportAll_keeps (hfiles : system.HasFiles place files) (events : List Event) :
    files ((system.reportAll events).run before).2 = files before := by
  induction events generalizing before with
  | nil => rfl
  | cons event rest ih => exact ih.trans (hfiles.report_keeps event before)

/-- The state in which a run has rendered the source that it read. -/
def rendered (system : System (StateM σ) ε) (emit : Emit) (input source : String)
    (before : σ) : σ :=
  ((system.reportAll (.readSource input source.utf8ByteSize :: compileEvents emit source)).run
    before).2

/-! ## Runs -/

theorem run_bind {α β : Type} (first : StateM σ α) (next : α → StateM σ β) :
    (first >>= next).run before = (next (first.run before).1).run (first.run before).2 :=
  rfl

/-- How a run goes: one of its three steps fails, or all of them succeed. -/
inductive Goes (system : System (StateM σ) ε) (emit : Emit) (input output : String)
    (before : σ) : Except (Error ε) Unit → σ → Prop where
  | unread {reason after} (hread : (system.read input).run before = (.error reason, after)) :
      Goes system emit input output before (.error (.read input reason)) after
  | unrendered {source error opened}
      (hread : (system.read input).run before = (.ok source, opened))
      (hrender : render emit source = .error error) :
      Goes system emit input output before (.error (.compile error))
        (system.rendered emit input source opened)
  | unwritten {source text reason opened after}
      (hread : (system.read input).run before = (.ok source, opened))
      (hrender : render emit source = .ok text)
      (hwrite : (system.write output text).run (system.rendered emit input source opened) =
        (.error reason, after)) :
      Goes system emit input output before (.error (.write output reason)) after
  | done {source text opened written}
      (hread : (system.read input).run before = (.ok source, opened))
      (hrender : render emit source = .ok text)
      (hwrite : (system.write output text).run (system.rendered emit input source opened) =
        (.ok (), written)) :
      Goes system emit input output before (.ok ())
        ((system.report (.wroteOutput output text.utf8ByteSize)).run written).2

/-- The steps of a run one after the other. -/
theorem run_execute :
    (system.execute emit input output).run before =
      match (system.read input).run before with
      | (.error reason, after) => (.error (.read input reason), after)
      | (.ok source, opened) =>
        match render emit source with
        | .error error => (.error (.compile error), system.rendered emit input source opened)
        | .ok text =>
          match (system.write output text).run (system.rendered emit input source opened) with
          | (.error reason, after) => (.error (.write output reason), after)
          | (.ok _, written) =>
            (.ok (), ((system.report (.wroteOutput output text.utf8ByteSize)).run written).2) := by
  unfold execute
  rw [run_bind]
  cases (system.read input).run before with
  | mk found opened =>
      cases found with
      | error reason => rfl
      | ok source =>
          dsimp only
          rw [run_bind]
          cases render emit source with
          | error error => rfl
          | ok text =>
              dsimp only
              rw [run_bind, ← rendered]
              cases (system.write output text).run (system.rendered emit input source opened) with
              | mk result written =>
                  cases result with
                  | error reason => rfl
                  | ok _ => rfl

theorem run_execute_eq_iff {result : Except (Error ε) Unit} :
    (system.execute emit input output).run before = (result, after) ↔
      system.Goes emit input output before result after := by
  rw [run_execute]
  constructor
  · intro hrun
    split at hrun
    next reason stopped hread => cases hrun; exact .unread hread
    next source opened hread =>
      split at hrun
      next error hrender => cases hrun; exact .unrendered hread hrender
      next text hrender =>
        split at hrun
        next reason stopped hwrite => cases hrun; exact .unwritten hread hrender hwrite
        next written hwrite => cases hrun; exact .done hread hrender hwrite
  · intro hgoes
    cases hgoes with
    | unread hread => simp only [hread]
    | unrendered hread hrender => simp only [hread, hrender]
    | unwritten hread hrender hwrite => simp only [hread, hrender, hwrite]
    | done hread hrender hwrite => simp only [hread, hrender, hwrite]

theorem run_execute_eq_ok_iff :
    (∃ after, (system.execute emit input output).run before = (.ok (), after)) ↔
      ∃ source text opened written,
        (system.read input).run before = (.ok source, opened) ∧ emit.Yields source text ∧
        (system.write output text).run (system.rendered emit input source opened) =
          (.ok (), written) := by
  simp only [run_execute_eq_iff, ← render_eq_ok_iff]
  constructor
  · rintro ⟨after, hgoes⟩
    cases hgoes with
    | done hread hrender hwrite => exact ⟨_, _, _, _, hread, hrender, hwrite⟩
  · rintro ⟨source, text, opened, written, hread, hrender, hwrite⟩
    exact ⟨_, .done hread hrender hwrite⟩

theorem HasFiles.rendered_keeps (hfiles : system.HasFiles place files)
    {found : Except ε String} {opened : σ}
    (hread : (system.read input).run before = (found, opened)) :
    files (system.rendered emit input source opened) = files before := by
  have hopened := hfiles.read_keeps input before
  rw [hread] at hopened
  exact (hfiles.reportAll_keeps _).trans hopened

/-- A run that fails leaves the files as they were. -/
theorem HasFiles.of_execute_error (hfiles : system.HasFiles place files) {error : Error ε}
    (hrun : (system.execute emit input output).run before = (.error error, after)) :
    files after = files before := by
  cases run_execute_eq_iff.mp hrun with
  | unread hread =>
      have hkept := hfiles.read_keeps input before
      rwa [hread] at hkept
  | unrendered hread hrender => exact hfiles.rendered_keeps hread
  | unwritten hread hrender hwrite =>
      exact (hfiles.of_failed_write hwrite).trans (hfiles.rendered_keeps hread)

/-- A run that succeeds has set one file, to what the old text of the input gives. -/
theorem HasFiles.of_execute (hfiles : system.HasFiles place files)
    (hrun : (system.execute emit input output).run before = (.ok (), after)) :
    ∃ source text, files before (place input) = some source.toUTF8 ∧
      emit.Yields source text ∧ files after (place output) = some text.toUTF8 ∧
      ∀ other, other ≠ place output → files after other = files before other := by
  cases run_execute_eq_iff.mp hrun with
  | @done source text opened written hread hrender hwrite =>
      obtain ⟨hhere, helsewhere⟩ := hfiles.of_write hwrite
      rw [hfiles.report_keeps]
      refine ⟨source, text, hfiles.of_read hread, render_eq_ok_iff.mp hrender, hhere, ?_⟩
      intro other hother
      rw [helsewhere other hother, hfiles.rendered_keeps hread]

/-- A run that cannot read its input goes like all that read the same. -/
theorem execute_of_read_error {path : String} {reason : ε}
    (hrun : (system.execute emit input output).run before = (.error (.read path reason), after))
    (other : Emit) :
    (system.execute other input output).run before = (.error (.read path reason), after) := by
  rw [run_execute_eq_iff] at hrun ⊢
  cases hrun with
  | unread hread => exact .unread hread

/-- What is reported of a text that cannot be scanned does not depend on the output. -/
theorem execute_of_scan_error {error : ScanError}
    (hrun : (system.execute emit input output).run before =
      (.error (.compile (.scan error)), after)) (other : Emit) :
    (system.execute other input output).run before =
      (.error (.compile (.scan error)), after) := by
  rw [run_execute_eq_iff] at hrun ⊢
  cases hrun with
  | @unrendered source error opened hread hrender =>
      have hscan := render_eq_scan_error_iff.mp hrender
      have hsame : system.rendered emit input source opened =
          system.rendered other input source opened := by
        simp only [rendered, compileEvents, hscan]
      rw [hsame]
      exact .unrendered hread (render_eq_scan_error_iff.mpr hscan)

theorem execute_of_parse_error {error : ParseError}
    (hrun : (system.execute emit input output).run before =
      (.error (.compile (.parse error)), after)) :
    emit ≠ .tokens ∧ ∀ other, other ≠ .tokens →
      (system.execute other input output).run before =
        (.error (.compile (.parse error)), after) := by
  simp only [run_execute_eq_iff] at hrun ⊢
  cases hrun with
  | @unrendered source error opened hread hrender =>
      obtain ⟨hneeds, tokens, hscan, hparse⟩ := render_eq_parse_error_iff.mp hrender
      refine ⟨hneeds, fun other hother => ?_⟩
      have hsame : system.rendered emit input source opened =
          system.rendered other input source opened := by
        simp only [rendered, compileEvents, hscan, hparse, if_neg hneeds, if_neg hother]
      rw [hsame]
      exact .unrendered hread (render_eq_parse_error_iff.mpr ⟨hother, tokens, hscan, hparse⟩)

/-- Hiding events changes no file. -/
theorem HasFiles.showing (hfiles : system.HasFiles place files) (filter : LogFilter) :
    (system.showing filter).HasFiles place files where
  of_read := hfiles.of_read
  read_keeps := hfiles.read_keeps
  of_failed_write := hfiles.of_failed_write
  of_write := hfiles.of_write
  report_keeps event before := by
    unfold System.showing
    dsimp only
    split
    · exact hfiles.report_keeps event before
    · rfl

/-- The whole command changes files only if it is done. -/
theorem HasFiles.of_run (hfiles : system.HasFiles place files) {arguments : List String}
    {logSetting : Option String} {exit : Exit ε}
    (hrun : (system.run arguments logSetting).run before = (exit, after))
    (hexit : exit ≠ .done) : files after = files before := by
  unfold System.run at hrun
  split at hrun
  next => cases hrun; rfl
  next request hrequest =>
    split at hrun
    next => cases hrun; rfl
    next filter input output hfilter hpaths =>
      rw [run_bind] at hrun
      cases hexecute : ((system.showing filter).execute request.emit input output).run before with
      | mk result stopped =>
          rw [hexecute] at hrun
          cases result with
          | error error =>
              cases hrun
              exact (hfiles.showing filter).of_execute_error hexecute
          | ok _ =>
              cases hrun
              exact absurd rfl hexit
    next => cases hrun; rfl

/-- The command writes all or nothing, on every system with files.  If it fails, all files
are as before.  It succeeds exactly if the input can be read, gives a text and this can be
written, and then the files differ at most where the output path leads, and there is the
text that the old content of the input gives.  An error in reading the input or in scanning
it is the same for every kind of output, and one in parsing it for every kind that needs a
program. -/
theorem execute_all_or_nothing (hfiles : system.HasFiles place files) (emit : Emit)
    (input output : String) (before : σ) :
    (∀ error after, (system.execute emit input output).run before = (.error error, after) →
      files after = files before) ∧
    (∀ after, (system.execute emit input output).run before = (.ok (), after) →
      ∃ source text, files before (place input) = some source.toUTF8 ∧
        emit.Yields source text ∧ files after (place output) = some text.toUTF8 ∧
        ∀ other, other ≠ place output → files after other = files before other) ∧
    ((∃ after, (system.execute emit input output).run before = (.ok (), after)) ↔
      ∃ source text opened written,
        (system.read input).run before = (.ok source, opened) ∧ emit.Yields source text ∧
        (system.write output text).run (system.rendered emit input source opened) =
          (.ok (), written)) ∧
    (∀ path reason after,
      (system.execute emit input output).run before = (.error (.read path reason), after) →
      ∀ other, (system.execute other input output).run before =
        (.error (.read path reason), after)) ∧
    (∀ error after,
      (system.execute emit input output).run before =
        (.error (.compile (.scan error)), after) →
      ∀ other, (system.execute other input output).run before =
        (.error (.compile (.scan error)), after)) ∧
    ∀ error after,
      (system.execute emit input output).run before =
        (.error (.compile (.parse error)), after) →
      emit ≠ .tokens ∧ ∀ other, other ≠ .tokens →
        (system.execute other input output).run before =
          (.error (.compile (.parse error)), after) :=
  ⟨fun _ _ => hfiles.of_execute_error, fun _ => hfiles.of_execute, run_execute_eq_ok_iff,
    fun _ _ _ => execute_of_read_error, fun _ _ => execute_of_scan_error,
    fun _ _ => execute_of_parse_error⟩

end System

/-! ## File stores -/

/-- A session remembers what is reported, in order. -/
theorem Session.run_reportAll (session : Session) (events : List Event) :
    (Session.system.reportAll events).run session =
      ((), { session with log := session.log ++ events }) := by
  induction events generalizing session with
  | nil => rw [List.append_nil]; rfl
  | cons event rest ih =>
      refine (ih { session with log := session.log ++ [event] }).trans ?_
      rw [List.append_assoc, List.singleton_append]

theorem Session.run_write {store written : FileStore} {log : List Event} {path text : String}
    (hwrite : store.writeText path text = .ok written) :
    (Session.system.write path text).run ⟨store, log⟩ = (.ok (), ⟨written, log⟩) := by
  have hstate : (get : StateM Session Session).run ⟨store, log⟩ = (⟨store, log⟩, ⟨store, log⟩) :=
    rfl
  unfold Session.system
  rw [System.run_bind, hstate]
  simp only [hwrite]
  rfl

/-- What a session has at a location is the file of its store. -/
theorem Session.system_hasFiles :
    Session.system.HasFiles (fun path => (Path.ofText path).location)
      fun session => session.store.get? where
  of_read {path text before after} hrun := by
    obtain ⟨location, hleads, hentry⟩ :=
      FileStore.readText_eq_ok_iff.mp (congrArg Prod.fst hrun)
    exact hleads.eq_location ▸ FileStore.entry_eq_file_iff.mp hentry
  read_keeps _ _ := rfl
  of_failed_write {path text reason before after} hrun := by
    unfold Session.system at hrun
    rw [System.run_bind] at hrun
    split at hrun
    next => cases hrun; rfl
    next => cases hrun
  of_write {path text before after} hrun := by
    unfold Session.system at hrun
    rw [System.run_bind] at hrun
    split at hrun
    next => cases hrun
    next store hwrite =>
      cases hrun
      obtain ⟨⟨hhere, helsewhere⟩, -⟩ := FileStore.of_writeText hwrite
      refine ⟨FileStore.entry_eq_file_iff.mp hhere, fun other hother => ?_⟩
      refine Option.ext fun content => ?_
      rw [← FileStore.entry_eq_file_iff, ← FileStore.entry_eq_file_iff]
      exact (congrArg (· = .file content) (helsewhere other hother)).to_iff
  report_keeps _ _ := rfl

/-- A store with one source file in the working directory. -/
def sourceStore : FileStore := ⟨[(⟨.above 0, ["a"]⟩, "return;".toUTF8)], []⟩

theorem execute_all_or_nothing_sourceStore :
    (∃ after, (Session.system.execute .tokens "a" "a").run ⟨sourceStore, []⟩ = (.ok (), after) ∧
      after.store.get? ⟨.above 0, ["a"]⟩ = some "return\n;\n".toUTF8) ∧
    ∀ emit, (Session.system.execute emit "b" "a").run ⟨sourceStore, []⟩ =
      (.error (.read "b" .notFound), ⟨sourceStore, []⟩) := by
  have hpath : Path.ofText "a" = ⟨.working, ["a"], false⟩ := by cbv
  have hother : Path.ofText "b" = ⟨.working, ["b"], false⟩ := by cbv
  have hread : sourceStore.readText "a" = .ok "return;" := by
    rw [FileStore.readText_eq_ok_iff]
    refine ⟨⟨.above 0, ["a"]⟩, ⟨by decide, by decide, by rw [hpath], ?_⟩, rfl⟩
    rw [hpath]
    rfl
  have hmissing : sourceStore.readText "b" = .error .notFound := by
    rw [FileStore.readText, FileStore.checkPath, hother]
    rfl
  have hscan : Token.scan "return;" = .ok [.keyword .returnKw, .symbol .semicolon] := by cbv
  have hyields : Emit.tokens.Yields "return;" "return\n;\n" := ⟨_, hscan, by decide⟩
  have hwrite : sourceStore.writeText "a" "return\n;\n" =
      .ok (sourceStore.set ⟨.above 0, ["a"]⟩ "return\n;\n".toUTF8) := by
    rw [FileStore.writeText, FileStore.destination, FileStore.checkPath, hpath]
    rfl
  obtain ⟨-, hwritten, hdone, -⟩ :=
    System.execute_all_or_nothing Session.system_hasFiles .tokens "a" "a" ⟨sourceStore, []⟩
  obtain ⟨-, -, -, hsame, -⟩ :=
    System.execute_all_or_nothing Session.system_hasFiles .tokens "b" "a" ⟨sourceStore, []⟩
  have hrendered : Session.system.rendered .tokens "a" "return;" ⟨sourceStore, []⟩ =
      ⟨sourceStore, .readSource "a" 7 :: compileEvents .tokens "return;"⟩ := by
    rw [System.rendered, Session.run_reportAll]
    rfl
  obtain ⟨after, hrun⟩ := hdone.mpr
    ⟨_, _, ⟨sourceStore, []⟩, _, congrArg (·, _) hread, hyields,
      hrendered ▸ Session.run_write hwrite⟩
  obtain ⟨source, text, hsource, ⟨tokens, htokens, rfl⟩, hplace, -⟩ := hwritten _ hrun
  rw [hpath] at hsource hplace
  have hsource : "return;".toUTF8 = source.toUTF8 := Option.some.inj hsource
  obtain rfl : "return;" = source := String.toByteArray_inj.mp hsource
  cases hscan.symm.trans htokens
  refine ⟨⟨after, hrun, hplace⟩, hsame _ _ _ ?_⟩
  exact System.run_execute_eq_iff.mpr (.unread (congrArg (·, _) hmissing))

end ClassLang.Command
