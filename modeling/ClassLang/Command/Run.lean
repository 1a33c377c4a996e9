import ClassLang.Command.Execute
import ClassLang.Command.FileStore

/-!
# Runs on a file store

A file store can take the place of the disk.  It is one system of many that the
command may run on, and keeps the events that it is told of.
-/

namespace ClassLang.Command

/-- A store and what has been reported. -/
structure Session where
  store : FileStore
  log : List Event

instance : ToString FileError := ⟨FileError.message⟩

/-- The system that reads and writes the files of a store. -/
def Session.system : System (StateM Session) FileError where
  read path := do return (← get).store.readText path
  write path text := do
    match (← get).store.writeText path text with
    | .error reason => return .error reason
    | .ok store =>
      modify fun session => { session with store }
      return .ok ()
  report event := modify fun session => { session with log := session.log ++ [event] }

/-- How a run on a file store ends. -/
abbrev Ending := Exit FileError

/-- Everything that can be observed of a run. -/
structure Outcome where
  ending : Ending
  /-- The events that the filter lets through. -/
  log : List Event
  store : FileStore

/-- Everything on the standard output: what the command says there, and what it
writes there as to a file. -/
def Outcome.output (outcome : Outcome) : String :=
  let written := (outcome.store.get? FileStore.standardOutput).bind String.fromUTF8?
  outcome.ending.output ++ written.getD ""

/-- Runs the command on a store. -/
def run (arguments : List String) (logSetting : Option String) (store : FileStore) : Outcome :=
  let (ending, session) := (Session.system.run arguments logSetting).run ⟨store, []⟩
  ⟨ending, session.log, session.store⟩

end ClassLang.Command
