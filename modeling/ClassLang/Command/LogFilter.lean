import ClassLang.Command.Directive

/-!
# Log filters

A filter decides which events are shown.  It consists of directives, written one
after the other with commas in between.  Of those that speak about an event the
most specific one decides, and an event that none of them speaks about is hidden.

These are the rules of the library that the command logs with.  No theorem is about
them.
-/

namespace ClassLang.Command

/-- The directives of a filter, in the order in which they are written. -/
abbrev LogFilter := List Directive

namespace LogFilter

/-- Reads a filter.  The first directive that cannot be read decides how this
fails. -/
def ofText (text : String) : Except DirectiveError LogFilter :=
  ((text.splitOn ",").filter (· ≠ "")).mapM fun piece => Directive.ofText piece.toList

/-- The filter that the number of `-v` options asks for. -/
def ofVerbosity (verbosity : Nat) : LogFilter :=
  [.all (.ofVerbosity verbosity)]

/-- The filter of the log setting.  If there is none, or a malformed one, the
number of `-v` options decides.  There is no filter at all if a directive cannot be
cut into its parts. -/
def choose (setting : Option String) (verbosity : Nat) : Option LogFilter :=
  match setting.map ofText with
  | some (.ok filter) => some filter
  | some (.error .splitsCharacter) => none
  | some (.error .malformed) | none => some (ofVerbosity verbosity)

/-- The more specific of two directives, the later one when they are equal. -/
def moreSpecific (best : Option Directive) (next : Directive) : Option Directive :=
  match best with
  | none => some next
  | some previous =>
    if previous.compareSpecificity next = .gt then some previous else some next

/-- The directive that decides about an event. -/
def directiveFor? (filter : LogFilter) (event : Event) : Option Directive :=
  (filter.filter (·.appliesTo event)).foldl moreSpecific none

def shows (filter : LogFilter) (event : Event) : Bool :=
  match filter.directiveFor? event with
  | some directive => directive.detail.covers event.level
  | none => false

end LogFilter

end ClassLang.Command
