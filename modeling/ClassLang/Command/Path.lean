/-!
# Paths and locations

A path is a way through directories as it is written down; a location is the
place where a way ends.  Different paths may lead to one location.  Locations
are counted from the root or from the working directory, and because nothing is
known about where the working directory lies, also from the directories above
it.
-/

namespace ClassLang.Command

/-- A directory that locations are counted from. -/
inductive Origin where
  | root
  /-- So many levels above the working directory. -/
  | above (levels : Nat)
deriving DecidableEq

/-- The directory that is reached from an origin by going up.  Above the root
there is only the root. -/
def Origin.parent : Origin → Origin
  | root => root
  | above levels => above (levels + 1)

/-- A place for a file or a directory: the names on the way down from an origin. -/
structure Location where
  origin : Origin
  names : List String
deriving DecidableEq

namespace Location

/-- The working directory. -/
def working : Location := ⟨.above 0, []⟩

def root : Location := ⟨.root, []⟩

/-- Whether a location lies strictly inside of another one. -/
def isBelow (location other : Location) : Bool :=
  location.origin = other.origin && other.names.isPrefixOf location.names &&
    other.names.length < location.names.length

/-- The directory that holds a location. -/
def parent (location : Location) : Location :=
  if location.names = [] then ⟨location.origin.parent, []⟩
  else ⟨location.origin, location.names.dropLast⟩

/-- Follows one part of a path: `.` stays, `..` goes up, and a name goes down. -/
def follow (location : Location) (part : String) : Location :=
  if part = "." then location
  else if part = ".." then location.parent
  else ⟨location.origin, location.names ++ [part]⟩

/-- The path of a location inside of the working directory. -/
def text? (location : Location) : Option String :=
  if location.origin = .above 0 then some ("/".intercalate location.names) else none

end Location

structure Path where
  start : Location
  /-- The parts between the slashes, without empty ones. -/
  parts : List String
  /-- Whether the path ends with a slash, as only paths of directories do. -/
  slashed : Bool
deriving DecidableEq

namespace Path

def ofText (text : String) : Path where
  start := if text.toList.head? = some '/' then .root else .working
  parts := (text.splitOn "/").filter (· ≠ "")
  slashed := text.toList.getLast? = some '/'

/-- Where a path leads if all directories on the way exist. -/
def location (path : Path) : Location :=
  path.parts.foldl Location.follow path.start

end Path

end ClassLang.Command
