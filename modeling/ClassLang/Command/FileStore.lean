import ClassLang.Command.Path

/-!
# File stores

The files that the command can see, as a map from locations to contents.  A
directory exists if it was made or if something lies below it.  A path leads
through a store part by part, and every part but the last has to end in a
directory that exists.  Reading never changes a store; writing either fails, and
then nothing changes, or sets exactly one file.

A store fails for the shape of a path, for a text that is not valid or for a full
device.  A disk has more reasons to fail, so what holds of the command on every
system is not stated of stores.
-/

namespace ClassLang.Command

/-- Why a file cannot be read or written. -/
inductive FileError where
  | notFound
  | notADirectory
  | isADirectory
  | nameTooLong
  | noSpace
  | invalidText
deriving DecidableEq

def FileError.message : FileError → String
  | notFound => "No such file or directory (os error 2)"
  | notADirectory => "Not a directory (os error 20)"
  | isADirectory => "Is a directory (os error 21)"
  | nameTooLong => "File name too long (os error 36)"
  | noSpace => "No space left on device (os error 28)"
  | invalidText => "stream did not contain valid UTF-8"

/-- What a store has at a location. -/
inductive Entry where
  | missing
  | file (content : ByteArray)
  | directory

structure FileStore where
  files : List (Location × ByteArray)
  directories : List Location

namespace FileStore

/-- The most bytes that the name of a file or directory may have. -/
def nameLimit : Nat := 255

/-- The most bytes that a path may have. -/
def pathLimit : Nat := 4095

/-- The names of the directories that every system has directly below the root. -/
def systemDirectories : List String :=
  ["bin", "boot", "dev", "etc", "home", "lib", "media", "mnt", "opt", "proc", "root", "run",
    "sbin", "srv", "sys", "tmp", "usr", "var"]

/-- The device with the given name. -/
def device (name : String) : Location := ⟨.root, ["dev", name]⟩

/-- The device that has no space for anything. -/
def fullDevice : Location := device "full"

/-- The device that shows what is written to it. -/
def standardOutput : Location := device "stdout"

/-- A store with nothing but what every system has.  Devices are files that start
out empty: there is nothing on the standard input, and the null device is only
ever read before something is written to it. -/
def empty : FileStore where
  files := ["null", "stdin", "stdout"].map fun name => (device name, .empty)
  directories := systemDirectories.map fun name => ⟨.root, [name]⟩

/-- The content of a file. -/
def get? (store : FileStore) (location : Location) : Option ByteArray :=
  store.files.lookup location

/-- Sets the content of a file, whether it exists or not. -/
def set (store : FileStore) (location : Location) (content : ByteArray) : FileStore :=
  { store with
    files := store.files.filter (fun file => file.1 ≠ location) ++ [(location, content)] }

def addDirectory (store : FileStore) (location : Location) : FileStore :=
  { store with directories := store.directories ++ [location] }

def isDirectory (store : FileStore) (location : Location) : Bool :=
  location.names = [] || location ∈ store.directories
    || store.directories.any (fun other => other.isBelow location)
    || store.files.any fun file => file.1.isBelow location

def entry (store : FileStore) (location : Location) : Entry :=
  match store.get? location with
  | some content => .file content
  | none => if store.isDirectory location then .directory else .missing

/-- Succeeds exactly on the directories. -/
def checkDirectory (store : FileStore) (location : Location) : Except FileError Unit :=
  match store.entry location with
  | .missing => .error .notFound
  | .file _ => .error .notADirectory
  | .directory => .ok ()

/-- Follows one part of a path from a directory, to something that need not exist. -/
def step (store : FileStore) (location : Location) (part : String) :
    Except FileError Location := do
  store.checkDirectory location
  if nameLimit < part.utf8ByteSize then .error .nameTooLong
  else .ok (location.follow part)

/-- Follows the parts of a path one after the other. -/
def walk (store : FileStore) (start : Location) (parts : List String) :
    Except FileError Location :=
  parts.foldlM store.step start

/-- The path that is written as `text`, which must neither be empty nor too long. -/
def checkPath (text : String) : Except FileError Path :=
  if text = "" then .error .notFound
  else if pathLimit < text.utf8ByteSize then .error .nameTooLong
  else .ok (.ofText text)

/-- The text of the file at the end of a path. -/
def readText (store : FileStore) (path : String) : Except FileError String := do
  let path ← checkPath path
  let location ← store.walk path.start path.parts
  match store.entry location with
  | .missing => .error .notFound
  | .directory => .error .isADirectory
  | .file content =>
    if path.slashed then .error .notADirectory
    else
      match String.fromUTF8? content with
      | some text => .ok text
      | none => .error .invalidText

/-- The location that a path offers to be written to, in a directory that exists. -/
def destination (store : FileStore) (path : String) : Except FileError Location := do
  let path ← checkPath path
  match path.parts.getLast? with
  | none => .error .isADirectory
  | some last =>
    let holder ← store.walk path.start path.parts.dropLast
    store.checkDirectory holder
    if path.slashed then .error .isADirectory
    else
      let location ← store.step holder last
      if store.isDirectory location then .error .isADirectory else .ok location

/-- Writes a text to the file at the end of a path. -/
def writeText (store : FileStore) (path text : String) : Except FileError FileStore := do
  let location ← store.destination path
  if location = fullDevice ∧ text ≠ "" then .error .noSpace
  else return store.set location text.toUTF8

/-- The files inside of the working directory, by their paths. -/
def listing (store : FileStore) : List (String × ByteArray) :=
  store.files.filterMap fun (location, content) => location.text?.map fun path => (path, content)

end FileStore

end ClassLang.Command
