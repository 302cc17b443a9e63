import Unqualify.Path
import Unqualify.Text.Quoted
import Unqualify.Text.Utf8

/-!
# File systems

A file system holds regular files, directories and symbolic links below its root. An entry is stored
under its location, which is the list of the names on the way to it from the root, with no link and
no `..` among them. Paths denote locations: `FileSystem.locate` starts at the working directory, or
at the root for an absolute path, follows links, at most forty of them, and goes up at `..`, which
at the root leads nowhere else. A directory can be closed to looking up names in it, or to listing
them. A name of more than 255 octets is refused when it is looked up, and so is a path of more than
4095 octets.

Some path texts can be closed to reading or to writing. A text is closed exactly as it is written
after normalisation, whatever else denotes the same file.
-/

set_option autoImplicit false

namespace Unqualify

/-- The names on the way from the root to an entry. -/
abbrev Location := List String

/-- What a location holds. -/
inductive Entry where
  | file (content : Bytes)
  | directory
  | link (target : String)
  deriving DecidableEq, Repr

/-- The entries below a root, and what they are closed to. -/
structure FileSystem where
  entries : List (Location × Entry) := []
  /-- Where relative paths start. -/
  workingDirectory : Location := []
  /-- The directories in which no name can be looked up. -/
  unsearchable : List Location := []
  /-- The directories whose names cannot be listed. -/
  unlistable : List Location := []
  /-- The path texts that cannot be read. -/
  unreadable : List String := []
  /-- The path texts that cannot be written. -/
  unwritable : List String := []
  deriving DecidableEq, Repr

/-- Why a file is not read or written. -/
inductive AccessFailure where
  | permissionDenied (path : String)
  | isDirectory (path : String)
  | notDirectory (path : String)
  | notFound (path : String)
  | nameTooLong (path : String)
  | tooManyLinks (path : String)
  deriving DecidableEq, Repr

/-- The wording of a failure to read or write. -/
def AccessFailure.message : AccessFailure → String
  | .permissionDenied path => "[Errno 13] Permission denied: " ++ Text.quoted path
  | .isDirectory path => "[Errno 21] Is a directory: " ++ Text.quoted path
  | .notDirectory path => "[Errno 20] Not a directory: " ++ Text.quoted path
  | .notFound path => "[Errno 2] No such file or directory: " ++ Text.quoted path
  | .nameTooLong path => "[Errno 36] File name too long: " ++ Text.quoted path
  | .tooManyLinks path => "[Errno 40] Too many levels of symbolic links: " ++ Text.quoted path

namespace FileSystem

/-- What a location holds; the root itself is a directory. -/
def entry? (files : FileSystem) (location : Location) : Option Entry :=
  if location.isEmpty then some .directory
  else (files.entries.find? fun stored => stored.1 == location).map (·.2)

/-- Whether names can be looked up in a directory. -/
def searches (files : FileSystem) (directory : Location) : Bool :=
  !files.unsearchable.contains directory

/-- Whether the names in a directory can be listed. -/
def lists (files : FileSystem) (directory : Location) : Bool :=
  !files.unlistable.contains directory

/-! ## What paths denote -/

/-- Why names lead nowhere. -/
inductive Obstacle where
  | missing
  /-- A name is to be looked up in what is no directory. -/
  | notDirectory
  | tooManyLinks
  | nameTooLong
  /-- A name is to be looked up in a directory that is closed to it. -/
  | refused
  deriving DecidableEq, Repr

namespace Obstacle

/-- Whether there is nothing at the end of the names, as opposed to something that is not shown. -/
def isAbsence : Obstacle → Bool
  | .missing | .notDirectory | .tooManyLinks => true
  | .nameTooLong | .refused => false

/-- The failure of a path that leads nowhere. -/
def failure (path : String) : Obstacle → AccessFailure
  | .missing => .notFound path
  | .notDirectory => .notDirectory path
  | .tooManyLinks => .tooManyLinks path
  | .nameTooLong => .nameTooLong path
  | .refused => .permissionDenied path

end Obstacle

/-- The most octets of a name. -/
def nameLimit : Nat := 255

/-- The most octets of a path. -/
def pathLimit : Nat := 4095

/-- Where a path starts that is met in a directory. -/
def origin (directory : Location) (path : Path) : Location :=
  if path.anchor == "" then directory else []

/-- Goes from a directory through the names of a path. A link is handed over to `follow`, together
with the directory where its target starts and the names that are left. -/
def walk (files : FileSystem) (follow : Location → List String → Except Obstacle Location) :
    Location → List String → Except Obstacle Location
  | location, [] => .ok location
  | location, name :: rest =>
      if files.entry? location != some .directory then .error .notDirectory
      else if !files.searches location then .error .refused
      else if name == ".." then walk files follow location.dropLast rest
      else if nameLimit < name.utf8ByteSize then .error .nameTooLong
      else
        match files.entry? (location ++ [name]) with
        | none => .error .missing
        | some (.link target) =>
            let path := Path.ofText target
            follow (origin location path) (path.parts ++ rest)
        | some _ => walk files follow (location ++ [name]) rest

/-- The location that names denote from a directory, when at most `links` links are followed. -/
def resolve (files : FileSystem) :
    (links : Nat) → Location → List String → Except Obstacle Location
  | 0 => walk files fun _ _ => .error .tooManyLinks
  | links + 1 => walk files (resolve files links)

/-- The number of links that are followed on the way to one location. -/
def linkLimit : Nat := 40

/-- The location that a path denotes, links followed. A path with a null character denotes none, and
neither does a relative path, however short, when nothing can be looked up in the working
directory. -/
def locate (files : FileSystem) (path : Path) : Except Obstacle Location :=
  if path.parts.any fun part => part.toList.contains '\x00' then .error .missing
  else if pathLimit < path.text.utf8ByteSize then .error .nameTooLong
  else if path.anchor == "" && !files.searches files.workingDirectory then .error .refused
  else files.resolve linkLimit (origin files.workingDirectory path) path.parts

/-- Whether a path denotes something. -/
def contains (files : FileSystem) (path : Path) : Except AccessFailure Bool :=
  match files.locate path with
  | .ok _ => .ok true
  | .error obstacle =>
      if obstacle.isAbsence then .ok false else .error (obstacle.failure path.text)

/-- The first of the given path texts that denotes nothing. -/
def firstMissing? (files : FileSystem) : List String → Except AccessFailure (Option String)
  | [] => .ok none
  | text :: rest => do
      if ← files.contains (Path.ofText text) then firstMissing? files rest else return some text

/-! ## Walks of directories -/

/-- Whether a walk of a directory comes to what lies a way below it: the names in a directory must
be listed, and a directory must be looked up before a walk can go into it. -/
def comesTo (files : FileSystem) : (directory way : Location) → Bool
  | _, [] => false
  | directory, name :: rest =>
      files.lists directory &&
        (rest.isEmpty || files.searches directory && files.comesTo (directory ++ [name]) rest)

/-- The ways from a directory to all that a walk of it comes to. -/
def met (files : FileSystem) (directory : Location) : List Location :=
  files.entries.filterMap fun (location, _) =>
    let way := location.drop directory.length
    if directory.isPrefixOf location && files.comesTo directory way then some way else none

/-- Why what lies a way below the directory at a path cannot be looked up, if it cannot. A walk goes
by the texts of paths, and one that has become too long is refused. -/
def refusal? (files : FileSystem) (path : Path) (directory way : Location) :
    Option AccessFailure :=
  let text := (path.below way).text
  if pathLimit < text.utf8ByteSize then some (.nameTooLong text)
  else if files.searches (directory ++ way.dropLast) then none
  else some (.permissionDenied text)

/-- Why a walk of the directory at a path fails, if it does: because of the first that it comes to
and cannot look up. -/
def walkFailure? (files : FileSystem) (path : Path) (directory : Location) :
    Option AccessFailure :=
  let refused := (files.met directory).filter fun way =>
    (files.refusal? path directory way).isSome
  (refused.mergeSort Path.precedes).head?.bind (files.refusal? path directory)

/-! ## Reading and writing -/

/-- The content of the file that a path denotes. -/
def read (files : FileSystem) (path : Path) : Except AccessFailure Bytes :=
  if files.unreadable.contains path.text then .error (.permissionDenied path.text)
  else
    match files.locate path with
    | .error obstacle => .error (obstacle.failure path.text)
    | .ok location =>
        match files.entry? location with
        | some (.file content) => .ok content
        | _ => .error (.isDirectory path.text)

/-- Replaces the content of the file at a location, and changes nothing when there is none. -/
def replace (files : FileSystem) (location : Location) (content : Bytes) : FileSystem :=
  { files with
    entries := files.entries.map fun stored =>
      match stored with
      | (place, .file old) => (place, .file (if place == location then content else old))
      | other => other }

/-- Replaces the content of the file that a path denotes. -/
def write (files : FileSystem) (path : Path) (content : Bytes) :
    Except AccessFailure FileSystem :=
  if files.unwritable.contains path.text then .error (.permissionDenied path.text)
  else
    match files.locate path with
    | .error obstacle => .error (obstacle.failure path.text)
    | .ok location =>
        match files.entry? location with
        | some (.file _) => .ok (files.replace location content)
        | _ => .error (.isDirectory path.text)

/-! ## Setting up -/

/-- A file system with nothing but the way to a working directory. -/
def startingAt (location : Location) : FileSystem where
  entries :=
    (List.range location.length).map fun size => (location.take (size + 1), .directory)
  workingDirectory := location

/-- Puts an entry at a location, in place of what it holds. -/
def insert (files : FileSystem) (location : Location) (entry : Entry) : FileSystem :=
  { files with
    entries := (files.entries.filter fun stored => stored.1 != location) ++ [(location, entry)] }

/-- Goes from a directory to an entry of it, which is made a directory if there is none. -/
def enter (state : FileSystem × Location) (name : String) : FileSystem × Location :=
  let (files, location) := state
  match files.resolve linkLimit location [name] with
  | .ok reached => (files, reached)
  | .error _ => (files.insert (location ++ [name]) .directory, location ++ [name])

/-- Puts an entry at a path, with the directories on the way to it. Links on the way are followed,
and so is a link in the place of a file. -/
def put (files : FileSystem) (path : Path) (entry : Entry) : FileSystem :=
  match path.parts.getLast? with
  | none => files
  | some name =>
      let (files, parent) :=
        path.parts.dropLast.foldl enter (files, origin files.workingDirectory path)
      match entry with
      | .directory => (enter (files, parent) name).1
      | .link target => files.insert (parent ++ [name]) (.link target)
      | .file content =>
          let location := (files.resolve linkLimit parent [name]).toOption.getD (parent ++ [name])
          files.insert location (.file content)

/-- Removes what is at a path, a link itself and not what it leads to, and all below it. -/
def erase (files : FileSystem) (path : Path) : FileSystem :=
  match path.parts.getLast? with
  | none => files
  | some name =>
      match files.locate { path with parts := path.parts.dropLast } with
      | .error _ => files
      | .ok parent =>
          { files with
            entries := files.entries.filter fun stored =>
              !(parent ++ [name]).isPrefixOf stored.1 }

/-- The regular files with their contents. -/
def contents (files : FileSystem) : List (Location × Bytes) :=
  files.entries.filterMap fun stored =>
    match stored with
    | (location, .file content) => some (location, content)
    | _ => none

/-- The regular files of `after` that `before` does not hold with the same content, by path. -/
def changes (before after : FileSystem) : List (Location × Bytes) :=
  (after.contents.filter fun stored => before.entry? stored.1 != some (.file stored.2)).mergeSort
    fun a b => "/".intercalate a.1 ≤ "/".intercalate b.1

end FileSystem

end Unqualify
