/-!
# Files by name

A small hierarchy of files, and how a name finds its way through it. A name is relative to the
directory at the top; an empty step or a single dot stays where it is, two dots go up, and every
step has to start from a directory. Above the top there is a directory of which nothing is known.
-/

namespace ScalarLang

/-- Why a file cannot be read. -/
inductive ReadError
  | notFound
  | isDirectory
  | notDirectory
  /-- Opening fails for another reason. -/
  | failed (details : String)
  deriving DecidableEq, Repr, Inhabited

/-- The report of a file that cannot be read. -/
def ReadError.message (name : String) : ReadError → String
  | notFound => s!"reading {name}: open {name}: no such file or directory"
  | isDirectory => s!"reading {name}: read {name}: is a directory"
  | notDirectory => s!"reading {name}: open {name}: not a directory"
  | failed details => s!"reading {name}: open {name}: {details}"

/-- A way to read the file of a given name. -/
abbrev Reader := String → Except ReadError (List UInt8)

namespace FileTree

/-- What a path leads to. -/
inductive Entry
  | file (content : List UInt8)
  | directory
  deriving DecidableEq, Repr, Inhabited

/-- Cuts a text at its slashes. -/
def splitSlashes : List Char → List (List Char)
  | [] => [[]]
  | c :: cs =>
    match c, splitSlashes cs with
    | '/', parts => [] :: parts
    | c, [] => [[c]]
    | c, part :: parts => (c :: part) :: parts

/-- The steps of a name. -/
def steps (name : String) : List String :=
  (splitSlashes name.toList).map String.ofList

/-- Where a walk through the hierarchy stands. -/
inductive Place
  /-- Inside, at a path from the top. -/
  | inside (path : List String)
  /-- Above the top. -/
  | above
  deriving DecidableEq, Repr, Inhabited

/-- Goes on from a directory by one step. -/
def Place.enter : Place → String → Place
  | place, "" => place
  | place, "." => place
  | inside path, ".." => if path.isEmpty then above else inside path.dropLast
  | above, ".." => above
  | inside path, step => inside (path ++ [step])
  | above, step => inside ["..", step]

end FileTree

/-- Files and directories with their paths from the top. The directories on the way to an entry
exist as well. -/
structure FileTree where
  entries : List (List String × FileTree.Entry)
  deriving DecidableEq, Repr, Inhabited

namespace FileTree

/-- Adds an entry by its name. A later entry replaces an earlier one at the same path. -/
def insert (files : FileTree) (name : String) (entry : Entry) : FileTree :=
  match (steps name).foldl Place.enter (.inside []) with
  | .inside path => ⟨(path, entry) :: files.entries⟩
  | .above => files

/-- What stands at a path from the top. -/
def entry? (files : FileTree) (path : List String) : Option Entry :=
  match files.entries.lookup path with
  | some entry => some entry
  | none =>
    if path.isEmpty || files.entries.any (path.isPrefixOf ·.1) then some .directory else none

/-- What stands at a place. -/
def at? (files : FileTree) : Place → Option Entry
  | .inside path => files.entry? path
  | .above => some .directory

/-- Walks the steps of a name and reads what it leads to. -/
def walk (files : FileTree) : Place → List String → Except ReadError (List UInt8)
  | place, [] =>
    match files.at? place with
    | some (.file content) => .ok content
    | some .directory => .error .isDirectory
    | none => .error .notFound
  | place, step :: rest =>
    match files.at? place with
    | some .directory => walk files (place.enter step) rest
    | some (.file _) => .error .notDirectory
    | none => .error .notFound

/-- Reads the file of a given name. The empty name is the name of no file, and a name that starts
with a slash leads out of the hierarchy. -/
def read (files : FileTree) : Reader := fun name =>
  match steps name with
  | [""] => .error .notFound
  | "" :: rest => files.walk .above rest
  | rest => files.walk (.inside []) rest

end FileTree

end ScalarLang
