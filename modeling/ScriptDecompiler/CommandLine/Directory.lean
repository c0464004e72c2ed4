/-!
# Working directories

A run finds its files by paths that start in its working directory.  Here such a
directory is a value: the files in it and below it, each under the names that
lead to it.  What lies outside is not known, so that no path leads there.
-/

namespace ScriptDecompiler.CommandLine

/-- The files of a working directory, each with the names that lead to it.  Of
two files in one place the first counts. -/
structure Directory where
  files : List (List String × List UInt8)

namespace Directory

/-- The names in a path that lead on.  An empty name and a single dot do not. -/
def names (path : String) : List String :=
  (path.splitOn "/").filter fun name => name ≠ "" ∧ name ≠ "."

/-- The directory with files under the given paths. -/
def ofPaths (files : List (String × List UInt8)) : Directory :=
  ⟨files.map fun (path, contents) => (names path, contents)⟩

/-- Is there a directory at a place?  The working directory itself is one, and
so is what holds a file. -/
def isDirectory (d : Directory) (place : List String) : Bool :=
  place.isEmpty || d.files.any fun (names, _) => names != place && place.isPrefixOf names

/-- Follow the names of a path from a place.  Only a directory can be passed, also
by a name that does not lead on. -/
def follow? (d : Directory) (place : List String) : List String → Option (List String)
  | [] => some place
  | name :: rest =>
    if !d.isDirectory place then none
    else if name = "" ∨ name = "." then d.follow? place rest
    else if name = ".." then
      if place.isEmpty then none else d.follow? place.dropLast rest
    else d.follow? (place ++ [name]) rest

/-- The bytes of the file that a path leads to. -/
def read? (d : Directory) (path : String) : Option (List UInt8) :=
  if path.startsWith "/" then none
  else (d.follow? [] (path.splitOn "/")).bind (d.files.lookup ·)

end Directory

end ScriptDecompiler.CommandLine
