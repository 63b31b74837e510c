/-!
# Folders

A folder held in memory, and what a path names in it.  A path is followed name
by name; a name in the middle must be a folder, and so must the last one when a
slash stands behind it.
-/

namespace LineScript.CommandLine

structure Folder where
  /-- The files, each under the names that lead to it. -/
  files : List (List String × List UInt8) := []
  folders : List (List String) := []

inductive Target where
  | missing
  | folder
  | file (bytes : List UInt8)
  deriving DecidableEq, Repr

namespace Folder

/-! ## Paths -/

/-- The stretches between the slashes of a path. -/
def splitNames : List Char → List (List Char)
  | [] => [[]]
  | c :: rest =>
      if c = '/' then [] :: splitNames rest
      else
        match splitNames rest with
        | [] => [[c]]
        | name :: names => (c :: name) :: names

/-- The names of a path, and empty ones around doubled and outer slashes. -/
def splitPath (path : String) : List String := (splitNames path.toList).map String.ofList

/-- Whether a name stays in the folder it is read in. -/
def isStay (name : String) : Bool := name == "" || name == "."

/-- Whether a name on a path leads to no file and no folder of that name. -/
def isStep (name : String) : Bool := isStay name || name == ".."

/-- Where names lead from a folder if all they pass are folders. -/
def walk (here : List String) : List String → List String
  | [] => here
  | name :: rest =>
      if isStay name then walk here rest
      else if name = ".." then walk here.dropLast rest
      else walk (here ++ [name]) rest

/-- The folders that are entered on the way. -/
def entered (here : List String) : List String → List (List String)
  | [] => []
  | name :: rest =>
      if isStay name then entered here rest
      else if name = ".." then entered here.dropLast rest
      else (here ++ [name]) :: entered (here ++ [name]) rest

/-! ## Contents -/

/-- Make a folder, and those on the way to it. -/
def makeFolder (folder : Folder) (names : List String) : Folder :=
  { folder with folders := entered [] names ++ folder.folders }

/-- Write a file, and make the folders on the way to it.  What stood there
before is gone. -/
def writeFile (folder : Folder) (path : String) (bytes : List UInt8) : Folder :=
  let names := splitPath path
  let outer := folder.makeFolder names.dropLast
  { outer with files := (walk [] names.dropLast ++ names.getLast?.toList, bytes) :: outer.files }

/-- A folder with some folders and files in it, given by their paths. -/
def ofContents (folders : List String) (files : List (String × List UInt8)) : Folder :=
  files.foldl (fun folder file => folder.writeFile file.1 file.2)
    (folders.foldl (fun folder path => folder.makeFolder (splitPath path)) {})

/-! ## Targets -/

def isFolder (folder : Folder) (names : List String) : Bool :=
  names.isEmpty || folder.folders.contains names

/-- Follow names from a folder.  Nothing is known about what stands beside the
outermost folder. -/
def follow (folder : Folder) (here : List String) : List String → Target
  | [] => .folder
  | name :: rest =>
      if isStay name then folder.follow here rest
      else if name = ".." then
        match here with
        | [] => if rest.all isStep then .folder else .missing
        | _ :: _ => folder.follow here.dropLast rest
      else if folder.isFolder (here ++ [name]) then folder.follow (here ++ [name]) rest
      else
        match folder.files.lookup (here ++ [name]), rest with
        | some bytes, [] => .file bytes
        | _, _ => .missing

/-- The bytes that a path may have.  A longer one names nothing. -/
def longestPath : Nat := 4095

/-- What a path names.  The outermost folder is the one in memory, so of what
lies under the root only the root itself is known. -/
def target (folder : Folder) (path : String) : Target :=
  let names := splitPath path
  if path = "" ∨ longestPath < path.utf8ByteSize then .missing
  else if path.toList.head? = some '/' then
    if names.all isStep then .folder else .missing
  else folder.follow [] names

end Folder

end LineScript.CommandLine
