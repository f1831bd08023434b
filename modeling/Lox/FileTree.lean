/-
Files under their paths. A path is read as a list of names: empty names
and single dots mean nothing, and two dots lead back to the directory
that the name before was found in. A file is not a directory, so no path
leads through one, not even back out of it.
-/

namespace Lox

/-- Why a path cannot be read. -/
inductive ReadFault where
  | noSuchFile
  | isDirectory
  | notDirectory
  /-- Any other reason that the system gives. -/
  | other (reason : String)
deriving Repr, DecidableEq

/-- The wording of a fault. -/
def ReadFault.reason : ReadFault → String
  | noSuchFile => "No such file or directory"
  | isDirectory => "Is a directory"
  | notDirectory => "Not a directory"
  | other reason => reason

/-- A file, or a directory of named entries. -/
inductive FileTree where
  | file (bytes : ByteArray)
  | directory (entries : List (String × FileTree))

namespace FileTree

/-- The names that a path consists of. -/
def pathNames (path : String) : List String :=
  (path.splitOn "/").filter fun name => name != "" && name != "."

/-- Where some names lead from `here`. The directories passed on the way
are `above`, the nearest first; outside of the tree there is nothing to
be found. -/
def follow (above : List FileTree) (here : FileTree) :
    List String → Except ReadFault FileTree
  | [] => .ok here
  | name :: names =>
    match here with
    | file _ => .error .notDirectory
    | directory entries =>
      if name = ".." then
        match above with
        | [] => follow [] (directory []) names
        | up :: above => follow above up names
      else
        match entries.lookup name with
        | none => .error .noSuchFile
        | some next => follow (here :: above) next names

/-- The bytes of the file that a path leads to from `here`. A path that
starts with a slash starts outside of the tree. -/
def read (here : FileTree) (path : String) : Except ReadFault ByteArray :=
  let origin := if path.startsWith "/" then directory [] else here
  match follow [] origin (pathNames path) with
  | .error fault => .error fault
  | .ok (directory _) => .error .isDirectory
  | .ok (file bytes) => .ok bytes

end FileTree

end Lox
