import UrlFilter.Text.Utf8

/-! Directories of text files, as far as reading a file by its path goes. A path is a list of
steps between slashes: an empty step and `.` stay where they are, `..` goes up, and any other
step goes to the file or directory of that name. Above the directory there are directories
without files. -/
namespace UrlFilter

/-- Why a file cannot be read. -/
inductive FileFault where
  | notFound
  | notADirectory
  | isADirectory
  | nameTooLong
  /-- Any other reason, in the words of the system. -/
  | other (reason : String)
  deriving DecidableEq, Repr

/-- The wording of a fault. -/
def FileFault.message : FileFault → String
  | notFound => "No such file or directory (os error 2)"
  | notADirectory => "Not a directory (os error 20)"
  | isADirectory => "Is a directory (os error 21)"
  | nameTooLong => "File name too long (os error 36)"
  | other reason => reason

/-- The files below a directory, each with the steps that lead to it and its text. -/
structure Directory where
  files : List (List String × String) := []
  deriving DecidableEq, Repr

namespace Directory

/-- The steps of a path. -/
def steps (path : String) : List String :=
  (path.toList.splitOn '/').map String.ofList

/-- The directory that holds the files of these paths. -/
def ofList (files : List (String × String)) : Directory :=
  ⟨files.map fun f => ((steps f.1).filter fun s => s ≠ "" ∧ s ≠ ".", f.2)⟩

/-- The text of the file at a place. -/
def file? (d : Directory) (place : List String) : Option String :=
  (d.files.find? (·.1 == place)).map (·.2)

/-- Whether there is a directory at a place. -/
def isDirectory (d : Directory) (place : List String) : Bool :=
  place.isEmpty || d.files.any fun f => place.isPrefixOf f.1 && f.1 != place

/-- The greatest length of a name in bytes. -/
def maxNameLength : Nat := 255

/-- Follows steps outside the directory, where no name leads anywhere. -/
def followOutside (path : List String) : FileFault :=
  if path.all fun step => step = "" ∨ step = "." ∨ step = ".." then .isADirectory
  else .notFound

/-- Follows steps from a directory to a file. -/
def follow (d : Directory) (place : List String) : List String → Except FileFault String
  | [] => .error .isADirectory
  | step :: rest =>
    if step = "" ∨ step = "." then d.follow place rest
    else if step = ".." then
      if place.isEmpty then .error (followOutside rest) else d.follow place.dropLast rest
    else
      let next := place ++ [step]
      match d.file? next with
      | some text => if rest.isEmpty then .ok text else .error .notADirectory
      | none =>
        if d.isDirectory next then d.follow next rest
        else if maxNameLength < Text.byteLength step.toList then .error .nameTooLong
        else .error .notFound

/-- The text of the file that a path leads to. Paths that start with a slash lead outside, and
the empty path leads nowhere. A path that holds the character of code zero is no path. -/
def read (d : Directory) (path : String) : Except FileFault String :=
  if path.toList.contains '\x00' then
    .error (.other "file name contained an unexpected NUL byte")
  else
    match path.toList with
    | [] => .error .notFound
    | '/' :: _ => .error (followOutside (steps path))
    | _ => d.follow [] (steps path)

end Directory
end UrlFilter
