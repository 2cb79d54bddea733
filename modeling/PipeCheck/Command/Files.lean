/-!
# Files

A command reads one file.  What can go wrong is a `FileError`.  A `Directory`
says what reading a path gives without any access to a disk, for a working
directory that holds only files.
-/

namespace PipeCheck

/-- Why a file cannot be read. -/
inductive FileError where
  | notFound
  | permissionDenied
  /-- A part of the path is used as a directory and is none. -/
  | notADirectory
  | isADirectory
  /-- The path or one of its names has too many bytes. -/
  | nameTooLong
  /-- The content is not UTF-8. -/
  | notText
  /-- Any other reason, in the system's words. -/
  | other (reason : String)
deriving DecidableEq, Repr

namespace FileError

/-- The reason with the number that the system gives it. -/
def message : FileError → String
  | .notFound => "No such file or directory (os error 2)"
  | .permissionDenied => "Permission denied (os error 13)"
  | .notADirectory => "Not a directory (os error 20)"
  | .isADirectory => "Is a directory (os error 21)"
  | .nameTooLong => "File name too long (os error 36)"
  | .notText => "stream did not contain valid UTF-8"
  | .other reason => reason

end FileError

/-- A working directory that holds files and no other directories. -/
structure Directory where
  /-- The files with their names and contents. -/
  files : List (String × String) := []

/-- Where the beginning of a path leads. -/
inductive Place where
  /-- To the working directory. -/
  | here
  /-- To a directory around the working directory. -/
  | outside
  /-- To a file with a given content. -/
  | file (text : String)
deriving DecidableEq, Repr

namespace Directory

/-- The greatest number of bytes in a name. -/
def nameLimit : Nat := 255

/-- The greatest number of bytes in a path. -/
def pathLimit : Nat := 4095

/-- The place that a name leads to.  Nothing outside the working directory is
found by its name. -/
def enter (directory : Directory) (place : Place) (name : String) :
    Except FileError Place :=
  match place with
  | .file _ => .error .notADirectory
  | place =>
    if name = "" || name = "." then
      .ok place
    else if name = ".." then
      .ok .outside
    else if nameLimit < name.utf8ByteSize then
      .error .nameTooLong
    else
      match place, directory.files.lookup name with
      | .here, some text => .ok (.file text)
      | _, _ => .error .notFound

/-- The place that a path leads to, name by name; the first fault counts. -/
def locate (directory : Directory) (path : String) : Except FileError Place :=
  if path.isEmpty then
    .error .notFound
  else if pathLimit < path.utf8ByteSize then
    .error .nameTooLong
  else
    (path.splitOn "/").foldlM directory.enter (if path.startsWith "/" then .outside else .here)

/-- The content of the file that a path leads to. -/
def read (directory : Directory) (path : String) : Except FileError String := do
  match ← directory.locate path with
  | .file text => return text
  | _ => .error .isADirectory

end Directory
end PipeCheck
