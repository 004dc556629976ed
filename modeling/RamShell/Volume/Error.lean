/-!
# RamShell.Volume.Error

The reasons for which an operation on a volume can fail, each with its name and its wording.
-/

namespace RamShell.Volume

/-- Why an operation on a volume failed. -/
inductive Error
  /-- An entry with this path already exists. -/
  | duplicateExists
  /-- The entry table has no free slot. -/
  | tableFull
  /-- No entry has this path. -/
  | notFound
  /-- The root directory is never deleted. -/
  | cannotDeleteRoot
  /-- A directory was read as if it were a file. -/
  | isDirectory
  /-- Content was written into a directory. -/
  | cannotWriteDirectory
  /-- The content exceeds the size limit of one file. -/
  | tooLarge
  /-- The arena cannot hold the content. -/
  | outOfSpace
  /-- A path names a file where a directory is required. -/
  | notADirectory
  /-- The directory still has entries below it. -/
  | directoryNotEmpty
  /-- The path exceeds the length limit. -/
  | pathTooLong
  /-- The path is empty. -/
  | invalidPath
  deriving DecidableEq, Repr

namespace Error

/-- Every error, in the order of the definition. -/
def all : List Error :=
  [duplicateExists, tableFull, notFound, cannotDeleteRoot, isDirectory, cannotWriteDirectory,
    tooLarge, outOfSpace, notADirectory, directoryNotEmpty, pathTooLong, invalidPath]

/-- The name of an error in records. -/
def label : Error → String
  | duplicateExists => "DuplicateExists"
  | tableFull => "TableFull"
  | notFound => "NotFound"
  | cannotDeleteRoot => "CannotDeleteRoot"
  | isDirectory => "IsDirectory"
  | cannotWriteDirectory => "CannotWriteDirectory"
  | tooLarge => "TooLarge"
  | outOfSpace => "OutOfSpace"
  | notADirectory => "NotADirectory"
  | directoryNotEmpty => "DirectoryNotEmpty"
  | pathTooLong => "PathTooLong"
  | invalidPath => "InvalidPath"

/-- The wording of an error. -/
def message : Error → String
  | duplicateExists => "file exists"
  | tableFull => "entry table full"
  | notFound => "no such file or directory"
  | cannotDeleteRoot => "cannot delete root directory"
  | isDirectory => "is a directory"
  | cannotWriteDirectory => "cannot write to a directory"
  | tooLarge => "file too large"
  | outOfSpace => "no space left on device"
  | notADirectory => "not a directory"
  | directoryNotEmpty => "directory not empty"
  | pathTooLong => "path too long"
  | invalidPath => "invalid path"

/-- Whether an error comes from one of the limits on size: slots, file size or arena. -/
def isCapacity : Error → Bool
  | tableFull | outOfSpace | tooLarge => true
  | _ => false

theorem mem_all (e : Error) : e ∈ all := by
  cases e <;> decide

end Error

end RamShell.Volume
