/-!
# What commands need of their surroundings

A `Host` can read and write files, make folders and print.  Commands are written for any host, so
that they run on a real file system and on one that is a value (`Disk`).
-/

namespace MapScript.Console

/-- Why a file or folder could not be used. -/
inductive FileError
  | notFound
  | exists
  | notDirectory
  | isDirectory
  | nameTooLong
  /-- A name holds the character zero. -/
  | zeroInName
  /-- What was opened cannot be mapped into memory. -/
  | noDevice
  | notText
  | other (text : String)
deriving DecidableEq

def FileError.message : FileError → String
  | notFound => "No such file or directory (os error 2)"
  | .exists => "File exists (os error 17)"
  | notDirectory => "Not a directory (os error 20)"
  | isDirectory => "Is a directory (os error 21)"
  | nameTooLong => "File name too long (os error 36)"
  | zeroInName => "file name contained an unexpected NUL byte"
  | noDevice => "No such device (os error 19)"
  | notText => "stream did not contain valid UTF-8"
  | other text => text

class Host (m : Type → Type) where
  readFile : String → m (Except FileError ByteArray)
  /-- Writes a file, in place of what it held before. -/
  writeFile : String → ByteArray → m (Except FileError Unit)
  /-- Makes a folder and those that it lies in, as far as they are missing. -/
  makeFolders : String → m (Except FileError Unit)
  /-- Writes to the standard output. -/
  print : ByteArray → m Unit
  /-- Writes to the standard error output. -/
  complain : String → m Unit

end MapScript.Console
