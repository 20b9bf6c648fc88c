import MapScript.Console.Path

/-!
# A file system that is a value

Files and folders by their place, and the folder that relative paths start from.  `Session` adds
what has been printed; it is a host.

A path is followed name by name.  Every name but the last has to be that of a folder; what the
last one leads to (`Target`) decides what can be done there.
-/

namespace MapScript.Console

/-- The names from the root on. -/
abbrev Place : Type := List String

structure Disk where
  files : List (Place × ByteArray)
  folders : List Place
  /-- The folder that relative paths start from. -/
  here : Place

namespace Disk

def file? (d : Disk) (p : Place) : Option ByteArray := d.files.lookup p

def isFolder (d : Disk) (p : Place) : Bool := p.isPrefixOf d.here || d.folders.contains p

/-! ## Following paths -/

/-- What a path leads to. -/
inductive Target
  | folder (place : Place)
  | file (place : Place) (content : ByteArray)
  | missing (place : Place)

/-- What a name in a folder leads to. -/
def enter (d : Disk) (place : Place) (name : String) : Except FileError Target :=
  if name = "." then .ok (.folder place)
  else if name = ".." then .ok (.folder place.dropLast)
  else if Path.nameLimit < name.utf8ByteSize then .error .nameTooLong
  else
    let inner := place ++ [name]
    if d.isFolder inner then .ok (.folder inner)
    else
      match d.file? inner with
      | some content => .ok (.file inner content)
      | none => .ok (.missing inner)

/-- The folder that names lead to, each of them that of a folder. -/
def reach (d : Disk) (place : Place) : List String → Except FileError Place
  | [] => .ok place
  | name :: rest => do
    match ← d.enter place name with
    | .folder inner => d.reach inner rest
    | .file .. => throw .notDirectory
    | .missing _ => throw .notFound

/-- The folder in which the last name of a path is looked up. -/
def folderOf (d : Disk) (p : Path) : Except FileError Place :=
  d.reach (if p.fromRoot then [] else d.here) p.names.dropLast

def find (d : Disk) (p : Path) : Except FileError Target := do
  let place ← d.folderOf p
  match p.names.getLast? with
  | some name => d.enter place name
  | none => return .folder place

/-! ## Files -/

def read (d : Disk) (s : String) : Except FileError ByteArray := do
  let path ← Path.parse s
  match ← d.find path with
  | .folder _ => throw .isDirectory
  | .file _ content => if path.asFolder then throw .notDirectory else return content
  | .missing _ => throw .notFound

def put (d : Disk) (p : Place) (content : ByteArray) : Disk :=
  { d with files := (p, content) :: d.files.filter (·.1 != p) }

@[simp] theorem file?_put_self (d : Disk) (p : Place) (content : ByteArray) :
    (d.put p content).file? p = some content := by
  simp [put, file?]

/-- Writes a file, unless the path leads to a folder or asks for one.  A path that asks for one is
refused before its last name is looked up. -/
def write (d : Disk) (s : String) (content : ByteArray) : Except FileError Disk := do
  let path ← Path.parse s
  if path.asFolder then
    let _ ← d.folderOf path
    throw .isDirectory
  match ← d.find path with
  | .folder _ => throw .isDirectory
  | .file place _ | .missing place => return d.put place content

/-! ## Folders -/

/-- Makes a folder in one that is there; it may be there itself. -/
def makeFolder (d : Disk) (p : Path) : Except FileError Disk := do
  match ← d.find p with
  | .folder _ => return d
  | .file .. => throw .exists
  | .missing place => return { d with folders := place :: d.folders }

/-- Makes a folder and, if it cannot be reached, first those that its path names before it. -/
def makeFolders (d : Disk) (s : String) : Except FileError Disk := do
  let path ← Path.parse s
  match d.makeFolder path with
  | .error .notFound => (← path.enclosing.foldlM makeFolder d).makeFolder path
  | result => result

/-! ## The files of a session -/

/-- A disk without files of its own but the empty one at `/dev/null`.  Relative paths start from a
folder in `/tmp` that has the empty name, so that no path can name it. -/
def empty : Disk where
  files := [(["dev", "null"], .empty)]
  folders := [["dev"]]
  here := ["tmp", ""]

/-- Puts a file, and the folders that it lies in, below the folder that relative paths start
from. -/
def add (d : Disk) (name : String) (content : ByteArray) : Disk :=
  let place := d.here ++ (Path.namesOf name).filter (· != ".")
  let parents := (List.range place.length).map place.take
  { d with folders := parents ++ d.folders }.put place content

/-- A disk with files below the folder that relative paths start from; of two files with one name
the later stays. -/
def ofFiles (files : List (String × ByteArray)) : Disk :=
  files.foldl (fun d f => d.add f.1 f.2) empty

/-- The files in and below the folder that relative paths start from. -/
def filesHere (d : Disk) : List (String × ByteArray) :=
  d.files.filterMap fun (p, content) =>
    (d.here.isPrefixOf? p).map fun names => ("/".intercalate names, content)

end Disk

structure Session where
  disk : Disk
  out : ByteArray
  err : String

namespace Session

/-- Keeps the disk that a step leaves, or the one before it if it fails. -/
def onDisk (step : Disk → Except FileError Disk) : StateM Session (Except FileError Unit) := do
  let s ← get
  match step s.disk with
  | .ok disk =>
    set { s with disk }
    return .ok ()
  | .error e => return .error e

instance : Host (StateM Session) where
  readFile path := do return (← get).disk.read path
  writeFile path content := onDisk (·.write path content)
  makeFolders path := onDisk (·.makeFolders path)
  print bytes := modify fun s => { s with out := s.out ++ bytes }
  complain text := modify fun s => { s with err := s.err ++ text }

end Session

end MapScript.Console
