import MapScript.Console.Host

/-!
# Paths

A path as it is written: names between slashes, from the root if it starts with one.  A slash at
its end asks for a folder.  The names `.` and `..` stay in it, since each of them asks that what
stands before it is a folder.
-/

namespace MapScript.Console

structure Path where
  fromRoot : Bool
  names : List String
  /-- Whether the path ends with a slash. -/
  asFolder : Bool
deriving DecidableEq

namespace Path

/-- The pieces between slashes. -/
def splitSlashes : List Char → List (List Char)
  | [] => [[]]
  | c :: rest =>
    if c = '/' then [] :: splitSlashes rest
    else
      match splitSlashes rest with
      | [] => [[c]]
      | p :: ps => (c :: p) :: ps

/-- The names between slashes; slashes in a row count as one. -/
def namesOf (s : String) : List String :=
  ((splitSlashes s.toList).map String.ofList).filter (· != "")

/-- The longest name, in bytes. -/
def nameLimit : Nat := 255

/-- The longest path, in bytes. -/
def limit : Nat := 4095

def parse (s : String) : Except FileError Path :=
  let cs := s.toList
  if cs.contains '\x00' then .error .zeroInName
  else if cs.isEmpty then .error .notFound
  else if limit < s.utf8ByteSize then .error .nameTooLong
  else .ok ⟨cs.head? = some '/', namesOf s, cs.getLast? = some '/'⟩

/-- The folders that a path lies in by its names, outermost first.  A name `.` is none. -/
def enclosing (p : Path) : List Path :=
  let names := p.names.filter (· != ".")
  (List.range names.length).map fun n => ⟨p.fromRoot, names.take n, false⟩

end Path

end MapScript.Console
