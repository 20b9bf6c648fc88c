import MapScript.Manifest
import MapScript.Offset
import MapScript.Script.OfCode

/-!
# Decompiling a manifest

Every function has an outcome of its own; a failure stops none of the others.
-/

namespace MapScript.Manifest

/-- Why a function has no script. -/
inductive Failure
  | decompile (e : RecoveryError)
  | missingAlias (name : String)
  /-- Neither a listing nor the name of another function, or both. -/
  | body
  | offset (text : String)
deriving DecidableEq

def Failure.message : Failure → String
  | decompile e => e.message
  | missingAlias name => "alias target " ++ name ++ " is not in the manifest"
  | body => "entry needs exactly one of `listing` or `alias`"
  | offset text => "invalid offset " ++ Text.quoted text

structure Outcome where
  name : String
  result : Except Failure String

def GivenOffset.value : GivenOffset → Except Failure Nat
  | number n => .ok n
  | text s =>
    match Offset.parse s with
    | .ok v => .ok v
    | .error _ => .error (.offset s)

/-- The script of a function, among functions with the given names. -/
def Function.script (debug : Bool) (names : List String) (f : Function) :
    Except Failure String := do
  let offset ← f.offset.value
  match f.listing, f.sameAs with
  | some listing, none => (Script.textOfListing debug offset listing).mapError .decompile
  | none, some name =>
    if names.contains name then
      return "-- alias of " ++ name ++ " at " ++ Numeral.hexUpper 4 offset
    else throw (.missingAlias name)
  | _, _ => throw .body

/-- The outcome of every function, in order. -/
def process (debug : Bool) (m : Manifest) : List Outcome :=
  m.functions.zipWith (fun f name => ⟨name, f.script debug m.shownNames⟩) m.shownNames

end MapScript.Manifest
