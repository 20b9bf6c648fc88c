import MapScript.Numeral
import MapScript.Symbol.Slot

/-!
# Manifests

A manifest lists functions to decompile.  Each gives an offset, and a listing or the name of
another function that it is the same as; its own name comes from the manifest, from its slot, or
from its place in the list.  How a manifest is written is left open: it is found in a text by a
reader that is given from outside (`Manifest.Reader`).
-/

namespace MapScript

namespace Manifest

/-- An offset as the manifest gives it. -/
inductive GivenOffset
  | number (n : Nat)
  | text (s : String)
deriving DecidableEq

structure Function where
  name : Option String
  kind : Option Symbol.SlotKind
  id : Option UInt16
  offset : GivenOffset
  listing : Option String
  sameAs : Option String
deriving DecidableEq

end Manifest

structure Manifest where
  functions : List Manifest.Function
deriving DecidableEq

namespace Manifest

/-- A reader of manifests.  It finds one in a text, or says why there is none. -/
abbrev Reader := String → Except String Manifest

/-! ## Names -/

/-- The name of the function at a place in the list. -/
def Function.shownName (f : Function) (index : Nat) : String :=
  match f.name, f.kind, f.id with
  | some name, _, _ => name
  | none, some kind, some id => kind.slotName id
  | _, _, _ => "function_" ++ Numeral.decimal index

def shownNames (m : Manifest) : List String :=
  m.functions.zipIdx.map fun (f, i) => f.shownName i

end Manifest

end MapScript
