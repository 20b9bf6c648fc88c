import MapScript.Manifest
import MapScript.Reader.Document

/-!
# Reading manifests

The manifests that are written as JSON.  This is the reader that the program runs with, one of many
(`Manifest.Reader`); no result is about it.
-/

namespace MapScript.Manifest

/-- A field that may be missing or null. -/
def optional {α : Type} (read : Document → Option α) : Option Document → Option (Option α)
  | none => some none
  | some (.word "null") => some none
  | some d => (read d).map some

/-- A text; a word is one as it is written. -/
def text? : Document → Option String
  | .text s | .word s => some s
  | _ => none

/-- Whether a word is digits behind a zero.  Such a word is not a number but a text. -/
def isPadded (word : String) : Bool :=
  let digits :=
    match word.toList with
    | '-' :: digits | '+' :: digits => digits
    | digits => digits
  Numeral.isDigits digits && 1 < digits.length && digits.head? = some '0'

/-- A whole number from zero up to `limit`, which is not included. -/
def natBelow? (limit : Nat) : Document → Option Nat
  | .word s => if isPadded s then none else (Numeral.read 10 limit s.toList).toOption
  | _ => none

def slotKind? (d : Document) : Option Symbol.SlotKind := (text? d).bind Symbol.SlotKind.ofName?

def givenOffset? : Document → Option GivenOffset
  | .text s => some (.text s)
  | .word "-0" => some (.number 0)
  | .word s =>
    if isPadded s then some (.text s) else (natBelow? 0x100000000 (.word s)).map .number
  | _ => none

def Function.keys : List String := ["name", "kind", "id", "offset", "listing", "alias"]

def Function.ofDocument? : Document → Option Function
  | .record fields => do
    let keys := fields.map Prod.fst
    guard (keys.all Function.keys.contains && keys.eraseDups.length == keys.length)
    return {
      name := ← optional text? (fields.lookup "name")
      kind := ← optional slotKind? (fields.lookup "kind")
      id := ← optional (fun d => (natBelow? 0x10000 d).map UInt16.ofNat) (fields.lookup "id")
      offset := ← (fields.lookup "offset").bind givenOffset?
      listing := ← optional text? (fields.lookup "listing")
      sameAs := ← optional text? (fields.lookup "alias") }
  | _ => none

/-- The manifest in a document; keys that it does not know are refused. -/
def ofDocument? : Document → Option Manifest
  | .record [("functions", .list items)] => (items.mapM Function.ofDocument?).map Manifest.mk
  | _ => none

def parse? (s : String) : Option Manifest := (Document.parse? s).bind ofDocument?

end MapScript.Manifest
