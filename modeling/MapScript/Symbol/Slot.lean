import MapScript.Numeral

/-!
# Script slots

A function is called from a numbered slot of the system or of a model; some slots have a purpose
that their name tells.
-/

namespace MapScript.Symbol

inductive SlotKind
  | system
  | model
deriving DecidableEq

namespace SlotKind

def name : SlotKind → String
  | system => "system"
  | model => "model"

def ofName? (s : String) : Option SlotKind := [system, model].find? (·.name == s)

/-- The slots with a purpose. -/
def purposes : SlotKind → List (UInt16 × String)
  | system =>
    [(0, "init"), (2, "update"), (6, "highwind_menu"), (7, "zolom_touched"), (9, "crater_landing")]
  | model =>
    [(0, "init"), (1, "unload"), (2, "update"), (3, "touch"), (4, "interact"), (5, "disembark")]

/-- The name of a slot, such as `system_2_update` or `model_9`. -/
def slotName (k : SlotKind) (id : UInt16) : String :=
  let numbered := k.name ++ "_" ++ Numeral.decimal id.toNat
  match k.purposes.lookup id with
  | some purpose => numbered ++ "_" ++ purpose
  | none => numbered

end SlotKind

end MapScript.Symbol
