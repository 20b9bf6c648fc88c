import MapScript.Symbol.Placeholder

/-!
# Status registers

A register without a name is a byte, written with at least two hexadecimal digits.
-/

namespace MapScript.Symbol.Register

structure Named where
  id : UInt16
  name : String
  width : Width
deriving DecidableEq

def named : List Named :=
  [⟨0, "entity_mesh_x_coord", .byte⟩, ⟨1, "entity_mesh_y_coord", .byte⟩,
   ⟨2, "entity_coord_in_mesh_x", .word⟩, ⟨3, "entity_coord_in_mesh_y", .word⟩,
   ⟨4, "entity_direction", .byte⟩, ⟨6, "last_field_id", .byte⟩, ⟨7, "map_options", .byte⟩,
   ⟨8, "player_entity_model_id", .byte⟩, ⟨9, "current_entity_model_id", .byte⟩,
   ⟨10, "check_if_riding_chocobo", .byte⟩, ⟨11, "battle_result", .bit⟩,
   ⟨12, "prompt_window_result", .byte⟩, ⟨13, "current_triangle_script_id", .byte⟩,
   ⟨14, "party_leader_model_id", .byte⟩, ⟨16, "random_8bit_number", .byte⟩]

def named? (id : UInt16) : Option Named := named.find? (·.id == id)

/-- The name of a register that has none of its own. -/
def placeholder (id : UInt16) : String := Symbol.placeholder (Numeral.hexPadded 2 id.toNat)

/-- The register with a name, and the width to read it with. -/
def ofName? (name : String) : Option (UInt16 × Width) :=
  match named.find? (·.name == name) with
  | some r => some (r.id, r.width)
  | none =>
    match placeholderDigits? name with
    | none => none
    | some digits =>
      match Numeral.readWord 16 digits with
      | .error _ => none
      | .ok id => if (named? id).isNone then some (id, .byte) else none

/-- Whether the register with this name holds an entity. -/
def holdsEntity (name : String) : Bool :=
  ["player_entity_model_id", "current_entity_model_id", "party_leader_model_id"].contains
    name

end MapScript.Symbol.Register
