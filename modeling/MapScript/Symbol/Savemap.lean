import MapScript.Symbol.Placeholder

/-!
# Named places in saved data

A place is named by its address and width; `name?` and `ofName?` look it up from either side.
-/

namespace MapScript.Symbol.Savemap

structure Place where
  address : Nat
  name : String
  width : Width
deriving DecidableEq

def places : List Place :=
  [⟨0xBA4, "game_progress", .word⟩, ⟨0xBF9, "chocobo_rating_1", .byte⟩,
   ⟨0xBFA, "chocobo_rating_2", .byte⟩, ⟨0xBFB, "chocobo_rating_3", .byte⟩,
   ⟨0xBFC, "chocobo_rating_4", .byte⟩, ⟨0xC1F, "weapons_killed", .byte⟩,
   ⟨0xC21, "own_chocobo_stable", .byte⟩, ⟨0xC22, "chocobos_on_map", .byte⟩,
   ⟨0xC23, "vehicle_display", .byte⟩, ⟨0xD73, "yuffie_flags", .byte⟩,
   ⟨0xEF4, "submarine_color_flags", .byte⟩, ⟨0xF2A, "submarine_flags", .byte⟩]

/-- The name of an address, if it is read with the width of the place. -/
def name? (address : Nat) (width : Width) : Option String :=
  (places.find? fun p => p.address == address && p.width == width).map Place.name

def ofName? (name : String) : Option Place := places.find? (·.name == name)

end MapScript.Symbol.Savemap
