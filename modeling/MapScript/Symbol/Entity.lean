import MapScript.Symbol.Placeholder

/-!
# Entities

Model numbers and their names.  A number without a name is written `unknown_` with decimal digits.
-/

namespace MapScript.Symbol.Entity

def named : List (UInt16 × String) :=
  [(0, "cloud"), (1, "tifa"), (2, "cid"), (3, "highwind"), (4, "wild_chocobo"), (5, "tiny_bronco"),
   (6, "buggy"), (7, "junon_cannon"), (8, "cargo_ship"), (9, "highwind_propellers"),
   (10, "diamond_weapon"), (11, "ultima_weapon"), (12, "fort_condor"), (13, "submarine"),
   (14, "gold_saucer"), (15, "rocket_town_rocket"), (16, "rocket_town"), (17, "sunken_gelnika"),
   (18, "underwater_reactor"), (19, "chocobo"), (20, "midgar_cannon"), (24, "north_crater_barrier"),
   (25, "ancient_forest"), (26, "key_of_the_ancients"), (28, "red_submarine"), (29, "ruby_weapon"),
   (30, "emerald_weapon"), (65535, "system")]

/-- The name of its own that an entity has. -/
def named? (id : UInt16) : Option String := named.lookup id

def name (id : UInt16) : String := (named? id).getD (placeholder (Numeral.decimal id.toNat))

def ofName? (name : String) : Option UInt16 :=
  match named.find? (·.2 == name) with
  | some (id, _) => some id
  | none =>
    match decimalPlaceholder? name with
    | none => none
    | some id => if (named? id).isNone then some id else none

end MapScript.Symbol.Entity
