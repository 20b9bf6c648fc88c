import MapScript.Symbol.Placeholder

/-!
# Fields

The scenes that the map leads to, numbered from zero.  A number without a name is written
`unknown_` with decimal digits.
-/

namespace MapScript.Symbol.Field

/-- The names by number. -/
def names : List String :=
  ["other_worldmap", "midgar_sector_5_gate", "kalm", "chocobo_farm", "mythril_mines_from_swamp",
   "mythril_mines_from_condor", "fort_condor", "junon", "temple_of_the_ancients", "old_mans_house",
   "weapon_seller", "mideel", "quadra_magic_cave", "costa_del_sol", "mt_corel", "north_corel",
   "corel_desert", "gongaga", "cosmo_canyon", "nibelheim_south", "rocket_town_south",
   "lucrecias_cave", "hp_mp_cave", "plains_outside_wutai", "mime_cave", "bone_village",
   "corral_valley_cave", "icicle_village_south", "chocobo_sage_house", "knights_of_the_round_cave",
   "underwater_reactor", "sunken_gelnika", "impaled_zolom", "yuffie_encounter",
   "plains_outside_wutai_2", "plains_outside_wutai_3", "cargo_ship", "costa_del_sol_harbor",
   "costa_del_sol_harbor_2", "junon_dock", "unused_40", "unused_41", "unused_42", "nibelheim_north",
   "mt_nibel_from_rocket_town", "unused_45", "mt_nibel_from_nibelheim", "icicle_village_north",
   "great_glacier", "unused_49", "highwind_bridge_3", "highwind_bridge_4", "highwind_bridge_5",
   "diamond_weapon_encounter", "unused_54", "ancient_forest", "submarine_bridge_3", "corral_valley",
   "forgotten_capital", "highwind_deck", "gaeas_cliff_base", "great_glacier_2", "great_glacier_3",
   "great_glacier_4", "great_glacier_5"]

/-- The name of its own that a field has. -/
def named? (id : UInt16) : Option String := names[id.toNat]?

def name (id : UInt16) : String := (named? id).getD (placeholder (Numeral.decimal id.toNat))

def ofName? (name : String) : Option UInt16 :=
  match names.findIdx? (· == name) with
  | some i => some (UInt16.ofNat i)
  | none =>
    match decimalPlaceholder? name with
    | none => none
    | some id => if (named? id).isNone then some id else none

end MapScript.Symbol.Field
