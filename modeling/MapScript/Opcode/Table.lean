import MapScript.Opcode.Entry

/-!
# The instruction table

Every opcode with a row of its own, by ascending code.  The opcodes `CALL_FN_n` share one
description, `callEntry`; they lie between `RETURN` and `LOAD_MODEL`.
-/

namespace MapScript

/-- The rows, by ascending code. -/
def table : List Entry :=
  [⟨0x000, "NOP", .system, "noop", 0, 0, .nop, [],
    "No operation"⟩,
   ⟨0x015, "NEG", .math, "negate", 1, 0, .math .neg, [.pushesResult],
    "Negate value on stack"⟩,
   ⟨0x017, "NOT", .math, "not", 1, 0, .math .not, [.pushesResult],
    "Logical NOT of value on stack"⟩,
   ⟨0x018, "DIST_POINT", .entity, "distance_to_point", 1, 0, .generic, [.pushesResult],
    "Get distance from active entity to a point"⟩,
   ⟨0x019, "DIST_MODEL", .entity, "distance_to_entity", 1, 0, .generic,
    [.pushesResult, .modelArgument], "Get distance from active entity to another"⟩,
   ⟨0x01B, "DIR_POINT", .entity, "direction_to_point", 1, 0, .generic, [.pushesResult],
    "Get direction from active entity to a point"⟩,
   ⟨0x030, "MUL", .math, "multiply", 2, 0, .math .mul, [.pushesResult],
    "Multiply two values on stack"⟩,
   ⟨0x040, "ADD", .math, "add", 2, 0, .math .add, [.pushesResult],
    "Add two values on stack"⟩,
   ⟨0x041, "SUB", .math, "subtract", 2, 0, .math .sub, [.pushesResult],
    "Subtract two values on stack"⟩,
   ⟨0x050, "SHL", .math, "shift_left", 2, 0, .math .shl, [.pushesResult],
    "Shift left"⟩,
   ⟨0x051, "SHR", .math, "shift_right", 2, 0, .math .shr, [.pushesResult],
    "Shift right"⟩,
   ⟨0x060, "LT", .math, "less_than", 2, 0, .math .lt, [.pushesResult],
    "Less than comparison"⟩,
   ⟨0x061, "GT", .math, "greater_than", 2, 0, .math .gt, [.pushesResult],
    "Greater than comparison"⟩,
   ⟨0x062, "LE", .math, "less_equal", 2, 0, .math .le, [.pushesResult],
    "Less than or equal comparison"⟩,
   ⟨0x063, "GE", .math, "greater_equal", 2, 0, .math .ge, [.pushesResult],
    "Greater than or equal comparison"⟩,
   ⟨0x070, "EQ", .math, "equal", 2, 0, .math .eq, [.pushesResult],
    "Equal comparison"⟩,
   ⟨0x080, "AND", .math, "bitwise_and", 2, 0, .math .and, [.pushesResult],
    "Bitwise AND"⟩,
   ⟨0x0A0, "OR", .math, "bitwise_or", 2, 0, .math .or, [.pushesResult],
    "Bitwise OR"⟩,
   ⟨0x0B0, "LAND", .math, "logical_and", 2, 0, .math .logicalAnd, [.pushesResult],
    "Logical AND"⟩,
   ⟨0x0C0, "LOR", .math, "logical_or", 2, 0, .math .logicalOr, [.pushesResult],
    "Logical OR"⟩,
   ⟨0x0E0, "WRITE", .memory, "write_bank", 2, 0, .write, [],
    "Write a value to a memory bank"⟩,
   ⟨0x100, "RESET", .system, "reset_stack", 0, 0, .reset, [],
    "Reset the stack"⟩,
   ⟨0x110, "PUSH_CONSTANT", .memory, "push_constant", 0, 1, .push .constant, [.pushesResult],
    "Push a constant value onto the stack"⟩,
   ⟨0x114, "PUSH_SAVEMAP_BIT", .savemap, "bit", 0, 1, .push (.memory .savemap .bit),
    [.pushesResult], "Read a bit from Bank 0"⟩,
   ⟨0x117, "PUSH_SPECIAL_BIT", .special, "bit", 0, 1, .push (.memory .special .bit),
    [.pushesResult], "Read a bit from the special register"⟩,
   ⟨0x118, "PUSH_SAVEMAP_BYTE", .savemap, "byte", 0, 1, .push (.memory .savemap .byte),
    [.pushesResult], "Read a byte from Bank 0"⟩,
   ⟨0x119, "PUSH_TEMP_BYTE", .temp, "byte", 0, 1, .push (.memory .temp .byte), [.pushesResult],
    "Read a byte from Bank 1"⟩,
   ⟨0x11B, "PUSH_SPECIAL_BYTE", .special, "byte", 0, 1, .push (.memory .special .byte),
    [.pushesResult], "Read a byte from the special register"⟩,
   ⟨0x11C, "PUSH_SAVEMAP_WORD", .savemap, "word", 0, 1, .push (.memory .savemap .word),
    [.pushesResult], "Read a word (2 bytes) from Bank 0"⟩,
   ⟨0x11D, "PUSH_TEMP_WORD", .temp, "word", 0, 1, .push (.memory .temp .word), [.pushesResult],
    "Read a word (2 bytes) from Bank 1"⟩,
   ⟨0x11F, "PUSH_SPECIAL_WORD", .special, "word", 0, 1, .push (.memory .special .word),
    [.pushesResult], "Read a word (2 bytes) from the special register"⟩,
   ⟨0x200, "GOTO", .system, "goto", 0, 1, .goto, [.jump],
    "Unconditional jump to another location in code"⟩,
   ⟨0x201, "GOTO_IF_FALSE", .system, "goto_if_false", 1, 1, .gotoIfFalse, [.jump, .conditional],
    "Conditional branch to another location in code if the condition result on the stack is false"⟩,
   ⟨0x203, "RETURN", .system, "return", 0, 0, .ret, [.terminator],
    "Return from a function call"⟩,
   ⟨0x300, "LOAD_MODEL", .entity, "load_model", 1, 0, .generic, [.modelArgument],
    "Load a model for an entity"⟩,
   ⟨0x302, "SET_PLAYER", .entity, "set_player_model", 0, 0, .generic, [],
    "Set the player's entity model"⟩,
   ⟨0x303, "SET_SPEED", .entity, "set_movespeed", 1, 0, .generic, [],
    "Set the active entity's movement speed"⟩,
   ⟨0x304, "SET_DIR", .entity, "set_direction_facing", 1, 0, .generic, [],
    "Set direction and facing"⟩,
   ⟨0x305, "WAIT_FRAMES", .system, "wait_frames", 1, 0, .generic, [.pushesResult],
    "Wait for a specified number of frames"⟩,
   ⟨0x306, "WAIT", .system, "wait", 1, 0, .generic, [],
    "Wait for the next frame"⟩,
   ⟨0x307, "SET_CONTROLS", .system, "set_control_lock", 1, 0, .generic, [],
    "Lock/unlock player controls"⟩,
   ⟨0x308, "SET_MESH_POS", .entity, "set_mesh_coords", 2, 0, .generic, [],
    "Set active entity's mesh coordinates"⟩,
   ⟨0x309, "SET_LOCAL_POS", .entity, "set_coords_in_mesh", 2, 0, .generic, [],
    "Set active entity's coordinates within mesh"⟩,
   ⟨0x30A, "SET_VERT_SPEED", .entity, "set_vertical_speed", 1, 0, .generic, [],
    "Set active entity's vertical speed"⟩,
   ⟨0x30B, "SET_Y_OFFSET", .entity, "set_y_offset", 1, 0, .generic, [],
    "Set active entity's Y offset"⟩,
   ⟨0x30C, "ENTER_VEHICLE", .entity, "enter_vehicle", 0, 0, .generic, [],
    "Make active entity enter a vehicle"⟩,
   ⟨0x30D, "STOP", .entity, "stop", 0, 0, .generic, [],
    "Stop the active entity's movement"⟩,
   ⟨0x30E, "PLAY_ANIM", .entity, "play_animation", 2, 0, .generic, [],
    "Play an animation on the active entity"⟩,
   ⟨0x310, "SET_POINT", .point, "set_active", 2, 0, .generic, [],
    "Set the active point"⟩,
   ⟨0x311, "SET_POINT_MESH", .point, "set_mesh_coords", 2, 0, .generic, [],
    "Set point mesh coordinates"⟩,
   ⟨0x312, "SET_POINT_LOCAL", .point, "set_coords_in_mesh", 2, 0, .generic, [],
    "Set point coordinates within mesh"⟩,
   ⟨0x313, "SET_TERRAIN_COLOR", .point, "set_terrain_color", 3, 0, .generic, [],
    "Set the terrain color at a point"⟩,
   ⟨0x314, "SET_LIGHT_DROPOFF", .point, "set_dropoff_params", 2, 0, .generic, [],
    "Configure dropoff parameters for a point"⟩,
   ⟨0x315, "SET_SKY_TOP", .point, "set_sky_top_color", 3, 0, .generic, [],
    "Set the top color of the sky"⟩,
   ⟨0x316, "SET_SKY_BOTTOM", .point, "set_sky_bottom_color", 3, 0, .generic, [],
    "Set the bottom color of the sky"⟩,
   ⟨0x317, "BATTLE", .system, "trigger_battle", 1, 0, .generic, [],
    "Trigger a battle by ID"⟩,
   ⟨0x318, "ENTER_FIELD", .system, "enter_field", 2, 0, .generic, [],
    "Transition to a field scene"⟩,
   ⟨0x319, "SET_MAP_OPTIONS", .system, "set_map_options", 1, 0, .generic, [],
    "Configure map-wide settings"⟩,
   ⟨0x31B, "NOP_ARG", .system, "noop_with_arg", 1, 0, .generic, [],
    "No operation (placeholder)"⟩,
   ⟨0x31C, "SET_CAM_LOCK", .camera, "set_tilt_zoom_status", 1, 0, .generic, [],
    "Set camera tilt/zoom state"⟩,
   ⟨0x31D, "PLAY_SFX", .sound, "play_sfx", 1, 0, .generic, [],
    "Play a sound effect by ID"⟩,
   ⟨0x31F, "SET_CAM_SPEED", .camera, "set_rotation_speed", 1, 0, .generic, [],
    "Adjust camera rotation speed"⟩,
   ⟨0x320, "RESET_ZOLOM", .system, "reset_zolom", 0, 0, .generic, [],
    "Reset Midgar Zolom state if disabled"⟩,
   ⟨0x321, "FACE_POINT", .entity, "face_point", 1, 0, .generic, [],
    "Make active entity face a point"⟩,
   ⟨0x324, "SET_WINDOW_SIZE", .window, "set_dimensions", 4, 0, .generic, [],
    "Set window position and size"⟩,
   ⟨0x325, "SET_MESSAGE", .window, "set_message", 1, 0, .generic, [],
    "Set the window's message text by ID"⟩,
   ⟨0x326, "SET_PROMPT", .window, "set_prompt", 3, 0, .generic, [],
    "Set a prompt in the window"⟩,
   ⟨0x327, "WAIT_PROMPT", .window, "wait_for_prompt_ack", 0, 0, .generic, [],
    "Wait for the player to acknowledge a prompt"⟩,
   ⟨0x328, "SET_MOVE_DIR", .entity, "set_movement_direction", 1, 0, .generic, [],
    "Set entity movement direction"⟩,
   ⟨0x329, "SET_CAM_TILT", .camera, "set_tilt_speed", 1, 0, .generic, [],
    "Adjust camera tilt speed"⟩,
   ⟨0x32A, "SET_CAM_ZOOM", .camera, "set_zoom_speed", 1, 0, .generic, [],
    "Adjust camera zoom speed"⟩,
   ⟨0x32B, "SET_ENCOUNTERS", .system, "set_encounters", 1, 0, .generic, [],
    "Enable/disable random encounters"⟩,
   ⟨0x32C, "SET_WINDOW_STYLE", .window, "set_params", 2, 0, .generic, [],
    "Configure window style and behavior"⟩,
   ⟨0x32D, "WAIT_WINDOW", .window, "wait_until_ready", 0, 0, .generic, [],
    "Wait until the window is ready"⟩,
   ⟨0x32E, "WAIT_DISMISS", .window, "wait_for_acknowledge", 0, 0, .generic, [],
    "Wait for the player to dismiss the window"⟩,
   ⟨0x32F, "SET_PLAYER_DIR", .player, "set_direction", 1, 0, .generic, [],
    "Set the player's facing direction"⟩,
   ⟨0x330, "SET_ENTITY", .player, "set_active_entity", 1, 0, .generic, [.modelArgument],
    "Set the active entity (e.g., player)"⟩,
   ⟨0x331, "EXIT_VEHICLE", .player, "exit_vehicle", 0, 0, .generic, [],
    "Make the player exit a vehicle"⟩,
   ⟨0x332, "CHOCOBO_RUN", .player, "chocobo_run_away", 0, 0, .generic, [],
    "Trigger chocobo runaway behavior"⟩,
   ⟨0x333, "FACE_MODEL", .entity, "rotate_to_model", 2, 0, .generic, [.modelArgument],
    "Rotate active entity to face a model"⟩,
   ⟨0x334, "WAIT_FUNC", .system, "wait_for_function", 0, 0, .generic, [],
    "Wait until a function completes"⟩,
   ⟨0x336, "SET_WALK_SPEED", .entity, "set_walk_speed", 1, 0, .generic, [],
    "Set entity walking speed"⟩,
   ⟨0x339, "HIDE_MODEL", .entity, "hide_model", 0, 0, .generic, [],
    "Hide the active entity's model"⟩,
   ⟨0x33A, "SET_VERT_SPEED2", .entity, "set_vertical_speed_2", 1, 0, .generic, [],
    "Set an alternate vertical speed"⟩,
   ⟨0x33B, "FADE_OUT", .system, "fade_out", 2, 0, .generic, [],
    "Fade the screen to black"⟩,
   ⟨0x33C, "SET_FIELD_ENTRY", .system, "set_field_entry", 0, 0, .generic, [],
    "Set field scene entry point"⟩,
   ⟨0x33D, "SET_FIELD_ENTRY_ID", .system, "set_field_entry_by_id", 1, 0, .generic, [],
    "Set field entry point by ID"⟩,
   ⟨0x33E, "PLAY_MUSIC", .sound, "play_music", 1, 0, .generic, [],
    "Play a music track by ID"⟩,
   ⟨0x347, "MOVE_TO_MODEL", .entity, "move_to_entity", 1, 0, .generic, [.modelArgument],
    "Move active entity to another entity"⟩,
   ⟨0x348, "FADE_IN", .system, "fade_in", 2, 0, .generic, [],
    "Fade the screen from black"⟩,
   ⟨0x349, "SET_PROGRESS", .system, "set_world_progress", 1, 0, .generic, [],
    "Update the game's progress flags"⟩,
   ⟨0x34A, "PLAY_LAYER_ANIM", .system, "play_layer_animation", 1, 0, .generic, [],
    "Play an animation on a layer"⟩,
   ⟨0x34B, "SET_CHOCOBO", .player, "set_chocobo_type", 1, 0, .generic, [],
    "Set the player's chocobo type"⟩,
   ⟨0x34C, "SET_SUBMARINE", .player, "set_submarine_color", 1, 0, .generic, [],
    "Set the submarine's color"⟩,
   ⟨0x34D, "SHOW_LAYER", .system, "show_layer", 3, 0, .generic, [],
    "Show an animation layer"⟩,
   ⟨0x34E, "HIDE_LAYER", .system, "hide_layer", 1, 0, .generic, [],
    "Hide an animation layer"⟩,
   ⟨0x34F, "SET_Y_POS", .entity, "set_y_position", 1, 0, .generic, [],
    "Set active entity's Y position"⟩,
   ⟨0x350, "SHOW_METEOR", .system, "show_meteor", 1, 0, .generic, [],
    "Show/hide the meteor in the sky"⟩,
   ⟨0x351, "SET_MUSIC_VOL", .sound, "set_music_volume", 1, 0, .generic, [],
    "Adjust the music volume"⟩,
   ⟨0x352, "SHAKE_CAM", .camera, "shake", 1, 0, .generic, [],
    "Enable/disable camera shaking"⟩,
   ⟨0x353, "ADJUST_POS", .entity, "adjust_position_outside_vehicle", 2, 0, .generic, [],
    "Adjust position after exiting vehicle"⟩,
   ⟨0x354, "SET_VEHICLE_USABLE", .system, "set_vehicle_usable", 1, 0, .generic, [],
    "Enable/disable vehicle usage"⟩,
   ⟨0x355, "SET_BATTLE_TIMER", .system, "set_battle_timer", 1, 0, .generic, [],
    "Set the battle timer value"⟩]

/-- The shared description of the opcodes `CALL_FN_n`. -/
def callEntry : Entry :=
  ⟨0x204, "CALL_FN_", .system, "call_function", 1, 0, .callFunction, [],
    "Call another script function by ID"⟩

/-- The number of opcodes `CALL_FN_n`. -/
def callCount : Nat := 0xFC

/-- All descriptions by ascending code, the shared one included. -/
def tableWithCalls : List Entry :=
  table.takeWhile (·.code < callEntry.code) ++ callEntry ::
    table.dropWhile (·.code < callEntry.code)

end MapScript
