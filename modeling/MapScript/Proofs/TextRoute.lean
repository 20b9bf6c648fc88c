import MapScript.Proofs.Contents
import MapScript.Proofs.Merging
import MapScript.Proofs.PrintParse

/-!
# Code by way of text

A script has its code from the statements or from their text.  If the names are proper and the
statements have code, the text has code exactly where no expression runs on into the next
statement, and then it is the same code (`instructions_render_iff`).  The names of recovered
scripts are proper (`wellNamed_of_recovered`), but their statements may run on: a value that is
computed with a sign or in parentheses can be assigned to (`instructions_recovered_iff`).
-/

namespace MapScript

open Script Token Lowering Recovery

/-! ## Scripts with code -/

namespace Lowering

mutual

theorem exists_lowers_of_mem_withinStmt {x : Stmt} : (s : Stmt) → {n n' : Nat} →
    {items : List CodeItem} → Lowers n [s] items n' → x ∈ withinStmt s →
    ∃ m c m', Lowers m [x] c m'
  | .ifThen condition body => fun h hx => by
    rcases List.mem_cons.mp hx with rfl | hx
    · exact ⟨_, _, _, h⟩
    · obtain ⟨c, b, -, hb, -⟩ := lowers_ifThen.mp h
      exact exists_lowers_of_mem_within body hb hx
  | .block body => fun h hx => by
    rcases List.mem_cons.mp hx with rfl | hx
    · exact ⟨_, _, _, h⟩
    · exact exists_lowers_of_mem_within body (lowers_block.mp h) hx
  | .expr _ | .goto _ | .label _ | .assign _ _ | .ret => fun h hx => by
    obtain rfl := List.mem_singleton.mp hx
    exact ⟨_, _, _, h⟩

/-- All statements of a script with code have code. -/
theorem exists_lowers_of_mem_within {x : Stmt} : (ss : List Stmt) → {n n' : Nat} →
    {items : List CodeItem} → Lowers n ss items n' → x ∈ within ss → ∃ m c m', Lowers m [x] c m'
  | [] => fun _ hx => nomatch hx
  | s :: rest => fun h hx => by
    obtain ⟨c1, m, c2, hs, hrest, -⟩ := lowers_cons.mp h
    rcases List.mem_append.mp hx with hx | hx
    · exact exists_lowers_of_mem_withinStmt s hs hx
    · exact exists_lowers_of_mem_within rest hrest hx

end

end Lowering

namespace Script

theorem not_isStray_of_build {start : Nat} {stmts : List Stmt} {code : List Instruction}
    (h : build start stmts = .ok code) : ∀ s ∈ within stmts, ¬ s.IsStray := by
  obtain ⟨items, n, labels, hl, -⟩ := build_eq_ok.mp h
  intro s hs hstray
  obtain ⟨m, c, m', hlow⟩ := exists_lowers_of_mem_within stmts hl hs
  exact hstray.not_lowers hlow

theorem proper_written {start : Nat} {stmts : List Stmt} {code : List Instruction}
    (h : build start stmts = .ok code) : Proper (within (written stmts)) where
  no_block body hm := by
    obtain ⟨y, -, hb, he⟩ := exists_of_mem_within_written stmts hm
    cases y with
    | block body' => exact hb body' rfl
    | _ => cases he
  void e hm := by
    obtain ⟨items, n, labels, hl, -⟩ := build_eq_ok.mp (build_written.mpr h)
    obtain ⟨m, c, m', hlow⟩ := exists_lowers_of_mem_within _ hl hm
    obtain ⟨c', hc, -⟩ := lowers_expr.mp hlow
    exact isVoid_of_exprStmt hc

/-- **Text has the code of the script** or none. -/
theorem instructions_render_iff {start : Nat} {stmts : List Stmt} {code other : List Instruction}
    (hn : WellNamed stmts) (hb : build start stmts = .ok code) :
    instructions start (render stmts) = .ok other ↔ Separated stmts ∧ other = code := by
  constructor
  · intro h
    have hsep : Separated stmts := by
      obtain ⟨stmts', hread, hbuild⟩ := instructions_eq_ok.mp h
      rw [read, scan_render hn] at hread
      have hparse := mapError_eq_ok.mp hread
      obtain ⟨hc, hf⟩ := parted_of_parse (proper_written hb) hparse (not_isStray_of_build hbuild)
      exact separated_of_flat hn hc hf
    have hsame := (instructions_render hn hsep).mp h
    rw [hb] at hsame
    exact ⟨hsep, (Except.ok.inj hsame).symm⟩
  · rintro ⟨hsep, rfl⟩
    exact (instructions_render hn hsep).mpr hb

end Script

/-! ## Names of recovered scripts -/

/-- What goes on behind a name with an underscore is a name. -/
theorem Token.isName_append {stem : String} (hs : isName stem = true) (hu : '_' ∈ stem.toList)
    {cs : List Char} (hcs : ∀ c ∈ cs, isWordChar c = true) :
    isName (stem ++ String.ofList cs) = true := by
  have hkey : Lexeme.keywords.lookup (stem ++ String.ofList cs) = none := by
    have hplain : ∀ p ∈ Lexeme.keywords, '_' ∉ p.1.toList := by decide
    rw [List.lookup_eq_none_iff]
    intro p hp
    rw [bne_iff_ne]
    intro he
    refine hplain p hp ?_
    rw [← he]
    simp [hu]
  unfold isName at hs ⊢
  rw [String.toList_append, String.toList_ofList]
  cases hstem : stem.toList with
  | nil =>
    rw [hstem] at hu
    cases hu
  | cons c rest =>
    rw [hstem] at hs
    simp only [Bool.and_eq_true, List.all_eq_true] at hs
    simp only [List.cons_append, hkey, Bool.and_eq_true, List.all_eq_true, List.mem_append,
      Option.isNone_none, and_true]
    exact ⟨hs.1.1, fun d hd => hd.elim (hs.1.2 d) (hcs d)⟩

theorem Numeral.isWordChar_of_mem_toDigits {n : Nat} {c : Char} (h : c ∈ Nat.toDigits 16 n) :
    isWordChar c = true := by
  have hall : ∀ d < 16, isWordChar d.digitChar = true := by decide
  obtain ⟨d, hd, rfl⟩ := exists_digit_of_mem_toDigits (by decide) h
  exact hall d hd

theorem Structured.isName_labelAt (t : Nat) : isName (labelAt t) = true :=
  isName_append (by decide) (by decide) fun _ => Numeral.isWordChar_of_mem_toDigits

theorem Symbol.Register.isName_placeholder (id : UInt16) :
    isName (Symbol.Register.placeholder id) = true := by
  refine isName_append (by decide) (by decide) fun c hc => ?_
  rcases List.mem_append.mp hc with hc | hc
  · obtain rfl := List.eq_of_mem_replicate hc
    decide
  · exact Numeral.isWordChar_of_mem_toDigits hc

theorem Symbol.Savemap.isName_name? {address : Nat} {width : Width} {name : String}
    (h : Symbol.Savemap.name? address width = some name) : isName name = true := by
  obtain ⟨p, hp, rfl⟩ := Option.map_eq_some_iff.mp h
  exact Names.isName names_places (List.mem_of_find?_eq_some hp)

theorem Width.isName_name (w : Width) : isName w.name = true := by
  cases w <;> decide

theorem Subsystem.isName_name (s : Subsystem) : isName s.name = true := by
  cases s <;> decide

/-- All names of an expression are proper. -/
def Expr.WellNamed (e : Expr) : Prop := ∀ name ∈ e.names, isName name = true

namespace Expr

theorem mem_namesOfList {name : String} {es : List Expr} :
    name ∈ namesOfList es ↔ ∃ e ∈ es, name ∈ e.names := by
  induction es with
  | nil => simp [namesOfList]
  | cons e es ih => simp [namesOfList, ih]

theorem WellNamed.path {qualifier name : String} (hq : isName qualifier = true)
    (hn : isName name = true) : (path qualifier name).WellNamed := by
  simp [WellNamed, Expr.path, names, hq, hn]

theorem WellNamed.call {callee : Expr} {args : List Expr} (hc : callee.WellNamed)
    (ha : ∀ e ∈ args, e.WellNamed) : (Expr.call callee args).WellNamed := by
  intro name hname
  rcases List.mem_append.mp hname with hname | hname
  · exact hc name hname
  · obtain ⟨e, he, hname⟩ := mem_namesOfList.mp hname
    exact ha e he name hname

end Expr

namespace Recovery

/-- A cell of a bank by its address. -/
theorem wellNamed_cell {bank : String} (hb : isName bank = true) (l : Literal) (width : Width) :
    (Expr.member (.index (.ident bank) (.literal l)) width.name).WellNamed := by
  simp [Expr.WellNamed, Expr.names, hb, width.isName_name]

theorem wellNamed_savemapAt (address : Nat) (width : Width) :
    (savemapAt address width).WellNamed := by
  unfold savemapAt
  split
  · next name hname => exact .path (by decide) (Symbol.Savemap.isName_name? hname)
  · exact wellNamed_cell (by decide) _ width

theorem wellNamed_savemapBit (operand : Nat) : (savemapBit operand).WellNamed := by
  have hbank : isName "Savemap" = true := by decide
  have hbit : isName "bit" = true := by decide
  simp only [savemapBit]
  split
  · next name hname =>
    simp [Expr.WellNamed, Expr.names, Expr.path, Expr.num, hbank, hbit,
      Symbol.Savemap.isName_name? hname]
  · simp [Expr.WellNamed, Expr.names, Expr.hex, Expr.num, hbank, hbit]

theorem wellNamed_tempAt (operand : UInt16) (width : Width) :
    (tempAt operand width).WellNamed := by
  unfold tempAt
  split
  · exact wellNamed_cell (by decide) _ width
  · exact wellNamed_cell (by decide) _ width

theorem wellNamed_registerAt (id : UInt16) (width : Width) :
    (registerAt id width).WellNamed := by
  have hindexed := wellNamed_cell (by decide : isName "Special" = true)
    ⟨id.toUInt32, .hex⟩ width
  unfold registerAt
  split
  · next r hr =>
    split
    · exact .path (by decide)
        (Names.isName Symbol.Register.names_named (List.mem_of_find?_eq_some hr))
    · exact hindexed
  · split
    · exact .path (by decide) (Symbol.Register.isName_placeholder id)
    · exact hindexed

theorem wellNamed_loaded (source : Source) (operand : UInt16) :
    (loaded source operand).WellNamed := by
  unfold loaded
  split
  · exact nofun
  · exact wellNamed_savemapBit _
  · exact wellNamed_savemapAt _ _
  · exact wellNamed_tempAt _ _
  · exact wellNamed_registerAt _ _

theorem wellNamed_callOf {i : Instruction} (hk : i.kind = .generic) {args : List Expr}
    (ha : ∀ e ∈ args, e.WellNamed) : (callOf i.opcode args).WellNamed := by
  rw [Instruction.kind] at hk
  cases hop : i.opcode with
  | call n =>
    rw [hop] at hk
    cases hk
  | row n =>
    rw [hop] at hk
    have hn := isName_of_isPlainWord (Opcode.row_isPlainWord _ (List.get_mem table n) hk)
    exact .call (.path (Subsystem.isName_name _) hn) ha

theorem keeps_wellNamed :
    Keeps Expr.WellNamed (fun s => ∀ name ∈ s.names, isName name = true) := by
  intro i s ss s' h hs
  have hsystem : isName "System" = true := by decide
  cases h with
  | idle => exact ⟨by simp, hs⟩
  | reset => exact ⟨by simp, by simp⟩
  | push => exact ⟨by simp, List.forall_mem_cons.mpr ⟨wellNamed_loaded _ _, hs⟩⟩
  | unary =>
    obtain ⟨he, hs⟩ := List.forall_mem_cons.mp hs
    exact ⟨by simp, List.forall_mem_cons.mpr ⟨he, hs⟩⟩
  | binary =>
    obtain ⟨hy, hs⟩ := List.forall_mem_cons.mp hs
    obtain ⟨hx, hs⟩ := List.forall_mem_cons.mp hs
    refine ⟨by simp, List.forall_mem_cons.mpr ⟨fun name hname => ?_, hs⟩⟩
    exact (List.mem_append.mp hname).elim (hx name) (hy name)
  | write =>
    obtain ⟨hy, hs⟩ := List.forall_mem_cons.mp hs
    obtain ⟨hx, hs⟩ := List.forall_mem_cons.mp hs
    refine ⟨List.forall_mem_singleton.mpr fun name hname => ?_, hs⟩
    exact (List.mem_append.mp hname).elim (hx name) (hy name)
  | @callFunction s e =>
    obtain ⟨he, hs⟩ := List.forall_mem_cons.mp hs
    refine ⟨List.forall_mem_singleton.mpr ?_, hs⟩
    refine Expr.WellNamed.call (.path hsystem (by decide)) fun x hx => ?_
    rcases List.mem_cons.mp hx with rfl | hx
    · exact nofun
    · obtain rfl := List.mem_singleton.mp hx
      exact he
  | ret => exact ⟨List.forall_mem_singleton.mpr nofun, hs⟩
  | @wait s args =>
    obtain ⟨he, hs⟩ := List.forall_mem_cons.mp hs
    refine ⟨List.forall_mem_singleton.mpr ?_, hs⟩
    refine Expr.WellNamed.call (.path hsystem (by decide)) fun x hx name hname => ?_
    exact he name (List.mem_append_right _ (Expr.mem_namesOfList.mpr ⟨x, hx, hname⟩))
  | value kind =>
    obtain ⟨ha, hs⟩ := List.forall_mem_append.mp hs
    refine ⟨by simp, List.forall_mem_cons.mpr ⟨wellNamed_callOf kind fun x hx => ?_, hs⟩⟩
    exact ha x (List.mem_reverse.mpr hx)
  | call kind =>
    obtain ⟨ha, hs⟩ := List.forall_mem_append.mp hs
    refine ⟨List.forall_mem_singleton.mpr ?_, hs⟩
    exact wellNamed_callOf kind fun x hx => ha x (List.mem_reverse.mpr hx)

end Recovery

namespace Script

theorem wellNamed_of_recovered {start : Nat} {code : List Instruction} {d : Structured}
    (h : Structured.ofInstructions start code = .ok d) : WellNamed d.stmts := by
  intro s hs
  have hmade := madeOf_of_recovered keeps_wellNamed h s hs
  cases s with
  | goto name | label name =>
    obtain ⟨t, rfl⟩ := hmade
    exact List.forall_mem_singleton.mpr (Structured.isName_labelAt t)
  | block body => exact nofun
  | _ => exact hmade

/-- **The text of a recovered script** has the code of the script if no expression runs on into the
next statement, and else it has none. -/
theorem instructions_recovered_iff {start : Nat} {code built other : List Instruction}
    {d : Structured} (h : Structured.ofInstructions start code = .ok d)
    (hb : build start d.stmts = .ok built) :
    instructions start (render d.stmts) = .ok other ↔ Separated d.stmts ∧ other = built :=
  instructions_render_iff (wellNamed_of_recovered h) hb

/-- `1 = 2` and `-3 = 4`: the second line goes on with the first. -/
def negated : List Instruction :=
  (Bytecode.decode
    [0x100, 0x110, 1, 0x110, 2, 0xE0, 0x100, 0x110, 3, 0x15, 0x110, 4, 0xE0]).toOption.getD []

theorem instructions_recovered_iff_negated : ∃ d,
    Structured.ofInstructions 0 negated = .ok d ∧ build 0 d.stmts = .ok negated ∧
    ∀ other, instructions 0 (render d.stmts) ≠ .ok other := by
  have hrun : ((Structured.ofInstructions 0 negated).toOption.any fun d =>
      decide (build 0 d.stmts = .ok negated) && !decide (Separated d.stmts)) = true := by
    decide +kernel
  cases hd : Structured.ofInstructions 0 negated with
  | error e =>
    rw [hd] at hrun
    cases hrun
  | ok d =>
    rw [hd] at hrun
    obtain ⟨hb, hsep⟩ : build 0 d.stmts = .ok negated ∧ ¬ Separated d.stmts := by
      simpa [Except.toOption] using hrun
    exact ⟨d, rfl, hb, fun other ho => hsep ((instructions_recovered_iff hd hb).mp ho).1⟩

end Script

end MapScript
