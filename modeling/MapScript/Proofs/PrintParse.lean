import MapScript.Proofs.Acceptance
import MapScript.Proofs.Closure
import MapScript.Proofs.Rendered

/-!
# Rendered scripts are read back

Statements are written one below the other with nothing between them, so a script can only be read
back from its text if no statement goes on with the expression before it.  Where no statement that
starts with `-` or `(` follows an expression (`Separated`), the text is read as the written script:

    read (render stmts) = .ok (written stmts)                                 (read_render)

and it has the code of the script.
-/

namespace MapScript

open Token Script

/-! ## Separated scripts -/

/-- Whether the text of an expression starts like the rest of another one. -/
def Expr.runsOn (e : Expr) : Bool := e.text.toList.head?.any fun c => c == '-' || c == '('

/-- Whether the text of the second statement cannot go on with an expression that ends the
first. -/
def Stmt.separate (s s' : Stmt) : Bool := s.lead?.isNone || !s'.lead?.any Expr.runsOn

/-- The body of a condition. -/
def Stmt.body : Stmt → List Stmt
  | ifThen _ body => body
  | _ => []

namespace Script

/-- In no list of statements, blocks dissolved, does an expression run on into the next
statement. -/
def Separated (stmts : List Stmt) : Prop :=
  (outer stmts).IsChain (fun s s' => s.separate s' = true) ∧
    ∀ s ∈ within stmts, (outer s.body).IsChain fun s s' => s.separate s' = true

instance (stmts : List Stmt) : Decidable (Separated stmts) :=
  inferInstanceAs (Decidable (_ ∧ _))

instance (stmts : List Stmt) : Decidable (WellNamed stmts) :=
  inferInstanceAs (Decidable (∀ s ∈ within stmts, ∀ name ∈ s.names, isName name = true))

/-! ## Written scripts -/

/-- What a statement that is no block is written as. -/
def writtenOne : Stmt → Stmt
  | .expr e => .expr (e.named .plain)
  | .ifThen condition body => .ifThen (condition.named .plain) (written body)
  | .assign target value => .assign (target.named .plain) (value.named .plain)
  | s => s

mutual

theorem writtenStmt_eq : (s : Stmt) → writtenStmt s = (outerStmt s).map writtenOne
  | .block body => written_eq body
  | .expr _ | .ifThen _ _ | .goto _ | .label _ | .assign _ _ | .ret => by
    simp [writtenStmt, outerStmt, writtenOne]

/-- Statements are written one by one. -/
theorem written_eq : (ss : List Stmt) → written ss = (outer ss).map writtenOne
  | [] => rfl
  | s :: rest => by
    rw [written, outer, List.map_append, writtenStmt_eq s, written_eq rest]

end

mutual

theorem exists_of_mem_within_writtenStmt {x : Stmt} : (s : Stmt) →
    x ∈ within (writtenStmt s) →
    ∃ y ∈ withinStmt s, (∀ body, y ≠ .block body) ∧ x = writtenOne y
  | .block body => fun h => by
    obtain ⟨y, hy, hb, he⟩ := exists_of_mem_within_written body h
    exact ⟨y, List.mem_cons_of_mem _ hy, hb, he⟩
  | .ifThen condition body => fun h => by
    simp only [writtenStmt, within, withinStmt, List.append_nil, List.mem_cons] at h
    rcases h with rfl | h
    · exact ⟨_, List.mem_cons_self, nofun, rfl⟩
    · obtain ⟨y, hy, hb, he⟩ := exists_of_mem_within_written body h
      exact ⟨y, List.mem_cons_of_mem _ hy, hb, he⟩
  | .expr _ | .goto _ | .label _ | .assign _ _ | .ret => fun h => by
    simp only [writtenStmt, within, withinStmt, List.append_nil, List.mem_singleton] at h
    exact ⟨_, List.mem_cons_self, nofun, h⟩

/-- All that is in a written script was written. -/
theorem exists_of_mem_within_written {x : Stmt} : (ss : List Stmt) → x ∈ within (written ss) →
    ∃ y ∈ within ss, (∀ body, y ≠ .block body) ∧ x = writtenOne y
  | [] => fun h => nomatch h
  | s :: rest => fun h => by
    rw [written, within_append, List.mem_append] at h
    rcases h with h | h
    · obtain ⟨y, hy, hb, he⟩ := exists_of_mem_within_writtenStmt s h
      exact ⟨y, List.mem_append_left _ hy, hb, he⟩
    · obtain ⟨y, hy, hb, he⟩ := exists_of_mem_within_written rest h
      exact ⟨y, List.mem_append_right _ hy, hb, he⟩

end

mutual

theorem writtenOne_mem_withinStmt {y : Stmt} (hb : ∀ body, y ≠ .block body) : (s : Stmt) →
    y ∈ withinStmt s → writtenOne y ∈ within (writtenStmt s)
  | .block body => fun h => by
    rcases List.mem_cons.mp h with rfl | h
    · exact absurd rfl (hb body)
    · exact writtenOne_mem_within hb body h
  | .ifThen condition body => fun h => by
    simp only [writtenStmt, within, withinStmt, List.append_nil, List.mem_cons]
    rcases List.mem_cons.mp h with rfl | h
    · exact .inl rfl
    · exact .inr (writtenOne_mem_within hb body h)
  | .expr _ | .goto _ | .label _ | .assign _ _ | .ret => fun h => by
    obtain rfl := List.mem_singleton.mp h
    exact List.mem_cons_self

/-- All statements but blocks are written. -/
theorem writtenOne_mem_within {y : Stmt} (hb : ∀ body, y ≠ .block body) : (ss : List Stmt) →
    y ∈ within ss → writtenOne y ∈ within (written ss)
  | [] => fun h => nomatch h
  | s :: rest => fun h => by
    rw [written, within_append, List.mem_append]
    rw [within, List.mem_append] at h
    rcases h with h | h
    · exact .inl (writtenOne_mem_withinStmt hb s h)
    · exact .inr (writtenOne_mem_within hb rest h)

end

mutual

theorem withinStmt_trans {x y : Stmt} : (s : Stmt) → x ∈ withinStmt s → y ∈ withinStmt x →
    y ∈ withinStmt s
  | .block body => fun hx hy => by
    rcases List.mem_cons.mp hx with rfl | hx
    · exact hy
    · exact List.mem_cons_of_mem _ (within_trans body hx hy)
  | .ifThen condition body => fun hx hy => by
    rcases List.mem_cons.mp hx with rfl | hx
    · exact hy
    · exact List.mem_cons_of_mem _ (within_trans body hx hy)
  | .expr _ | .goto _ | .label _ | .assign _ _ | .ret => fun hx hy => by
    obtain rfl := List.mem_singleton.mp hx
    exact hy

theorem within_trans {x y : Stmt} : (ss : List Stmt) → x ∈ within ss → y ∈ withinStmt x →
    y ∈ within ss
  | [] => fun hx _ => nomatch hx
  | s :: rest => fun hx hy => by
    rw [within, List.mem_append] at hx ⊢
    rcases hx with hx | hx
    · exact .inl (withinStmt_trans s hx hy)
    · exact .inr (within_trans rest hx hy)

end

theorem WellNamed.body {stmts body : List Stmt} {condition : Expr} (h : WellNamed stmts)
    (hm : .ifThen condition body ∈ within stmts) : WellNamed body :=
  fun s hs => h s (within_trans stmts hm (List.mem_cons_of_mem _ hs))

end Script

/-! ## From text to lexemes -/

/-- The text and the lexemes of an expression start alike. -/
theorem Expr.runsOn_eq_false {e : Expr} (hn : ∀ name ∈ e.names, isName name = true) :
    e.runsOn = false ↔ ∀ l ∈ (e.named .plain).lexemes.head?, l ≠ .minus ∧ l ≠ .parenOpen := by
  obtain ⟨c, cs, l, ls, hc, hl, hminus, hparen, -⟩ := e.starts_textAs .plain hn
  have hruns : e.runsOn = false ↔ c ≠ '-' ∧ c ≠ '(' := by simp [runsOn, text, hc]
  have hhead : (∀ l' ∈ (e.named .plain).lexemes.head?, l' ≠ .minus ∧ l' ≠ .parenOpen) ↔
      l ≠ .minus ∧ l ≠ .parenOpen := by simp [hl]
  rw [hruns, hhead]
  exact and_congr (not_congr hminus) (not_congr hparen)

theorem Stmt.lead?_writtenOne (s : Stmt) :
    (writtenOne s).lead? = s.lead?.map (Expr.named .plain) := by
  cases s <;> rfl

theorem Stmt.names_lead {s : Stmt} {e : Expr} (h : s.lead? = some e) :
    ∀ name ∈ e.names, name ∈ s.names := by
  intro name hname
  cases s with
  | expr e' =>
    cases h
    exact hname
  | assign target value =>
    cases h
    exact List.mem_append_left _ hname
  | _ => cases h

theorem Stmt.parted_written {s s' : Stmt} (hn : ∀ name ∈ s'.names, isName name = true) :
    (writtenOne s).Parted (writtenOne s') ↔ s.separate s' = true := by
  rw [Parted, lead?_writtenOne, lead?_writtenOne, separate]
  cases s.lead? with
  | none => simp
  | some e =>
    cases he' : s'.lead? with
    | none => simp
    | some e' =>
      have hruns := Expr.runsOn_eq_false fun name hname => hn name (names_lead he' name hname)
      simp only [Option.map_some, Option.isSome_some, Option.some.injEq, forall_eq', forall_const,
        Option.isNone_some, Option.any_some, Bool.false_or, Bool.not_eq_true', hruns]

theorem Script.isChain_written {stmts : List Stmt} (hn : WellNamed stmts) :
    (written stmts).IsChain Stmt.Parted ↔
      (outer stmts).IsChain fun s s' => s.separate s' = true := by
  rw [written_eq, List.isChain_map]
  constructor
  · refine List.IsChain.imp_of_mem_imp fun s s' _ hs' hp => ?_
    exact (Stmt.parted_written (hn s' (outer_subset stmts s' hs'))).mp hp
  · refine List.IsChain.imp_of_mem_imp fun s s' _ hs' hp => ?_
    exact (Stmt.parted_written (hn s' (outer_subset stmts s' hs'))).mpr hp

theorem Script.flat_written {stmts : List Stmt} (hn : WellNamed stmts) (h : Separated stmts) :
    Flat (within (written stmts)) where
  bodies condition body hm := by
    obtain ⟨y, hy, -, he⟩ := exists_of_mem_within_written stmts hm
    cases y with
    | ifThen condition' body' =>
      cases he
      exact (isChain_written (hn.body hy)).mpr (h.2 _ hy)
    | _ => cases he
  no_block body hm := by
    obtain ⟨y, -, hb, he⟩ := exists_of_mem_within_written stmts hm
    cases y with
    | block body' => exact hb body' rfl
    | _ => cases he

theorem Script.separated_of_flat {stmts : List Stmt} (hn : WellNamed stmts)
    (hc : (written stmts).IsChain Stmt.Parted) (hf : Flat (within (written stmts))) :
    Separated stmts := by
  refine ⟨(isChain_written hn).mp hc, fun s hs => ?_⟩
  cases s with
  | ifThen condition body =>
    have hne : ∀ inner, Stmt.ifThen condition body ≠ .block inner := nofun
    have hm := writtenOne_mem_within hne stmts hs
    exact (isChain_written (hn.body hs)).mp (hf.bodies _ _ hm)
  | _ => exact .nil

namespace Script

theorem read_eq_written {stmts : List Stmt} (hn : WellNamed stmts) (h : Separated stmts) :
    read (render stmts) = .ok (written stmts) := by
  rw [read, scan_render hn]
  show (parse _).mapError _ = _
  rw [parse_lexemeLines _ ((isChain_written hn).mpr h.1) (flat_written hn h)]
  rfl

theorem instructions_render {stmts : List Stmt} (hn : WellNamed stmts) (h : Separated stmts)
    {start : Nat} {code : List Instruction} :
    instructions start (render stmts) = .ok code ↔ build start stmts = .ok code := by
  rw [instructions_eq_ok, read_eq_written hn h]
  constructor
  · rintro ⟨stmts', he, hb⟩
    cases he
    exact build_written.mp hb
  · intro hb
    exact ⟨_, rfl, build_written.mpr hb⟩

/-- **Text comes back.**  If all names are words and no keywords, and no expression runs on into the
next statement, the text of a script is read as the script, without blocks and with numbers by name
where the text has them so; and it has the code of the script. -/
theorem read_render {stmts : List Stmt} (hn : WellNamed stmts) (h : Separated stmts) :
    read (render stmts) = .ok (written stmts) ∧
      ∀ start code, build start stmts = .ok code → instructions start (render stmts) = .ok code :=
  ⟨read_eq_written hn h, fun _ _ hb => (instructions_render hn h).mpr hb⟩

/-- A field and an entity by name, two signs in a row, operands in parentheses on both sides, and a
statement that starts with a sign behind a condition. -/
def mixed : List Stmt :=
  [.block [.label "top", .call "System" "enter_field" [.num 2, .num 0]],
   .ifThen (.binary .eq (.path "Special" "player_entity_model_id") (.num 3))
     [.assign (.member (.index (.ident "Temp") (.hex 31)) "word")
        (.unary .neg (.unary .neg (.num 1))),
      .goto "top"],
   .assign (.unary .neg (.path "Savemap" "game_progress"))
     (.binary .mul (.binary .sub (.num 5) (.binary .sub (.num 3) (.num 1))) (.num 2))]

theorem read_render_mixed : ∃ code, build 0 mixed = .ok code ∧
    read (render mixed) = .ok (written mixed) ∧ instructions 0 (render mixed) = .ok code := by
  have hn : WellNamed mixed := by decide +kernel
  have hs : Separated mixed := by decide +kernel
  have hok : (build 0 mixed).isOk = true := by decide +kernel
  obtain ⟨hread, hcode⟩ := read_render hn hs
  cases hb : build 0 mixed with
  | error e =>
    rw [hb] at hok
    cases hok
  | ok code => exact ⟨code, rfl, hread, hcode 0 code hb⟩

end Script

end MapScript
