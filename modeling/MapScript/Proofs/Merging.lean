import MapScript.Proofs.Naming
import MapScript.Proofs.Parsed
import MapScript.Proofs.RunOn

/-!
# Statements that run on

Where a statement goes on with the expression before it, an assignment before it leaves an `=` that
starts no statement, and a call before it becomes part of the target of an assignment
(`Stmt.IsStray`), which has no code because the call gives no value.  So lines that are read as
statements with code were parted (`parted_of_parse`).
-/

namespace MapScript

open Script Token Lowering

/-! ## Calls without a value -/

/-- A call that has no code as a value. -/
def Expr.IsVoid (e : Expr) : Prop :=
  (∃ qualifier name args, e = .call (.path qualifier name) args) ∧
    ∀ code, ofExpr e ≠ ⟨code, none⟩

theorem Fragment.fail_ne (err : LoweringError) (code : List CodeItem) :
    Fragment.fail err ≠ ⟨code, none⟩ := by
  intro h
  cases congrArg Fragment.failure h

theorem Lowering.CallCode.not_ofExpr {qualifier name : String} {args : List Expr}
    {c : List CodeItem} (h : CallCode qualifier name args c) (code : List CodeItem) :
    ofExpr (.call (.path qualifier name) args) ≠ ⟨code, none⟩ := by
  rw [ofExpr]
  simp only [Expr.path?_path]
  split
  · next bank width hb hw =>
    -- the code of a statement is not that of a load from memory
    exfalso
    cases h with
    | callFunction | wait | write => cases hb
    | function found => exact Opcode.not_memory_of_ofFunction? found bank width hb hw
  · cases h with
    | callFunction =>
      rw [Opcode.ofFunction?_callFunction]
      exact Fragment.fail_ne _ _
    | write =>
      rw [Opcode.ofFunction?_write]
      exact Fragment.fail_ne _ _
    | wait =>
      have hp : Opcode.wait.entry.pushesResult = false := by decide
      simp only [Opcode.ofFunction?_wait, hp]
      exact Fragment.fail_ne _ _
    | function found _ silent =>
      simp only [found, silent]
      exact Fragment.fail_ne _ _

/-- What has code as a statement has none as a value. -/
theorem Lowering.isVoid_of_exprStmt {e : Expr} {c : List CodeItem} (h : exprStmt e = ⟨c, none⟩) :
    e.IsVoid := by
  unfold exprStmt at h
  split at h
  · cases h
  · next qualifier name args he =>
    obtain rfl := Expr.eq_call_of_pathCall? he
    exact ⟨⟨_, _, _, rfl⟩, (callCode_of_callStmt h).not_ofExpr⟩

namespace Expr

theorem IsVoid.isOperation {e : Expr} (h : e.IsVoid) : e.isOperation = false := by
  obtain ⟨⟨qualifier, name, args, rfl⟩, -⟩ := h
  rfl

/-- A call of a function starts with a name. -/
theorem IsVoid.head_lexemes {e : Expr} (h : e.IsVoid) :
    ∀ l ∈ e.lexemes.head?, l ≠ .minus ∧ l ≠ .parenOpen := by
  obtain ⟨⟨qualifier, name, args, rfl⟩, -⟩ := h
  rintro l ⟨⟩
  exact ⟨nofun, nofun⟩

variable {callee e : Expr} {args : List Expr}

theorem Leads.path?_eq_none (h : (Expr.call callee args).Leads e) : e.path? = none := by
  cases h with
  | member property h => cases h <;> rfl
  | _ => rfl

theorem Leads.cell?_eq_none (h : (Expr.call callee args).Leads e) : Reference.cell? e = none := by
  cases h with
  | index i h => cases h <;> rfl
  | _ => rfl

theorem Leads.bitBase?_eq_none (h : (Expr.call callee args).Leads e) :
    Reference.bitBase? e = none := by
  rw [Reference.bitBase?, h.cell?_eq_none, h.path?_eq_none]

/-- Nothing that starts with a call that gives no value has a value. -/
theorem IsVoid.not_ofExpr {c e : Expr} (hc : c.IsVoid) (h : c.Leads e) :
    ∀ code, ofExpr e ≠ ⟨code, none⟩ := by
  obtain ⟨⟨qualifier, name, args, rfl⟩, hcode⟩ := hc
  induction h with
  | refl => exact hcode
  | @member object property h ih =>
    have hne : ∀ name, object ≠ .ident name := by
      rintro name rfl
      cases h
    rw [ofExpr, Reference.ofMember_of_not_ident hne, h.cell?_eq_none]
    exact Fragment.fail_ne _
  | @index base i h ih =>
    have herror : ∃ err, Reference.ofIndex base i = .error err := by
      unfold Reference.ofIndex
      split
      · next object bit hi =>
        have hobject : (Expr.call (path qualifier name) args).Leads object := by
          cases h with
          | member _ h => exact h
        rw [hobject.bitBase?_eq_none]
        exact ⟨_, rfl⟩
      · exact ⟨_, rfl⟩
    obtain ⟨err, herr⟩ := herror
    rw [ofExpr, herr]
    exact Fragment.fail_ne _
  | call args' h ih =>
    rw [ofExpr, h.path?_eq_none]
    exact Fragment.fail_ne _
  | @binary lhs op rhs h ih =>
    rw [ofExpr]
    split
    · exact Fragment.fail_ne _
    · intro code hcode
      rcases hl : ofExpr lhs with ⟨c, _ | err⟩
      · exact ih c hl
      · rw [hl] at hcode
        cases hcode

end Expr

/-- An assignment to something that starts with a call that gives no value. -/
def Stmt.IsStray (s : Stmt) : Prop :=
  ∃ e target value : Expr, e.IsVoid ∧ e.Leads target ∧ s = .assign target value

theorem Stmt.IsStray.not_lowers {s : Stmt} (h : s.IsStray) {n n' : Nat} {items : List CodeItem} :
    ¬ Lowers n [s] items n' := by
  obtain ⟨e, target, value, he, hl, rfl⟩ := h
  intro h
  obtain ⟨c, hc, -⟩ := lowers_assign.mp h
  rw [ofExprs] at hc
  rcases ht : ofExpr target with ⟨c', _ | err⟩
  · exact he.not_ofExpr hl c' ht
  · rw [ht] at hc
    cases hc

/-! ## Reading statements that run on -/

/-- No blocks, and only calls that give no value as statements. -/
structure Proper (all : List Stmt) : Prop where
  no_block : ∀ body, .block body ∉ all
  void : ∀ e, .expr e ∈ all → e.IsVoid

theorem Proper.subset {xs ys : List Stmt} (h : Proper ys) (hs : ∀ s ∈ xs, s ∈ ys) : Proper xs :=
  ⟨fun body hm => h.no_block body (hs _ hm), fun e hm => h.void e (hs _ hm)⟩

theorem Proper.ne_block {s : Stmt} (h : Proper (withinStmt s)) (body : List Stmt) :
    s ≠ .block body := by
  rintro rfl
  exact h.no_block body (mem_withinStmt_self _)

section

variable {s s₁ : Stmt} {ss ss₁ : List Stmt} {line line' : Nat} {rest rest₁ : List Token}

/-- An expression that starts like the rest of the expression before it. -/
def Expr.Resumes (e : Expr) : Prop := ∀ l ∈ e.lexemes.head?, l = .minus ∨ l = .parenOpen

/-- A call before the target of an assignment becomes part of the target. -/
theorem isStray_of_readStmt_call {e e' : Expr} (he : e.IsVoid) (hs : e'.Resumes)
    (h : outcome (readStmt (onLine line e.lexemes ++
      (onLine line' e'.lexemes ++ ⟨.assign, line'⟩ :: rest))) = .ok (s₁, rest₁)) :
    s₁.IsStray := by
  have hloose : Loose 0 (⟨.assign, line'⟩ :: rest) := .of_lexeme rfl rfl
  obtain ⟨m, hm, hleads⟩ := e.exists_readBinary_runOn e' line line' hs hloose
  rw [outcome_readStmt_lead hm, outcome_readAssign_eq_ok] at h
  obtain ⟨v, -, rfl⟩ := h
  exact ⟨e, m, v, he, hleads he.isOperation, rfl⟩

/-- The value before the target of an assignment takes the target and leaves the rest of it. -/
theorem rest_eq_of_readStmt_assign {t v e' : Expr} (hs : e'.Resumes)
    (h : outcome (readStmt (onLine line t.lexemes ++ ⟨.assign, line⟩ :: (onLine line v.lexemes ++
      (onLine line' e'.lexemes ++ ⟨.assign, line'⟩ :: rest)))) = .ok (s₁, rest₁)) :
    rest₁ = ⟨.assign, line'⟩ :: rest := by
  have hloose : Loose 0 (⟨.assign, line'⟩ :: rest) := .of_lexeme rfl rfl
  obtain ⟨m, hm, -⟩ := v.exists_readBinary_runOn e' line line' hs hloose
  rw [outcome_readStmt_lead ((t.readable line).whole (.of_lexeme rfl rfl)),
    outcome_readAssign_eq_ok, hm] at h
  obtain ⟨v', hv', -⟩ := h
  cases hv'
  rfl

/-- What is read without strays and before no `=` was parted from the next statement. -/
theorem parted_of_readStmt (hs : Proper (withinStmt s)) (hss : Proper (within ss))
    (h : outcome (readStmt (ofLines line s.lexemeLines ++
      (ofLines line' (Stmt.lexemeLinesOfList ss) ++ rest))) = .ok (s₁, rest₁))
    (hstray : ¬ s₁.IsStray) (hassign : ∀ t ∈ rest₁.head?, t.lexeme ≠ .assign) :
    ∀ s' ∈ ss.head?, s.Parted s' := by
  intro s' hs' hlead e' he' l hl
  obtain ⟨ss, rfl⟩ : ∃ more, ss = s' :: more := List.head?_eq_some_iff.mp hs'
  cases s' with
  | expr e =>
    cases he'
    exact (hss.void e' List.mem_cons_self).head_lexemes l hl
  | assign target value =>
    cases he'
    by_contra hne
    have hresumes : e'.Resumes := by
      intro l' hl'
      cases hl.symm.trans hl'
      by_contra h'
      exact hne ⟨fun hm => h' (.inl hm), fun hp => h' (.inr hp)⟩
    rw [Stmt.lexemeLinesOfList, ofLines_append, List.append_assoc, Stmt.ofLines_assign] at h
    cases s with
    | expr e =>
      rw [Stmt.lexemeLines, ofLines, ofLines, List.append_nil] at h
      exact hstray (isStray_of_readStmt_call (hs.void e List.mem_cons_self) hresumes h)
    | assign t v =>
      rw [Stmt.ofLines_assign] at h
      obtain rfl := rest_eq_of_readStmt_assign hresumes h
      exact hassign _ rfl rfl
    | _ => cases hlead
  | _ => cases he'

/-- A statement that is read without strays is read as itself, and parted from what follows. -/
theorem eq_of_readStmt (hs : Proper (withinStmt s)) (hss : Proper (within ss))
    (hflat : Flat (withinStmt s)) (hr : Ended rest)
    (h : outcome (readStmt (ofLines line s.lexemeLines ++
      (ofLines line' (Stmt.lexemeLinesOfList ss) ++ rest))) = .ok (s₁, rest₁))
    (hstray : ¬ s₁.IsStray) (hassign : ∀ t ∈ rest₁.head?, t.lexeme ≠ .assign) :
    (∀ s' ∈ ss.head?, s.Parted s') ∧
      rest₁ = ofLines line' (Stmt.lexemeLinesOfList ss) ++ rest := by
  have hp := parted_of_readStmt hs hss h hstray hassign
  have hread := outcome_readStmt_lexemeLines s hflat line _ fun hlead =>
    ended_of_parted hp hlead (fun body hm => hss.no_block body (mem_within_of_mem hm)) line' hr
  rw [h] at hread
  cases hread
  exact ⟨hp, rfl⟩

theorem Flat.append {xs ys : List Stmt} (h : Flat xs) (h' : Flat ys) : Flat (xs ++ ys) where
  bodies c body hm := (List.mem_append.mp hm).elim (h.bodies c body) (h'.bodies c body)
  no_block body hm := (List.mem_append.mp hm).elim (h.no_block body) (h'.no_block body)

theorem Flat.of_singleton (hs : Proper [s]) (hne : ∀ c body, s ≠ .ifThen c body) : Flat [s] where
  bodies c body hm := absurd (List.mem_singleton.mp hm).symm (hne c body)
  no_block := hs.no_block

end

mutual

theorem flat_of_readStmt : (s : Stmt) → Proper (withinStmt s) → (line : Nat) →
    (rest rest₁ : List Token) → (s₁ : Stmt) →
    outcome (readStmt (ofLines line s.lexemeLines ++ rest)) = .ok (s₁, rest₁) →
    (∀ x ∈ withinStmt s₁, ¬ x.IsStray) → Flat (withinStmt s)
  | .ifThen condition body => fun hp line _ _ _ h hstray => by
    rw [Stmt.ofLines_ifThen,
      outcome_readStmt_if_eq_ok ((condition.readable line).whole (.of_lexeme rfl rfl))] at h
    obtain ⟨body₁, hb, rfl⟩ := h
    have hbody : Proper (within body) := hp.subset fun x hx => List.mem_cons_of_mem _ hx
    obtain ⟨hc, hf⟩ := parted_of_readBody body hbody _ _ _ _ _ hb fun x hx =>
      hstray x (List.mem_cons_of_mem _ hx)
    refine ⟨fun c b hm => ?_, hp.no_block⟩
    rcases List.mem_cons.mp hm with hm | hm
    · cases hm
      exact hc
    · exact hf.bodies c b hm
  | .block body => fun hp _ _ _ _ _ _ => absurd List.mem_cons_self (hp.no_block body)
  | .expr _ | .goto _ | .label _ | .assign _ _ | .ret => fun hp _ _ _ _ _ _ =>
    .of_singleton hp nofun

theorem parted_of_readBody : (ss : List Stmt) → Proper (within ss) → (line line' : Nat) →
    (rest rest₁ : List Token) → (ss₁ : List Stmt) →
    outcome (readBody (ofLines line (Stmt.lexemeLinesOfList ss) ++ ⟨.kwEnd, line'⟩ :: rest)) =
      .ok (ss₁, rest₁) →
    (∀ x ∈ within ss₁, ¬ x.IsStray) → ss.IsChain Stmt.Parted ∧ Flat (within ss)
  | [] => fun _ _ _ _ _ _ _ _ => ⟨.nil, nofun, nofun⟩
  | s :: ss => fun hp line line' rest _ _ h hstray => by
    have hps : Proper (withinStmt s) := hp.subset fun x hx => List.mem_append_left _ hx
    have hpss : Proper (within ss) := hp.subset fun x hx => List.mem_append_right _ hx
    rw [Stmt.lexemeLinesOfList, ofLines_append, List.append_assoc,
      outcome_readBody_eq_ok (s.head_ne_end hps.ne_block line _)] at h
    obtain ⟨s₁, rest₂, body, h₁, h₂, rfl⟩ := h
    have hflat := flat_of_readStmt s hps _ _ _ _ h₁ fun x hx => hstray x (List.mem_append_left _ hx)
    have hend : Ended (⟨.kwEnd, line'⟩ :: rest) := .of_lexeme rfl rfl nofun
    obtain ⟨hparted, rfl⟩ := eq_of_readStmt hps hpss hflat hend h₁
      (hstray s₁ (List.mem_append_left _ (mem_withinStmt_self s₁))) (head_ne_assign_of_readBody h₂)
    obtain ⟨hc, hf⟩ := parted_of_readBody ss hpss _ _ _ _ _ h₂ fun x hx =>
      hstray x (List.mem_append_right _ hx)
    exact ⟨List.isChain_cons.mpr ⟨hparted, hc⟩, hflat.append hf⟩

end

/-- **Lines that are read** as statements with code were parted. -/
theorem parted_of_parse {ss : List Stmt} (hp : Proper (within ss)) {line : Nat}
    {ss₁ : List Stmt} (h : parse (ofLines line (Stmt.lexemeLinesOfList ss)) = .ok ss₁)
    (hstray : ∀ x ∈ within ss₁, ¬ x.IsStray) : ss.IsChain Stmt.Parted ∧ Flat (within ss) := by
  induction ss generalizing line ss₁ with
  | nil => exact ⟨.nil, nofun, nofun⟩
  | cons s ss ih =>
    have hps : Proper (withinStmt s) := hp.subset fun x hx => List.mem_append_left _ hx
    have hpss : Proper (within ss) := hp.subset fun x hx => List.mem_append_right _ hx
    rw [Stmt.lexemeLinesOfList, ofLines_append,
      parse_eq_ok (s.ofLines_ne_nil hps.ne_block line _)] at h
    obtain ⟨s₁, rest₂, body, h₁, h₂, rfl⟩ := h
    have hflat := flat_of_readStmt s hps _ _ _ _ h₁ fun x hx => hstray x (List.mem_append_left _ hx)
    rw [← List.append_nil (ofLines _ (Stmt.lexemeLinesOfList ss))] at h₁
    obtain ⟨hparted, rfl⟩ := eq_of_readStmt hps hpss hflat .nil h₁
      (hstray s₁ (List.mem_append_left _ (mem_withinStmt_self s₁))) (head_ne_assign_of_parse h₂)
    rw [List.append_nil] at h₂
    obtain ⟨hc, hf⟩ := ih hpss h₂ fun x hx => hstray x (List.mem_append_right _ hx)
    exact ⟨List.isChain_cons.mpr ⟨hparted, hc⟩, hflat.append hf⟩

end MapScript
