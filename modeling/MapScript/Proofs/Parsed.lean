import Mathlib.Data.List.Chain
import MapScript.Proofs.Layout
import MapScript.Proofs.Lexemes

/-!
# Scripts as lines of lexemes

Statements follow one another with nothing between them, so an expression reads on into the next
statement if that starts with `-` or `(`.  Where no statement starts so behind an expression
(`Stmt.Parted`), the lines of a script without blocks are read as the script (`parse_lexemeLines`).
-/

namespace MapScript

open Script Token

/-! ## Lines -/

namespace Stmt

mutual

/-- The lexemes of the lines of a statement. -/
def lexemeLines : Stmt → List (List Lexeme)
  | expr e => [e.lexemes]
  | ifThen condition body =>
    (.kwIf :: condition.lexemes ++ [.kwThen]) :: lexemeLinesOfList body ++ [[.kwEnd]]
  | goto name => [[.kwGoto, .ident name]]
  | label name => [[.labelMark, .ident name, .labelMark]]
  | assign target value => [target.lexemes ++ .assign :: value.lexemes]
  | ret => [[.kwReturn]]
  | block body => lexemeLinesOfList body

def lexemeLinesOfList : List Stmt → List (List Lexeme)
  | [] => []
  | s :: rest => s.lexemeLines ++ lexemeLinesOfList rest

end

/-- The expression that a statement starts with. -/
def lead? : Stmt → Option Expr
  | expr e | assign e _ => some e
  | _ => none

/-- The second statement cannot be read as part of an expression that ends the first. -/
def Parted (s s' : Stmt) : Prop :=
  s.lead?.isSome = true → ∀ e, s'.lead? = some e →
    ∀ l ∈ e.lexemes.head?, l ≠ .minus ∧ l ≠ .parenOpen

end Stmt

/-- Lines of lexemes as tokens, of which the first line has the given number. -/
def Token.ofLines (line : Nat) : List (List Lexeme) → List Token
  | [] => []
  | ls :: rest => onLine line ls ++ ofLines (line + 1) rest

theorem Token.ofLines_append (line : Nat) (xs ys : List (List Lexeme)) :
    ofLines line (xs ++ ys) = ofLines line xs ++ ofLines (line + xs.length) ys := by
  induction xs generalizing line with
  | nil => rfl
  | cons ls xs ih =>
    simp only [List.cons_append, ofLines, ih, List.append_assoc, List.length_cons]
    rw [show line + (xs.length + 1) = line + 1 + xs.length by omega]

theorem Stmt.ofLines_assign (target value : Expr) (line : Nat) (rest : List Token) :
    ofLines line (assign target value).lexemeLines ++ rest =
      onLine line target.lexemes ++ ⟨.assign, line⟩ :: (onLine line value.lexemes ++ rest) := by
  simp [lexemeLines, ofLines]

theorem Stmt.ofLines_ifThen (condition : Expr) (body : List Stmt) (line : Nat)
    (rest : List Token) :
    ofLines line (ifThen condition body).lexemeLines ++ rest =
      ⟨.kwIf, line⟩ :: (onLine line condition.lexemes ++ ⟨.kwThen, line⟩ ::
        (ofLines (line + 1) (lexemeLinesOfList body) ++
          ⟨.kwEnd, line + 1 + (lexemeLinesOfList body).length⟩ :: rest)) := by
  simp [lexemeLines, ofLines, ofLines_append]

/-! ## What may follow a statement -/

/-- An expression before these tokens is a statement by itself. -/
structure Ended (tokens : List Token) : Prop where
  loose : Loose 0 tokens
  ne_assign : ∀ t ∈ tokens.head?, t.lexeme ≠ .assign

theorem Ended.of_lexeme {l : Lexeme} {line : Nat} {tokens : List Token}
    (hp : l.isPostfix = false) (hb : l.binaryOp? = none) (hne : l ≠ .assign) :
    Ended (⟨l, line⟩ :: tokens) := by
  refine ⟨.of_lexeme hp hb, ?_⟩
  rintro t ⟨⟩
  exact hne

theorem Ended.nil : Ended [] := ⟨⟨nofun, nofun⟩, nofun⟩

/-- A number, a name or `!` does not go on with an expression. -/
theorem Ended.of_opens {ls : List Lexeme} (h : Lexeme.Opens ls)
    (hne : ∀ l ∈ ls.head?, l ≠ .minus ∧ l ≠ .parenOpen) (line : Nat) (rest : List Token) :
    Ended (onLine line ls ++ rest) := by
  obtain ⟨l, ls, rfl, hl⟩ := h
  obtain ⟨h1, h2⟩ := hne l rfl
  cases l with
  | number lit => exact .of_lexeme rfl rfl nofun
  | ident name => exact .of_lexeme rfl rfl nofun
  | bang => exact .of_lexeme rfl rfl nofun
  | minus => exact absurd rfl h1
  | parenOpen => exact absurd rfl h2
  | _ => cases hl

theorem Stmt.Parted.ended {s s' : Stmt} (h : s.Parted s') (hs : s.lead?.isSome = true)
    (hb : ∀ body, s' ≠ .block body) (line : Nat) (rest : List Token) :
    Ended (ofLines line s'.lexemeLines ++ rest) := by
  cases s' with
  | expr e =>
    rw [lexemeLines, ofLines, List.append_assoc]
    exact .of_opens e.opens_lexemes (h hs e rfl) line _
  | assign target value =>
    rw [lexemeLines, ofLines, onLine_append, List.append_assoc, List.append_assoc]
    exact .of_opens target.opens_lexemes (h hs target rfl) line _
  | ifThen condition body => exact .of_lexeme rfl rfl nofun
  | goto name => exact .of_lexeme rfl rfl nofun
  | label name => exact .of_lexeme rfl rfl nofun
  | ret => exact .of_lexeme rfl rfl nofun
  | block body => exact absurd rfl (hb body)

/-! ## Reading statements -/

/-- Among the statements there are no blocks, and the bodies of conditions are parted. -/
structure Flat (all : List Stmt) : Prop where
  bodies : ∀ condition body, .ifThen condition body ∈ all → body.IsChain Stmt.Parted
  no_block : ∀ body, .block body ∉ all

theorem Flat.subset {xs ys : List Stmt} (h : Flat ys) (hs : ∀ s ∈ xs, s ∈ ys) : Flat xs :=
  ⟨fun c body hm => h.bodies c body (hs _ hm), fun body hm => h.no_block body (hs _ hm)⟩

theorem Script.mem_withinStmt_self (s : Stmt) : s ∈ withinStmt s := by
  cases s <;> simp [withinStmt]

theorem Script.mem_within_of_mem {s : Stmt} {ss : List Stmt} (h : s ∈ ss) : s ∈ within ss := by
  induction ss with
  | nil => cases h
  | cons s' ss ih =>
    rw [within, List.mem_append]
    rcases List.mem_cons.mp h with rfl | h
    · exact .inl (mem_withinStmt_self s)
    · exact .inr (ih h)

theorem Flat.ne_block {s : Stmt} (h : Flat (withinStmt s)) (body : List Stmt) :
    s ≠ .block body := by
  rintro rfl
  exact h.no_block body (mem_withinStmt_self _)

theorem Flat.not_mem {ss : List Stmt} (h : Flat (within ss)) (body : List Stmt) :
    .block body ∉ ss := fun hm => h.no_block body (mem_within_of_mem hm)

theorem Stmt.head_ne_end (s : Stmt) (hb : ∀ body, s ≠ .block body) (line : Nat)
    (rest : List Token) :
    ∀ t ∈ (ofLines line s.lexemeLines ++ rest).head?, t.lexeme ≠ .kwEnd := by
  cases s with
  | expr e =>
    rw [lexemeLines, ofLines, List.append_assoc]
    exact e.opens_lexemes.head_ne rfl
  | assign target value =>
    rw [lexemeLines, ofLines, List.append_assoc]
    exact (target.opens_lexemes.append _).head_ne rfl
  | block body => exact absurd rfl (hb body)
  | _ =>
    rintro t ⟨⟩
    exact nofun

theorem Stmt.ofLines_ne_nil (s : Stmt) (hb : ∀ body, s ≠ .block body) (line : Nat)
    (rest : List Token) : ofLines line s.lexemeLines ++ rest ≠ [] := by
  cases s with
  | expr e =>
    obtain ⟨l, ls, hl, -⟩ := e.opens_lexemes
    simp [lexemeLines, ofLines, hl]
  | block body => exact absurd rfl (hb body)
  | _ => simp [lexemeLines, ofLines]

/-- What follows a statement of a list, or what follows the list. -/
theorem ended_of_parted {s : Stmt} {ss : List Stmt} (hp : ∀ s' ∈ ss.head?, s.Parted s')
    (hlead : s.lead?.isSome = true) (hb : ∀ body, .block body ∉ ss) (line : Nat)
    {rest : List Token} (hr : Ended rest) :
    Ended (ofLines line (Stmt.lexemeLinesOfList ss) ++ rest) := by
  cases ss with
  | nil => exact hr
  | cons s' ss =>
    have hs' : ∀ body, s' ≠ .block body := by
      rintro body rfl
      exact hb body List.mem_cons_self
    rw [Stmt.lexemeLinesOfList, ofLines_append, List.append_assoc]
    exact (hp s' rfl).ended hlead hs' line _

/-- A statement that starts with an expression. -/
theorem outcome_readStmt_lead {e m : Expr} {line : Nat} {tokens rest : List Token}
    (h : outcome (readBinary 1 (onLine line e.lexemes ++ tokens)) = .ok (m, rest)) :
    outcome (readStmt (onLine line e.lexemes ++ tokens)) = outcome (readAssign m rest) := by
  obtain ⟨l, ls, hls, hl⟩ := e.opens_lexemes
  rw [hls] at h ⊢
  refine outcome_readStmt_expr ?_ h
  cases l <;> first | rfl | cases hl

mutual

theorem outcome_readStmt_lexemeLines : (s : Stmt) → Flat (withinStmt s) → (line : Nat) →
    (rest : List Token) → (s.lead?.isSome = true → Ended rest) →
    outcome (readStmt (ofLines line s.lexemeLines ++ rest)) = .ok (s, rest)
  | .expr e, _, line, rest, hr => by
    rw [Stmt.lexemeLines, ofLines, ofLines, List.append_nil]
    rw [outcome_readStmt_lead ((e.readable line).whole (hr rfl).loose)]
    exact outcome_readAssign_of_ne (hr rfl).ne_assign
  | .ifThen condition body, h, line, rest, _ => by
    have hsub : ∀ s ∈ within body, s ∈ withinStmt (.ifThen condition body) :=
      fun s hs => List.mem_cons_of_mem _ hs
    have hbody := outcome_readBody_lexemeLines body (h.bodies condition body List.mem_cons_self)
      (h.subset hsub) (line + 1) (line + 1 + (Stmt.lexemeLinesOfList body).length) rest
    rw [Stmt.ofLines_ifThen]
    exact (outcome_readStmt_if_eq_ok ((condition.readable line).whole (.of_lexeme rfl rfl))).mpr
      ⟨body, hbody, rfl⟩
  | .goto name, _, line, rest, _ => outcome_readStmt_goto name
  | .label name, _, line, rest, _ => outcome_readStmt_label name
  | .assign target value, _, line, rest, hr => by
    rw [Stmt.ofLines_assign,
      outcome_readStmt_lead ((target.readable line).whole (.of_lexeme rfl rfl))]
    exact outcome_readAssign_eq_ok.mpr ⟨value, (value.readable line).whole (hr rfl).loose, rfl⟩
  | .ret, _, line, rest, _ => outcome_readStmt_ret
  | .block body, h, _, _, _ => absurd List.mem_cons_self (h.no_block body)

theorem outcome_readBody_lexemeLines : (ss : List Stmt) → ss.IsChain Stmt.Parted →
    Flat (within ss) → (line line' : Nat) → (rest : List Token) →
    outcome (readBody (ofLines line (Stmt.lexemeLinesOfList ss) ++ ⟨.kwEnd, line'⟩ :: rest)) =
      .ok (ss, rest)
  | [], _, _, line, line', rest => outcome_readBody_end
  | s :: ss, hc, h, line, line', rest => by
    have hs : Flat (withinStmt s) := h.subset fun s' hs' => List.mem_append_left _ hs'
    have hss : Flat (within ss) := h.subset fun s' hs' => List.mem_append_right _ hs'
    have hmore := outcome_readBody_lexemeLines ss hc.tail hss
      (line + s.lexemeLines.length) line' rest
    rw [Stmt.lexemeLinesOfList, ofLines_append, List.append_assoc]
    refine (outcome_readBody_eq_ok (s.head_ne_end hs.ne_block line _)).mpr
      ⟨s, _, ss, outcome_readStmt_lexemeLines s hs line _ fun hlead => ?_, hmore, rfl⟩
    exact ended_of_parted (List.isChain_cons.mp hc).1 hlead hss.not_mem _ (.of_lexeme rfl rfl nofun)

end

/-- **Scripts are read back** from their lines. -/
theorem parse_lexemeLines : (ss : List Stmt) → ss.IsChain Stmt.Parted → Flat (within ss) →
    (line : Nat) → parse (ofLines line (Stmt.lexemeLinesOfList ss)) = .ok ss
  | [], _, _, _ => parse_nil
  | s :: ss, hc, h, line => by
    have hs : Flat (withinStmt s) := h.subset fun s' hs' => List.mem_append_left _ hs'
    have hss : Flat (within ss) := h.subset fun s' hs' => List.mem_append_right _ hs'
    have hmore := parse_lexemeLines ss hc.tail hss (line + s.lexemeLines.length)
    have hread := outcome_readStmt_lexemeLines s hs line
      (ofLines (line + s.lexemeLines.length) (Stmt.lexemeLinesOfList ss)) fun hlead => by
        have hended := ended_of_parted (List.isChain_cons.mp hc).1 hlead hss.not_mem
          (line + s.lexemeLines.length) .nil
        rwa [List.append_nil] at hended
    rw [Stmt.lexemeLinesOfList, ofLines_append]
    exact (parse_eq_ok (s.ofLines_ne_nil hs.ne_block line _)).mpr ⟨s, _, ss, hread, hmore, rfl⟩

end MapScript
