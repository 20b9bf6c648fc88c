import MapScript.Proofs.Parsed
import MapScript.Proofs.Printed
import MapScript.Proofs.TextPieces
import MapScript.Script.Code

/-!
# The text of scripts

A rendered script is read line by line: each line spells its lexemes (`forall₂_lines`), and the
lines of the text are those that were rendered (`lines_render`).  So the tokens of the text are
those of the written script:

    scan (render stmts) = .ok (ofLines 1 (lexemeLinesOfList (written stmts)))         (scan_render)
-/

namespace MapScript

open Token Script

/-! ## Lines of a text -/

namespace Script

theorem toList_foldl_lines (ls : List String) (s : String) :
    (ls.foldl (fun s l => s ++ l ++ "\n") s).toList =
      s.toList ++ (ls.map String.toList).flatMap (· ++ ['\n']) := by
  induction ls generalizing s with
  | nil => simp
  | cons l ls ih =>
    rw [List.foldl_cons, ih]
    simp

/-- Only the break behind the last line is dropped. -/
theorem toList_dropFinalBreaks {s : String} {cs : List Char} (hs : s.toList = cs ++ ['\n'])
    (h : ∀ c ∈ cs.getLast?, c ≠ '\n') : (dropFinalBreaks s).toList = cs := by
  have hkeep : cs.reverse.dropWhile (· == '\n') = cs.reverse := by
    cases hr : cs.reverse with
    | nil => rfl
    | cons c rest =>
      have hc : c ≠ '\n' := h c (by rw [List.getLast?_eq_head?_reverse, hr]; rfl)
      simp [hc]
  rw [dropFinalBreaks, String.toList_ofList, hs]
  simp [hkeep]

/-- The lines of a text are those that it was put together from. -/
theorem lines_render {stmts : List Stmt} (h : ∀ l ∈ Stmt.linesOfList 0 stmts,
    Text.Unbroken l.toList ∧ l.toList ≠ []) :
    Text.lines (render stmts).toList = (Stmt.linesOfList 0 stmts).map String.toList := by
  rw [render]
  generalize Stmt.linesOfList 0 stmts = ls at h
  cases ls using List.reverseRecOn with
  | nil => decide
  | append_singleton init last =>
    obtain ⟨hlast, hne⟩ := h last (by simp)
    have htext : ((init ++ [last]).foldl (fun s l => s ++ l ++ "\n") "").toList =
        (init.map String.toList).flatMap (· ++ ['\n']) ++ last.toList ++ ['\n'] := by
      rw [toList_foldl_lines]
      simp
    have hend : ∀ c ∈ ((init.map String.toList).flatMap (· ++ ['\n']) ++ last.toList).getLast?,
        c ≠ '\n' := by
      intro c hc
      rw [List.getLast?_append_of_ne_nil _ hne] at hc
      exact (hlast c (List.mem_of_getLast? hc)).1
    have hinit : ∀ l ∈ init.map String.toList, Text.Unbroken l := by
      intro l hl
      obtain ⟨s, hs, rfl⟩ := List.mem_map.mp hl
      exact (h s (by simp [hs])).1
    rw [toList_dropFinalBreaks htext hend, Text.lines_joined hinit hlast hne]
    simp

end Script

/-! ## Lines of statements -/

/-- The line has the lexemes, and at least one. -/
def SpelledLine (l : String) (ls : List Lexeme) : Prop := Spells Apart l.toList ls ∧ ls ≠ []

theorem SpelledLine.ne_nil {l : String} {ls : List Lexeme} (h : SpelledLine l ls) :
    l.toList ≠ [] := by
  intro he
  have hs := h.1.scans 0 [] nofun
  rw [he] at hs
  have hempty : scanLine 0 [] = .ok [] := by rw [scanLine]
  rw [List.append_nil, hempty] at hs
  have : onLine 0 ls = [] := by simpa [Except.map] using (Except.ok.inj hs).symm
  exact h.2 (List.map_eq_nil_iff.mp this)

theorem unbroken_of_forall₂ {ls : List String} {lss : List (List Lexeme)}
    (h : List.Forall₂ SpelledLine ls lss) :
    ∀ l ∈ ls, Text.Unbroken l.toList ∧ l.toList ≠ [] := by
  induction h with
  | nil => simp
  | cons hl _ ih => exact List.forall_mem_cons.mpr ⟨⟨hl.1.unbroken, hl.ne_nil⟩, ih⟩

theorem scanLines_eq {ls : List String} {lss : List (List Lexeme)}
    (h : List.Forall₂ SpelledLine ls lss) (line : Nat) :
    scanLines line (ls.map String.toList) = .ok (ofLines line lss) := by
  induction h generalizing line with
  | nil => rfl
  | @cons l xs ls xss hl _ ih =>
    have hquiet := hl.1.quiet [] nofun rfl
    have hscan := hl.1.scans line [] nofun
    rw [List.append_nil] at hquiet hscan
    have hempty : scanLine line [] = .ok [] := by rw [scanLine]
    rw [List.map_cons, scanLines, withoutComment, hquiet, hscan, ih, hempty]
    simp [Except.map, bind, Except.bind, pure, Except.pure, ofLines]

namespace Stmt

/-- The names that a statement has outside of its body. -/
def names : Stmt → List String
  | expr e => e.names
  | ifThen condition _ => condition.names
  | goto name | label name => [name]
  | assign target value => target.names ++ value.names
  | ret | block _ => []

end Stmt

namespace Script

/-- All names are words, and no keywords. -/
def WellNamed (stmts : List Stmt) : Prop :=
  ∀ s ∈ within stmts, ∀ name ∈ s.names, isName name = true

end Script

theorem spells_indent (depth : Nat) : Spells Anything (Stmt.indent depth).toList [] := by
  rw [Stmt.indent, String.toList_ofList]
  generalize 2 * depth = n
  induction n with
  | zero => exact .nil
  | succ n ih => exact spells_blank.append ih fun _ _ => trivial

/-- A line is indented and spells its lexemes behind that. -/
theorem spelledLine_indent (depth : Nat) {l : String} {cs : List Char} {ls : List Lexeme}
    (hl : l.toList = (Stmt.indent depth).toList ++ cs) (h : Spells Apart cs ls) (hne : ls ≠ []) :
    SpelledLine l ls := by
  refine ⟨?_, hne⟩
  rw [hl]
  exact (spells_indent depth).append h fun _ _ => trivial

/-- A word with a blank behind it. -/
theorem Token.Spells.spacedBehind {cs : List Char} {ls : List Lexeme} (h : Spells Apart cs ls) :
    Spells Anything (cs ++ [' ']) ls := by
  have := h.append spells_blank fun rest _ => apart_cons (by decide) rest
  rwa [List.append_nil] at this

theorem spells_condition {cs : List Char} {ls : List Lexeme} (h : Spells Apart cs ls) :
    Spells Apart ("if ".toList ++ (cs ++ " then".toList)) (.kwIf :: ls ++ [.kwThen]) := by
  have hif : Spells Apart ['i', 'f'] [.kwIf] := spells_word (by decide) (by decide)
  have hthen : Spells Apart ['t', 'h', 'e', 'n'] [.kwThen] := spells_word (by decide) (by decide)
  have hrest := h.append (spells_blank.append hthen fun _ _ => trivial)
    fun _ _ => apart_cons (by decide) _
  exact hif.spacedBehind.append hrest fun _ _ => trivial

theorem spells_goto {name : String} (h : isName name = true) :
    Spells Apart ("goto ".toList ++ name.toList) [.kwGoto, .ident name] := by
  have hgoto : Spells Apart ['g', 'o', 't', 'o'] [.kwGoto] := spells_word (by decide) (by decide)
  exact hgoto.spacedBehind.append (spells_name h) fun _ _ => trivial

theorem spells_label {name : String} (h : isName name = true) :
    Spells Apart ("::".toList ++ (name.toList ++ "::".toList))
      [.labelMark, .ident name, .labelMark] := by
  have hmark : Spells Anything [':', ':'] [.labelMark] := spells_pair rfl
  have hrest := (spells_name h).append hmark fun _ _ => apart_cons (by decide) _
  exact (hmark.append hrest fun _ _ => trivial).mono fun _ _ => trivial

theorem spells_assign {cs cs' : List Char} {ls ls' : List Lexeme} (h : Spells Apart cs ls)
    (h' : Spells Apart cs' ls') :
    Spells Apart (cs ++ (" = ".toList ++ cs')) (ls ++ .assign :: ls') := by
  have heq : Spells Anything (' ' :: (['='] ++ [' '])) [.assign] :=
    (spells_symbol rfl).spaced (single_blank rfl)
  exact h.append (heq.append h' fun _ _ => trivial) fun _ _ => apart_cons (by decide) _

theorem Expr.lexemes_ne_nil (e : Expr) : e.lexemes ≠ [] := by
  obtain ⟨l, ls, hls, -⟩ := e.opens_lexemes
  simp [hls]

theorem Stmt.lexemeLinesOfList_append (xs ys : List Stmt) :
    lexemeLinesOfList (xs ++ ys) = lexemeLinesOfList xs ++ lexemeLinesOfList ys := by
  induction xs with
  | nil => rfl
  | cons s xs ih => simp only [List.cons_append, lexemeLinesOfList, ih, List.append_assoc]

theorem Stmt.lexemeLinesOfList_singleton (s : Stmt) : lexemeLinesOfList [s] = s.lexemeLines := by
  simp [lexemeLinesOfList]

mutual

theorem forall₂_linesOfStmt : (s : Stmt) → (depth : Nat) →
    (∀ x ∈ withinStmt s, ∀ name ∈ x.names, isName name = true) →
    List.Forall₂ SpelledLine (s.lines depth) (Stmt.lexemeLinesOfList (writtenStmt s))
  | .expr e, depth, h => by
    have he := e.spells_textAs .plain (h _ List.mem_cons_self)
    rw [writtenStmt, Stmt.lexemeLinesOfList_singleton]
    exact .cons (spelledLine_indent depth String.toList_append he (Expr.lexemes_ne_nil _)) .nil
  | .ifThen condition body, depth, h => by
    have hc := condition.spells_textAs .plain (h _ List.mem_cons_self)
    have hbody := forall₂_lines body (depth + 1) fun x hx => h x (List.mem_cons_of_mem _ hx)
    have hend : Spells Apart ['e', 'n', 'd'] [.kwEnd] := spells_word (by decide) (by decide)
    rw [writtenStmt, Stmt.lexemeLinesOfList_singleton, Stmt.lines, Stmt.lexemeLines]
    refine .cons (spelledLine_indent depth ?_ (spells_condition hc) (by simp)) ?_
    · simp [Expr.text]
    · refine List.rel_append hbody (.cons (spelledLine_indent depth ?_ hend (by simp)) .nil)
      simp
  | .goto name, depth, h => by
    have hg := spells_goto (h _ List.mem_cons_self name List.mem_cons_self)
    rw [writtenStmt, Stmt.lexemeLinesOfList_singleton]
    refine .cons (spelledLine_indent depth ?_ hg (by simp)) .nil
    simp
  | .label name, depth, h => by
    have hl := spells_label (h _ List.mem_cons_self name List.mem_cons_self)
    rw [writtenStmt, Stmt.lexemeLinesOfList_singleton]
    refine .cons (spelledLine_indent depth ?_ hl (by simp)) .nil
    simp
  | .assign target value, depth, h => by
    have hnames := h _ List.mem_cons_self
    have ht := target.spells_textAs .plain fun n hn => hnames n (List.mem_append_left _ hn)
    have hv := value.spells_textAs .plain fun n hn => hnames n (List.mem_append_right _ hn)
    rw [writtenStmt, Stmt.lexemeLinesOfList_singleton]
    refine .cons (spelledLine_indent depth ?_ (spells_assign ht hv) (by simp)) .nil
    simp [Expr.text]
  | .ret, depth, _ => by
    have hr : Spells Apart ['r', 'e', 't', 'u', 'r', 'n'] [.kwReturn] :=
      spells_word (by decide) (by decide)
    rw [writtenStmt, Stmt.lexemeLinesOfList_singleton]
    refine .cons (spelledLine_indent depth ?_ hr (by simp)) .nil
    simp
  | .block body, depth, h => by
    rw [writtenStmt, Stmt.lines]
    exact forall₂_lines body depth fun x hx => h x (List.mem_cons_of_mem _ hx)

/-- **The lines of statements spell what they stand for.** -/
theorem forall₂_lines : (ss : List Stmt) → (depth : Nat) → WellNamed ss →
    List.Forall₂ SpelledLine (Stmt.linesOfList depth ss) (Stmt.lexemeLinesOfList (written ss))
  | [], _, _ => .nil
  | s :: rest, depth, h => by
    have hs := forall₂_linesOfStmt s depth fun x hx => h x (List.mem_append_left _ hx)
    have hrest := forall₂_lines rest depth fun x hx => h x (List.mem_append_right _ hx)
    rw [Stmt.linesOfList, written, Stmt.lexemeLinesOfList_append]
    exact List.rel_append hs hrest

end

/-- **The tokens of a rendered script** are those of the written one. -/
theorem Script.scan_render {stmts : List Stmt} (h : WellNamed stmts) :
    scan (render stmts) = .ok (ofLines 1 (Stmt.lexemeLinesOfList (written stmts))) := by
  have hlines := forall₂_lines stmts 0 h
  rw [scan, lines_render (unbroken_of_forall₂ hlines)]
  exact scanLines_eq hlines 1

end MapScript
