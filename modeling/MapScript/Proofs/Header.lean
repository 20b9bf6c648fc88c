import MapScript.Proofs.Acceptance
import MapScript.Proofs.Comment
import MapScript.Proofs.Derivation
import MapScript.Proofs.ListingText
import MapScript.Script.OfCode

/-!
# Headers are not read

The header of a script is a comment on every line, so all it does is to move the script down: the
same lexemes stand some lines further on (`scanLines_relined`).  A line number goes into messages
only, and what is read does not depend on it (`parse_relined`).  Hence a text is built into the same
words with and without its header.
-/

namespace MapScript

/-! ## Other line numbers -/

namespace Token

/-- The token on another line. -/
def relined (g : Nat → Nat) (t : Token) : Token := ⟨t.lexeme, g t.line⟩

def ScanError.relined (g : Nat → Nat) : ScanError → ScanError
  | unexpectedChar c line => unexpectedChar c (g line)
  | badNumber text line => badNumber text (g line)

/-- What is read if lines are numbered otherwise. -/
def relinedResult (g : Nat → Nat) :
    Except ScanError (List Token) → Except ScanError (List Token)
  | .ok tokens => .ok (tokens.map (relined g))
  | .error e => .error (e.relined g)

theorem relinedResult_bind (g : Nat → Nat) (x y : Except ScanError (List Token)) :
    (do let xs ← relinedResult g x; let ys ← relinedResult g y; return xs ++ ys) =
      relinedResult g (do let xs ← x; let ys ← y; return xs ++ ys) := by
  cases x with
  | error e => rfl
  | ok xs =>
    cases y with
    | error e => rfl
    | ok ys => exact congrArg Except.ok List.map_append.symm

theorem readNumber_relined (g : Nat → Nat) (n : Nat) (word : List Char) :
    readNumber (g n) word = (readNumber n word).mapError (ScanError.relined g) := by
  unfold readNumber
  dsimp only
  split <;> rfl

theorem scanLine_relined (g : Nat → Nat) (n : Nat) (cs : List Char) :
    scanLine (g n) cs = relinedResult g (scanLine n cs) := by
  induction cs using scanLine.induct with
  | case1 =>
    rw [scanLine, scanLine]
    rfl
  | case2 c cs hb ih => rw [scanLine_blank _ hb, scanLine_blank _ hb, ih]
  | case3 c cs hb hd ih =>
    rw [scanLine_digit _ hb hd, scanLine_digit _ hb hd, readNumber_relined, ih]
    cases readNumber n (c :: cs.takeWhile isWordChar) with
    | error e => rfl
    | ok lit => cases scanLine n (cs.dropWhile isWordChar) <;> rfl
  | case4 c cs hb hd hw ih =>
    rw [scanLine_word _ hb hd hw, scanLine_word _ hb hd hw, ih]
    cases scanLine n (cs.dropWhile isWordChar) <;> rfl
  | case5 c cs hb hd hw hs =>
    rw [scanLine_unexpected _ hb hd hw hs, scanLine_unexpected _ hb hd hw hs]
    rfl
  | case6 c cs hb hd hw l extra hs ih =>
    have hc := plain_of_symbol? hs
    rw [scanLine_symbol hc hs, scanLine_symbol hc hs, ih]
    cases scanLine n (cs.drop extra) <;> rfl

theorem scanLines_relined (d n : Nat) (ls : List (List Char)) :
    scanLines (n + d) ls = relinedResult (· + d) (scanLines n ls) := by
  induction ls generalizing n with
  | nil => rfl
  | cons l ls ih =>
    have hline := scanLine_relined (· + d) n (withoutComment l)
    rw [scanLines, scanLines, hline, Nat.add_right_comm, ih, relinedResult_bind]

end Token

namespace Grammar

open Token (relined)

mutual

theorem Primary.relined (g : Nat → Nat) {e : Expr} {xs : List Token} :
    Primary e xs → Primary e (xs.map (relined g))
  | .number lit => .number lit
  | .ident name => .ident name
  | .paren h => by
    rw [List.map_append]
    exact .paren (h.relined g)

theorem Chain.relined (g : Nat → Nat) {e : Expr} {xs : List Token} :
    Chain e xs → Chain e (xs.map (relined g))
  | .primary h => .primary (h.relined g)
  | .member name h => by
    rw [List.map_append]
    exact .member name (h.relined g)
  | .index h hi => by
    rw [List.map_append, List.map_append]
    exact .index (h.relined g) (hi.relined g)
  | .call h hargs => by
    rw [List.map_append, List.map_append]
    exact .call (h.relined g) (hargs.relined g)

theorem Arguments.relined (g : Nat → Nat) {args : List Expr} {xs : List Token} :
    Arguments args xs → Arguments args (xs.map (relined g))
  | .none => .none
  | .some h => .some (h.relined g)

theorem MoreArguments.relined (g : Nat → Nat) {args : List Expr} {xs : List Token} :
    MoreArguments args xs → MoreArguments args (xs.map (relined g))
  | .one h => .one (h.relined g)
  | .cons h hmore => by
    rw [List.map_append]
    exact .cons (h.relined g) (hmore.relined g)

theorem Operand.relined (g : Nat → Nat) {e : Expr} {xs : List Token} :
    Operand e xs → Operand e (xs.map (relined g))
  | .chain h => .chain (h.relined g)
  | .sign hs h => .sign hs (h.relined g)

theorem Level.relined (g : Nat → Nat) {k : Nat} {e : Expr} {xs : List Token} :
    Level k e xs → Level k e (xs.map (relined g))
  | .operand h => .operand (h.relined g)
  | .tighter h => .tighter (h.relined g)
  | .operation ht hl hr => by
    rw [List.map_append]
    exact .operation ht (hl.relined g) (hr.relined g)

end

theorem Stops.relined (g : Nat → Nat) {tokens : List Token} (h : Stops tokens) :
    Stops (tokens.map (relined g)) := by
  cases tokens with
  | nil => exact nofun
  | cons t tokens =>
    rintro _ ⟨⟩
    exact h t rfl

mutual

theorem Statement.relined (g : Nat → Nat) {s : Stmt} {xs : List Token} :
    Statement s xs → Statement s (xs.map (relined g))
  | .ifThen hc hb => by
    rw [List.map_append, List.map_append]
    exact .ifThen (hc.relined g) (hb.relined g)
  | .goto name => .goto name
  | .label name => .label name
  | .ret => .ret
  | .expr h => .expr (h.relined g)
  | .assign ht hv => by
    rw [List.map_append]
    exact .assign (ht.relined g) (hv.relined g)

theorem Statements.relined (g : Nat → Nat) {ss : List Stmt} {xs : List Token} :
    Statements ss xs → Statements ss (xs.map (relined g))
  | .nil => .nil
  | .cons h hmore hstops => by
    rw [List.map_append]
    exact .cons (h.relined g) (hmore.relined g) fun hlead => (hstops hlead).relined g

end

/-- What tokens are read as does not depend on their lines. -/
theorem parse_relined (d : Nat) {tokens : List Token} {ss : List Stmt} :
    Script.parse (tokens.map (relined (· + d))) = .ok ss ↔ Script.parse tokens = .ok ss := by
  constructor
  · intro h
    have hback := ((statements_of_parse h).relined (· - d)).parse
    have hid : relined (· - d) ∘ relined (· + d) = id := by
      funext t
      simp [relined]
    rwa [List.map_map, hid, List.map_id] at hback
  · intro h
    exact ((statements_of_parse h).relined (· + d)).parse

end Grammar

/-! ## Lines that hold no token -/

namespace Text

theorem assembled_append (ls : List (String × Break)) (l : String) (b : Break) (last : String) :
    assembled (ls ++ [(l, b)]) last = assembled ls l ++ b.text ++ last := by
  induction ls with
  | nil => rfl
  | cons x ls ih => simp only [List.cons_append, assembled, ih, String.append_assoc]

theorem exists_assembled_intercalate (ls : List String) : ∃ init last,
    "\n".intercalate ls = assembled init last ∧ (last = "" ∨ last ∈ ls) ∧
      ∀ x ∈ init, x.1 ∈ ls := by
  induction ls with
  | nil => exact ⟨[], "", rfl, .inl rfl, nofun⟩
  | cons l ls ih =>
    cases ls with
    | nil => exact ⟨[], l, by simp [assembled], .inr List.mem_cons_self, nofun⟩
    | cons l' ls =>
      obtain ⟨init, last, heq, hlast, hinit⟩ := ih
      refine ⟨(l, .feed) :: init, last, ?_, hlast.imp_right (List.mem_cons_of_mem l),
        List.forall_mem_cons.mpr ⟨List.mem_cons_self,
          fun x hx => List.mem_cons_of_mem l (hinit x hx)⟩⟩
      rw [String.intercalate_cons_cons, heq]
      rfl

end Text

namespace Token

open Text

/-- A line without tokens. -/
structure Silent (l : String) : Prop where
  unbroken : '\n' ∉ l.toList
  scans : ∀ n, scanLine n (withoutComment l.toList) = .ok []

theorem Silent.empty : Silent "" where
  unbroken := by simp
  scans n := scanLine_blanks n (List.forall_mem_nil _)

/-- A line that starts with the marks of a comment has no tokens. -/
theorem Silent.of_dashes {cs : List Char} {l : String} (h : l.toList = '-' :: '-' :: cs)
    (hl : '\n' ∉ cs) : Silent l where
  unbroken := by simp [h, hl]
  scans n := by
    have hnone : withoutComment l.toList = [] := by
      simp [withoutComment, h, beforeComment?, trimEnd]
    rw [hnone]
    exact scanLine_blanks n (List.forall_mem_nil _)

theorem scanLines_silent {ls : List (String × Break)} (h : ∀ x ∈ ls, Silent x.1) (n : Nat)
    (last : String) : scanLines n (lines (assembled ls last).toList) =
      scanLines (n + ls.length) (lines last.toList) := by
  induction ls generalizing n with
  | nil => rfl
  | cons x ls ih =>
    obtain ⟨l, b⟩ := x
    obtain ⟨hl, hls⟩ := List.forall_mem_cons.mp h
    rw [scanLines_assembled_cons n hl.unbroken, hl.scans, ih hls, List.length_cons,
      Nat.add_comm ls.length 1, Nat.add_assoc]
    cases scanLines (n + (1 + ls.length)) (lines last.toList) <;> rfl

/-- Silent lines above a text move it down. -/
theorem exists_scan_below {ls : List String} (h : ∀ l ∈ ls, Silent l) : ∃ d,
    scan ("\n".intercalate ls) = .ok [] ∧
    ∀ text, scan ("\n".intercalate ls ++ "\n" ++ text) = relinedResult (· + d) (scan text) := by
  obtain ⟨init, last, heq, hlast, hinit⟩ := exists_assembled_intercalate ls
  have hinit' : ∀ x ∈ init, Silent x.1 := fun x hx => h _ (hinit x hx)
  have hlast' : Silent last := by
    rcases hlast with rfl | hlast
    · exact .empty
    · exact h last hlast
  refine ⟨(init ++ [(last, Break.feed)]).length, ?_, fun text => ?_⟩
  · rw [heq, scan, scanLines_silent hinit', scanLines_last _ hlast'.unbroken, hlast'.scans]
  · have hall : ∀ x ∈ init ++ [(last, Break.feed)], Silent x.1 := by
      simpa [or_imp, forall_and, hlast'] using fun l b hx => hinit' (l, b) hx
    have htext : assembled init last ++ "\n" ++ text =
        assembled (init ++ [(last, Break.feed)]) text := (assembled_append init last .feed text).symm
    rw [heq, htext, scan, scanLines_silent hall, scanLines_relined]
    rfl

end Token

/-! ## Headers -/

namespace Script

open Token

/-- Every line of a header is a comment. -/
theorem silent_header (offset : Nat) (star : String) (hs : '\n' ∉ star.toList) (i : Instruction) :
    Silent ("-- " ++ Numeral.hexUpper 4 offset ++ star ++ i.text) := by
  obtain ⟨hw, hws⟩ := List.forall_mem_cons.mp (Listing.solid_text i)
  have htext : '\n' ∉ i.text.toList := by
    rw [Listing.toList_text]
    exact (Text.unbroken_joined hw hws).not_mem
  have hoffset := (Listing.solid_hexUpper 4 offset).unbroken.not_mem
  have hline : ("-- " ++ Numeral.hexUpper 4 offset ++ star ++ i.text).toList = '-' :: '-' :: ' ' ::
      ((Numeral.hexUpper 4 offset).toList ++ star.toList ++ i.text.toList) := by
    simp
  exact .of_dashes hline (by simp [hoffset, hs, htext])

theorem exists_scan_header (p : Program) : ∃ d, scan (header p) = .ok [] ∧
    ∀ text, scan (header p ++ "\n" ++ text) = relinedResult (· + d) (scan text) := by
  refine exists_scan_below (List.forall_mem_map.mpr fun l _ => silent_header l.offset _ ?_ l.insn)
  split <;> decide

theorem read_eq_ok {text : String} {stmts : List Stmt} :
    read text = .ok stmts ↔ ∃ tokens, scan text = .ok tokens ∧ parse tokens = .ok stmts := by
  rw [read, bind_eq_ok]
  simp only [mapError_eq_ok]

/-- A text is read alike wherever it stands. -/
theorem read_relined {text text' : String} {d : Nat}
    (h : scan text' = relinedResult (· + d) (scan text)) (stmts : List Stmt) :
    read text' = .ok stmts ↔ read text = .ok stmts := by
  rw [read_eq_ok, read_eq_ok, h]
  cases scan text with
  | error e => simp [relinedResult]
  | ok tokens => simp [relinedResult, Grammar.parse_relined]

theorem words_congr {text text' : String}
    (h : ∀ stmts, read text' = .ok stmts ↔ read text = .ok stmts) (start : Nat)
    (ws : List UInt16) : words start text' = .ok ws ↔ words start text = .ok ws := by
  rw [words, words, bind_eq_ok, bind_eq_ok]
  simp only [instructions_eq_ok, h]

/-- The text with the header is the text without it, some lines further down. -/
theorem exists_textOfInstructions_header {start : Nat} {code : List Instruction} {plain : String}
    (h : textOfInstructions false start code = .ok plain) :
    ∃ listed d, textOfInstructions true start code = .ok listed ∧
      scan listed = relinedResult (· + d) (scan plain) := by
  obtain ⟨p, hp, h⟩ := bind_eq_ok.mp h
  obtain ⟨s, hs, h⟩ := bind_eq_ok.mp h
  obtain rfl : render s.stmts = plain := Except.ok.inj h
  obtain ⟨d, halone, hbelow⟩ := exists_scan_header p
  by_cases hempty : (render s.stmts).isEmpty = true
  · refine ⟨header p, d, bind_eq_ok.mpr ⟨p, hp, bind_eq_ok.mpr ⟨s, hs, ?_⟩⟩, ?_⟩
    · rw [if_neg (by decide), if_pos hempty]
      rfl
    · rw [halone, String.isEmpty_iff.mp hempty]
      rfl
  · refine ⟨header p ++ "\n" ++ render s.stmts, d,
      bind_eq_ok.mpr ⟨p, hp, bind_eq_ok.mpr ⟨s, hs, ?_⟩⟩, hbelow _⟩
    rw [if_neg (by decide), if_neg hempty]
    rfl

open Text in
/-- **Comments are never read.**  A comment at the end of any lines, whatever quotes, backslashes or
dashes it or the line holds, changes neither the tokens and their lines nor the error; and a script
below its header is built into the same words as the script alone. -/
theorem comments_unread :
    (∀ (ls ls' : List (String × Break)) (last last' : String),
      List.Forall₂ (fun x y => '\n' ∉ x.1.toList ∧ Commented x.1 y.1 ∧ y.2 = x.2) ls ls' →
      '\n' ∉ last.toList → Commented last last' →
      scan (assembled ls' last') = scan (assembled ls last)) ∧
    ∀ (start : Nat) (code : List Instruction) (plain : String),
      textOfInstructions false start code = .ok plain →
      ∃ listed, textOfInstructions true start code = .ok listed ∧
        ∀ base ws, words base listed = .ok ws ↔ words base plain = .ok ws := by
  refine ⟨fun ls ls' last last' hls hlast h => scan_commented hls hlast h,
    fun start code plain h => ?_⟩
  obtain ⟨listed, d, hlisted, hscan⟩ := exists_textOfInstructions_header h
  exact ⟨listed, hlisted, words_congr (read_relined hscan)⟩

/-- A condition that jumps back, and a call behind it. -/
def repeating : List Instruction :=
  (Bytecode.decode [0x110, 1, 0x201, 6, 0x200, 0, 0x30D]).toOption.getD []

open Text in
theorem comments_unread_quoted :
    scan (assembled [("x = \"y\\ -- z -- 'u", .feed), ("1 \\ -- \"v\\", .returnFeed)] "w' --- \"") =
      scan (assembled [("x = \"y\\ -- z", .feed), ("1 \\", .returnFeed)] "w'") ∧
    textOfInstructions false 0 repeating =
      .ok "::label_0::\nif 1 then\n  goto label_0\nend\nEntity.stop()" ∧
    ∃ listed, textOfInstructions true 0 repeating = .ok listed ∧ ∀ base ws,
      words base listed = .ok ws ↔
        words base "::label_0::\nif 1 then\n  goto label_0\nend\nEntity.stop()" = .ok ws := by
  have hplain : textOfInstructions false 0 repeating =
      .ok "::label_0::\nif 1 then\n  goto label_0\nend\nEntity.stop()" := by decide +kernel
  refine ⟨comments_unread.1 _ _ _ _ (.cons ⟨by decide, .inr ⟨" 'u", by decide, rfl⟩, rfl⟩
    (.cons ⟨by decide, .inr ⟨" \"v\\", by decide, rfl⟩, rfl⟩ .nil)) (by decide)
    (.inr ⟨"- \"", by decide, rfl⟩), hplain, comments_unread.2 0 repeating _ hplain⟩

end Script

end MapScript
