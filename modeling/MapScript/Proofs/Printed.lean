import MapScript.Proofs.Naming
import MapScript.Proofs.RunOn
import MapScript.Proofs.Spelling

/-!
# The text of expressions

The text of an expression spells the lexemes of the expression with numbers by name, if all names in
it are words and no keywords:

    Spells Apart (e.textAs role).toList (e.named role).lexemes               (spells_textAs)

A `-` is never doubled, since the operand of a sign does not start with one (`head_operand`).
-/

namespace MapScript

open Token

/-! ## Names -/

/-- Letters, digits and underscores that neither start with a digit nor are a keyword. -/
def Token.isName (name : String) : Bool :=
  match name.toList with
  | [] => false
  | c :: cs => isWordStart c && cs.all isWordChar && (Lexeme.keywords.lookup name).isNone

namespace Expr

mutual

/-- The names in an expression. -/
def names : Expr → List String
  | literal _ => []
  | ident name => [name]
  | member object property => object.names ++ [property]
  | index base i => base.names ++ i.names
  | call callee args => callee.names ++ namesOfList args
  | binary _ lhs rhs => lhs.names ++ rhs.names
  | unary _ operand => operand.names

def namesOfList : List Expr → List String
  | [] => []
  | e :: rest => e.names ++ namesOfList rest

end

end Expr

namespace Token

theorem spells_name {name : String} (h : isName name = true) :
    Spells Apart name.toList [.ident name] := by
  unfold isName at h
  split at h
  · cases h
  · next c cs hcs =>
    simp only [Bool.and_eq_true, Option.isNone_iff_eq_none] at h
    have hword : Lexeme.ofWord (String.ofList (c :: cs)) = .ident name := by
      rw [← hcs, String.ofList_toList, Lexeme.ofWord, h.2]
      rfl
    rw [hcs, ← hword]
    exact spells_word h.1.1 h.1.2

/-- A symbol that is no part of a longer one. -/
theorem spells_alone {c : Char} {l : Lexeme} (h : Lexeme.ofChar? c = some l)
    (hp : ∀ d, Lexeme.ofPair? c d = none) (hd : c ≠ '-') : Spells Anything [c] [l] :=
  (spells_symbol h).mono fun _ _ d _ => ⟨hp d, fun hc => absurd hc hd⟩

/-- The marks that may stand next to anything. -/
def marks : List (Char × Lexeme) :=
  [('.', .dot), (',', .comma), ('(', .parenOpen), (')', .parenClose), ('[', .bracketOpen),
   (']', .bracketClose)]

theorem spells_mark {c : Char} {l : Lexeme} (h : (c, l) ∈ marks) : Spells Anything [c] [l] := by
  simp only [marks, List.mem_cons, Prod.mk.injEq, List.not_mem_nil, or_false] at h
  rcases h with ⟨rfl, rfl⟩ | ⟨rfl, rfl⟩ | ⟨rfl, rfl⟩ | ⟨rfl, rfl⟩ | ⟨rfl, rfl⟩ | ⟨rfl, rfl⟩
  all_goals exact spells_alone rfl (by intro d; rfl) (by decide)

theorem apart_cons {c : Char} (h : isWordChar c = false) (rest : List Char) :
    Apart (c :: rest) := by
  rintro d ⟨⟩
  exact h

/-- Between blanks, all lexemes stand for themselves. -/
theorem Spells.spaced {ok : List Char → Prop} {cs : List Char} {ls : List Lexeme}
    (h : Spells ok cs ls) (hok : ∀ rest, ok (' ' :: rest)) :
    Spells Anything (' ' :: (cs ++ [' '])) ls := by
  have := spells_blank.append (h.append spells_blank fun rest _ => hok rest) fun _ _ => trivial
  simpa using this

theorem single_blank {c : Char} (h : Lexeme.ofPair? c ' ' = none) (rest : List Char) :
    Single c (' ' :: rest) := by
  rintro d ⟨⟩
  exact ⟨h, fun _ => by decide⟩

/-- Operators stand between blanks. -/
theorem spells_operator (op : BinaryOp) :
    Spells Anything (' ' :: (op.symbol.toList ++ [' '])) [op.lexeme] := by
  cases op with
  | le => exact (spells_pair rfl).spaced fun _ => trivial
  | ge => exact (spells_pair rfl).spaced fun _ => trivial
  | eq => exact (spells_pair rfl).spaced fun _ => trivial
  | ne => exact (spells_pair rfl).spaced fun _ => trivial
  | shl => exact (spells_pair rfl).spaced fun _ => trivial
  | shr => exact (spells_pair rfl).spaced fun _ => trivial
  | and => exact (spells_word (by decide) (by decide)).spaced (apart_cons (by decide))
  | or => exact (spells_word (by decide) (by decide)).spaced (apart_cons (by decide))
  | _ => exact (spells_symbol rfl).spaced (single_blank rfl)

/-! ## First characters -/

/-- The first character tells whether the first lexeme is a sign or a parenthesis. -/
def Starts (cs : List Char) (ls : List Lexeme) : Prop :=
  ∃ c cs' l ls', cs = c :: cs' ∧ ls = l :: ls' ∧ (c = '-' ↔ l = .minus) ∧
    (c = '(' ↔ l = .parenOpen) ∧ c ≠ '='

theorem Starts.append {cs : List Char} {ls : List Lexeme} (h : Starts cs ls) (cs' : List Char)
    (ls' : List Lexeme) : Starts (cs ++ cs') (ls ++ ls') := by
  obtain ⟨c, cs, l, ls, rfl, rfl, h⟩ := h
  exact ⟨c, cs ++ cs', l, ls ++ ls', rfl, rfl, h⟩

theorem Starts.parenthesized {s : String} {ls : List Lexeme} (h : Starts s.toList ls)
    (needed : Bool) :
    Starts (Expr.parenthesized needed s).toList (Lexeme.parenthesized needed ls) := by
  cases needed with
  | false => exact h
  | true =>
    refine ⟨'(', s.toList ++ [')'], .parenOpen, ls ++ [.parenClose], ?_, rfl, by decide, by decide,
      by decide⟩
    simp [Expr.parenthesized]

theorem starts_of_isWordChar {c : Char} {cs : List Char} {l : Lexeme} (hc : isWordChar c = true)
    (h1 : l ≠ .minus) (h2 : l ≠ .parenOpen) : Starts (c :: cs) [l] :=
  ⟨c, cs, l, [], rfl, rfl, iff_of_false (ne_of_isWordChar hc (by decide)) h1,
    iff_of_false (ne_of_isWordChar hc (by decide)) h2, ne_of_isWordChar hc (by decide)⟩

theorem starts_name {name : String} (h : isName name = true) :
    Starts name.toList [.ident name] := by
  unfold isName at h
  split at h
  · cases h
  · next c cs hcs =>
    simp only [Bool.and_eq_true] at h
    rw [hcs]
    exact starts_of_isWordChar (isWordChar_of_isWordStart h.1.1) (by simp) (by simp)

theorem starts_literal (l : Literal) : Starts l.text.toList [.number l] := by
  obtain ⟨c, cs, htext, hc, -⟩ := exists_text_literal l
  rw [htext]
  exact starts_of_isWordChar (isWordChar_of_isDigit hc) (by simp) (by simp)

end Token

namespace Expr

@[simp] theorem isOperation_named (e : Expr) (role : Role) :
    (e.named role).isOperation = e.isOperation := by
  cases e with
  | literal l =>
    rw [named]
    split <;> rfl
  | _ => rfl

@[simp] theorem precedence_named (e : Expr) (role : Role) :
    (e.named role).precedence = e.precedence := by
  cases e with
  | literal l =>
    rw [named]
    split <;> rfl
  | _ => rfl

theorem bindsLooser_named (op : BinaryOp) (e : Expr) (role : Role) :
    (e.named role).bindsLooser op = e.bindsLooser op := by
  rw [bindsLooser_eq, bindsLooser_eq, precedence_named]

theorem bindsNoTighter_named (op : BinaryOp) (e : Expr) (role : Role) :
    (e.named role).bindsNoTighter op = e.bindsNoTighter op := by
  rw [bindsNoTighter_eq, bindsNoTighter_eq, precedence_named]

/-- The right operand is written in its role; a literal needs no parentheses. -/
theorem textAs_binary (role : Role) (op : BinaryOp) (lhs rhs : Expr) :
    (binary op lhs rhs).textAs role =
      parenthesized (lhs.bindsLooser op) (lhs.textAs .plain) ++ " " ++ op.symbol ++ " " ++
        parenthesized (rhs.bindsNoTighter op) (rhs.textAs (.ofOperand op lhs rhs)) := by
  rw [textAs, Role.ofOperand]
  cases hr : op == .eq && lhs.isEntityRegister && rhs.isLiteral with
  | false => simp
  | true =>
    obtain ⟨-, hl⟩ := Bool.and_eq_true_iff.mp hr
    have hn : rhs.bindsNoTighter op = false := by
      cases rhs with
      | literal l => rfl
      | _ => cases hl
    simp [hn, parenthesized]

end Expr

/-! ## Names in the tables -/

theorem Token.isName_of_isPlainWord {name : String} (h : isPlainWord name.toList = true) :
    isName name = true := by
  have hkeyword := lookup_keywords_of_isPlainWord h
  unfold isName
  cases hcs : name.toList with
  | nil =>
    rw [hcs] at h
    cases h
  | cons c cs =>
    rw [hcs, isPlainWord, Bool.and_eq_true] at h
    simp only [h.1, hkeyword, Option.isNone_none, Bool.and_true]

theorem Names.isName {α : Type} {stem : String} {name : α → String} {rows : List α}
    (h : Names stem name rows) {a : α} (ha : a ∈ rows) : Token.isName (name a) = true :=
  Token.isName_of_isPlainWord (h.isPlainWord a ha)

theorem Role.isName_path {role : Role} {value : UInt32} {qualifier name : String}
    (h : role.path? value = some (qualifier, name)) :
    isName qualifier = true ∧ isName name = true := by
  unfold path? at h
  split at h
  · cases role with
    | plain => cases h
    | field =>
      obtain ⟨n, hn, he⟩ := Option.map_eq_some_iff.mp h
      cases he
      exact ⟨by decide, Names.isName Symbol.Field.names_names (List.mem_of_getElem? hn)⟩
    | entity =>
      obtain ⟨n, hn, he⟩ := Option.map_eq_some_iff.mp h
      cases he
      obtain ⟨before, after, hmem, -⟩ := List.lookup_eq_some_iff.mp hn
      have hx : (value.toUInt16, name) ∈ Symbol.Entity.named := by simp [hmem]
      exact ⟨by decide, Names.isName Symbol.Entity.names_named hx⟩
  · cases h

/-! ## Expressions -/

namespace Token

theorem Spells.parenthesized {s : String} {ls : List Lexeme} (h : Spells Apart s.toList ls)
    (needed : Bool) :
    Spells Apart (Expr.parenthesized needed s).toList (Lexeme.parenthesized needed ls) := by
  cases needed with
  | false => exact h
  | true =>
    have hclosed := h.append (spells_mark (by decide : (')', Lexeme.parenClose) ∈ marks))
      fun rest _ => apart_cons (by decide) rest
    have hopened := (spells_mark (by decide : ('(', Lexeme.parenOpen) ∈ marks)).append hclosed
      fun _ _ => trivial
    have htext : (Expr.parenthesized true s).toList = ['('] ++ (s.toList ++ [')']) := by
      simp [Expr.parenthesized]
    rw [htext]
    exact hopened.mono fun _ _ => trivial

theorem Spells.member {cs : List Char} {ls : List Lexeme} (h : Spells Apart cs ls)
    {property : String} (hp : isName property = true) :
    Spells Apart (cs ++ '.' :: property.toList) (ls ++ [.dot, .ident property]) :=
  h.append ((spells_mark (by decide : ('.', Lexeme.dot) ∈ marks)).append (spells_name hp)
    fun _ _ => trivial) fun _ _ => apart_cons (by decide) _

theorem Spells.index {cs is : List Char} {ls ms : List Lexeme} (h : Spells Apart cs ls)
    (hi : Spells Apart is ms) :
    Spells Anything (cs ++ '[' :: (is ++ [']']))
      (ls ++ .bracketOpen :: (ms ++ [.bracketClose])) := by
  have hclosed := hi.append (spells_mark (by decide : (']', Lexeme.bracketClose) ∈ marks))
    fun rest _ => apart_cons (by decide) rest
  exact h.append ((spells_mark (by decide : ('[', Lexeme.bracketOpen) ∈ marks)).append hclosed
    fun _ _ => trivial) fun _ _ => apart_cons (by decide) _

theorem ofPair?_bang {c : Char} (h : c ≠ '=') : Lexeme.ofPair? '!' c = none := by
  unfold Lexeme.ofPair?
  split <;> simp_all

/-- A sign in front of what is no sign. -/
theorem Spells.signed {cs : List Char} {ls : List Lexeme} (h : Spells Apart cs ls)
    (hs : Starts cs ls) (hne : ∀ l ∈ ls.head?, l ≠ .minus) (op : UnaryOp) :
    Spells Apart (op.symbol.toList ++ cs) (op.lexeme :: ls) := by
  obtain ⟨c, cs, l, ls, rfl, rfl, hminus, -, heq⟩ := hs
  have hc : c ≠ '-' := fun he => hne l rfl (hminus.mp he)
  cases op with
  | neg =>
    refine (spells_symbol rfl).append h ?_
    rintro rest - d ⟨⟩
    exact ⟨rfl, fun _ => hc⟩
  | not =>
    refine (spells_symbol rfl).append h ?_
    rintro rest - d ⟨⟩
    exact ⟨ofPair?_bang heq, nofun⟩

end Token

namespace Expr

theorem starts_textAs : (e : Expr) → (role : Role) → (∀ name ∈ e.names, isName name = true) →
    Starts (e.textAs role).toList (e.named role).lexemes
  | literal l, role, _ => by
    rw [textAs, Literal.textAs, Role.name?_eq, named]
    cases hp : role.path? l.value with
    | none => exact starts_literal l
    | some p =>
      obtain ⟨qualifier, name⟩ := p
      have hname := starts_name (Role.isName_path hp).1
      rw [Option.map_some, Option.getD_some, String.append_assoc, String.toList_append]
      exact hname.append _ _
  | ident name, role, h => starts_name (h name List.mem_cons_self)
  | member object property, role, h => by
    have ho := starts_textAs object .plain fun n hn => h n (by simp [names, hn])
    rw [textAs, named, lexemes, isOperation_named, String.append_assoc, String.toList_append]
    exact (ho.parenthesized _).append _ _
  | index base i, role, h => by
    have hb := starts_textAs base .plain fun n hn => h n (by simp [names, hn])
    rw [textAs, named, lexemes, isOperation_named, String.append_assoc, String.append_assoc,
      String.toList_append, List.append_assoc]
    exact (hb.parenthesized _).append _ _
  | call callee args, role, h => by
    have hc := starts_textAs callee .plain fun n hn => h n (by simp [names, hn])
    rw [textAs, named, lexemes, isOperation_named, String.append_assoc, String.append_assoc,
      String.toList_append]
    exact (hc.parenthesized _).append _ _
  | binary op lhs rhs, role, h => by
    have hl := starts_textAs lhs .plain fun n hn => h n (by simp [names, hn])
    rw [textAs_binary, named, lexemes, bindsLooser_named, String.append_assoc, String.append_assoc,
      String.append_assoc, String.toList_append]
    exact (hl.parenthesized _).append _ _
  | unary op operand, role, _ => by
    rw [textAs, named, lexemes, String.toList_append]
    cases op with
    | neg => exact ⟨'-', _, .minus, _, rfl, rfl, by decide, by decide, by decide⟩
    | not => exact ⟨'!', _, .bang, _, rfl, rfl, by decide, by decide, by decide⟩

/-- An operand does not start with a sign. -/
theorem head_operand (e : Expr) :
    ∀ l ∈ (Lexeme.parenthesized e.isOperation e.lexemes).head?, l ≠ .minus := by
  obtain ⟨t, rest, htokens, hunsigned, -⟩ := (e.primary 0 e.isOperation id).start
  rintro l hl rfl
  have ht : some ⟨.minus, 0⟩ = some t := by
    rw [← List.head?_cons (a := t) (l := rest), ← htokens, onLine, List.head?_map, hl]
    rfl
  cases ht
  cases hunsigned

theorem toList_intercalate_cons (s : String) (rest : List String) :
    (", ".intercalate (s :: rest)).toList =
      s.toList ++ rest.flatMap fun t => ',' :: ' ' :: t.toList := by
  induction rest generalizing s with
  | nil => simp
  | cons t rest ih =>
    rw [String.intercalate_cons_cons, String.toList_append, ih]
    simp

mutual

/-- **The text of an expression spells its lexemes.** -/
theorem spells_textAs : (e : Expr) → (role : Role) → (∀ name ∈ e.names, isName name = true) →
    Spells Apart (e.textAs role).toList (e.named role).lexemes
  | literal l, role, _ => by
    rw [textAs, Literal.textAs, Role.name?_eq, named]
    cases hp : role.path? l.value with
    | none => exact spells_literal l
    | some p =>
      obtain ⟨qualifier, name⟩ := p
      obtain ⟨hq, hn⟩ := Role.isName_path hp
      rw [Option.map_some, Option.getD_some, String.append_assoc, String.toList_append,
        String.toList_append]
      exact (spells_name hq).member hn
  | ident name, role, h => spells_name (h name List.mem_cons_self)
  | member object property, role, h => by
    have ho := spells_textAs object .plain fun n hn => h n (by simp [names, hn])
    rw [textAs, named, lexemes, isOperation_named, String.append_assoc, String.toList_append,
      String.toList_append]
    exact (ho.parenthesized _).member (h property (by simp [names]))
  | index base i, role, h => by
    have hb := spells_textAs base .plain fun n hn => h n (by simp [names, hn])
    have hi := spells_textAs i .plain fun n hn => h n (by simp [names, hn])
    have htext : ((index base i).textAs role).toList =
        (parenthesized base.isOperation (base.textAs .plain)).toList ++
          '[' :: ((i.textAs .plain).toList ++ [']']) := by
      simp [textAs]
    rw [htext, named, lexemes, isOperation_named, List.append_assoc]
    exact ((hb.parenthesized _).index hi).mono fun _ _ => trivial
  | call callee args, role, h => by
    have hc := spells_textAs callee .plain fun n hn => h n (by simp [names, hn])
    have hargs := spells_arguments args callee.path? 0 fun n hn => h n (by simp [names, hn])
    have htext : ((call callee args).textAs role).toList =
        (parenthesized callee.isOperation (callee.textAs .plain)).toList ++
          '(' :: ((", ".intercalate (textsFrom callee.path? 0 args)).toList ++ [')']) := by
      simp [textAs]
    rw [htext, named, lexemes, isOperation_named]
    have hopened := (spells_mark (by decide : ('(', Lexeme.parenOpen) ∈ marks)).append hargs
      fun _ _ => trivial
    exact ((hc.parenthesized _).append hopened fun _ _ => apart_cons (by decide) _).mono
      fun _ _ => trivial
  | binary op lhs rhs, role, h => by
    have hl := spells_textAs lhs .plain fun n hn => h n (by simp [names, hn])
    have hr := spells_textAs rhs (.ofOperand op lhs rhs) fun n hn => h n (by simp [names, hn])
    have htext : ((binary op lhs rhs).textAs role).toList =
        (parenthesized (lhs.bindsLooser op) (lhs.textAs .plain)).toList ++
          (' ' :: (op.symbol.toList ++ [' ']) ++ (parenthesized (rhs.bindsNoTighter op)
            (rhs.textAs (.ofOperand op lhs rhs))).toList) := by
      simp [textAs_binary]
    rw [htext, named, lexemes, bindsLooser_named, bindsNoTighter_named]
    exact (hl.parenthesized _).append
      ((spells_operator op).append (hr.parenthesized _) fun _ _ => trivial)
      fun _ _ => apart_cons (by decide) _
  | unary op operand, role, h => by
    have ho := spells_textAs operand .plain h
    have hs := starts_textAs operand .plain h
    have hne := head_operand (operand.named .plain)
    rw [textAs, named, lexemes, String.toList_append]
    rw [isOperation_named] at hne ⊢
    exact (ho.parenthesized _).signed (hs.parenthesized _) hne op

theorem spells_arguments : (args : List Expr) → (path : Option (String × String)) →
    (position : Nat) → (∀ name ∈ namesOfList args, isName name = true) →
    Spells Anything ((", ".intercalate (textsFrom path position args)).toList ++ [')'])
      (argumentLexemes (namedFrom path position args))
  | [], _, _, _ => spells_mark (by decide)
  | arg :: args, path, position, h => by
    have harg := spells_textAs arg (.ofArgument path position) fun n hn =>
      h n (by simp [namesOfList, hn])
    have hmore := spells_more args path (position + 1) fun n hn => h n (by simp [namesOfList, hn])
    rw [textsFrom, toList_intercalate_cons, List.append_assoc, namedFrom, argumentLexemes]
    exact harg.append hmore.2 fun rest _ => hmore.1 rest

/-- What stands behind an argument ends a word. -/
theorem spells_more : (args : List Expr) → (path : Option (String × String)) →
    (position : Nat) → (∀ name ∈ namesOfList args, isName name = true) →
    (∀ rest, Apart (((textsFrom path position args).flatMap fun t => ',' :: ' ' :: t.toList) ++
      [')'] ++ rest)) ∧
    Spells Anything (((textsFrom path position args).flatMap fun t => ',' :: ' ' :: t.toList) ++
      [')']) (moreLexemes (namedFrom path position args))
  | [], _, _, _ => ⟨fun _ => apart_cons (by decide) _, spells_mark (by decide)⟩
  | arg :: args, path, position, h => by
    have harg := spells_textAs arg (.ofArgument path position) fun n hn =>
      h n (by simp [namesOfList, hn])
    have hmore := spells_more args path (position + 1) fun n hn => h n (by simp [namesOfList, hn])
    refine ⟨fun _ => apart_cons (by decide) _, ?_⟩
    rw [textsFrom, List.flatMap_cons, List.append_assoc, namedFrom, moreLexemes]
    have hcomma := (spells_mark (by decide : (',', Lexeme.comma) ∈ marks)).append spells_blank
      fun _ _ => trivial
    have := hcomma.append (harg.append hmore.2 fun rest _ => hmore.1 rest) fun _ _ => trivial
    simpa using this

end

end Expr

end MapScript
