import MapScript.Proofs.Layout
import MapScript.Proofs.Reference
import MapScript.Script.Render

/-!
# Names for numbers

The text of a script writes some numbers by name.  `Expr.named` puts the name in place of the number
wherever the text does, and `Script.written` is the script that the text stands for: numbers by
name, and no blocks.  Both have the code that they had:

    ofExpr (e.named role) = ofExpr e                                          (ofExpr_named)
    Lowers n (written stmts) items n' ↔ Lowers n stmts items n'               (lowers_written)
-/

namespace MapScript

open Lowering

/-! ## Definitions -/

/-- The path to write in place of a number. -/
def Role.path? (role : Role) (value : UInt32) : Option (String × String) :=
  if value < 0x10000 then
    match role with
    | plain => none
    | field => (Symbol.Field.named? value.toUInt16).map ("Fields", ·)
    | entity => (Symbol.Entity.named? value.toUInt16).map ("Entities", ·)
  else none

/-- The role of the right operand of an operator. -/
def Role.ofOperand (op : BinaryOp) (lhs rhs : Expr) : Role :=
  if op == .eq && lhs.isEntityRegister && rhs.isLiteral then entity else plain

namespace Expr

mutual

/-- The expression with numbers by name where its text has them by name. -/
def named (role : Role) : Expr → Expr
  | literal l =>
    match role.path? l.value with
    | some (qualifier, name) => path qualifier name
    | none => literal l
  | ident name => ident name
  | member object property => member (object.named .plain) property
  | index base i => index (base.named .plain) (i.named .plain)
  | call callee args => call (callee.named .plain) (namedFrom callee.path? 0 args)
  | binary op lhs rhs => binary op (lhs.named .plain) (rhs.named (.ofOperand op lhs rhs))
  | unary op operand => unary op (operand.named .plain)

/-- The arguments of a function from a position on. -/
def namedFrom (path : Option (String × String)) (position : Nat) : List Expr → List Expr
  | [] => []
  | arg :: rest =>
    arg.named (.ofArgument path position) :: namedFrom path (position + 1) rest

end

end Expr

namespace Script

mutual

/-- What the lines of a statement stand for. -/
def writtenStmt : Stmt → List Stmt
  | .expr e => [.expr (e.named .plain)]
  | .ifThen condition body => [.ifThen (condition.named .plain) (written body)]
  | .goto name => [.goto name]
  | .label name => [.label name]
  | .assign target value => [.assign (target.named .plain) (value.named .plain)]
  | .ret => [.ret]
  | .block body => written body

/-- The script that the text of a script stands for. -/
def written : List Stmt → List Stmt
  | [] => []
  | s :: rest => writtenStmt s ++ written rest

end

end Script

/-! ## Names of numbers -/

namespace Symbol

theorem Field.names_names : Names "unknown_" id Field.names := by
  apply Names.of_toList
  · simp only [Field.names]
    repeat' first | exact String.toList_ofList | constructor
  · decide +kernel

theorem Field.names_ofName? (i : Fin Field.names.length) :
    Field.ofName? (Field.names.get i) = some (UInt16.ofNat i) := by
  have hfind : Field.names.findFinIdx? (· == Field.names.get i) = some i :=
    Names.findFinIdx?_eq_some names_names i
  rw [Field.ofName?, List.findIdx?_eq_map_findFinIdx?_val, hfind]
  rfl

theorem Field.ofName?_named {id : UInt16} {name : String} (h : Field.named? id = some name) :
    Field.ofName? name = some id := by
  obtain ⟨hi, rfl⟩ := List.getElem?_eq_some_iff.mp h
  have hid := Field.names_ofName? ⟨id.toNat, hi⟩
  rwa [UInt16.ofNat_toNat] at hid

theorem Entity.names_named : Names "unknown_" Prod.snd Entity.named := by
  apply Names.of_toList
  · simp only [Entity.named]
    repeat' first | exact String.toList_ofList | constructor
  · decide +kernel

theorem Entity.named_ofName? (x : UInt16 × String) (hx : x ∈ Entity.named) :
    Entity.ofName? x.2 = some x.1 := by
  rw [Entity.ofName?, Names.find?_eq_some names_named hx]

theorem Entity.ofName?_named {id : UInt16} {name : String} (h : Entity.named? id = some name) :
    Entity.ofName? name = some id := by
  obtain ⟨before, after, he, -⟩ := List.lookup_eq_some_iff.mp h
  exact Entity.named_ofName? (id, name) (by simp [he])

end Symbol

namespace Role

@[simp] theorem path?_plain (value : UInt32) : path? .plain value = none := by
  unfold path?
  split <;> rfl

theorem name?_eq (role : Role) (value : UInt32) :
    role.name? value = (role.path? value).map fun p => p.1 ++ "." ++ p.2 := by
  unfold name? path?
  split
  · cases role with
    | plain => rfl
    | field =>
      rw [Option.map_map]
      rfl
    | entity =>
      rw [Option.map_map]
      rfl
  · rfl

/-- A named number is loaded as the number. -/
theorem ofName_path {role : Role} {l : Literal} {qualifier name : String}
    (h : role.path? l.value = some (qualifier, name)) (unknown : LoweringError) :
    Reference.ofName qualifier name unknown = (Reference.word l.value).map (⟨.constant, ·⟩) := by
  unfold path? at h
  split at h
  · next hv =>
    have hword : Reference.word l.value = .ok l.value.toUInt16 := by
      have hlt : l.value.toNat < 0x10000 := UInt32.lt_iff_toNat_lt.mp hv
      rw [Reference.word, if_pos hlt]
      rfl
    cases role with
    | plain => cases h
    | field =>
      obtain ⟨n, hn, he⟩ := Option.map_eq_some_iff.mp h
      cases he
      rw [Reference.ofName, Symbol.Field.ofName?_named hn, hword]
      rfl
    | entity =>
      obtain ⟨n, hn, he⟩ := Option.map_eq_some_iff.mp h
      cases he
      rw [Reference.ofName, Symbol.Entity.ofName?_named hn, hword]
      rfl
  · cases h

/-- The arguments of `Bank.width(args)` are addresses and bits. -/
theorem ofArgument_reference {qualifier name : String} {bank : Bank} {width : Width}
    (hb : Bank.ofName? qualifier = some bank) (hw : Width.ofName? name = some width)
    (position : Nat) : ofArgument (some (qualifier, name)) position = .plain := by
  have hq : bank.name = qualifier := by simpa using List.find?_some hb
  have hn : width.name = name := by simpa using List.find?_some hw
  have hsystem : (bank.name == "System") = false := by cases bank <;> decide
  rw [← hq, ← hn, ofArgument]
  simp only [hsystem, Bool.false_and, Bool.false_eq_true, if_false, Opcode.ofFunction?_memory]

end Role

/-! ## Shapes -/

namespace Expr

@[simp] theorem named_literal_plain (l : Literal) : (literal l).named .plain = literal l := by
  rw [named, Role.path?_plain]

@[simp] theorem literal?_named_plain (e : Expr) : (e.named .plain).literal? = e.literal? := by
  cases e <;> first | rfl | simp [named, literal?]

@[simp] theorem path?_named_plain (e : Expr) : (e.named .plain).path? = e.path? := by
  cases e with
  | literal l => rw [named_literal_plain]
  | member object property => cases object <;> simp [named, path?]
  | _ => rfl

@[simp] theorem brief_named_plain (e : Expr) : (e.named .plain).brief = e.brief := by
  induction e using Expr.brief.induct <;> simp_all [named, brief]

@[simp] theorem length_namedFrom (path : Option (String × String)) (position : Nat)
    (args : List Expr) : (namedFrom path position args).length = args.length := by
  induction args generalizing position with
  | nil => rfl
  | cons arg rest ih => simp [namedFrom, ih]

end Expr

namespace Reference

@[simp] theorem cell?_named (e : Expr) : cell? (e.named .plain) = cell? e := by
  cases e with
  | index base i => cases base <;> cases i <;> simp [Expr.named, cell?]
  | _ => simp [Expr.named, cell?]

@[simp] theorem bitBase?_named (e : Expr) : bitBase? (e.named .plain) = bitBase? e := by
  simp [bitBase?]

/-- A property of what is no name is one of a cell. -/
theorem ofMember_of_not_ident {object : Expr} (h : ∀ name, object ≠ .ident name)
    (property : String) : ofMember object property =
      match cell? object, Width.ofName? property with
      | some (bank, address), some width =>
        ofCell bank address width (.unknownSymbol (Expr.member object property).brief)
      | _, _ => .error (.unknownSymbol (Expr.member object property).brief) := by
  cases object with
  | ident name => exact absurd rfl (h name)
  | _ => rfl

theorem ofMember_named (object : Expr) (property : String) :
    ofMember (object.named .plain) property = ofMember object property := by
  by_cases h : ∃ name, object = .ident name
  · obtain ⟨name, rfl⟩ := h
    rfl
  · have hne : ∀ name, object ≠ .ident name := fun name he => h ⟨name, he⟩
    have hne' : ∀ name, object.named .plain ≠ .ident name := by
      intro name
      cases object with
      | ident name => exact absurd rfl (hne name)
      | _ => simp [Expr.named]
    rw [ofMember_of_not_ident hne, ofMember_of_not_ident hne', cell?_named, Expr.brief, Expr.brief,
      Expr.brief_named_plain]

theorem ofIndex_named (base i : Expr) :
    ofIndex (base.named .plain) (i.named .plain) = ofIndex base i := by
  unfold ofIndex
  rw [Expr.literal?_named_plain, Expr.brief, Expr.brief, Expr.brief_named_plain,
    Expr.brief_named_plain]
  cases base with
  | member object property =>
    rw [Expr.named]
    by_cases hp : property = "bit"
    · subst hp
      cases i.literal? <;> simp
    · simp [hp]
  | _ => simp [Expr.named]

/-- Where numbers are required, they stay numbers. -/
theorem ofCall_named {qualifier name : String} {bank : Bank} {width : Width}
    (hb : Bank.ofName? qualifier = some bank) (hw : Width.ofName? name = some width)
    (args : List Expr) (text : String) :
    ofCall bank width (Expr.namedFrom (some (qualifier, name)) 0 args) text =
      ofCall bank width args text := by
  have hplain := Role.ofArgument_reference hb hw
  match args with
  | [] => rfl
  | [a] => cases width <;> simp [Expr.namedFrom, hplain, ofCall]
  | [a, b] => cases width <;> simp [Expr.namedFrom, hplain, ofCall]
  | a :: b :: c :: rest => cases width <;> simp [Expr.namedFrom, ofCall]

end Reference

/-! ## Code -/

namespace Lowering

/-- Only the message of a failure depends on how a load is written. -/
theorem push_congr {e e' : Expr} (h : e.brief = e'.brief)
    (load : Except LoweringError Reference.Load) : push e load = push e' load := by
  cases load <;> simp only [push, h]

theorem push_constant (e e' : Expr) (word : Except LoweringError UInt16) :
    push e (word.map (⟨.constant, ·⟩)) = push e' (word.map (⟨.constant, ·⟩)) := by
  obtain ⟨op, hop⟩ : ∃ op, Opcode.ofKind? (.push .constant) = some op :=
    Option.isSome_iff_exists.mp (by decide)
  cases word with
  | error err => rfl
  | ok v => simp only [Except.map, push, hop]

mutual

/-- **Names change no code.** -/
theorem ofExpr_named : (e : Expr) → (role : Role) → ofExpr (e.named role) = ofExpr e
  | .literal l, role => by
    rw [Expr.named]
    split
    · next qualifier name h =>
      rw [Expr.path, ofExpr, ofExpr, Reference.ofMember, Role.ofName_path h]
      exact push_constant _ _ _
    · rfl
  | .ident _, _ => rfl
  | .member object property, _ => by
    rw [Expr.named, ofExpr, ofExpr, Reference.ofMember_named]
    exact push_congr (by simp [Expr.brief]) _
  | .index base i, _ => by
    rw [Expr.named, ofExpr, ofExpr, Reference.ofIndex_named]
    exact push_congr (by simp [Expr.brief]) _
  | .call callee args, _ => by
    have hbrief : (Expr.call (callee.named .plain) (Expr.namedFrom callee.path? 0 args)).brief =
        (Expr.call callee args).brief := by
      simp [Expr.brief]
    rw [Expr.named, ofExpr, ofExpr, Expr.path?_named_plain, hbrief, Expr.length_namedFrom,
      ofExprs_namedFrom args]
    cases hp : callee.path? with
    | none => rfl
    | some p =>
      obtain ⟨qualifier, name⟩ := p
      rw [hp] at hbrief
      simp only
      split
      · next hb hw =>
        rw [Reference.ofCall_named hb hw]
        exact push_congr hbrief _
      · rfl
  | .binary op lhs rhs, _ => by
    rw [Expr.named, ofExpr, ofExpr, ofExpr_named lhs, ofExpr_named rhs]
  | .unary op operand, _ => by
    rw [Expr.named, ofExpr, ofExpr, ofExpr_named operand]

theorem ofExprs_namedFrom : (args : List Expr) → (path : Option (String × String)) →
    (position : Nat) → ofExprs (Expr.namedFrom path position args) = ofExprs args
  | [], _, _ => rfl
  | arg :: rest, path, position => by
    rw [Expr.namedFrom, ofExprs, ofExprs, ofExpr_named arg, ofExprs_namedFrom rest]

end

theorem callStmt_named (qualifier name : String) (args : List Expr) :
    callStmt qualifier name (Expr.namedFrom (some (qualifier, name)) 0 args) =
      callStmt qualifier name args := by
  unfold callStmt
  split
  · -- the number of the function stays a number
    have hid : Role.ofArgument (some ("System", "call_function")) 0 = .plain := by
      simp [Role.ofArgument, Opcode.ofFunction?_callFunction]
    rcases args with _ | ⟨a, _ | ⟨b, _ | ⟨c, rest⟩⟩⟩
    · rfl
    · rfl
    · simp [Expr.namedFrom, callFunction, hid, ofExpr_named]
    · simp [Expr.namedFrom, callFunction]
  · rcases args with _ | ⟨a, _ | ⟨b, _ | ⟨c, rest⟩⟩⟩
    · rfl
    · rfl
    · simp [Expr.namedFrom, assign, ofExpr_named]
    · simp [Expr.namedFrom]
  · rcases args with _ | ⟨a, _ | ⟨b, rest⟩⟩
    · rfl
    · simp [Expr.namedFrom, ofExpr_named]
    · simp [Expr.namedFrom]
  · rw [ofExprs_namedFrom, Expr.length_namedFrom]

theorem exprStmt_named (e : Expr) : exprStmt (e.named .plain) = exprStmt e := by
  cases e with
  | literal l => rw [Expr.named_literal_plain]
  | call callee args =>
    rw [exprStmt, exprStmt, Expr.named, Expr.pathCall?, Expr.pathCall?, Expr.path?_named_plain]
    cases hp : callee.path? with
    | none => simp [Expr.brief]
    | some p => exact callStmt_named p.1 p.2 args
  | _ => simp [exprStmt, Expr.named, Expr.pathCall?, Expr.brief]

end Lowering

theorem Script.takesArguments_named (e : Expr) :
    takesArguments (e.named .plain) = takesArguments e := by
  cases e with
  | literal l => rw [Expr.named_literal_plain]
  | call callee args =>
    rw [takesArguments, takesArguments, Expr.named, Expr.pathCall?, Expr.pathCall?,
      Expr.path?_named_plain]
    cases callee.path? <;> rfl
  | _ => simp [takesArguments, Expr.named, Expr.pathCall?]

open Script

mutual

theorem lowers_writtenStmt : (s : Stmt) → {n n' : Nat} → {items : List CodeItem} →
    (Lowers n (writtenStmt s) items n' ↔ Lowers n [s] items n')
  | .expr e => by
    rw [writtenStmt, lowers_expr, lowers_expr, exprStmt_named, takesArguments_named]
  | .ifThen condition body => by
    rw [writtenStmt, lowers_ifThen, lowers_ifThen, ofExpr_named]
    simp only [lowers_written body]
  | .assign target value => by
    rw [writtenStmt, lowers_assign, lowers_assign]
    simp only [ofExprs, ofExpr_named]
  | .block body => by rw [writtenStmt, lowers_block, lowers_written body]
  | .goto _ | .label _ | .ret => Iff.rfl

/-- **The written script has the same code.** -/
theorem lowers_written : (stmts : List Stmt) → {n n' : Nat} → {items : List CodeItem} →
    (Lowers n (written stmts) items n' ↔ Lowers n stmts items n')
  | [] => Iff.rfl
  | s :: rest => by
    rw [written, lowers_append, lowers_cons]
    simp only [lowers_writtenStmt s, lowers_written rest]

end

theorem Script.build_written {start : Nat} {stmts : List Stmt} {code : List Instruction} :
    build start (written stmts) = .ok code ↔ build start stmts = .ok code := by
  rw [build_eq_ok, build_eq_ok]
  simp only [lowers_written]

end MapScript
