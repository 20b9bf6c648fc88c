import MapScript.Proofs.Spelling
import MapScript.Proofs.TextPieces

/-!
# Comments are not read

A comment starts at the first `--` that is not between quotes, so a quote or a backslash in front of
the dashes may hide them.  But no token holds a quote or a backslash: a line with one of these is
refused there, and what comes after it is never looked at.  So for every tail that is at most blank
once its own comment is gone (`Mute`), such as ` -- and a remark` or a carriage return,

    scanLine n (withoutComment (l ++ tail)) = scanLine n (withoutComment l)

and a text is read alike with or without comments at the ends of its lines (`scan_commented`).
-/

namespace MapScript.Token

open Text

/-! ## Tokens end where nothing goes on with them -/

/-- Characters that do not go on with any lexeme in front of them. -/
structure Fresh (cs : List Char) : Prop where
  apart : Apart cs
  unpaired : ∀ d ∈ cs.head?, ∀ c, Lexeme.ofPair? c d = none

theorem Fresh.nil : Fresh [] := ⟨nofun, nofun⟩

theorem Fresh.of_head {d : Char} (rest : List Char) (hw : isWordChar d = false) (hp : ¬Plain d) :
    Fresh (d :: rest) := by
  refine ⟨?_, ?_⟩
  · rintro _ ⟨⟩
    exact hw
  · rintro _ ⟨⟩ c
    cases h : Lexeme.ofPair? c d with
    | none => rfl
    | some l => exact absurd (plain_of_ofPair? h).2.1 hp

theorem Fresh.of_blank {cs : List Char} (h : ∀ c ∈ cs, isBlank c = true) : Fresh cs := by
  cases cs with
  | nil => exact .nil
  | cons d rest =>
    have hd := h d List.mem_cons_self
    refine .of_head rest ?_ fun hp => ?_
    · rw [Bool.eq_false_iff]
      intro hw
      rw [isBlank_of_isWordChar hw] at hd
      cases hd
    · rw [hp.blank] at hd
      cases hd

theorem takeWhile_append_apart (xs : List Char) {rest : List Char} (hr : Apart rest) :
    (xs ++ rest).takeWhile isWordChar = xs.takeWhile isWordChar ∧
      (xs ++ rest).dropWhile isWordChar = xs.dropWhile isWordChar ++ rest := by
  induction xs with
  | nil => exact takeWhile_word (List.forall_mem_nil _) hr
  | cons c xs ih => cases hc : isWordChar c <;> simp [hc, ih]

theorem plain_of_symbol? {c : Char} {rest : List Char} {p : Lexeme × Nat}
    (h : symbol? c rest = some p) : Plain c := by
  unfold symbol? at h
  split at h
  · rename_i hl
    obtain ⟨d, -, hd⟩ := Option.bind_eq_some_iff.mp hl
    exact (plain_of_ofPair? hd).1.1
  · obtain ⟨l, hl, -⟩ := Option.map_eq_some_iff.mp h
    exact plain_of_ofChar? hl

theorem symbol?_append (c : Char) (xs : List Char) {rest : List Char} (hr : Fresh rest) :
    symbol? c (xs ++ rest) = symbol? c xs := by
  cases xs with
  | cons d xs => rfl
  | nil =>
    have hpair : rest.head?.bind (Lexeme.ofPair? c) = none := by
      rw [Option.bind_eq_none_iff]
      exact fun d hd => hr.unpaired d hd c
    simp only [symbol?, List.nil_append, hpair, List.head?_nil, Option.bind_none]

/-- A symbol of two characters has its second character behind it. -/
theorem drop_append_of_symbol? {c : Char} {xs : List Char} {l : Lexeme} {extra : Nat}
    (h : symbol? c xs = some (l, extra)) (rest : List Char) :
    (xs ++ rest).drop extra = xs.drop extra ++ rest := by
  refine List.drop_append_of_le_length ?_
  cases xs with
  | nil =>
    obtain ⟨-, -, ⟨⟩⟩ := Option.map_eq_some_iff.mp h
    exact Nat.le_refl 0
  | cons d xs =>
    unfold symbol? at h
    split at h
    · cases h
      exact Nat.le_add_left 1 xs.length
    · obtain ⟨-, -, ⟨⟩⟩ := Option.map_eq_some_iff.mp h
      exact Nat.zero_le _

/-- A line is read in two parts if nothing goes on from the first to the second. -/
theorem scanLine_append (n : Nat) (xs : List Char) {rest : List Char} (hr : Fresh rest) :
    scanLine n (xs ++ rest) = do
      let tokens ← scanLine n xs
      let more ← scanLine n rest
      return tokens ++ more := by
  induction xs using scanLine.induct with
  | case1 =>
    rw [List.nil_append, scanLine]
    cases scanLine n rest <;> rfl
  | case2 c xs hb ih => rw [List.cons_append, scanLine_blank n hb, scanLine_blank n hb, ih]
  | case3 c xs hb hd ih =>
    obtain ⟨htake, hdrop⟩ := takeWhile_append_apart xs hr.apart
    rw [List.cons_append, scanLine_digit n hb hd, scanLine_digit n hb hd, htake, hdrop, ih]
    simp only [bind_assoc, pure_bind, List.cons_append]
  | case4 c xs hb hd hw ih =>
    obtain ⟨htake, hdrop⟩ := takeWhile_append_apart xs hr.apart
    rw [List.cons_append, scanLine_word n hb hd hw, scanLine_word n hb hd hw, htake, hdrop, ih]
    simp only [bind_assoc, pure_bind, List.cons_append]
  | case5 c xs hb hd hw hs =>
    have hs' := (symbol?_append c xs hr).trans hs
    rw [List.cons_append, scanLine_unexpected n hb hd hw hs, scanLine_unexpected n hb hd hw hs']
    rfl
  | case6 c xs hb hd hw l extra hs ih =>
    have hs' := (symbol?_append c xs hr).trans hs
    have hc := plain_of_symbol? hs
    rw [List.cons_append, scanLine_symbol hc hs, scanLine_symbol hc hs',
      drop_append_of_symbol? hs, ih]
    cases scanLine n (xs.drop extra) with
    | error e => rfl
    | ok tokens => cases scanLine n rest <;> rfl

theorem scanLine_blanks (n : Nat) {cs : List Char} (h : ∀ c ∈ cs, isBlank c = true) :
    scanLine n cs = .ok [] := by
  induction cs with
  | nil => rw [scanLine]
  | cons c cs ih =>
    rw [scanLine_blank n (h c List.mem_cons_self), ih fun d hd => h d (List.mem_cons_of_mem _ hd)]

theorem scanLine_append_blanks (n : Nat) (xs : List Char) {bs : List Char}
    (h : ∀ c ∈ bs, isBlank c = true) : scanLine n (xs ++ bs) = scanLine n xs := by
  rw [scanLine_append n xs (.of_blank h), scanLine_blanks n h]
  cases scanLine n xs with
  | error e => rfl
  | ok tokens => exact congrArg Except.ok (List.append_nil tokens)

/-! ## Quotes and backslashes end a line -/

/-- The characters that the search for a comment does not just pass over. -/
def isQuoting (c : Char) : Bool := c = '\\' || c = '"' || c = '\x27'

theorem not_plain_of_isQuoting {c : Char} (h : isQuoting c = true) : ¬Plain c := by
  intro hp
  obtain ⟨h1, h2, h3⟩ := hp.quiet
  simp [isQuoting, h1, h2, h3] at h

theorem not_word_of_isQuoting {c : Char} (h : isQuoting c = true) :
    ¬isBlank c = true ∧ ¬c.isDigit = true ∧ ¬isWordStart c = true ∧ isWordChar c = false := by
  simp only [isQuoting, Bool.or_eq_true, decide_eq_true_eq] at h
  rcases h with (rfl | rfl) | rfl <;> decide

theorem scanLine_quoting (n : Nat) {c : Char} (h : isQuoting c = true) (rest : List Char) :
    scanLine n (c :: rest) = .error (.unexpectedChar c n) := by
  obtain ⟨hb, hd, hw, -⟩ := not_word_of_isQuoting h
  refine scanLine_unexpected n hb hd hw ?_
  cases hs : symbol? c rest with
  | none => rfl
  | some p => exact absurd (plain_of_symbol? hs) (not_plain_of_isQuoting h)

/-- The error stands in front of all that comes after the quote or the backslash. -/
theorem scanLine_append_quoting (n : Nat) (xs : List Char) {c : Char} (h : isQuoting c = true)
    (ys zs : List Char) : scanLine n (xs ++ c :: ys) = scanLine n (xs ++ c :: zs) := by
  have hfresh (rest : List Char) : Fresh (c :: rest) :=
    .of_head rest (not_word_of_isQuoting h).2.2.2 (not_plain_of_isQuoting h)
  rw [scanLine_append n xs (hfresh ys), scanLine_append n xs (hfresh zs), scanLine_quoting n h,
    scanLine_quoting n h]

/-! ## What stands before a comment -/

/-- A line without its comment. -/
def content (line : List Char) : List Char := (beforeComment? none line).getD line

theorem exists_blanks_trimEnd (cs : List Char) :
    ∃ bs, trimEnd cs ++ bs = cs ∧ ∀ c ∈ bs, isBlank c = true := by
  induction cs with
  | nil => exact ⟨[], rfl, nofun⟩
  | cons c cs ih =>
    obtain ⟨bs, hbs, hblank⟩ := ih
    rw [trimEnd]
    cases hk : trimEnd cs with
    | cons d ds =>
      rw [hk] at hbs
      exact ⟨bs, by rw [← hbs]; rfl, hblank⟩
    | nil =>
      rw [hk, List.nil_append] at hbs
      subst hbs
      cases hc : isBlank c with
      | true => exact ⟨c :: bs, rfl, List.forall_mem_cons.mpr ⟨hc, hblank⟩⟩
      | false => exact ⟨bs, rfl, hblank⟩

/-- The blanks before a comment make no difference. -/
theorem scanLine_withoutComment (n : Nat) (line : List Char) :
    scanLine n (withoutComment line) = scanLine n (content line) := by
  unfold withoutComment content
  cases beforeComment? none line with
  | none => rfl
  | some kept =>
    obtain ⟨bs, hbs, hblank⟩ := exists_blanks_trimEnd kept
    calc scanLine n (trimEnd kept) = scanLine n (trimEnd kept ++ bs) :=
          (scanLine_append_blanks n _ hblank).symm
      _ = scanLine n kept := by rw [hbs]

theorem beforeComment?_quoted {c : Char} (hc : c ≠ '\\') (q : Char) (rest : List Char) :
    beforeComment? (some q) (c :: rest) =
      (beforeComment? (if c = q then none else some q) rest).map (c :: ·) :=
  beforeComment?.eq_4 c rest q (fun h _ => hc h) fun _ _ h _ => hc h

theorem map_append_or (xs : List Char) {l : List Char} {a b more : Option (List Char)}
    (h : a = b.or (more.map (l ++ ·))) :
    a.map (xs ++ ·) = (b.map (xs ++ ·)).or (more.map (xs ++ l ++ ·)) := by
  rw [h, Option.map_or, Option.map_map]
  simp only [Function.comp_def, List.append_assoc]

/-- No second dash comes from what is added. -/
theorem head?_append_beq (rest : List Char) {tail : List Char} (ht : tail.head? ≠ some '-') :
    ((rest ++ tail).head? == some '-') = (rest.head? == some '-') := by
  cases rest with
  | nil => simpa using ht
  | cons d rest => rfl

/-- What is added to a line does not matter where the line has a comment, and otherwise comes behind
all of it. -/
theorem exists_beforeComment?_append (quote : Option Char) (l : List Char) {tail : List Char}
    (ht : tail.head? ≠ some '-') : ∃ more : Option (List Char),
      beforeComment? quote (l ++ tail) = (beforeComment? quote l).or (more.map (l ++ ·)) := by
  have hne {c : Char} {rest : List Char} (h1 : c = '\\' → rest = [] → False)
      (h2 : ∀ d ds, c = '\\' → rest = d :: ds → False) : c ≠ '\\' := by
    rintro rfl
    cases rest with
    | nil => exact h1 rfl rfl
    | cons d ds => exact h2 d ds rfl rfl
  induction quote, l using beforeComment?.induct with
  | case1 quote => exact ⟨beforeComment? quote tail, by simp [beforeComment?]⟩
  | case2 quote =>
    cases tail with
    | nil => exact ⟨none, rfl⟩
    | cons d tail =>
      exact ⟨(beforeComment? quote tail).map (d :: ·), by
        simp [beforeComment?, Function.comp_def]⟩
  | case3 quote c rest ih =>
    obtain ⟨more, ih⟩ := ih
    exact ⟨more, map_append_or ['\\', c] ih⟩
  | case4 c rest h1 h2 q ih =>
    obtain ⟨more, ih⟩ := ih
    rw [List.cons_append, beforeComment?_quoted (hne h1 h2), beforeComment?_quoted (hne h1 h2)]
    exact ⟨more, map_append_or [c] ih⟩
  | case5 c rest h1 h2 hq ih =>
    obtain ⟨more, ih⟩ := ih
    rw [List.cons_append, beforeComment?_unquoted (hne h1 h2), beforeComment?_unquoted (hne h1 h2),
      if_pos hq, if_pos hq]
    exact ⟨more, map_append_or [c] ih⟩
  | case6 c rest h1 h2 hq hd =>
    rw [List.cons_append, beforeComment?_unquoted (hne h1 h2), beforeComment?_unquoted (hne h1 h2),
      head?_append_beq rest ht, if_neg hq, if_neg hq, if_pos hd, if_pos hd]
    exact ⟨none, rfl⟩
  | case7 c rest h1 h2 hq hd ih =>
    obtain ⟨more, ih⟩ := ih
    rw [List.cons_append, beforeComment?_unquoted (hne h1 h2), beforeComment?_unquoted (hne h1 h2),
      head?_append_beq rest ht, if_neg hq, if_neg hq, if_neg hd, if_neg hd]
    exact ⟨more, map_append_or [c] ih⟩

/-- Behind characters that open no quote and escape nothing, the search goes on as it began. -/
theorem beforeComment?_append {l tail : List Char} (hl : ∀ c ∈ l, isQuoting c = false)
    (ht : tail.head? ≠ some '-') : beforeComment? none (l ++ tail) =
      (beforeComment? none l).or ((beforeComment? none tail).map (l ++ ·)) := by
  induction l with
  | nil => simp [beforeComment?]
  | cons c rest ih =>
    obtain ⟨hc, hrest⟩ := List.forall_mem_cons.mp hl
    obtain ⟨hc, hq⟩ : c ≠ '\\' ∧ ¬(c = '"' || c = '\x27') = true := by
      simpa [isQuoting, and_assoc] using hc
    rw [List.cons_append, beforeComment?_unquoted hc, beforeComment?_unquoted hc,
      head?_append_beq rest ht, if_neg hq, if_neg hq]
    split
    · rfl
    · exact map_append_or [c] (ih hrest)

/-! ## Tails that are not read -/

/-- At most blanks and a comment, and no dash that could join one before it. -/
structure Mute (tail : List Char) : Prop where
  apart : tail.head? ≠ some '-'
  blank : ∀ c ∈ content tail, isBlank c = true

theorem content_append_of_some {l kept : List Char} (h : beforeComment? none l = some kept)
    {tail : List Char} (ht : tail.head? ≠ some '-') : content (l ++ tail) = content l := by
  obtain ⟨more, hmore⟩ := exists_beforeComment?_append none l ht
  rw [content, content, hmore, h]
  rfl

theorem exists_content_append {l : List Char} (h : beforeComment? none l = none)
    {tail : List Char} (ht : tail.head? ≠ some '-') : ∃ more, content (l ++ tail) = l ++ more := by
  obtain ⟨more, hmore⟩ := exists_beforeComment?_append none l ht
  rw [content, hmore, h, Option.none_or]
  cases more with
  | none => exact ⟨tail, rfl⟩
  | some more => exact ⟨more, rfl⟩

theorem content_append {l : List Char} (h : beforeComment? none l = none)
    (hl : ∀ c ∈ l, isQuoting c = false) {tail : List Char} (ht : tail.head? ≠ some '-') :
    content (l ++ tail) = l ++ content tail := by
  rw [content, content, beforeComment?_append hl ht, h, Option.none_or]
  cases beforeComment? none tail <;> rfl

/-- **Mute tails are not read.**  The line may have a comment of its own, or a quote or a backslash
that hides the one in the tail. -/
theorem scanLine_append_mute (n : Nat) (l : List Char) {tail : List Char} (h : Mute tail) :
    scanLine n (withoutComment (l ++ tail)) = scanLine n (withoutComment l) := by
  rw [scanLine_withoutComment, scanLine_withoutComment]
  cases hl : beforeComment? none l with
  | some kept => rw [content_append_of_some hl h.apart]
  | none =>
    have hcontent : content l = l := by rw [content, hl, Option.getD_none]
    rw [hcontent]
    by_cases hq : ∃ c ∈ l, isQuoting c = true
    · -- the comment of the tail may be hidden, but the line is refused before it
      obtain ⟨c, hc, hq⟩ := hq
      obtain ⟨xs, ys, rfl⟩ := List.append_of_mem hc
      obtain ⟨more, hmore⟩ := exists_content_append hl h.apart
      rw [hmore, List.append_assoc]
      exact scanLine_append_quoting n xs hq _ _
    · -- no quote is open where the tail begins, so its comment is found
      have hplain : ∀ c ∈ l, isQuoting c = false := by simpa using hq
      rw [content_append hl hplain h.apart]
      exact scanLine_append_blanks n l h.blank

theorem Mute.of_content {tail : List Char} {b : Char} (ha : tail.head? ≠ some '-')
    (h : content tail = [b]) (hb : isBlank b = true) : Mute tail := by
  refine ⟨ha, fun c hc => ?_⟩
  rw [h, List.mem_singleton] at hc
  rwa [hc]

theorem mute_remark (remark : List Char) : Mute (' ' :: '-' :: '-' :: remark) := by
  have hcontent : content (' ' :: '-' :: '-' :: remark) = [' '] := by
    simp [content, beforeComment?]
  exact .of_content (by simp) hcontent rfl

theorem mute_return : Mute ['\r'] := .of_content (by simp) rfl rfl

/-! ## Texts -/

/-- The tokens of one line, whatever break is behind it. -/
theorem scanLines_append (n : Nat) {l : List Char} (h : '\n' ∉ l) (rest : List Char) :
    scanLines n (lines (l ++ '\n' :: rest)) = do
      let tokens ← scanLine n (withoutComment l)
      let more ← scanLines (n + 1) (lines rest)
      return tokens ++ more := by
  obtain ⟨l', hlines, rfl | rfl⟩ := exists_lines_append h rest
  · rw [hlines, scanLines]
  · rw [hlines, scanLines, scanLine_append_mute n l' mute_return]

theorem scanLines_last (n : Nat) {l : List Char} (h : '\n' ∉ l) :
    scanLines n (lines l) = scanLine n (withoutComment l) := by
  cases l with
  | nil =>
    rw [lines_nil, scanLines]
    exact (scanLine_blanks n (List.forall_mem_nil _)).symm
  | cons c l =>
    rw [lines_of_not_mem h (List.cons_ne_nil c l), scanLines, scanLines]
    cases scanLine n (withoutComment (c :: l)) with
    | error e => rfl
    | ok tokens => exact congrArg Except.ok (List.append_nil tokens)

end MapScript.Token

namespace MapScript.Text

/-- What may stand between two lines. -/
inductive Break
  | feed
  | returnFeed
deriving DecidableEq

def Break.text : Break → String
  | feed => "\n"
  | returnFeed => "\r\n"

/-- The text with the given lines, each in front of its break, and a last line. -/
def assembled : List (String × Break) → String → String
  | [], last => last
  | (l, b) :: lines, last => l ++ b.text ++ assembled lines last

/-- The same line, or the line with a comment behind it. -/
def Commented (l l' : String) : Prop :=
  l' = l ∨ ∃ remark : String, '\n' ∉ remark.toList ∧ l' = l ++ " --" ++ remark

theorem Commented.not_mem {l l' : String} (h : Commented l l') (hl : '\n' ∉ l.toList) :
    '\n' ∉ l'.toList := by
  obtain rfl | ⟨remark, hr, rfl⟩ := h
  · exact hl
  · simp [hl, hr]

end MapScript.Text

namespace MapScript.Token

open Text

theorem scanLine_commented (n : Nat) {l l' : String} (h : Commented l l') :
    scanLine n (withoutComment l'.toList) = scanLine n (withoutComment l.toList) := by
  obtain rfl | ⟨remark, -, rfl⟩ := h
  · rfl
  · rw [String.toList_append, String.toList_append, List.append_assoc]
    exact scanLine_append_mute n l.toList (mute_remark remark.toList)

/-- A carriage return in front of the line feed is the end of the line or part of the break. -/
theorem scanLines_assembled_cons (n : Nat) {l : String} (h : '\n' ∉ l.toList) (b : Break)
    (ls : List (String × Break)) (last : String) :
    scanLines n (lines (assembled ((l, b) :: ls) last).toList) = do
      let tokens ← scanLine n (withoutComment l.toList)
      let more ← scanLines (n + 1) (lines (assembled ls last).toList)
      return tokens ++ more := by
  rw [assembled, String.toList_append, String.toList_append, List.append_assoc]
  cases b with
  | feed => exact scanLines_append n h _
  | returnFeed =>
    have hr : '\n' ∉ l.toList ++ ['\r'] := by simp [h]
    rw [← scanLine_append_mute n l.toList mute_return, ← scanLines_append n hr]
    simp [Break.text]

/-- **Comments are not read.**  Adding a comment to some of the lines changes neither the tokens and
their lines nor the error. -/
theorem scan_commented {ls ls' : List (String × Break)} {last last' : String}
    (hls : List.Forall₂ (fun x y => '\n' ∉ x.1.toList ∧ Commented x.1 y.1 ∧ y.2 = x.2) ls ls')
    (hlast : '\n' ∉ last.toList) (h : Commented last last') :
    scan (assembled ls' last') = scan (assembled ls last) := by
  unfold scan
  generalize 1 = n
  induction hls generalizing n with
  | nil =>
    rw [assembled, assembled, scanLines_last n hlast, scanLines_last n (h.not_mem hlast)]
    exact scanLine_commented n h
  | @cons x y ls ls' hxy _ ih =>
    obtain ⟨l, b⟩ := x
    obtain ⟨l', b'⟩ := y
    obtain ⟨hl, hc, rfl⟩ := hxy
    rw [scanLines_assembled_cons n hl, scanLines_assembled_cons n (hc.not_mem hl),
      scanLine_commented n hc, ih]

end MapScript.Token
