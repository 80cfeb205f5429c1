import Mathlib.Tactic.SplitIfs
import MetaPool.Toml.Quote
import MetaPool.Toml.Unquote

/-!
# Strings read as they were written

Whatever the way a string is written in, it reads as the same string. Between double quotes every character has
a spelling, as it stands or by an escape (`Spelling`), and the readers take a spelling for its character.
Between single quotes a text stands as it is, which the choice of the way has seen to be possible. Tripled
quotes close a text where three of them come together, and no text has three in a row that could be taken for
them (`NoThree`).

    readString ((quote s).toList ++ rest) = some (s, rest)           (readString_quote)
-/

namespace MetaPool.Toml

open Text (fourHexDigits)

variable {c d q : Char} {cs chars text rest : List Char} {overLines : Bool} {run : Nat}

/-! ## Spellings -/

theorem printable_of_not_code (hcode : isCode c = false) (hline : c ≠ '\n') : isPrintable c = true := by
  simp only [isCode, Bool.or_eq_false_iff, Bool.and_eq_false_iff, decide_eq_false_iff_not,
    bne_eq_false_iff_eq, beq_eq_false_iff_ne] at hcode
  simp only [isPrintable, Bool.or_eq_true, Bool.and_eq_true, beq_iff_eq, decide_eq_true_eq, bne_iff_ne]
  grind

theorem ofDigits?_fourHexDigits : ∀ n < 128, Text.ofDigits? 16 (fourHexDigits n) = some n := by decide

theorem codePoint?_fourHexDigits (h : isCode c = true) : codePoint? (fourHexDigits c.toNat) = some c := by
  have hlow : c.toNat < 128 := by
    simp only [isCode, Bool.or_eq_true, Bool.and_eq_true, decide_eq_true_eq, beq_iff_eq] at h
    omega
  have hvalid : c.toNat.isValidChar := c.valid
  rw [codePoint?, ofDigits?_fourHexDigits c.toNat hlow]
  simp [hvalid]

/-- How text between double quotes writes a character, but for a quote that needs no escape. -/
inductive Spelling (overLines : Bool) : Char → List Char → Prop where
  | plain (c : Char) : isPrintable c = true → c ≠ '\\' → c ≠ '"' → Spelling overLines c [c]
  | newline : overLines = true → Spelling overLines '\n' ['\n']
  | letter (c e : Char) : escape? e = some c → Spelling overLines c ['\\', e]
  | code (c : Char) : isCode c = true → Spelling overLines c ('\\' :: 'u' :: fourHexDigits c.toNat)

theorem escapeText_of_ne_quote (overLines : Bool) (run : Nat) (cs : List Char) (h : c ≠ '"') :
    ∃ chars, escapeText overLines run (c :: cs) = chars ++ escapeText overLines 0 cs ∧
      Spelling overLines c chars := by
  rw [escapeText, if_neg h]
  refine ⟨_, rfl, ?_⟩
  split_ifs with hslash htab hline hover hback hfeed hreturn hcode
  · subst hslash
    exact .letter _ _ rfl
  · exact htab ▸ .letter _ _ rfl
  · exact hline ▸ .newline hover
  · exact hline ▸ .letter _ _ rfl
  · exact hback ▸ .letter _ _ rfl
  · exact hfeed ▸ .letter _ _ rfl
  · exact hreturn ▸ .letter _ _ rfl
  · exact .code c hcode
  · exact .plain c (printable_of_not_code (by simpa using hcode) hline) hslash h

/-- Text between double quotes starts with no quote, but where one needs no escape. -/
theorem escapeText_head (overLines : Bool) (run : Nat) (c : Char) (cs : List Char)
    (h : c = '"' → (if overLines then 2 else 0) ≤ run) :
    ∃ d more, escapeText overLines run (c :: cs) = d :: more ∧ d ≠ '"' := by
  by_cases hquote : c = '"'
  · rw [escapeText, if_pos hquote, if_neg (Nat.not_lt.2 (h hquote))]
    exact ⟨'\\', _, rfl, by decide⟩
  · obtain ⟨chars, hchars, hspelling⟩ := escapeText_of_ne_quote overLines run cs hquote
    rw [hchars]
    cases hspelling with
    | plain _ _ _ hplain => exact ⟨c, _, rfl, hplain⟩
    | newline => exact ⟨'\n', _, rfl, by decide⟩
    | letter => exact ⟨'\\', _, rfl, by decide⟩
    | code => exact ⟨'\\', _, rfl, by decide⟩

/-! ## Single lines -/

theorem readBasic_spelling (h : Spelling false c chars) (hread : readBasic cs = some (text, rest)) :
    readBasic (chars ++ cs) = some (c :: text, rest) := by
  cases h with
  | plain _ hprint hslash hquote =>
    show readBasic (c :: cs) = _
    rw [readBasic.eq_def]
    split <;> simp_all
  | newline hover => cases hover
  | letter _ e hescape =>
    show readBasic ('\\' :: e :: cs) = _
    unfold escape? at hescape
    split at hescape <;> cases hescape <;> simp [readBasic, escape?, hread]
  | code _ hcode =>
    have hchar := codePoint?_fourHexDigits hcode
    show readBasic ('\\' :: 'u' :: (fourHexDigits c.toNat ++ cs)) = _
    simp only [fourHexDigits, List.map, List.cons_append, List.nil_append] at hchar ⊢
    simp [readBasic, hchar, hread]

theorem readBasic_escapeText (run : Nat) (cs rest : List Char) :
    readBasic (escapeText false run cs ++ '"' :: rest) = some (cs, rest) := by
  induction cs generalizing run with
  | nil => rfl
  | cons c cs ih =>
    by_cases hquote : c = '"'
    · subst hquote
      rw [escapeText, if_pos rfl, if_neg (by simp)]
      show readBasic (['\\', '"'] ++ (escapeText false 0 cs ++ '"' :: rest)) = _
      exact readBasic_spelling (.letter '"' '"' rfl) (ih 0)
    · obtain ⟨chars, hchars, hspelling⟩ := escapeText_of_ne_quote false run cs hquote
      rw [hchars, List.append_assoc]
      exact readBasic_spelling hspelling (ih 0)

theorem readLiteral_self (hprint : ∀ c ∈ cs, isPrintable c = true) (hquote : '\'' ∉ cs) :
    readLiteral (cs ++ '\'' :: rest) = some (cs, rest) := by
  induction cs with
  | nil => rfl
  | cons c cs ih =>
    rw [List.forall_mem_cons] at hprint
    rw [List.mem_cons, not_or] at hquote
    have hrest := ih hprint.2 hquote.2
    show readLiteral (c :: (cs ++ '\'' :: rest)) = _
    rw [readLiteral.eq_def]
    split <;> simp_all

/-! ## Three quotes in a row -/

/-- A text that does not go on with a quote. -/
def Unquoted (cs : List Char) : Prop := ∀ more, cs ≠ '"' :: more ∧ cs ≠ '\'' :: more

/-- A text that does not go on with three of a character. -/
def NoThree (q : Char) (cs : List Char) : Prop := ∀ more, cs ≠ q :: q :: q :: more

theorem noThree_of_head (h : d ≠ q) (cs : List Char) : NoThree q (d :: cs) := by
  intro more heq
  exact h (List.cons.inj heq).1

theorem noThree_of_second (h : d ≠ q) (c : Char) (cs : List Char) : NoThree q (c :: d :: cs) := by
  intro more heq
  exact h (List.cons.inj (List.cons.inj heq).2).1

theorem noThree_of_third (h : d ≠ q) (b c : Char) (cs : List Char) : NoThree q (b :: c :: d :: cs) := by
  intro more heq
  exact h (List.cons.inj (List.cons.inj (List.cons.inj heq).2).2).1

theorem le_longestRun (q : Char) (run : Nat) (cs : List Char) : run ≤ longestRun q run cs := by
  induction cs generalizing run with
  | nil => exact Nat.le_refl run
  | cons c cs ih =>
    rw [longestRun]
    split
    · exact Nat.le_of_succ_le (ih (run + 1))
    · exact Nat.le_max_left run _

theorem longestRun_mono (q : Char) {run run' : Nat} (cs : List Char) (h : run ≤ run') :
    longestRun q run cs ≤ longestRun q run' cs := by
  induction cs generalizing run run' with
  | nil => exact h
  | cons c cs ih =>
    simp only [longestRun]
    split
    · exact ih (Nat.succ_le_succ h)
    · omega

theorem longestRun_tail (q c : Char) (cs : List Char) : longestRun q 0 cs ≤ longestRun q 0 (c :: cs) := by
  simp only [longestRun]
  split
  · exact longestRun_mono q cs (Nat.zero_le 1)
  · exact Nat.le_max_right 0 _

/-- Where no run is longer than two, three of a character come no sooner than at the end. -/
theorem noThree_append (more : List Char) (hrun : longestRun q 0 cs ≤ 2) (hnil : cs ≠ []) (hone : cs ≠ [q])
    (htwo : cs ≠ [q, q]) : NoThree q (cs ++ more) := by
  intro rest heq
  match cs with
  | [] => exact hnil rfl
  | [a] => exact hone (by simp_all)
  | [a, b] => exact htwo (by simp_all)
  | a :: b :: d :: cs =>
    simp only [List.cons_append, List.cons.injEq] at heq
    obtain ⟨rfl, rfl, rfl, -⟩ := heq
    have hthree := le_longestRun d 3 cs
    simp only [longestRun, ↓reduceIte] at hrun
    exact absurd (Nat.le_trans hthree hrun) (by decide)

/-- A quote that needs no escape has at most one more behind it, but at the end of the text. -/
theorem noThree_escapeText (hnil : cs ≠ []) (hone : run = 0 → cs ≠ ['"']) (more : List Char) :
    NoThree '"' ('"' :: (escapeText true (run + 1) cs ++ more)) := by
  obtain ⟨c, cs, rfl⟩ := List.exists_cons_of_ne_nil hnil
  by_cases hsecond : c = '"' ∧ run = 0
  · obtain ⟨rfl, rfl⟩ := hsecond
    obtain ⟨d, cs, rfl⟩ := List.exists_cons_of_ne_nil fun hcs => hone rfl (hcs ▸ rfl)
    obtain ⟨e, behind, hbehind, he⟩ := escapeText_head true 2 d cs fun _ => Nat.le_refl 2
    show NoThree '"' ('"' :: '"' :: (escapeText true 2 (d :: cs) ++ more))
    rw [hbehind]
    exact noThree_of_third he _ _ _
  · have hrun : c = '"' → 2 ≤ run + 1 := fun hc => by
      have hne : run ≠ 0 := fun hzero => hsecond ⟨hc, hzero⟩
      omega
    obtain ⟨d, behind, hbehind, hd⟩ := escapeText_head true (run + 1) c cs hrun
    rw [hbehind]
    exact noThree_of_second hd _ _

/-! ## Several lines -/

theorem readLiteralLines_cons (hc : isPrintable c = true ∨ c = '\n') (hthree : NoThree '\'' (c :: cs))
    (hread : readLiteralLines cs = some (text, rest)) :
    readLiteralLines (c :: cs) = some (c :: text, rest) := by
  rw [readLiteralLines.eq_def]
  split
  next heq => exact absurd heq (hthree _)
  next heq => exact absurd heq (hthree _)
  next heq => exact absurd heq (hthree _)
  next heq =>
    obtain ⟨rfl, -⟩ := List.cons.inj heq
    simp [isPrintable] at hc
  next heq =>
    obtain ⟨rfl, rfl⟩ := List.cons.inj heq
    simp [hc, hread]
  next heq => cases heq

theorem readLiteralLines_self (hprint : ∀ c ∈ cs, isPrintable c = true ∨ c = '\n')
    (hrun : longestRun '\'' 0 cs ≤ 2) (hrest : Unquoted rest) :
    readLiteralLines (cs ++ '\'' :: '\'' :: '\'' :: rest) = some (cs, rest) := by
  have hnext : ∀ more, rest ≠ '\'' :: more := fun more => (hrest more).2
  induction cs with
  | nil =>
    show readLiteralLines ('\'' :: '\'' :: '\'' :: rest) = some ([], rest)
    rw [readLiteralLines] <;> intro more heq <;> exact hnext _ heq
  | cons c cs ih =>
    -- one or two quotes at the end are read together with the closing ones
    by_cases hone : c :: cs = ['\'']
    · rw [hone]
      show readLiteralLines ('\'' :: '\'' :: '\'' :: '\'' :: rest) = some (['\''], rest)
      rw [readLiteralLines]
      intro more heq
      exact hnext _ heq
    by_cases htwo : c :: cs = ['\'', '\'']
    · rw [htwo]
      rfl
    rw [List.forall_mem_cons] at hprint
    exact readLiteralLines_cons hprint.1 (noThree_append _ hrun (List.cons_ne_nil c cs) hone htwo)
      (ih hprint.2 (Nat.le_trans (longestRun_tail _ c cs) hrun))

theorem readBasicLines_eq_some : readBasicLines cs = some (text, rest) ↔
    ∃ pieces, readPieces cs = some (pieces, rest) ∧ textOfPieces .off pieces = some text := by
  unfold readBasicLines
  cases hpieces : readPieces cs with
  | none => simp
  | some found => cases htext : textOfPieces .off found.1 <;> simp <;> grind

theorem readBasicLines_cons (hc : isPrintable c = true ∨ c = '\n') (hslash : c ≠ '\\')
    (hthree : NoThree '"' (c :: cs)) (hread : readBasicLines cs = some (text, rest)) :
    readBasicLines (c :: cs) = some (c :: text, rest) := by
  obtain ⟨pieces, hpieces, htext⟩ := readBasicLines_eq_some.1 hread
  refine readBasicLines_eq_some.2 ⟨.plain c :: pieces, ?_, by simp [textOfPieces, htext]⟩
  rw [readPieces.eq_def]
  split
  next heq => exact absurd heq (hthree _)
  next heq => exact absurd heq (hthree _)
  next heq => exact absurd heq (hthree _)
  next heq =>
    obtain ⟨rfl, -⟩ := List.cons.inj heq
    simp [isPrintable] at hc
  next heq => exact absurd (List.cons.inj heq).1 hslash
  next heq => exact absurd (List.cons.inj heq).1 hslash
  next heq => exact absurd (List.cons.inj heq).1 hslash
  next heq => exact absurd (List.cons.inj heq).1 hslash
  next heq =>
    obtain ⟨rfl, rfl⟩ := List.cons.inj heq
    simp [hc, hpieces]
  next heq => cases heq

theorem readBasicLines_spelling (h : Spelling true c chars)
    (hread : readBasicLines cs = some (text, rest)) :
    readBasicLines (chars ++ cs) = some (c :: text, rest) := by
  obtain ⟨pieces, hpieces, htext⟩ := readBasicLines_eq_some.1 hread
  have hescaped : textOfPieces .off (.escaped c :: pieces) = some (c :: text) := by
    simp [textOfPieces, htext]
  cases h with
  | plain _ hprint hslash hquote =>
    exact readBasicLines_cons (.inl hprint) hslash (noThree_of_head hquote cs) hread
  | newline => exact readBasicLines_cons (.inr rfl) (by decide) (noThree_of_head (by decide) cs) hread
  | letter _ e hescape =>
    refine readBasicLines_eq_some.2 ⟨.escaped c :: pieces, ?_, hescaped⟩
    show readPieces ('\\' :: e :: cs) = _
    unfold escape? at hescape
    split at hescape <;> cases hescape <;> simp [readPieces, escape?, isBlank, hpieces]
  | code _ hcode =>
    have hchar := codePoint?_fourHexDigits hcode
    refine readBasicLines_eq_some.2 ⟨.escaped c :: pieces, ?_, hescaped⟩
    show readPieces ('\\' :: 'u' :: (fourHexDigits c.toNat ++ cs)) = _
    simp only [fourHexDigits, List.map, List.cons_append, List.nil_append] at hchar ⊢
    simp [readPieces, hchar, hpieces]

theorem readBasicLines_escapeText (hrest : Unquoted rest) (run : Nat) (cs : List Char) :
    readBasicLines (escapeText true run cs ++ '"' :: '"' :: '"' :: rest) = some (cs, rest) := by
  have hnext : ∀ more, rest ≠ '"' :: more := fun more => (hrest more).1
  induction cs generalizing run with
  | nil =>
    refine readBasicLines_eq_some.2 ⟨[], ?_, rfl⟩
    show readPieces ('"' :: '"' :: '"' :: rest) = _
    rw [readPieces] <;> intro more heq <;> exact hnext _ heq
  | cons c cs ih =>
    by_cases hquote : c = '"'
    · subst hquote
      rw [escapeText, if_pos rfl, if_pos rfl]
      by_cases hrun : run < 2
      · rw [if_pos hrun]
        -- one or two quotes at the end are read together with the closing ones
        by_cases hnil : cs = []
        · subst hnil
          refine readBasicLines_eq_some.2 ⟨[.plain '"'], ?_, rfl⟩
          show readPieces ('"' :: '"' :: '"' :: '"' :: rest) = _
          rw [readPieces]
          intro more heq
          exact hnext _ heq
        by_cases hone : run = 0 ∧ cs = ['"']
        · obtain ⟨rfl, rfl⟩ := hone
          rfl
        exact readBasicLines_cons (.inl rfl) (by decide)
          (noThree_escapeText hnil (fun hzero hcs => hone ⟨hzero, hcs⟩) _) (ih (run + 1))
      · rw [if_neg hrun]
        show readBasicLines (['\\', '"'] ++ (escapeText true 0 cs ++ '"' :: '"' :: '"' :: rest)) = _
        exact readBasicLines_spelling (.letter '"' '"' rfl) (ih 0)
    · obtain ⟨chars, hchars, hspelling⟩ := escapeText_of_ne_quote true run cs hquote
      rw [hchars, List.append_assoc]
      exact readBasicLines_spelling hspelling (ih 0)

/-- Behind tripled quotes a line break is dropped just where one was put. -/
theorem dropNewline_openingBreak {body : List Char}
    (h : '\n' ∉ cs → ∃ d more, body = d :: more ∧ isPrintable d = true) :
    dropNewline (openingBreak cs ++ body) = body := by
  unfold openingBreak
  by_cases hline : '\n' ∈ cs
  · rw [if_pos (by simpa using hline)]
    rfl
  · rw [if_neg (by simpa using hline)]
    obtain ⟨d, more, rfl, hd⟩ := h hline
    rw [List.nil_append, dropNewline.eq_def]
    split
    next heq => rw [(List.cons.inj heq).1] at hd; cases hd
    next heq => rw [(List.cons.inj heq).1] at hd; cases hd
    next => rfl

/-! ## The four ways -/

/-- Text stands as it is only where its way needs no escape for it. -/
theorem fits_of_for {q : Quoting} (h : Quoting.for cs = q) :
    q.fits cs = true ∨ q = .basic ∨ q = .basicLines := by
  unfold Quoting.for at h
  split at h
  next q' hfind => exact .inl (h ▸ List.find?_some (p := fun q : Quoting => q.fits cs) hfind)
  next => split at h <;> simp [← h]

theorem printable_of_fits {q : Quoting} (h : q.fits cs = true) :
    ∀ c ∈ cs, isPrintable c = true ∨ c = '\n' := by
  intro c hc
  simp only [Quoting.fits, Bool.and_eq_true, Bool.not_eq_true', List.any_eq_false] at h
  by_cases hline : c = '\n'
  · exact .inr hline
  · exact .inl (printable_of_not_code (by simpa using h.1 c hc) hline)

theorem readString_of_noThree (hdouble : NoThree '"' cs) (hsingle : NoThree '\'' cs) :
    readString cs = readLine cs := by
  rw [readString.eq_def]
  split
  next => exact absurd rfl (hdouble _)
  next => exact absurd rfl (hsingle _)
  next => rfl

theorem readString_basic (hrest : Unquoted rest) (cs : List Char) :
    readString (Quoting.basic.write cs ++ rest) = some (String.ofList cs, rest) := by
  have hchars : Quoting.basic.write cs ++ rest = '"' :: (escapeText false 0 cs ++ '"' :: rest) := by
    simp [Quoting.write]
  have hthree : NoThree '"' ('"' :: (escapeText false 0 cs ++ '"' :: rest)) := by
    cases cs with
    | nil =>
      intro more heq
      exact (hrest more).1 (List.cons.inj (List.cons.inj heq).2).2
    | cons c cs =>
      obtain ⟨d, behind, hbehind, hd⟩ := escapeText_head false 0 c cs fun _ => Nat.le_refl 0
      rw [hbehind]
      exact noThree_of_second hd _ _
  rw [hchars, readString_of_noThree hthree (noThree_of_head (by decide) _)]
  simp only [readLine, readBasic_escapeText]
  rfl

theorem readString_literal (hfits : Quoting.literal.fits cs = true) (hrest : Unquoted rest) :
    readString (Quoting.literal.write cs ++ rest) = some (String.ofList cs, rest) := by
  have hprint := printable_of_fits hfits
  simp only [Quoting.fits, Bool.and_eq_true, Bool.not_eq_true', List.contains_eq_mem,
    decide_eq_false_iff_not] at hfits
  obtain ⟨-, hquote, hline⟩ := hfits
  have hchars : Quoting.literal.write cs ++ rest = '\'' :: (cs ++ '\'' :: rest) := by
    simp [Quoting.write]
  have hthree : NoThree '\'' ('\'' :: (cs ++ '\'' :: rest)) := by
    cases cs with
    | nil =>
      intro more heq
      exact (hrest more).2 (List.cons.inj (List.cons.inj heq).2).2
    | cons c cs =>
      have hc : c ≠ '\'' := fun hc => hquote (hc ▸ List.mem_cons_self)
      exact noThree_of_second hc _ _
  have hread : readLiteral (cs ++ '\'' :: rest) = some (cs, rest) := by
    refine readLiteral_self (fun c hc => ?_) hquote
    rcases hprint c hc with hprint | rfl
    · exact hprint
    · exact absurd hc hline
  rw [hchars, readString_of_noThree (noThree_of_head (by decide) _) hthree]
  simp only [readLine, hread]
  rfl

theorem readString_basicLines (hrest : Unquoted rest) (cs : List Char) :
    readString (Quoting.basicLines.write cs ++ rest) = some (String.ofList cs, rest) := by
  have hchars : Quoting.basicLines.write cs ++ rest = '"' :: '"' :: '"' :: (openingBreak cs ++
      (escapeText true 0 cs ++ '"' :: '"' :: '"' :: rest)) := by
    simp [Quoting.write]
  have hdrop : dropNewline (openingBreak cs ++ (escapeText true 0 cs ++ '"' :: '"' :: '"' :: rest)) =
      escapeText true 0 cs ++ '"' :: '"' :: '"' :: rest := by
    refine dropNewline_openingBreak fun hline => ?_
    rcases cs with _ | ⟨c, cs⟩
    · exact ⟨'"', _, rfl, rfl⟩
    by_cases hquote : c = '"'
    · subst hquote
      exact ⟨'"', _, rfl, rfl⟩
    obtain ⟨chars, hbehind, hspelling⟩ := escapeText_of_ne_quote true 0 cs hquote
    rw [hbehind]
    cases hspelling with
    | plain _ hprint => exact ⟨c, _, rfl, hprint⟩
    | newline => exact absurd List.mem_cons_self hline
    | letter => exact ⟨'\\', _, rfl, rfl⟩
    | code => exact ⟨'\\', _, rfl, rfl⟩
  rw [hchars]
  simp only [readString, hdrop, readBasicLines_escapeText hrest]
  rfl

theorem readString_literalLines (hfits : Quoting.literalLines.fits cs = true) (hrest : Unquoted rest) :
    readString (Quoting.literalLines.write cs ++ rest) = some (String.ofList cs, rest) := by
  have hprint := printable_of_fits hfits
  have hrun : longestRun '\'' 0 cs ≤ 2 := by
    simp only [Quoting.fits, Bool.and_eq_true, decide_eq_true_eq] at hfits
    exact hfits.2
  have hchars : Quoting.literalLines.write cs ++ rest = '\'' :: '\'' :: '\'' :: (openingBreak cs ++
      (cs ++ '\'' :: '\'' :: '\'' :: rest)) := by
    simp [Quoting.write]
  have hdrop : dropNewline (openingBreak cs ++ (cs ++ '\'' :: '\'' :: '\'' :: rest)) =
      cs ++ '\'' :: '\'' :: '\'' :: rest := by
    refine dropNewline_openingBreak fun hline => ?_
    rcases cs with _ | ⟨c, cs⟩
    · exact ⟨'\'', _, rfl, rfl⟩
    rcases hprint c List.mem_cons_self with hc | rfl
    · exact ⟨c, _, rfl, hc⟩
    · exact absurd List.mem_cons_self hline
  rw [hchars]
  simp only [readString, hdrop, readLiteralLines_self hprint hrun hrest]
  rfl

/-- A string reads as it was written. -/
theorem readString_quote (s : String) (hrest : Unquoted rest) :
    readString ((quote s).toList ++ rest) = some (s, rest) := by
  have hwrite : (quote s).toList = (Quoting.for s.toList).write s.toList := String.toList_ofList
  rw [hwrite]
  cases hway : Quoting.for s.toList with
  | basic => rw [readString_basic hrest, String.ofList_toList]
  | literal => rw [readString_literal (by simpa using fits_of_for hway) hrest, String.ofList_toList]
  | basicLines => rw [readString_basicLines hrest, String.ofList_toList]
  | literalLines =>
    rw [readString_literalLines (by simpa using fits_of_for hway) hrest, String.ofList_toList]

end MetaPool.Toml
