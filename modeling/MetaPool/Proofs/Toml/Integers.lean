import Mathlib.Data.List.TakeDrop
import MetaPool.Toml.Statement

/-!
# Integers read as they were written

A signed word is written as its decimals, which start with a zero only if they are a zero, behind a minus sign
if it is negative. Such a token is no date, for want of further minus signs and of colons, and no float, for
want of a fraction and of an exponent; so it is read as the integer that it is the text of.

    scalar? (toString i).toList = some (.integer i)                  (scalar?_toString)
-/

namespace MetaPool.Toml

open Text (digit? ofDigits? continueDigits)

variable {c : Char} {cs ds rest : List Char} {n : Nat} {i : Int}

/-- A class of characters takes just the characters in front that it accepts. -/
theorem span_append {p : Char → Bool} (hcs : ∀ c ∈ cs, p c = true) (hrest : ∀ c ∈ rest.head?, p c = false) :
    (cs ++ rest).span p = (cs, rest) := by
  rw [List.span_eq_takeWhile_dropWhile, List.takeWhile_append_of_pos hcs, List.dropWhile_append_of_pos hcs]
  cases rest with
  | nil => simp
  | cons c rest =>
    have hc := hrest c rfl
    simp [hc]

/-! ## Digits -/

theorem digit?_of_isDigit (h : c.isDigit = true) : digit? 10 c = some (c.toNat - '0'.toNat) := by
  simp only [Char.isDigit, Bool.and_eq_true, decide_eq_true_eq] at h
  have hrange : '0' ≤ c ∧ c ≤ '9' := h
  have hvalue : c.toNat - '0'.toNat < 10 := by
    have hnine : c.toNat ≤ '9'.toNat := h.2
    have hcode : '9'.toNat = 57 ∧ '0'.toNat = 48 := ⟨rfl, rfl⟩
    omega
  simp only [digit?, if_pos hrange, if_pos hvalue]

theorem continueDigits_eq (hds : ∀ c ∈ ds, c.isDigit = true) (n : Nat) :
    continueDigits 10 n ds = some (Nat.ofDigitChars 10 ds n) := by
  induction ds generalizing n with
  | nil => rfl
  | cons c ds ih =>
    rw [List.forall_mem_cons] at hds
    rw [continueDigits, digit?_of_isDigit hds.1, Nat.ofDigitChars_cons, Nat.mul_comm 10 n]
    exact ih hds.2 _

theorem isDigit_toDigits (n : Nat) : ∀ c ∈ Nat.toDigits 10 n, c.isDigit = true := fun _ hc =>
  Nat.isDigit_of_mem_toDigits (by decide) (by decide) hc

theorem ofDigits?_toDigits (n : Nat) : ofDigits? 10 (Nat.toDigits 10 n) = some n := by
  have hcontinue := continueDigits_eq (isDigit_toDigits n) 0
  rw [Nat.ofDigitChars_ten_toDigits] at hcontinue
  obtain ⟨d, ds, hds⟩ := List.exists_cons_of_ne_nil (Nat.toDigits_ne_nil (n := n) (b := 10))
  rw [hds] at hcontinue ⊢
  exact hcontinue

/-- The digits of a number that is not zero do not start with a zero. -/
theorem head_toDigits (h : 0 < n) : (Nat.toDigits 10 n).head? ≠ some '0' := by
  induction n using Nat.strongRecOn with
  | ind n ih =>
    by_cases hsmall : n < 10
    · rw [Nat.toDigits_of_lt_base hsmall]
      simp only [List.head?_cons, ne_eq, Option.some.injEq, Nat.digitChar_eq_zero]
      omega
    · have hhead := ih (n / 10) (by omega) (by omega)
      obtain ⟨d, ds, hds⟩ := List.exists_cons_of_ne_nil (Nat.toDigits_ne_nil (n := n / 10) (b := 10))
      rw [Nat.toDigits_of_base_le (by decide) (by omega)]
      rw [hds] at hhead ⊢
      exact hhead

theorem ungroup_of_digits (hne : ds ≠ []) (hds : ∀ c ∈ ds, c.isDigit = true) : ungroup 10 ds = some ds := by
  induction ds with
  | nil => exact absurd rfl hne
  | cons c ds ih =>
    rw [List.forall_mem_cons] at hds
    have hc : isDigitOf 10 c = true := by
      rw [isDigitOf, digit?_of_isDigit hds.1]
      rfl
    cases ds with
    | nil => simp [ungroup, hc]
    | cons d ds =>
      have hrest := ih (List.cons_ne_nil d ds) hds.2
      have hd : d ≠ '_' := by
        rintro rfl
        exact absurd (hds.2 '_' List.mem_cons_self) (by decide)
      rw [ungroup.eq_def]
      split
      next heq => cases heq
      next heq => cases heq
      next heq => exact absurd (List.cons.inj (List.cons.inj heq).2).1 hd
      next heq =>
        obtain ⟨rfl, htail⟩ := List.cons.inj heq
        rw [← htail, hrest, if_pos hc]
        rfl

theorem wholeDigits_toDigits (n : Nat) : wholeDigits (Nat.toDigits 10 n) = some (Nat.toDigits 10 n) := by
  have hungroup := ungroup_of_digits Nat.toDigits_ne_nil (isDigit_toDigits n)
  unfold wholeDigits
  split
  next c ds hzero =>
    rw [hungroup] at hzero
    have hhead : (Nat.toDigits 10 n).head? = some '0' := by
      rw [Option.some.inj hzero]
      rfl
    have hn : n = 0 := by
      by_contra hn
      exact head_toDigits (Nat.pos_of_ne_zero hn) hhead
    rw [hn, Nat.toDigits_zero] at hzero
    cases hzero
  next => exact hungroup

/-! ## Tokens -/

theorem toList_toString (i : Int) : (toString i).toList =
    if 0 ≤ i then Nat.toDigits 10 i.toNat else '-' :: Nat.toDigits 10 (-i).toNat := by
  rw [Int.toString_eq_repr, Int.repr_eq_if]
  split <;> simp

/-- The token of an integer has digits only, but for its first character. -/
theorem toString_eq_cons (i : Int) : ∃ c cs, (toString i).toList = c :: cs ∧ (c = '-' ∨ c.isDigit = true) ∧
    ∀ d ∈ cs, d.isDigit = true := by
  rw [toList_toString]
  split
  · have hdigit := isDigit_toDigits i.toNat
    obtain ⟨d, ds, hds⟩ := List.exists_cons_of_ne_nil (Nat.toDigits_ne_nil (n := i.toNat) (b := 10))
    rw [hds, List.forall_mem_cons] at hdigit
    exact ⟨d, ds, hds, .inr hdigit.1, hdigit.2⟩
  · exact ⟨'-', _, rfl, .inl rfl, isDigit_toDigits _⟩

theorem splitSign_toDigits (n : Nat) : splitSign (Nat.toDigits 10 n) = (false, Nat.toDigits 10 n) := by
  have hdigit := isDigit_toDigits n
  unfold splitSign
  split
  next rest heq => exact absurd (hdigit '-' (heq ▸ List.mem_cons_self)) (by decide)
  next rest heq => exact absurd (hdigit '+' (heq ▸ List.mem_cons_self)) (by decide)
  next => rfl

theorem splitSign_toString (i : Int) :
    splitSign (toString i).toList = (decide (i < 0), Nat.toDigits 10 i.natAbs) := by
  rw [toList_toString]
  by_cases hi : 0 ≤ i
  · have habs : i.toNat = i.natAbs := by omega
    have hneg : ¬i < 0 := by omega
    rw [if_pos hi, splitSign_toDigits, habs, decide_eq_false hneg]
  · have habs : (-i).toNat = i.natAbs := by omega
    have hneg : i < 0 := by omega
    rw [if_neg hi, habs, decide_eq_true hneg]
    rfl

theorem afterTime_eq_none (h : ':' ∉ cs) : afterTime cs = none := by
  unfold afterTime
  split
  next => simp at h
  next => rfl

theorem isDate_eq_false (h : '-' ∉ cs.tail) : isDate cs = false := by
  unfold isDate
  split
  next => simp at h
  next => rfl

theorem isDateTime_eq_false (hminus : '-' ∉ cs.tail) (hcolon : ':' ∉ cs) : isDateTime cs = false := by
  have htake : '-' ∉ (cs.take 10).tail := by
    cases cs with
    | nil => exact hminus
    | cons c cs => exact fun hmem => hminus (List.mem_of_mem_take hmem)
  simp [isDateTime, isDate_eq_false hminus, isDate_eq_false htake, afterTime_eq_none hcolon]

theorem isFloat_eq_false {negative : Bool} (hsign : splitSign cs = (negative, ds))
    (hds : ∀ c ∈ ds, c.isDigit = true) : isFloat cs = false := by
  have hspan : ds.span (fun c => c.isDigit || c == '_') = (ds, []) := by
    have happend : (ds ++ []).span (fun c => c.isDigit || c == '_') = (ds, []) :=
      span_append (fun c hc => by rw [hds c hc, Bool.true_or]) nofun
    rwa [List.append_nil] at happend
  have hname : ¬(ds = "inf".toList ∨ ds = "nan".toList) := by
    rintro (rfl | rfl)
    · exact absurd (hds 'i' (by decide)) (by decide)
    · exact absurd (hds 'n' (by decide)) (by decide)
  unfold isFloat
  rw [hsign]
  simp only [if_neg hname, hspan]
  cases wholeDigits ds <;> rfl

theorem integer?_toString (hlow : minSignedWord ≤ i) (hhigh : i ≤ maxSignedWord) :
    integer? (toString i).toList = some i := by
  obtain ⟨c, cs, hcs, -, hdigits⟩ := toString_eq_cons i
  have hsign := splitSign_toString i
  have hvalue : (if decide (i < 0) then -(i.natAbs : Int) else i.natAbs) = i := by
    by_cases hi : i < 0
    · rw [decide_eq_true hi, if_pos rfl]
      omega
    · rw [decide_eq_false hi, if_neg Bool.false_ne_true]
      omega
  rw [hcs] at hsign ⊢
  rw [integer?.eq_def]
  split
  next heq => exact absurd (hdigits 'x' (by simp_all)) (by decide)
  next heq => exact absurd (hdigits 'o' (by simp_all)) (by decide)
  next heq => exact absurd (hdigits 'b' (by simp_all)) (by decide)
  next =>
    rw [hsign]
    show ((wholeDigits (Nat.toDigits 10 i.natAbs)).bind fun digits => (ofDigits? 10 digits).bind fun magnitude =>
      fitInteger (if decide (i < 0) then -(magnitude : Int) else magnitude)) = some i
    rw [wholeDigits_toDigits, Option.bind_some, ofDigits?_toDigits, Option.bind_some, hvalue]
    exact if_pos ⟨hlow, hhigh⟩

/-- An integer that is a signed word reads as it was written. -/
theorem scalar?_toString (hlow : minSignedWord ≤ i) (hhigh : i ≤ maxSignedWord) :
    scalar? (toString i).toList = some (.integer i) := by
  obtain ⟨c, cs, hcs, hc, hdigits⟩ := toString_eq_cons i
  have hchars : ∀ d ∈ c :: cs, d = '-' ∨ d.isDigit = true := by
    rw [List.forall_mem_cons]
    exact ⟨hc, fun d hd => .inr (hdigits d hd)⟩
  have hname : ∀ name : List Char, 'e' ∈ name → (toString i).toList ≠ name := fun name he heq =>
    absurd (hchars 'e' (by rw [← hcs, heq]; exact he)) (by decide)
  have hdate : isDateTime (toString i).toList = false := by
    rw [hcs]
    exact isDateTime_eq_false (fun hminus => absurd (hdigits '-' hminus) (by decide))
      fun hcolon => absurd (hchars ':' hcolon) (by decide)
  have hfloat : isFloat (toString i).toList = false :=
    isFloat_eq_false (splitSign_toString i) (isDigit_toDigits _)
  unfold scalar?
  rw [if_neg (hname _ (by decide)), if_neg (hname _ (by decide)), hdate, hfloat, integer?_toString hlow hhigh]
  rfl

end MetaPool.Toml
