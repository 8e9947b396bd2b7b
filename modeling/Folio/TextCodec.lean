import Mathlib.Data.List.Basic
import Mathlib.Data.Nat.Digits.Lemmas

/-! Numbers in decimal text and the text around them: a number is written, a template is put
around it, and the template is taken apart again. -/
namespace Folio.TextCodec

def decimal (n : Nat) : List Char := Nat.toDigits 10 n

/-- Digits read on from `acc`; fails on any other character and at `bound`. -/
def parseDigits (bound : Nat) : Nat → List Char → Option Nat
  | acc, [] => some acc
  | acc, c :: cs =>
    if c.isDigit ∧ 10 * acc + (c.toNat - '0'.toNat) < bound then
      parseDigits bound (10 * acc + (c.toNat - '0'.toNat)) cs
    else none

/-- An unsigned number below `bound`: at least one digit, behind an optional plus sign. -/
def parseNat (bound : Nat) : List Char → Option Nat
  | [] => none
  | ['+'] => none
  | '+' :: cs => parseDigits bound 0 cs
  | cs => parseDigits bound 0 cs

/-- What follows `pat`, if the text starts with it. -/
def stripFront : List Char → List Char → Option (List Char)
  | [], cs => some cs
  | _ :: _, [] => none
  | p :: ps, c :: cs => if p = c then stripFront ps cs else none

/-- What stands before and behind the first occurrence of `pat`. -/
def splitOnce (pat : List Char) : List Char → Option (List Char × List Char)
  | [] => (stripFront pat []).map fun rest => ([], rest)
  | c :: cs =>
    match stripFront pat (c :: cs) with
    | some rest => some ([], rest)
    | none => (splitOnce pat cs).map fun p => (c :: p.1, p.2)

section Numbers

theorem le_ofDigitChars (cs : List Char) (acc : Nat) : acc ≤ Nat.ofDigitChars 10 cs acc := by
  induction cs generalizing acc with
  | nil => exact le_rfl
  | cons c cs ih =>
    rw [Nat.ofDigitChars_cons]
    exact le_trans (by omega) (ih _)

theorem parseDigits_eq {bound : Nat} (cs : List Char) (acc : Nat)
    (hdigits : ∀ c ∈ cs, c.isDigit = true) (hlt : Nat.ofDigitChars 10 cs acc < bound) :
    parseDigits bound acc cs = some (Nat.ofDigitChars 10 cs acc) := by
  induction cs generalizing acc with
  | nil => rfl
  | cons c cs ih =>
    rw [Nat.ofDigitChars_cons] at hlt ⊢
    have hnext : 10 * acc + (c.toNat - '0'.toNat) < bound := (le_ofDigitChars cs _).trans_lt hlt
    rw [parseDigits, if_pos ⟨hdigits c (by simp), hnext⟩]
    exact ih _ (fun d hd => hdigits d (List.mem_cons_of_mem c hd)) hlt

theorem isDigit_of_mem_decimal {n : Nat} {c : Char} (h : c ∈ decimal n) : c.isDigit = true :=
  Nat.isDigit_of_mem_toDigits (by decide) (by decide) h

theorem not_mem_decimal {n : Nat} {c : Char} (hc : c.isDigit = false) : c ∉ decimal n := by
  intro h
  rw [isDigit_of_mem_decimal h] at hc
  cases hc

theorem parseNat_decimal {n bound : Nat} (h : n < bound) : parseNat bound (decimal n) = some n := by
  have hplus : '+' ∉ decimal n := not_mem_decimal (by decide)
  have hread : parseDigits bound 0 (decimal n) = some n := by
    have hn : Nat.ofDigitChars 10 (decimal n) 0 = n := Nat.ofDigitChars_ten_toDigits
    rw [parseDigits_eq _ _ (fun c hc => isDigit_of_mem_decimal hc) (by rwa [hn]), hn]
  cases hcs : decimal n with
  | nil => exact absurd hcs Nat.toDigits_ne_nil
  | cons c cs =>
    rw [hcs] at hplus hread
    have hc : c ≠ '+' := by
      rintro rfl
      exact hplus (by simp)
    rw [parseNat.eq_4 _ _ (by simp) (by simp [hc]) (by simp [hc])]
    exact hread

end Numbers

section Templates
variable {pat u v : List Char} {c : Char}

theorem stripFront_append (pat rest : List Char) : stripFront pat (pat ++ rest) = some rest := by
  induction pat with
  | nil => rfl
  | cons p ps ih => simp [stripFront, ih]

theorem stripFront_ne {p d : Char} {ps cs : List Char} (h : p ≠ d) :
    stripFront (p :: ps) (d :: cs) = none := by
  simp [stripFront, h]

theorem splitOnce_append (pat : List Char) (hc : c ∉ u) :
    splitOnce (c :: pat) (u ++ ((c :: pat) ++ v)) = some (u, v) := by
  induction u with
  | nil =>
    have hfront := stripFront_append (c :: pat) v
    rw [List.nil_append, List.cons_append] at *
    rw [splitOnce, hfront]
  | cons d u ih =>
    have hne : c ≠ d := fun h => hc (by simp [h])
    rw [List.cons_append, splitOnce, stripFront_ne hne, ih fun h => hc (List.mem_cons_of_mem d h)]
    rfl

end Templates
end Folio.TextCodec
