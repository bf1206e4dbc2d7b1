import DatasetGraph.Date
import DatasetGraph.Proofs.Fallible
import Mathlib.Data.List.TakeWhile

/-!
# Dates with something behind them

A date is read from left to right, and no part of it looks further than the first character that it
does not take (`Local`).  So when a text is a date and a longer one is too, they agree up to the last
number, which has one digit in the one and two in the other (`ofChars_append`).
-/

namespace DatasetGraph.Date

open Text (dropBlanks)
open Text.Digits (value)
open Fallible (bind_eq_ok_iff)

/-! ## Digits -/

theorem number_eq_ok_iff {digits : List Char → List Char} {cs rest : List Char} {n : Nat} :
    number digits cs = .ok (n, rest) ↔
      cs ≠ [] ∧ digits cs ≠ [] ∧ n = value (digits cs) ∧ rest = cs.drop (digits cs).length := by
  cases cs with
  | nil => simp [number]
  | cons c cs =>
    cases hdigits : digits (c :: cs) with
    | nil => simp [number, hdigits]
    | cons d ds => simp [number, hdigits, eq_comm]

/-- A number that takes the whole text is made of digits only. -/
theorem number_upToDigits_eq_ok_nil_iff {k n : Nat} {cs : List Char} :
    number (upToDigits k) cs = .ok (n, []) ↔
      cs ≠ [] ∧ cs.length ≤ k ∧ (∀ c ∈ cs, c.isDigit = true) ∧ n = value cs := by
  rw [number_eq_ok_iff]
  constructor
  · rintro ⟨hne, -, rfl, hdrop⟩
    have hprefix : upToDigits k cs <+: cs :=
      (List.takeWhile_prefix _).trans (List.take_prefix k cs)
    have hwhole : upToDigits k cs = cs :=
      hprefix.eq_of_length_le (List.drop_eq_nil_iff.1 hdrop.symm)
    refine ⟨hne, ?_, ?_, congrArg value hwhole⟩
    · have hle := (List.takeWhile_prefix Char.isDigit (l := cs.take k)).length_le
      have hlen := congrArg List.length hwhole
      rw [upToDigits] at hlen
      rw [List.length_take] at hle
      omega
    · intro c hc
      rw [← hwhole] at hc
      exact List.mem_takeWhile_imp hc
  · rintro ⟨hne, hlen, hdigits, rfl⟩
    have hwhole : upToDigits k cs = cs := by
      rw [upToDigits, List.take_of_length_le hlen, List.takeWhile_eq_self_iff.2 hdigits]
    rw [hwhole, List.drop_length]
    exact ⟨hne, hne, rfl, rfl⟩

/-! ## Readers that look no further than they have to -/

/-- What is read of a text with something left is read of any longer one. -/
def Local {α : Type} (read : List Char → Except DateFault (α × List Char)) : Prop :=
  ∀ ⦃cs x rest⦄, read cs = .ok (x, rest) → rest ≠ [] →
    ∀ more, read (cs ++ more) = .ok (x, rest ++ more)

/-- Digits end inside the text where something is left, so they end there in any longer one. -/
theorem takeWhile_append_of_rest {p : Char → Bool} {cs : List Char}
    (h : cs.drop (cs.takeWhile p).length ≠ []) (more : List Char) :
    (cs ++ more).takeWhile p = cs.takeWhile p := by
  have hlen : (cs.takeWhile p).length ≠ cs.length := by
    intro hlen
    exact h (by rw [hlen, List.drop_length])
  rw [List.takeWhile_append, if_neg hlen]

theorem number_local {digits : List Char → List Char}
    (h : ∀ cs more, cs.drop (digits cs).length ≠ [] → digits (cs ++ more) = digits cs) :
    Local (number digits) := by
  intro cs n rest hread hrest more
  obtain ⟨hne, hdigits, rfl, rfl⟩ := number_eq_ok_iff.1 hread
  have hle : (digits cs).length ≤ cs.length := Nat.le_of_not_le fun hle =>
    hrest (List.drop_of_length_le hle)
  refine number_eq_ok_iff.2 ⟨by simp [hne], ?_, ?_, ?_⟩
  · rwa [h cs more hrest]
  · rw [h cs more hrest]
  · rw [h cs more hrest, List.drop_append_of_le_length hle]

theorem number_allDigits_local : Local (number allDigits) :=
  number_local fun _ more h => takeWhile_append_of_rest h more

theorem number_upToDigits_local (k : Nat) : Local (number (upToDigits k)) := by
  refine number_local fun cs more h => ?_
  unfold upToDigits at *
  rcases Nat.le_total k cs.length with hk | hk
  · rw [List.take_append_of_le_length hk]
  · rw [List.take_of_length_le hk] at h ⊢
    rw [List.take_append, List.take_of_length_le hk]
    exact takeWhile_append_of_rest h _

theorem dropBlanks_append {cs : List Char} (h : dropBlanks cs ≠ []) (more : List Char) :
    dropBlanks (cs ++ more) = dropBlanks cs ++ more := by
  unfold dropBlanks at *
  rw [List.dropWhile_append, if_neg (by simpa using h)]

theorem readPart_eq_ok_iff {bound n : Nat} {cs rest : List Char} :
    readPart bound cs = .ok (n, rest) ↔
      number (upToDigits 2) (dropBlanks cs) = .ok (n, rest) ∧ 1 ≤ n ∧ n ≤ bound := by
  rw [readPart, bind_eq_ok_iff]
  constructor
  · rintro ⟨⟨m, rest'⟩, hnumber, h⟩
    dsimp only at h
    split at h
    · next hbounds =>
      cases h
      exact ⟨hnumber, hbounds⟩
    · cases h
  · rintro ⟨hnumber, hbounds⟩
    exact ⟨_, hnumber, if_pos hbounds⟩

theorem readPart_local (bound : Nat) : Local (readPart bound) := by
  intro cs n rest hread hrest more
  obtain ⟨hnumber, hbounds⟩ := readPart_eq_ok_iff.1 hread
  have hne : dropBlanks cs ≠ [] := (number_eq_ok_iff.1 hnumber).1
  refine readPart_eq_ok_iff.2 ⟨?_, hbounds⟩
  rw [dropBlanks_append hne]
  exact number_upToDigits_local 2 hnumber hrest more

theorem readYear_local : Local readYear := by
  intro cs year rest hread hrest more
  have hne : dropBlanks cs ≠ [] := by
    intro hnil
    rw [readYear, hnil] at hread
    cases hread
  unfold readYear at hread ⊢
  rw [dropBlanks_append hne]
  generalize dropBlanks cs = bs at hread hne ⊢
  obtain ⟨c, bs, rfl⟩ := List.exists_cons_of_ne_nil hne
  rw [List.cons_append]
  split at hread
  · next ds heq =>
    cases heq
    obtain ⟨⟨n, rest'⟩, hnumber, hcheck⟩ := bind_eq_ok_iff.1 hread
    dsimp only at hcheck ⊢
    split at hcheck
    · next hn =>
      cases hcheck
      exact bind_eq_ok_iff.2 ⟨_, number_allDigits_local hnumber hrest more, if_pos hn⟩
    · cases hcheck
  · next ds heq =>
    cases heq
    obtain ⟨⟨n, rest'⟩, hnumber, hcheck⟩ := bind_eq_ok_iff.1 hread
    dsimp only at hcheck ⊢
    split at hcheck
    · next hn =>
      cases hcheck
      exact bind_eq_ok_iff.2 ⟨_, number_allDigits_local hnumber hrest more, if_pos hn⟩
    · cases hcheck
  · next hminus hplus =>
    obtain ⟨⟨n, rest'⟩, hnumber, hyear⟩ := bind_eq_ok_iff.1 hread
    cases hyear
    split
    · next heq => cases heq; exact absurd rfl (hminus bs)
    · next heq => cases heq; exact absurd rfl (hplus bs)
    · exact bind_eq_ok_iff.2 ⟨_, number_upToDigits_local 4 hnumber hrest more, rfl⟩

theorem readHyphen_eq_ok_iff {cs rest : List Char} : readHyphen cs = .ok rest ↔ cs = '-' :: rest := by
  cases cs with
  | nil => simp [readHyphen]
  | cons c cs =>
    rw [readHyphen]
    split
    · next hc => simp [hc]
    · next hc => simp [hc]

/-! ## Dates -/

theorem ofChars_eq_ok_iff {cs : List Char} {d : Date} : ofChars cs = .ok d ↔
    ∃ afterYear afterMonth, readYear cs = .ok (d.year, '-' :: afterYear) ∧
      readPart 12 afterYear = .ok (d.month, '-' :: afterMonth) ∧
      readPart 31 afterMonth = .ok (d.day, []) ∧ isYear d.year = true ∧
      d.day ≤ daysIn d.year d.month := by
  constructor
  · intro h
    obtain ⟨⟨year, r⟩, hyear, h⟩ := bind_eq_ok_iff.1 h
    obtain ⟨afterYear, hhyphen, h⟩ := bind_eq_ok_iff.1 h
    obtain ⟨⟨month, r'⟩, hmonth, h⟩ := bind_eq_ok_iff.1 h
    obtain ⟨afterMonth, hhyphen', h⟩ := bind_eq_ok_iff.1 h
    obtain ⟨⟨day, r''⟩, hday, h⟩ := bind_eq_ok_iff.1 h
    dsimp only at *
    rw [readHyphen_eq_ok_iff] at hhyphen hhyphen'
    subst hhyphen hhyphen'
    cases r'' with
    | cons c r'' => cases h
    | nil =>
      rw [if_neg (by decide)] at h
      split at h
      · next hvalid =>
        cases h
        rw [Bool.and_eq_true, decide_eq_true_eq] at hvalid
        exact ⟨afterYear, afterMonth, hyear, hmonth, hday, hvalid⟩
      · cases h
  · rintro ⟨afterYear, afterMonth, hyear, hmonth, hday, hvalid, hdays⟩
    simp only [ofChars, hyear, hmonth, hday, readHyphen, bind, Except.bind, if_true]
    simp [hvalid, hdays, pure, Except.pure]

/-- When a text and a longer one are both dates, they are days of one month.  The day of the longer
one is written with one more digit, so it is the later of the two. -/
theorem ofChars_append {cs more : List Char} {d d' : Date} (h : ofChars cs = .ok d)
    (h' : ofChars (cs ++ more) = .ok d') (hmore : more ≠ []) :
    d.year = d'.year ∧ d.month = d'.month ∧ d.day < d'.day := by
  obtain ⟨afterYear, afterMonth, hyear, hmonth, hday, -, -⟩ := ofChars_eq_ok_iff.1 h
  obtain ⟨afterYear', afterMonth', hyear', hmonth', hday', -, -⟩ := ofChars_eq_ok_iff.1 h'
  -- Up to the second hyphen both are read alike.
  rw [readYear_local hyear (List.cons_ne_nil _ _) more] at hyear'
  obtain ⟨hyears, rfl⟩ : d.year = d'.year ∧ afterYear ++ more = afterYear' := by simpa using hyear'
  rw [readPart_local 12 hmonth (List.cons_ne_nil _ _) more] at hmonth'
  obtain ⟨hmonths, rfl⟩ : d.month = d'.month ∧ afterMonth ++ more = afterMonth' := by
    simpa using hmonth'
  refine ⟨hyears, hmonths, ?_⟩
  -- Two digits at most are left, so there is one in front of what is added and one in that.
  obtain ⟨hnumber, hpos, -⟩ := readPart_eq_ok_iff.1 hday
  obtain ⟨hne, -, -, hvalue⟩ := number_upToDigits_eq_ok_nil_iff.1 hnumber
  obtain ⟨hnumber', -⟩ := readPart_eq_ok_iff.1 hday'
  rw [dropBlanks_append hne] at hnumber'
  obtain ⟨-, hlen, -, hvalue'⟩ := number_upToDigits_eq_ok_nil_iff.1 hnumber'
  rw [List.length_append] at hlen
  have hlen₁ := List.length_pos_iff.2 hne
  have hlen₂ := List.length_pos_iff.2 hmore
  obtain ⟨a, ha⟩ := List.length_eq_one_iff.1 (by omega : (dropBlanks afterMonth).length = 1)
  obtain ⟨b, rfl⟩ := List.length_eq_one_iff.1 (by omega : more.length = 1)
  rw [ha] at hvalue hvalue'
  have htwo : value ([a] ++ [b]) = 10 * value [a] + (b.toNat - 48) :=
    Text.Digits.value_append_singleton [a] b
  omega

/-! ## The order of days -/

instance : Std.TransCmp compare := by
  have heq : compare = compareLex (compareOn year) (compareLex (compareOn month) (compareOn day)) := rfl
  rw [heq]
  infer_instance

theorem compare_eq_eq_iff {a b : Date} : a.compare b = .eq ↔ a = b := by
  obtain ⟨year, month, day⟩ := a
  obtain ⟨year', month', day'⟩ := b
  simp [compare, Ordering.then_eq_eq]

end DatasetGraph.Date
