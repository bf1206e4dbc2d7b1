import DatasetGraph.Proofs.Identifier
import Mathlib.Data.Nat.Digits.Lemmas
import Mathlib.Data.List.Forall2
import Mathlib.Data.List.TakeWhile

/-!
# Numbers from digits

Numerals and escapes are read in runs: as many characters as pass a test, and then something that
does not.  So what a run ends at decides how a text falls apart (`run_append_inj`).  Numbers have
different digits in base ten (`toDigits_injective`), and a sign in front of them is none of these
(`sign_inj`).

A run of hexadecimal digits of either case stands for a number in base sixteen (`Hex.Denotes`), and
that is the number it is read as (`Hex.ofDigits_eq_some_iff`).
-/

namespace DatasetGraph.Text

section

variable {p : Char → Bool} {xs rest : List Char}

theorem takeWhile_run (hxs : ∀ c ∈ xs, p c = true) (hrest : ∀ c ∈ rest.head?, p c = false) :
    (xs ++ rest).takeWhile p = xs := by
  rw [List.takeWhile_append_of_pos hxs]
  cases rest with
  | nil => simp
  | cons c rest => rw [List.takeWhile_cons_of_neg (by simp [hrest c rfl]), List.append_nil]

theorem dropWhile_run (hxs : ∀ c ∈ xs, p c = true) (hrest : ∀ c ∈ rest.head?, p c = false) :
    (xs ++ rest).dropWhile p = rest := by
  rw [List.dropWhile_append_of_pos hxs]
  cases rest with
  | nil => rfl
  | cons c rest => rw [List.dropWhile_cons_of_neg (by simp [hrest c rfl])]

end

/-- A text falls in one way into characters that pass a test and a rest that does not start with
one. -/
theorem run_append_inj {p : Char → Bool} {xs ys r s : List Char} (hxs : ∀ c ∈ xs, p c = true)
    (hys : ∀ c ∈ ys, p c = true) (hr : ∀ c ∈ r.head?, p c = false)
    (hs : ∀ c ∈ s.head?, p c = false) (h : xs ++ r = ys ++ s) : xs = ys ∧ r = s := by
  have heq : xs = ys := by rw [← takeWhile_run hxs hr, h, takeWhile_run hys hs]
  subst heq
  exact ⟨rfl, List.append_cancel_left h⟩

/-- A sign is told from what starts without one. -/
theorem sign_inj {negative negative' : Bool} {cs ds : List Char} (hcs : '-' ∉ cs.head?)
    (hds : '-' ∉ ds.head?)
    (h : (if negative then '-' :: cs else cs) = if negative' then '-' :: ds else ds) :
    negative = negative' ∧ cs = ds := by
  cases negative <;> cases negative'
  · exact ⟨rfl, h⟩
  · exact absurd (congrArg List.head? h) hcs
  · exact absurd (congrArg List.head? h).symm hds
  · exact ⟨rfl, (List.cons.inj h).2⟩

/-! ## Decimal -/

theorem isDigit_of_mem_toDigits {n : Nat} {c : Char} (h : c ∈ Nat.toDigits 10 n) :
    c.isDigit = true := Nat.isDigit_of_mem_toDigits (by decide) (by decide) h

theorem toDigits_injective : Function.Injective (Nat.toDigits 10) := by
  intro m n h
  rw [← Nat.ofDigitChars_ten_toDigits (n := m), h, Nat.ofDigitChars_ten_toDigits]

/-! ## Hexadecimal -/

namespace Hex

/-- The number that digits of either case stand for in base sixteen. -/
def Denotes (ds : List Char) (n : Nat) : Prop :=
  ∃ ks : List Nat, ds.map value? = ks.map some ∧ n = Nat.ofDigits 16 ks.reverse

theorem ofDigits_eq_some_iff {ds : List Char} {n : Nat} : ofDigits ds = some n ↔ Denotes ds n := by
  induction ds using List.reverseRecOn generalizing n with
  | nil =>
    constructor
    · intro h
      exact ⟨[], rfl, (Option.some.inj h).symm⟩
    · rintro ⟨ks, hks, rfl⟩
      obtain rfl : ks = [] := by simpa using hks.symm
      rfl
  | append_singleton ds d ih =>
    rw [ofDigits_append_singleton]
    constructor
    · intro h
      obtain ⟨m, hm, hn⟩ := Option.bind_eq_some_iff.1 h
      obtain ⟨k, hk, rfl⟩ := Option.map_eq_some_iff.1 hn
      obtain ⟨ks, hks, rfl⟩ := ih.1 hm
      refine ⟨ks ++ [k], by simp [hks, hk], ?_⟩
      rw [List.reverse_append, List.reverse_singleton, List.singleton_append, Nat.ofDigits_cons]
      omega
    · rintro ⟨ks, hks, rfl⟩
      rw [List.map_append, List.map_singleton] at hks
      obtain ⟨front, last, rfl, hfront, hlast⟩ := List.append_eq_map_iff.1 hks
      obtain ⟨k, rfl, hk⟩ := List.map_eq_singleton_iff.1 hlast
      rw [ih.2 ⟨front, hfront.symm, rfl⟩, Option.bind_some, ← hk, Option.map_some,
        List.reverse_append, List.reverse_singleton, List.singleton_append, Nat.ofDigits_cons,
        Nat.add_comm]

theorem Denotes.unique {ds : List Char} {m n : Nat} (hm : Denotes ds m) (hn : Denotes ds n) :
    m = n :=
  Option.some.inj ((ofDigits_eq_some_iff.2 hm).symm.trans (ofDigits_eq_some_iff.2 hn))

/-- Digits, and nothing else, stand for a number. -/
theorem exists_denotes_iff {ds : List Char} :
    (∃ n, Denotes ds n) ↔ ∀ d ∈ ds, isDigit d = true := by
  constructor
  · rintro ⟨n, ks, hks, -⟩ d hd
    have hmem : value? d ∈ ks.map some := hks ▸ List.mem_map_of_mem hd
    obtain ⟨k, -, hk⟩ := List.mem_map.1 hmem
    rw [isDigit, ← hk]
    rfl
  · intro h
    obtain ⟨ks, hks⟩ : ∃ ks : List Nat, ds.map value? = ks.map some := by
      induction ds with
      | nil => exact ⟨[], rfl⟩
      | cons d ds ih =>
        obtain ⟨hd, hds⟩ := List.forall_mem_cons.1 h
        obtain ⟨k, hk⟩ := Option.isSome_iff_exists.1 hd
        obtain ⟨ks, hks⟩ := ih hds
        exact ⟨k :: ks, by rw [List.map_cons, List.map_cons, hk, hks]⟩
    exact ⟨_, ks, hks, rfl⟩

theorem Denotes.all_isDigit {ds : List Char} {n : Nat} (h : Denotes ds n) :
    ∀ d ∈ ds, isDigit d = true := exists_denotes_iff.1 ⟨n, h⟩

theorem isDigit_underscore : isDigit '_' = false := by decide

end Hex

end DatasetGraph.Text
