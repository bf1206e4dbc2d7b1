import DatasetGraph.Identifier
import Mathlib.Tactic.NormNum

/-!
# Every token is read back from its identifier

A store keeps labels and relationships as identifiers and hands them out as tokens.  Reading undoes
writing for every token (`token_escape`), so no two tokens share an identifier (`escape_injective`):
a node carries a label exactly if it carries the identifier of that label, and two relationships
differ in their type exactly if they differ in their label.

The escape of a character is read by three lemmas: the digits of its code point are read as the
number that they were written for (`Hex.ofDigits_upper`), there are enough of them
(`lt_pow_width`), and they are read one by one up to the underscore (`unescapeChars_digits`).

What is written is made of ASCII letters, digits and underscores, no digit first (`IsSafe`), so every
token but the empty one has an identifier that a store takes (`tokens_have_safe_identifiers`).
-/

namespace DatasetGraph

/-! ## Hexadecimal digits -/

namespace Text.Hex

theorem value?_digit : ∀ n < 16, value? (digit n) = some n := by decide

theorem isAlphanum_digit : ∀ n < 16, (digit n).isAlphanum = true := by decide

theorem ofDigits_append_singleton (ds : List Char) (c : Char) :
    ofDigits (ds ++ [c]) = (ofDigits ds).bind fun n => (value? c).map (16 * n + ·) := by
  rw [ofDigits, List.foldlM_append]
  show (ofDigits ds >>= fun n => [c].foldlM _ n) = _
  cases ofDigits ds with
  | none => rfl
  | some n =>
    show ((value? c).map (16 * n + ·) >>= pure) = (value? c).map (16 * n + ·)
    rw [bind_pure]

/-- The digits that are written for a number are read as that number. -/
theorem ofDigits_upper {n k : Nat} (h : n < 16 ^ k) : ofDigits (upper n k) = some n := by
  induction k generalizing n with
  | zero =>
    have hn : n = 0 := by simpa using h
    subst hn
    rfl
  | succ k ih =>
    have hdiv : n / 16 < 16 ^ k := by
      rw [Nat.div_lt_iff_lt_mul (by decide)]
      rwa [Nat.pow_succ] at h
    rw [upper, ofDigits_append_singleton, ih hdiv, Option.bind_some,
      value?_digit _ (Nat.mod_lt n (by decide)), Option.map_some, Nat.div_add_mod]

theorem exists_digit_of_mem_upper {n k : Nat} {c : Char} (h : c ∈ upper n k) :
    ∃ d < 16, c = digit d := by
  induction k generalizing n with
  | zero => cases h
  | succ k ih =>
    rw [upper, List.mem_append, List.mem_singleton] at h
    rcases h with h | rfl
    · exact ih h
    · exact ⟨n % 16, Nat.mod_lt n (by decide), rfl⟩

theorem isDigit_of_mem_upper {n k : Nat} {c : Char} (h : c ∈ upper n k) : isDigit c = true := by
  obtain ⟨d, hd, rfl⟩ := exists_digit_of_mem_upper h
  rw [isDigit, value?_digit d hd]
  rfl

theorem isAlphanum_of_mem_upper {n k : Nat} {c : Char} (h : c ∈ upper n k) :
    c.isAlphanum = true := by
  obtain ⟨d, hd, rfl⟩ := exists_digit_of_mem_upper h
  exact isAlphanum_digit d hd

/-- A code point has room in the digits that `width` counts. -/
theorem lt_pow_width {n : Nat} (h : n < 0x110000) : n < 16 ^ width n := by
  unfold width
  repeat' split
  all_goals norm_num
  all_goals omega

end Text.Hex

/-- What is said of an empty token. -/
def InvalidIdentifier.ofEmpty : InvalidIdentifier := ⟨"", .emptyToken⟩

namespace Identifier

open Text (Hex.upper Hex.width Hex.isDigit Hex.ofDigits Hex.ofDigits_upper Hex.length_upper)

/-! ## Reading one character -/

theorem toNat_lt_pow (c : Char) : c.toNat < 16 ^ max 4 (Hex.width c.toNat) := by
  have hc : c.toNat < 0x110000 := by
    rcases c.valid with h | h
    · exact Nat.lt_trans h (by decide)
    · exact h.2
  exact Nat.lt_of_lt_of_le (Text.Hex.lt_pow_width hc)
    (Nat.pow_le_pow_right (by decide) (Nat.le_max_right _ _))

/-- The digits of the escape of a character name that character. -/
theorem charOfDigits_upper (c : Char) :
    charOfDigits (Hex.upper c.toNat (max 4 (Hex.width c.toNat))) = .ok c := by
  have hread := Hex.ofDigits_upper (toNat_lt_pow c)
  have hne : Hex.upper c.toNat (max 4 (Hex.width c.toNat)) ≠ [] := by
    intro h
    have := Hex.length_upper c.toNat (max 4 (Hex.width c.toNat))
    rw [h, List.length_nil] at this
    omega
  -- What is read stays within 32 bits and is a code point, so neither fault occurs.
  have hsmall : ¬ 0xffffffff < c.toNat := Nat.not_lt.2 (Nat.le_of_lt_succ c.val.toNat_lt)
  have hvalid : c.toNat.isValidChar := c.valid
  generalize Hex.upper c.toNat (max 4 (Hex.width c.toNat)) = ds at hread hne
  cases ds with
  | nil => exact absurd rfl hne
  | cons d ds =>
    simp only [charOfDigits, hread, hsmall, if_false, hvalid, if_true, Char.ofNat_toNat]

/-- Digits of an escape are read one by one. -/
theorem unescapeChars_digits {hs : List Char} (h : ∀ d ∈ hs, Hex.isDigit d = true)
    (ds rest : List Char) :
    unescapeChars (.escaping ds) (hs ++ rest) = unescapeChars (.escaping (ds ++ hs)) rest := by
  induction hs generalizing ds with
  | nil => rw [List.nil_append, List.append_nil]
  | cons d hs ih =>
    obtain ⟨hd, hhs⟩ := List.forall_mem_cons.1 h
    have hne : d ≠ '_' := by
      rintro rfl
      exact absurd hd (by decide)
    rw [List.cons_append, unescapeChars, if_neg hne, if_pos hd, ih hhs, List.append_assoc,
      List.singleton_append]

theorem unescapeChars_escapeCode (c : Char) (rest : List Char) :
    unescapeChars .between (escapeCode c ++ rest) =
      (unescapeChars .between rest).map (c :: ·) := by
  show unescapeChars .between ('_' :: 'u' :: ((Hex.upper c.toNat _ ++ ['_']) ++ rest)) = _
  rw [unescapeChars, if_pos rfl, unescapeChars, if_neg (by decide), if_pos rfl, List.append_assoc,
    unescapeChars_digits (fun _ h => Text.Hex.isDigit_of_mem_upper h), List.nil_append]
  show unescapeChars _ ('_' :: rest) = _
  rw [unescapeChars, if_pos rfl, charOfDigits_upper]

theorem unescapeChars_escapeChar (c : Char) (rest : List Char) :
    unescapeChars .between (escapeChar c ++ rest) =
      (unescapeChars .between rest).map (c :: ·) := by
  unfold escapeChar
  split
  · next hc =>
    subst hc
    show unescapeChars .between ('_' :: '_' :: rest) = _
    rw [unescapeChars, if_pos rfl, unescapeChars, if_pos rfl]
  · next hc =>
    split
    · show unescapeChars .between (c :: rest) = _
      rw [unescapeChars, if_neg hc]
    · exact unescapeChars_escapeCode c rest

theorem unescapeChars_escapeFirst (c : Char) (rest : List Char) :
    unescapeChars .between (escapeFirst c ++ rest) =
      (unescapeChars .between rest).map (c :: ·) := by
  unfold escapeFirst
  split
  · exact unescapeChars_escapeCode c rest
  · exact unescapeChars_escapeChar c rest

/-! ## Reading a token -/

theorem unescapeChars_flatMap (cs : List Char) :
    unescapeChars .between (cs.flatMap escapeChar) = .ok cs := by
  induction cs with
  | nil => rfl
  | cons c cs ih =>
    rw [List.flatMap_cons, unescapeChars_escapeChar, ih]
    rfl

theorem unescapeChars_escapeChars (cs : List Char) :
    unescapeChars .between (escapeChars cs) = .ok cs := by
  cases cs with
  | nil => rfl
  | cons c cs =>
    rw [escapeChars, unescapeChars_escapeFirst, unescapeChars_flatMap]
    rfl

/-- **Reading undoes writing**, for every token. -/
@[simp] theorem token_escape (t : String) : token ⟨escape t⟩ = .ok t := by
  show unescape (String.ofList (escapeChars t.toList)) = .ok t
  unfold unescape
  rw [String.toList_ofList, unescapeChars_escapeChars]
  show Except.ok (String.ofList t.toList) = _
  rw [String.ofList_toList]

theorem escape_injective {t u : String} (h : escape t = escape u) : t = u := by
  have ht := token_escape t
  rw [h, token_escape] at ht
  exact (Except.ok.inj ht).symm

/-! ## What identifiers are made of -/

/-- A text that a store takes for an identifier: ASCII letters, digits and underscores, no digit
first. -/
structure IsSafe (text : String) : Prop where
  chars : ∀ c ∈ text.toList, c.isAlphanum = true ∨ c = '_'
  head : ∀ c ∈ text.toList.head?, c.isDigit = false

theorem mem_escapeCode {c d : Char} (h : d ∈ escapeCode c) : d.isAlphanum = true ∨ d = '_' := by
  have hparts : d = '_' ∨ d = 'u' ∨ d ∈ Hex.upper c.toNat (max 4 (Hex.width c.toNat)) ∨ d = '_' := by
    simpa [escapeCode] using h
  rcases hparts with rfl | rfl | hdigit | rfl
  · exact .inr rfl
  · exact .inl (by decide)
  · exact .inl (Text.Hex.isAlphanum_of_mem_upper hdigit)
  · exact .inr rfl

theorem mem_escapeChar {c d : Char} (h : d ∈ escapeChar c) : d.isAlphanum = true ∨ d = '_' := by
  unfold escapeChar at h
  split at h
  · exact .inr (by simpa using h)
  · split at h
    · next hc =>
      obtain rfl := List.mem_singleton.1 h
      exact .inl hc
    · exact mem_escapeCode h

theorem mem_escapeFirst {c d : Char} (h : d ∈ escapeFirst c) : d.isAlphanum = true ∨ d = '_' := by
  unfold escapeFirst at h
  split at h
  · exact mem_escapeCode h
  · exact mem_escapeChar h

/-- A digit that comes first is escaped, so an underscore stands in its place. -/
theorem head_escapeFirst (c : Char) : ∃ d ds, escapeFirst c = d :: ds ∧ d.isDigit = false := by
  unfold escapeFirst
  split
  · exact ⟨'_', _, rfl, by decide⟩
  · next hdigit =>
    unfold escapeChar
    split
    · exact ⟨'_', _, rfl, by decide⟩
    · split
      · exact ⟨c, _, rfl, by simpa using hdigit⟩
      · exact ⟨'_', _, rfl, by decide⟩

theorem mem_escapeChars {cs : List Char} {d : Char} (h : d ∈ escapeChars cs) :
    d.isAlphanum = true ∨ d = '_' := by
  cases cs with
  | nil => cases h
  | cons c cs =>
    rw [escapeChars, List.mem_append, List.mem_flatMap] at h
    rcases h with h | ⟨e, -, h⟩
    · exact mem_escapeFirst h
    · exact mem_escapeChar h

theorem isDigit_head?_escapeChars {cs : List Char} {d : Char} (h : d ∈ (escapeChars cs).head?) :
    d.isDigit = false := by
  cases cs with
  | nil => cases h
  | cons c cs =>
    obtain ⟨e, es, hfirst, he⟩ := head_escapeFirst c
    rw [escapeChars, hfirst, List.cons_append, List.head?_cons, Option.mem_some_iff] at h
    rwa [← h]

theorem isSafe_escape (t : String) : IsSafe (escape t) := by
  have hchars : (escape t).toList = escapeChars t.toList := String.toList_ofList
  constructor
  · intro d hd
    rw [hchars] at hd
    exact mem_escapeChars hd
  · intro d hd
    rw [hchars] at hd
    exact isDigit_head?_escapeChars hd

/-! ## Identifiers of tokens -/

/-- An identifier that is written for a token. -/
def IsProper (i : Identifier) : Prop := ∃ t, t ≠ "" ∧ i.text = escape t

theorem ofToken_eq_ok_iff {t : String} {i : Identifier} :
    ofToken t = .ok i ↔ t ≠ "" ∧ i.text = escape t := by
  unfold ofToken
  split
  · next h => simp [h]
  · next h =>
    rw [Except.ok.injEq]
    constructor
    · rintro rfl
      exact ⟨h, rfl⟩
    · intro hx
      obtain ⟨_, hi⟩ := hx
      rw [← hi]

theorem ofToken_eq_error_iff {t : String} {e : InvalidIdentifier} :
    ofToken t = .error e ↔ t = "" ∧ e = .ofEmpty := by
  unfold ofToken InvalidIdentifier.ofEmpty
  split
  · next h => simp [h, eq_comm]
  · next h => simp [h]

/-- Every token is written as an identifier that a store takes, is read back from it, and shares it
with no other token; only the empty token has none. -/
theorem tokens_have_safe_identifiers (t : String) :
    unescape (escape t) = .ok t ∧ IsSafe (escape t) ∧ (∀ u, escape t = escape u ↔ t = u) ∧
      (∀ i, ofToken t = .ok i ↔ t ≠ "" ∧ i.text = escape t) ∧
      (∀ e, ofToken t = .error e ↔ t = "" ∧ e = .ofEmpty) ∧
      (ofToken t).bind token = if t = "" then .error .ofEmpty else .ok t := by
  refine ⟨token_escape t, isSafe_escape t, fun u => ⟨escape_injective, congrArg escape⟩,
    fun i => ofToken_eq_ok_iff, fun e => ofToken_eq_error_iff, ?_⟩
  split
  · next h =>
    rw [ofToken_eq_error_iff.2 ⟨h, rfl⟩]
    rfl
  · next h =>
    rw [ofToken_eq_ok_iff.2 ⟨h, (rfl : Identifier.text ⟨escape t⟩ = escape t)⟩]
    exact token_escape t

-- A digit comes first, a delimiter is escaped, and `_u` of the token itself is not taken for one.
example : escape "3:_u" = "_u0033__u003A___u" := by decide +kernel

theorem IsProper.token_eq {i : Identifier} (h : i.IsProper) :
    ∃ t, i.token = .ok t ∧ t ≠ "" ∧ i.text = escape t := by
  obtain ⟨t, ht, hi⟩ := h
  have : i = ⟨escape t⟩ := by rw [← hi]
  exact ⟨t, by rw [this, token_escape], ht, hi⟩

/-- Tokens of identifiers tell them apart. -/
theorem IsProper.eq_of_token {i j : Identifier} (hi : i.IsProper) (hj : j.IsProper)
    (h : i.token = j.token) : i = j := by
  obtain ⟨t, ht, _, hit⟩ := hi.token_eq
  obtain ⟨u, hu, _, hju⟩ := hj.token_eq
  rw [ht, hu] at h
  have htu := Except.ok.inj h
  cases i
  cases j
  subst htu
  exact congrArg Identifier.mk (hit.trans hju.symm)

end Identifier

end DatasetGraph
