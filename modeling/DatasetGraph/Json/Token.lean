import DatasetGraph.Json.Basic
import DatasetGraph.Text.Hex

/-!
# The tokens of JSON text

`tokens` cuts a text into brackets, separators, literals, numbers and texts, dropping the white
space between them.  At the first place where no token starts, it ends the list with `broken`.

A number or a text can be well formed and still have no value: a number may be too large for a
double, and a text may hold one half of a pair of UTF-16 escapes without the other.  Such a token is
`valueless`.  It matters to whoever wants its value; a reader who skips over it passes.

The one fact that the recursion needs is that each token takes at least one character
(`length_lexeme?`).
-/

namespace DatasetGraph.Json

/-- A token of JSON text. -/
inductive Token where
  | openList
  | closeList
  | openObject
  | closeObject
  | comma
  | colon
  | null
  | bool (b : Bool)
  | num (n : Number)
  | str (s : String)
  /-- A number that is too large. -/
  | valuelessNumber
  /-- A text with an escape that names no character. -/
  | valuelessText
  /-- No token starts here. -/
  | broken
deriving DecidableEq

namespace Token

/-! ## White space -/

/-- The white space of JSON text. -/
def isSpace (c : Char) : Bool := c = ' ' || c = '\n' || c = '\t' || c = '\r'

/-! ## Texts -/

/-- A part of a text: a character or the number after a `\u`. -/
inductive Part where
  | char (c : Char)
  | code (n : Nat)

/-- The character that an escape of one letter stands for. -/
def shortEscape? (c : Char) : Option Char :=
  if c = '"' then some '"'
  else if c = '\\' then some '\\'
  else if c = '/' then some '/'
  else if c = 'b' then some '\x08'
  else if c = 'f' then some '\x0c'
  else if c = 'n' then some '\n'
  else if c = 'r' then some '\r'
  else if c = 't' then some '\t'
  else none

/-- The parts up to the closing quote, and what follows it; `none` if the text does not close, holds
a control character or an escape of no known form. -/
def parts? : List Char → Option (List Part × List Char)
  | [] => none
  | '"' :: rest => some ([], rest)
  | '\\' :: 'u' :: a :: b :: c :: d :: rest => do
    let n ← Text.Hex.ofDigits [a, b, c, d]
    let (ps, rest) ← parts? rest
    return (.code n :: ps, rest)
  | '\\' :: e :: rest => do
    let c ← shortEscape? e
    let (ps, rest) ← parts? rest
    return (.char c :: ps, rest)
  | c :: rest =>
    if c.toNat < 0x20 ∨ c = '\\' then none else do
      let (ps, rest) ← parts? rest
      return (.char c :: ps, rest)

/-- Whether a code is the first half of a pair. -/
def isHighHalf (n : Nat) : Bool := 0xd800 ≤ n && n ≤ 0xdbff

/-- Whether a code is the second half of a pair. -/
def isLowHalf (n : Nat) : Bool := 0xdc00 ≤ n && n ≤ 0xdfff

/-- The characters of a text; `none` if it holds half a pair. -/
def join? : List Part → Option (List Char)
  | [] => some []
  | .char c :: ps => (join? ps).map (c :: ·)
  | .code n :: .code m :: ps =>
    if isHighHalf n then
      if isLowHalf m then
        (join? ps).map (Char.ofNat (0x10000 + (n - 0xd800) * 0x400 + (m - 0xdc00)) :: ·)
      else none
    else if isLowHalf n then none
    else (join? (.code m :: ps)).map (Char.ofNat n :: ·)
  | .code n :: ps =>
    if isHighHalf n ∨ isLowHalf n then none else (join? ps).map (Char.ofNat n :: ·)

/-- The token of a text, from what follows its opening quote. -/
def text? (cs : List Char) : Option (Token × List Char) := do
  let (ps, rest) ← parts? cs
  match join? ps with
  | some s => return (.str (String.ofList s), rest)
  | none => return (.valuelessText, rest)

/-! ## Numbers -/

/-- The digits at the front of a text, and what follows them. -/
def digits (cs : List Char) : List Nat × List Char :=
  ((cs.takeWhile Char.isDigit).map fun c => c.toNat - 48, cs.dropWhile Char.isDigit)

/-- The number that digits stand for. -/
def valueOf (ds : List Nat) : Nat := ds.foldl (fun n d => 10 * n + d) 0

/-- Digits before the point: `0` alone or digits that do not start with it. -/
def whole? (cs : List Char) : Option (List Nat × List Char) :=
  match digits cs with
  | ([], _) => none
  | (0 :: _ :: _, _) => none
  | (ds, rest) => some (ds, rest)

/-- The point and the digits after it, if there is a point. -/
def fraction? : List Char → Option (Option (List Nat) × List Char)
  | '.' :: cs =>
    match digits cs with
    | ([], _) => none
    | (ds, rest) => some (some ds, rest)
  | cs => some (none, cs)

/-- The digits of an exponent, with its sign. -/
def signedExponent? (negative : Bool) (cs : List Char) : Option (Option Int × List Char) :=
  match digits cs with
  | ([], _) => none
  | (ds, rest) => some (some (if negative then -(valueOf ds : Int) else valueOf ds), rest)

/-- The exponent, if there is one. -/
def exponent? : List Char → Option (Option Int × List Char)
  | c :: cs =>
    if c = 'e' ∨ c = 'E' then
      match cs with
      | '+' :: cs => signedExponent? false cs
      | '-' :: cs => signedExponent? true cs
      | cs => signedExponent? false cs
    else some (none, c :: cs)
  | [] => some (none, [])

/-- Whether an integer is kept as one: it has 64 bits, with or without a sign. -/
def isExact (n : Int) : Bool := -0x8000000000000000 ≤ n && n ≤ 0xffffffffffffffff

/-- The number of a numeral.  A numeral without fraction and exponent is an integer if it is in
range and is not a negative zero; all others are doubles. -/
def number? (negative : Bool) (whole : List Nat) (fraction : Option (List Nat))
    (exponent : Option Int) : Option Number :=
  let n := valueOf whole
  let plain := fraction.isNone && exponent.isNone
  if plain && !negative && isExact n then some (.int n)
  else if plain && negative && n ≠ 0 && isExact (-n) then some (.int (-n))
  else (Double.ofDigits negative whole (fraction.getD []) (exponent.getD 0)).map .double

/-- The token of a number, from what follows its sign. -/
def numeral? (negative : Bool) (cs : List Char) : Option (Token × List Char) := do
  let (whole, rest) ← whole? cs
  let (fraction, rest) ← fraction? rest
  let (exponent, rest) ← exponent? rest
  match number? negative whole fraction exponent with
  | some n => return (.num n, rest)
  | none => return (.valuelessNumber, rest)

/-! ## One token -/

/-- What follows a given word at the front of a text. -/
def after? : List Char → List Char → Option (List Char)
  | [], cs => some cs
  | _ :: _, [] => none
  | w :: ws, c :: cs => if w = c then after? ws cs else none

/-- The token of a single character. -/
def punctuation? (c : Char) : Option Token :=
  if c = '[' then some .openList
  else if c = ']' then some .closeList
  else if c = '{' then some .openObject
  else if c = '}' then some .closeObject
  else if c = ',' then some .comma
  else if c = ':' then some .colon
  else none

/-- The token of the word that starts with `c`, and the rest of the word. -/
def literal? (c : Char) : Option (Token × List Char) :=
  if c = 'n' then some (.null, ['u', 'l', 'l'])
  else if c = 't' then some (.bool true, ['r', 'u', 'e'])
  else if c = 'f' then some (.bool false, ['a', 'l', 's', 'e'])
  else none

/-- The token that starts with the character `c`, and what follows it. -/
def lexeme? (c : Char) (rest : List Char) : Option (Token × List Char) :=
  match punctuation? c, literal? c with
  | some t, _ => some (t, rest)
  | none, some (t, word) => (after? word rest).map (t, ·)
  | none, none =>
    if c = '"' then text? rest
    else if c = '-' then numeral? true rest
    else if c.isDigit then numeral? false (c :: rest)
    else none

/-! ### Every token takes a character -/

theorem length_after? {ws cs rest : List Char} (h : after? ws cs = some rest) :
    rest.length ≤ cs.length := by
  induction ws generalizing cs with
  | nil => simp_all [after?]
  | cons w ws ih =>
    cases cs with
    | nil => simp [after?] at h
    | cons c cs =>
      rw [after?] at h
      split at h
      · exact Nat.le_succ_of_le (ih h)
      · simp at h

theorem length_dropWhile_le (p : Char → Bool) (cs : List Char) :
    (cs.dropWhile p).length ≤ cs.length := (List.dropWhile_suffix p).length_le

theorem length_parts? {cs rest : List Char} {ps : List Part} (h : parts? cs = some (ps, rest)) :
    rest.length < cs.length := by
  fun_induction parts? cs generalizing ps rest with
  | case1 => simp at h
  | case2 rest' => simp_all
  | case3 a b c d cs ih =>
    simp only [Option.bind_eq_bind, Option.pure_def, Option.bind_eq_some_iff, Option.some.injEq,
      Prod.mk.injEq, Prod.exists] at h
    obtain ⟨_, _, qs, r, hr, _, rfl⟩ := h
    have := ih hr
    simp only [List.length_cons]
    omega
  | case4 e cs _ ih =>
    simp only [Option.bind_eq_bind, Option.pure_def, Option.bind_eq_some_iff, Option.some.injEq,
      Prod.mk.injEq, Prod.exists] at h
    obtain ⟨_, _, qs, r, hr, _, rfl⟩ := h
    have := ih hr
    simp only [List.length_cons]
    omega
  | case5 => simp at h
  | case6 c cs _ _ _ _ ih =>
    simp only [Option.bind_eq_bind, Option.pure_def, Option.bind_eq_some_iff, Option.some.injEq,
      Prod.mk.injEq, Prod.exists] at h
    obtain ⟨qs, r, hr, _, rfl⟩ := h
    have := ih hr
    simp only [List.length_cons]
    omega

theorem length_text? {cs rest : List Char} {t : Token} (h : text? cs = some (t, rest)) :
    rest.length < cs.length := by
  simp only [text?, Option.bind_eq_bind, Option.bind_eq_some_iff, Prod.exists] at h
  obtain ⟨ps, r, hr, h⟩ := h
  have : r = rest := by split at h <;> simp_all
  exact this ▸ length_parts? hr

theorem length_digits (cs : List Char) : (digits cs).2.length ≤ cs.length :=
  length_dropWhile_le _ _

theorem length_whole? {cs rest : List Char} {ds : List Nat} (h : whole? cs = some (ds, rest)) :
    rest.length < cs.length := by
  cases cs with
  | nil => simp [whole?, digits] at h
  | cons c cs =>
    by_cases hc : c.isDigit
    · have hrest : rest = cs.dropWhile Char.isDigit := by
        simp only [whole?, digits, List.takeWhile_cons, List.dropWhile_cons, hc, if_true,
          List.map_cons] at h
        split at h <;> simp_all
      exact Nat.lt_succ_of_le (hrest ▸ length_dropWhile_le _ _)
    · simp [whole?, digits, hc] at h

theorem length_fraction? {cs rest : List Char} {ds : Option (List Nat)}
    (h : fraction? cs = some (ds, rest)) : rest.length ≤ cs.length := by
  unfold fraction? at h
  split at h
  · next cs =>
    have := length_digits cs
    split at h <;> simp_all
    omega
  · simp_all

theorem length_signedExponent? {b : Bool} {cs rest : List Char} {e : Option Int}
    (h : signedExponent? b cs = some (e, rest)) : rest.length ≤ cs.length := by
  have := length_digits cs
  unfold signedExponent? at h
  split at h <;> simp_all

theorem length_exponent? {cs rest : List Char} {e : Option Int}
    (h : exponent? cs = some (e, rest)) : rest.length ≤ cs.length := by
  unfold exponent? at h
  split at h
  · split at h
    · split at h
      all_goals
        have := length_signedExponent? h
        simp only [List.length_cons] at *
        omega
    · simp_all
  · simp_all

theorem length_numeral? {b : Bool} {cs rest : List Char} {t : Token}
    (h : numeral? b cs = some (t, rest)) : rest.length < cs.length := by
  simp only [numeral?, Option.bind_eq_bind, Option.bind_eq_some_iff, Prod.exists] at h
  obtain ⟨ds, r₁, h₁, fs, r₂, h₂, e, r₃, h₃, h⟩ := h
  have : r₃ = rest := by split at h <;> simp_all
  subst this
  have := length_whole? h₁
  have := length_fraction? h₂
  have := length_exponent? h₃
  omega

theorem length_lexeme? {c : Char} {cs rest : List Char} {t : Token}
    (h : lexeme? c cs = some (t, rest)) : rest.length ≤ cs.length := by
  unfold lexeme? at h
  split at h
  · simp only [Option.some.injEq, Prod.mk.injEq] at h
    exact h.2 ▸ Nat.le_refl _
  · simp only [Option.map_eq_some_iff, Prod.mk.injEq] at h
    obtain ⟨r, hr, _, rfl⟩ := h
    exact length_after? hr
  · split at h
    · exact Nat.le_of_lt (length_text? h)
    · split at h
      · exact Nat.le_of_lt (length_numeral? h)
      · split at h
        · exact Nat.le_of_lt_succ (length_numeral? h)
        · simp at h

/-! ## All tokens -/

/-- Drop the white space at the front. -/
def skipSpace (cs : List Char) : List Char := cs.dropWhile isSpace

/-- The tokens of a text. -/
def tokens (cs : List Char) : List Token :=
  match _h : skipSpace cs with
  | [] => []
  | c :: rest =>
    match _h' : lexeme? c rest with
    | none => [.broken]
    | some (t, rest') => t :: tokens rest'
termination_by cs.length
decreasing_by
  have h₁ := length_lexeme? _h'
  have h₂ := length_dropWhile_le isSpace cs
  rw [← skipSpace, _h, List.length_cons] at h₂
  omega

end Token

end DatasetGraph.Json
