import DatasetGraph.Json.Reader
import DatasetGraph.Proofs.Double.Reading
import DatasetGraph.Proofs.Json.Compact

/-!
# Reading a value back from its text

The text of a value is read token by token, and what the machine is left with after the last of them
is what it would be left with had it been handed one source (`run_compactChars`): the value itself,
but with the numbers that their texts are read as, and with nothing in place of the lists and objects
that are nested too deep (`sourceAt`).

So a value whose integers have 64 bits is read back with its doubles reread, if it is not nested too
deep, and is not read back at all otherwise (`readBack?_eq`).  A value that is read back as it was is
of the first kind (`of_readBack?_eq_self`).
-/

namespace DatasetGraph.Json

open Double (IsWhole)

/-- The text may go on like this behind a value. -/
def EndsValue (rest : List Char) : Prop := ∀ c ∈ rest.head?, c = ',' ∨ c = ']' ∨ c = '}'

theorem EndsValue.not_isDigit {rest : List Char} (h : EndsValue rest) :
    ∀ c ∈ rest.head?, c.isDigit = false := by
  intro c hc
  rcases h c hc with rfl | rfl | rfl <;> rfl

theorem endsValue_items (vs : List Json) (r : List Char) : EndsValue (compactItems vs ++ r) := by
  cases vs <;> rw [compactItems] <;> intro c hc <;> cases hc
  · exact .inr (.inl rfl)
  · exact .inl rfl

theorem endsValue_members (ms : List (String × Json)) (r : List Char) :
    EndsValue (compactMembers ms ++ r) := by
  cases ms <;> rw [compactMembers] <;> intro c hc <;> cases hc
  · exact .inr (.inr rfl)
  · exact .inl rfl

/-- The number that is read from the text of a number, if it is not too large. -/
def readNumber? : Number → Option Number
  | .int n => Token.number? (n < 0) (Double.digitsOf n.natAbs) none none
  | .double x => some (.double x.reread)

namespace Token

/-- The token of a number, or of one that is too large. -/
def ofNumber? (n : Option Number) : Token := n.elim .valuelessNumber .num

/-! ## Digits -/

/-- The characters of digits. -/
structure Spells (cs : List Char) (ds : List Nat) : Prop where
  isDigit : ∀ c ∈ cs, c.isDigit = true
  digits : cs.map (fun c => c.toNat - 48) = ds

theorem spells_toDigits (n : Nat) : Spells (Nat.toDigits 10 n) (Double.digitsOf n) :=
  ⟨fun _ => Text.isDigit_of_mem_toDigits, rfl⟩

theorem spells_digitChar {ds : List Nat} (h : ∀ d ∈ ds, d < 10) :
    Spells (ds.map Nat.digitChar) ds := by
  refine ⟨Double.isDigit_of_mem_map_digitChar h, ?_⟩
  rw [List.map_map]
  exact (List.map_congr_left fun d hd => Nat.toNat_digitChar_sub_48_of_lt_ten (h d hd)).trans
    (List.map_id ds)

theorem valueOf_eq_numberOf (ds : List Nat) : valueOf ds = Double.numberOf ds := by
  induction ds using List.reverseRecOn with
  | nil => rfl
  | append_singleton ds d ih =>
    have hvalue : valueOf (ds ++ [d]) = 10 * valueOf ds + d := List.foldl_append ..
    rw [hvalue, ih, Double.numberOf_append, Double.numberOf_singleton, List.length_singleton,
      Nat.pow_one, Nat.mul_comm]

theorem valueOf_digitsOf (n : Nat) : valueOf (Double.digitsOf n) = n := by
  rw [valueOf_eq_numberOf, Double.numberOf_digitsOf]

variable {cs rest : List Char} {ds : List Nat}

/-- Digits are read up to the first character that is none. -/
theorem Spells.digits_append (h : Spells cs ds) (hrest : ∀ c ∈ rest.head?, c.isDigit = false) :
    Token.digits (cs ++ rest) = (ds, rest) := by
  rw [Token.digits, Text.takeWhile_run h.isDigit hrest, Text.dropWhile_run h.isDigit hrest, h.digits]

theorem Spells.whole?_append (h : Spells cs ds) (hds : IsWhole ds)
    (hrest : ∀ c ∈ rest.head?, c.isDigit = false) : whole? (cs ++ rest) = some (ds, rest) := by
  rw [whole?, h.digits_append hrest]
  split
  · next heq => exact absurd (Prod.mk.inj heq).1 hds.ne_nil
  · next heq =>
    obtain ⟨rfl, -⟩ := Prod.mk.inj heq
    rcases hds.lead with hzero | hlead
    · cases hzero
    · exact absurd rfl hlead
  · next heq => rw [heq]

/-! ## Numerals -/

theorem exponent?_of_endsValue (h : EndsValue rest) : exponent? rest = some (none, rest) := by
  cases rest with
  | nil => rfl
  | cons c rest =>
    have hne : ¬ (c = 'e' ∨ c = 'E') := by rcases h c rfl with rfl | rfl | rfl <;> decide
    unfold exponent?
    exact if_neg hne

theorem exponent?_exponentText (e : Int) (h : EndsValue rest) :
    exponent? (Double.exponentText e ++ rest) = some (some e, rest) := by
  have hsigned : ∀ negative, signedExponent? negative (Nat.toDigits 10 e.natAbs ++ rest) =
      some (some (if negative then -(e.natAbs : Int) else e.natAbs), rest) := by
    intro negative
    rw [signedExponent?, (spells_toDigits e.natAbs).digits_append h.not_isDigit]
    split
    · next heq => exact absurd (Prod.mk.inj heq).1 (Double.digitsOf_ne_nil _)
    · next heq =>
      obtain ⟨rfl, rfl⟩ := Prod.mk.inj heq
      rw [valueOf_digitsOf]
  rw [Double.exponentText]
  split
  · next hneg =>
    have hvalue : -(e.natAbs : Int) = e := by omega
    exact (hsigned true).trans (by rw [if_pos rfl, hvalue])
  · next hneg =>
    have hvalue : (e.natAbs : Int) = e := by omega
    exact (hsigned false).trans (by rw [if_neg Bool.false_ne_true, hvalue])

theorem fraction?_of_not_point (h : '.' ∉ cs.head?) : fraction? cs = some (none, cs) := by
  unfold fraction?
  split
  · exact absurd rfl h
  · rfl

/-- The fraction and the exponent of a numeral are read back. -/
theorem fraction?_behind {n : Double.Numeral} (hn : n.IsProper) (h : EndsValue rest) :
    ∃ rest', fraction? (n.behind ++ rest) =
        some (if n.fraction.isEmpty then none else some n.fraction, rest') ∧
      exponent? rest' = some (n.exponent, rest) := by
  have hexponent : exponent? ((n.exponent.map Double.exponentText).getD [] ++ rest) =
      some (n.exponent, rest) := by
    cases n.exponent with
    | none => exact exponent?_of_endsValue h
    | some e => exact exponent?_exponentText e h
  refine ⟨_, ?_, hexponent⟩
  have hnext : ∀ c ∈ ((n.exponent.map Double.exponentText).getD [] ++ rest).head?,
      c = 'e' ∨ c = ',' ∨ c = ']' ∨ c = '}' := by
    intro c hc
    cases he : n.exponent with
    | none => exact .inr (h c (by simpa [he] using hc))
    | some e => exact .inl (by simpa [he, Double.exponentText, eq_comm] using hc)
  rw [Double.Numeral.behind, List.append_assoc]
  generalize (n.exponent.map Double.exponentText).getD [] ++ rest = next at hnext ⊢
  split
  · exact fraction?_of_not_point fun hpoint => absurd (hnext _ hpoint) (by decide)
  · next hne =>
    have hdigit : ∀ c ∈ next.head?, c.isDigit = false := by
      intro c hc
      rcases hnext c hc with rfl | rfl | rfl | rfl <;> rfl
    rw [List.cons_append, fraction?, (spells_digitChar hn.fraction).digits_append hdigit]
    split
    · next heq =>
      rw [(Prod.mk.inj heq).1] at hne
      exact absurd rfl hne
    · next heq =>
      obtain ⟨rfl, rfl⟩ := Prod.mk.inj heq
      rfl

/-- A numeral is read as its digits say, whatever comes after it. -/
theorem numeral?_append {negative : Bool} {whole : List Nat} {behind : List Char}
    {fraction : Option (List Nat)} {exponent : Option Int} {rest' : List Char} (hcs : Spells cs whole)
    (hwhole : IsWhole whole) (hbehind : ∀ c ∈ behind.head?, c.isDigit = false)
    (hfraction : fraction? behind = some (fraction, rest'))
    (hexponent : exponent? rest' = some (exponent, rest)) :
    numeral? negative (cs ++ behind) =
      some (ofNumber? (number? negative whole fraction exponent), rest) := by
  rw [numeral?, hcs.whole?_append hwhole hbehind]
  simp only [Option.bind_eq_bind, Option.bind_some, hfraction, hexponent, Option.pure_def]
  cases number? negative whole fraction exponent <;> rfl

/-- With a point or an exponent the number is a double. -/
theorem number?_numeral (x : Double) :
    number? x.negative (Double.numeral x.rank).whole
        (if (Double.numeral x.rank).fraction.isEmpty then none
          else some (Double.numeral x.rank).fraction) (Double.numeral x.rank).exponent =
      some (.double x.reread) := by
  have hread := Double.ofDigits_numeral x
  have hgoesOn := (Double.isProper_numeral x.rank).goesOn
  generalize Double.numeral x.rank = n at hread hgoesOn ⊢
  have hplain : ((if n.fraction.isEmpty then none else some n.fraction).isNone &&
      n.exponent.isNone) = false := by
    rcases hgoesOn with hfraction | hexponent
    · simp [hfraction]
    · obtain ⟨e, he⟩ := Option.ne_none_iff_exists'.1 hexponent
      simp [he]
  have hdigits : (if n.fraction.isEmpty then none else some n.fraction).getD [] = n.fraction := by
    split
    · next hempty => exact (List.isEmpty_iff.1 hempty).symm
    · rfl
  rw [number?]
  simp only [hplain, hdigits, Bool.false_and, Bool.false_eq_true, if_false, hread, Option.map_some]

/-- The text of a number is a sign and a numeral, which is read back. -/
theorem numeral?_numberChars (n : Number) (h : EndsValue rest) :
    ∃ negative cs, numberChars n = (if negative then '-' :: cs else cs) ∧
      (∃ c cs', cs = c :: cs' ∧ c.isDigit = true) ∧
      numeral? negative (cs ++ rest) = some (ofNumber? (readNumber? n), rest) := by
  cases n with
  | int n =>
    refine ⟨decide (n < 0), Nat.toDigits 10 n.natAbs, by simp [numberChars, intChars], ?_, ?_⟩
    · obtain ⟨c, cs, hcs⟩ := List.exists_cons_of_ne_nil (Nat.toDigits_ne_nil (n := n.natAbs))
      exact ⟨c, cs, hcs, Text.isDigit_of_mem_toDigits (hcs ▸ List.mem_cons_self)⟩
    · refine numeral?_append (spells_toDigits _) (Double.isWhole_digitsOf _) h.not_isDigit
        (fraction?_of_not_point fun hpoint => absurd (h _ hpoint) (by decide))
        (exponent?_of_endsValue h)
  | double x =>
    have hproper := Double.isProper_numeral x.rank
    obtain ⟨rest', hfraction, hexponent⟩ := fraction?_behind hproper h
    have hbehind : ∀ c ∈ ((Double.numeral x.rank).behind ++ rest).head?, c.isDigit = false := by
      intro c hc
      obtain ⟨d, ds, hds⟩ := List.exists_cons_of_ne_nil hproper.behind_ne_nil
      rw [hds, List.cons_append] at hc
      have hd : d ∈ (Double.numeral x.rank).behind.head? := by rw [hds]; rfl
      obtain rfl := Option.some.inj hc
      rcases Double.Numeral.head?_behind hd with rfl | rfl <;> rfl
    have hspells := spells_digitChar hproper.whole
    refine ⟨x.negative, (Double.numeral x.rank).text, rfl, ?_, ?_⟩
    · obtain ⟨d, ds, hds⟩ := List.exists_cons_of_ne_nil (Double.isWhole_numeral x.rank).ne_nil
      rw [hds] at hspells
      exact ⟨_, _, by rw [Double.Numeral.text_eq, hds]; rfl, hspells.isDigit _ List.mem_cons_self⟩
    · rw [Double.Numeral.text_eq, List.append_assoc,
        numeral?_append hspells (Double.isWhole_numeral _) hbehind hfraction hexponent,
        number?_numeral]
      rfl

/-! ## Tokens -/

theorem tokens_cons {c : Char} {t : Token} (hc : isSpace c = false)
    (h : lexeme? c cs = some (t, rest)) : tokens (c :: cs) = t :: tokens rest := by
  have hskip : skipSpace (c :: cs) = c :: cs := List.dropWhile_cons_of_neg (by simp [hc])
  rw [tokens]
  split
  · next heq =>
    rw [hskip] at heq
    cases heq
  · next heq =>
    obtain ⟨rfl, rfl⟩ := List.cons.inj (hskip.symm.trans heq)
    split
    · next hnone => cases h.symm.trans hnone
    · next hsome =>
      obtain ⟨rfl, rfl⟩ := Prod.mk.inj (Option.some.inj (h.symm.trans hsome))
      rfl

theorem tokens_punctuation {c : Char} {t : Token} (hc : isSpace c = false)
    (h : punctuation? c = some t) (cs : List Char) : tokens (c :: cs) = t :: tokens cs := by
  refine tokens_cons hc ?_
  rw [lexeme?, h]

theorem tokens_textChars (s : String) (rest : List Char) :
    tokens (textChars s ++ rest) = .str s :: tokens rest := by
  have hchars : textChars s ++ rest = '"' :: (s.toList.flatMap escapedChar ++ '"' :: rest) := by
    rw [textChars, List.cons_append, List.cons_append, List.append_assoc, List.singleton_append]
  rw [hchars]
  exact tokens_cons rfl (text?_textChars s rest)

theorem exists_digitChar {c : Char} (h : c.isDigit = true) : ∃ d < 10, c = Nat.digitChar d := by
  simp only [Char.isDigit, Bool.and_eq_true, decide_eq_true_eq, ge_iff_le,
    UInt32.le_iff_toNat_le] at h
  have hbounds : 48 ≤ c.toNat ∧ c.toNat ≤ 57 := h
  refine ⟨c.toNat - 48, by omega, Char.toNat_inj.1 ?_⟩
  rw [Nat.toNat_digitChar_of_lt_ten (by omega)]
  omega

theorem tokens_numberChars (n : Number) (h : EndsValue rest) :
    tokens (numberChars n ++ rest) = ofNumber? (readNumber? n) :: tokens rest := by
  obtain ⟨negative, cs, hchars, ⟨c, cs', rfl, hc⟩, hread⟩ := numeral?_numberChars n h
  rw [hchars]
  cases negative with
  | true => exact tokens_cons rfl hread
  | false =>
    have hplain : ∀ d < 10, isSpace (Nat.digitChar d) = false ∧
        punctuation? (Nat.digitChar d) = none ∧ literal? (Nat.digitChar d) = none ∧
        Nat.digitChar d ≠ '"' ∧ Nat.digitChar d ≠ '-' := by decide
    obtain ⟨d, hd, rfl⟩ := exists_digitChar hc
    obtain ⟨hspace, hpunctuation, hliteral, hquote, hminus⟩ := hplain d hd
    refine tokens_cons hspace ?_
    rw [lexeme?, hpunctuation, hliteral]
    dsimp only
    rw [if_neg hquote, if_neg hminus, if_pos hc]
    exact hread

end Token

/-! ## Values -/

/-- A number as a reader has it. -/
def numberSource (n : Number) : Source := (readNumber? n).elim .valueless .num

mutual

/-- What a reader has of a value from its text, inside so many lists and objects. -/
def sourceAt (depth : Nat) : Json → Source
  | .null => .null
  | .bool b => .bool b
  | .num n => numberSource n
  | .str s => .str s
  | .arr items =>
    if depth < maxDepth then .arr (sourcesAt (depth + 1) items) .closed else .valueless
  | .obj members =>
    if depth < maxDepth then .obj (memberSourcesAt (depth + 1) members) .closed else .valueless

/-- What it has of the values of a list. -/
def sourcesAt (depth : Nat) : List Json → List Source
  | [] => []
  | v :: vs => sourceAt depth v :: sourcesAt depth vs

/-- What it has of the members of an object. -/
def memberSourcesAt (depth : Nat) : List (String × Json) → List (Option String × Source)
  | [] => []
  | (k, v) :: ms => (some k, sourceAt depth v) :: memberSourcesAt depth ms

end

namespace Frame

/-- Go on reading after a step. -/
def resume (stack : List Frame) (ts : List Token) : Step → Reading
  | .goOn stack => run stack ts
  | .complete value => ⟨value, !ts.isEmpty⟩
  | .fault => ⟨cutOffAll .cut stack, false⟩

theorem run_cons (stack : List Frame) (t : Token) (ts : List Token) :
    run stack (t :: ts) = resume stack ts (step stack t) := by
  rw [run]
  cases step stack t <;> rfl

variable {stack : List Frame}

theorem step_ofNumber? (n : Option Number) :
    step stack (.ofNumber? n) = place (n.elim .valueless .num) stack := by
  cases n <;> rw [Token.ofNumber?] <;> cases stack <;> rfl

/-- Where a value may come next, it finds its place. -/
theorem resume_place (h : expectsValue stack = true) (value : Source) (ts : List Token)
    (stack' : List Frame) :
    resume stack' ts (place value stack) = resume stack ts (place value stack) := by
  rcases stack with _ | ⟨_ | _ | _ | _ | _ | _ | _ | _, stack⟩ <;> first | rfl | cases h

theorem step_str (h : expectsValue stack = true) (s : String) :
    step stack (.str s) = place (.str s) stack := by
  rcases stack with _ | ⟨_ | _ | _ | _ | _ | _ | _ | _, stack⟩ <;> first | rfl | cases h

theorem resume_close (h : expectsValue stack = true) (value : Source) (ts : List Token)
    (stack' : List Frame) :
    resume stack' ts (close value stack) = resume stack ts (close value stack) :=
  resume_place h _ ts stack'

/-- A bracket completes a list without items. -/
theorem run_closeList (h : expectsValue stack = true) (ts : List Token) :
    run (.firstItem :: stack) (.closeList :: ts) = resume stack ts (close (.arr [] .closed) stack) := by
  rw [run_cons]
  exact resume_close h _ ts _

/-- A brace completes an object without members. -/
theorem run_closeObject (h : expectsValue stack = true) (ts : List Token) :
    run (.firstKey :: stack) (.closeObject :: ts) = resume stack ts (close (.obj [] .closed) stack) := by
  rw [run_cons]
  exact resume_close h _ ts _

/-- A key and a colon are followed by the value of a member. -/
theorem run_key {frame : Frame} {before : List (Option String × Source)} {k : String}
    (h : step (frame :: stack) (.str k) = .goOn (.afterKey before (some k) :: stack))
    (cs : List Char) :
    run (frame :: stack) (Token.tokens (textChars k ++ ':' :: cs)) =
      run (.member before (some k) :: stack) (Token.tokens cs) := by
  rw [Token.tokens_textChars, Token.tokens_punctuation (t := .colon) rfl rfl, run_cons, h]
  exact run_cons (.afterKey before (some k) :: stack) .colon (Token.tokens cs)

mutual

/-- The text of a value leaves the machine as the source of the value would. -/
theorem run_compactChars : (v : Json) → (stack : List Frame) → {rest : List Char} →
    expectsValue stack = true → EndsValue rest →
    run stack (Token.tokens (compactChars v ++ rest)) =
      resume stack (Token.tokens rest) (place (sourceAt stack.length v) stack)
  -- The induction is on the value.  An open list or object is a frame on top of the stack, and the
  -- items or members that are still to come complete it.
  | .null, stack, rest, _, _ => by
    have htokens : Token.tokens (compactChars .null ++ rest) = .null :: Token.tokens rest :=
      Token.tokens_cons rfl rfl
    rw [htokens, run_cons]
    cases stack <;> rfl
  | .bool b, stack, rest, _, _ => by
    have htokens : Token.tokens (compactChars (.bool b) ++ rest) = .bool b :: Token.tokens rest := by
      cases b <;> exact Token.tokens_cons rfl rfl
    rw [htokens, run_cons]
    cases stack <;> rfl
  | .num n, stack, rest, _, hrest => by
    rw [compactChars, Token.tokens_numberChars n hrest, run_cons, step_ofNumber?]
    rfl
  | .str s, stack, rest, h, _ => by
    rw [compactChars, Token.tokens_textChars, run_cons, step_str h]
    rfl
  | .arr [], stack, rest, h, _ => by
    rw [compactChars, List.cons_append, List.singleton_append,
      Token.tokens_punctuation (t := .openList) rfl rfl,
      Token.tokens_punctuation (t := .closeList) rfl rfl, run_cons, step, start, if_pos h]
    exact run_closeList h _
  | .arr (v :: vs), stack, rest, h, _ => by
    rw [compactChars, List.cons_append, List.append_assoc,
      Token.tokens_punctuation (t := .openList) rfl rfl, run_cons, step, start, if_pos h]
    have hitem := run_compactChars v (.firstItem :: stack) rfl (endsValue_items vs rest)
    exact hitem.trans (run_compactItems vs [sourceAt (stack.length + 1) v] h rest)
  | .obj [], stack, rest, h, _ => by
    rw [compactChars, List.cons_append, List.singleton_append,
      Token.tokens_punctuation (t := .openObject) rfl rfl,
      Token.tokens_punctuation (t := .closeObject) rfl rfl, run_cons, step, start, if_pos h]
    exact run_closeObject h _
  | .obj ((k, v) :: ms), stack, rest, h, _ => by
    rw [compactChars, List.cons_append, List.append_assoc, List.cons_append, List.append_assoc,
      Token.tokens_punctuation (t := .openObject) rfl rfl, run_cons, step, start, if_pos h]
    have hmember := run_compactChars v (.member [] (some k) :: stack) rfl
      (endsValue_members ms rest)
    exact (run_key rfl _).trans <| hmember.trans <|
      run_compactMembers ms [(some k, sourceAt (stack.length + 1) v)] h rest

/-- So do the items of a list after its first. -/
theorem run_compactItems : (vs : List Json) → (before : List Source) → {stack : List Frame} →
    expectsValue stack = true → (rest : List Char) →
    run (.afterItem before :: stack) (Token.tokens (compactItems vs ++ rest)) =
      resume stack (Token.tokens rest)
        (close (.arr (before.reverse ++ sourcesAt (stack.length + 1) vs) .closed) stack)
  | [], before, stack, h, rest => by
    rw [compactItems, List.singleton_append, Token.tokens_punctuation (t := .closeList) rfl rfl,
      run_cons, sourcesAt, List.append_nil]
    exact resume_close h _ _ _
  | v :: vs, before, stack, h, rest => by
    rw [compactItems, List.cons_append, List.append_assoc,
      Token.tokens_punctuation (t := .comma) rfl rfl, run_cons]
    have hitem := run_compactChars v (.nextItem before :: stack) rfl (endsValue_items vs rest)
    have hitems := run_compactItems vs (sourceAt (stack.length + 1) v :: before) h rest
    rw [List.reverse_cons, List.append_assoc] at hitems
    exact hitem.trans hitems

/-- So do the members of an object after its first. -/
theorem run_compactMembers : (ms : List (String × Json)) →
    (before : List (Option String × Source)) → {stack : List Frame} →
    expectsValue stack = true → (rest : List Char) →
    run (.afterMember before :: stack) (Token.tokens (compactMembers ms ++ rest)) =
      resume stack (Token.tokens rest)
        (close (.obj (before.reverse ++ memberSourcesAt (stack.length + 1) ms) .closed) stack)
  | [], before, stack, h, rest => by
    rw [compactMembers, List.singleton_append, Token.tokens_punctuation (t := .closeObject) rfl rfl,
      run_cons, memberSourcesAt, List.append_nil]
    exact resume_close h _ _ _
  | (k, v) :: ms, before, stack, h, rest => by
    rw [compactMembers, List.cons_append, List.append_assoc, List.cons_append, List.append_assoc,
      Token.tokens_punctuation (t := .comma) rfl rfl, run_cons]
    have hmember := run_compactChars v (.member before (some k) :: stack) rfl
      (endsValue_members ms rest)
    have hmembers := run_compactMembers ms ((some k, sourceAt (stack.length + 1) v) :: before) h rest
    rw [List.reverse_cons, List.append_assoc] at hmembers
    exact (run_key rfl _).trans (hmember.trans hmembers)

end

end Frame

/-- From the text of a value its source is read. -/
theorem readBack?_eq_read? (v : Json) : readBack? v = (sourceAt 0 v).read? := by
  have hend : EndsValue [] := by
    intro c hc
    cases hc
  have hnil : Token.tokens [] = [] := by rw [Token.tokens]; rfl
  have hrun := Frame.run_compactChars v [] rfl hend
  rw [List.append_nil, hnil] at hrun
  have htext : Reading.ofText v.compact = ⟨sourceAt 0 v, false⟩ := by
    rw [Reading.ofText, compact, String.toList_ofList, hrun]
    rfl
  rw [readBack?, parse?, htext]
  rfl

/-! ## What is read back -/

mutual

/-- Every integer in the value has 64 bits, as those that are read have. -/
def IsExact : Json → Prop
  | .num (.int n) => Token.isExact n = true
  | .arr items => IsExactItems items
  | .obj members => IsExactMembers members
  | _ => True

/-- So has every integer in the values of a list. -/
def IsExactItems : List Json → Prop
  | [] => True
  | v :: vs => v.IsExact ∧ IsExactItems vs

/-- So has every integer in the members of an object. -/
def IsExactMembers : List (String × Json) → Prop
  | [] => True
  | (_, v) :: ms => v.IsExact ∧ IsExactMembers ms

end

theorem readNumber?_int {n : Int} (h : Token.isExact n = true) :
    readNumber? (.int n) = some (.int n) := by
  rw [readNumber?, Token.number?]
  simp only [Token.valueOf_digitsOf, Option.isNone_none, Bool.and_self, Bool.true_and]
  rcases Int.lt_or_le n 0 with hneg | hpos
  · have hne : n ≠ 0 := by omega
    simp [hneg, hne, abs_of_neg hneg, h]
  · have habs : (n.natAbs : Int) = n := by omega
    have hneg : ¬ n < 0 := by omega
    simp [hneg, habs, h]

mutual

theorem depth_of_read? : (v : Json) → {depth : Nat} → {w : Json} → depth ≤ maxDepth →
    (sourceAt depth v).read? = some w → v.depth + depth ≤ maxDepth
  | .null, _, _, h, _ | .bool _, _, _, h, _ | .num _, _, _, h, _ | .str _, _, _, h, _ =>
    (Nat.zero_add _).trans_le h
  | .arr vs, depth, w, _, hw => by
    rw [sourceAt] at hw
    split at hw
    · next hlt =>
      obtain ⟨-, ws, hws, -⟩ := Source.read?_arr_eq_some_iff.1 hw
      have hitems := depth_of_readItems? vs hlt hws
      rw [Json.depth]
      omega
    · cases hw
  | .obj ms, depth, w, _, hw => by
    rw [sourceAt] at hw
    split at hw
    · next hlt =>
      obtain ⟨-, ns, hns, -⟩ := Source.read?_obj_eq_some_iff.1 hw
      have hmembers := depth_of_readMembers? ms hlt hns
      rw [Json.depth]
      omega
    · cases hw

theorem depth_of_readItems? : (vs : List Json) → {depth : Nat} → {ws : List Json} →
    depth ≤ maxDepth → Source.readItems? (sourcesAt depth vs) = some ws →
    depthItems vs + depth ≤ maxDepth
  | [], _, _, h, _ => (Nat.zero_add _).trans_le h
  | v :: vs, depth, ws, h, hws => by
    rw [sourcesAt, Source.readItems?] at hws
    split at hws
    · next hv hvs =>
      have hhead := depth_of_read? v h hv
      have htail := depth_of_readItems? vs h hvs
      rw [depthItems]
      omega
    · cases hws

theorem depth_of_readMembers? : (ms : List (String × Json)) → {depth : Nat} →
    {ns : List (String × Json)} → depth ≤ maxDepth →
    Source.readMembers? (memberSourcesAt depth ms) = some ns → depthMembers ms + depth ≤ maxDepth
  | [], _, _, h, _ => (Nat.zero_add _).trans_le h
  | (k, v) :: ms, depth, ns, h, hns => by
    rw [memberSourcesAt] at hns
    unfold Source.readMembers? at hns
    split at hns
    · next hv hms =>
      have hhead := depth_of_read? v h hv
      have htail := depth_of_readMembers? ms h hms
      rw [depthMembers]
      omega
    · cases hns

end

/-! ### Members in order -/

theorem entries_ofList_of_keys {ms : List (String × Json)}
    (h : (ms.map Prod.fst).Pairwise (· < ·)) : (KeyMap.ofList ms).entries = ms :=
  congrArg KeyMap.entries (KeyMap.ofList_entries ⟨ms, List.pairwise_map.1 h⟩)

theorem Ordered.keys {ms : List (String × Json)} (h : Ordered (.obj ms)) :
    (ms.map Prod.fst).Pairwise (· < ·) := by
  have hentries : (KeyMap.ofList (sortKeysMembers ms)).entries = ms := Json.obj.inj h
  rw [← hentries]
  exact List.pairwise_map.2 (KeyMap.ofList (sortKeysMembers ms)).sorted

theorem keys_rereadMembers (ms : List (String × Json)) :
    (rereadMembers ms).map Prod.fst = ms.map Prod.fst := by
  induction ms with
  | nil => rfl
  | cons m ms ih => rw [rereadMembers, List.map_cons, List.map_cons, ih]

theorem keys_of_readMembers? {depth : Nat} {ms kvs : List (String × Json)}
    (h : Source.readMembers? (memberSourcesAt depth ms) = some kvs) :
    kvs.map Prod.fst = ms.map Prod.fst := by
  induction ms generalizing kvs with
  | nil =>
    cases h
    rfl
  | cons m ms ih =>
    rw [memberSourcesAt] at h
    unfold Source.readMembers? at h
    split at h
    · next hk _ hms =>
      cases h
      rw [List.map_cons, List.map_cons, ih hms, Option.some.inj hk]
    · cases h

mutual

theorem read?_of_depth : (v : Json) → {depth : Nat} → v.IsExact → v.Ordered →
    v.depth + depth ≤ maxDepth → (sourceAt depth v).read? = some v.reread
  | .null, _, _, _, _ | .bool _, _, _, _, _ | .str _, _, _, _, _ => rfl
  | .num (.int n), _, h, _, _ => by
    rw [sourceAt, numberSource, readNumber?_int h]
    rfl
  | .num (.double x), _, _, _, _ => rfl
  | .arr vs, depth, h, hordered, hdepth => by
    rw [Json.depth] at hdepth
    rw [sourceAt, if_pos (by omega)]
    have hitems : Source.readItems? (sourcesAt (depth + 1) vs) = _ :=
      readItems?_of_depth vs h hordered.items (by omega)
    exact Source.read?_arr_eq_some_iff.2 ⟨by decide, _, hitems, rfl⟩
  | .obj ms, depth, h, hordered, hdepth => by
    rw [Json.depth] at hdepth
    rw [sourceAt, if_pos (by omega)]
    have hmembers : Source.readMembers? (memberSourcesAt (depth + 1) ms) = _ :=
      readMembers?_of_depth ms h hordered.members (by omega)
    refine Source.read?_obj_eq_some_iff.2 ⟨by decide, _, hmembers, ?_⟩
    rw [entries_ofList_of_keys (by rw [keys_rereadMembers]; exact hordered.keys)]
    rfl

theorem readItems?_of_depth : (vs : List Json) → {depth : Nat} → IsExactItems vs →
    (∀ v ∈ vs, v.Ordered) → depthItems vs + depth ≤ maxDepth →
    Source.readItems? (sourcesAt depth vs) = some (rereadItems vs)
  | [], _, _, _, _ => rfl
  | v :: vs, depth, h, hordered, hdepth => by
    rw [depthItems] at hdepth
    obtain ⟨hv, hvs⟩ := List.forall_mem_cons.1 hordered
    rw [sourcesAt, Source.readItems?, read?_of_depth v h.1 hv (by omega),
      readItems?_of_depth vs h.2 hvs (by omega), rereadItems]

theorem readMembers?_of_depth : (ms : List (String × Json)) → {depth : Nat} → IsExactMembers ms →
    (∀ m ∈ ms, m.2.Ordered) → depthMembers ms + depth ≤ maxDepth →
    Source.readMembers? (memberSourcesAt depth ms) = some (rereadMembers ms)
  | [], _, _, _, _ => rfl
  | (k, v) :: ms, depth, h, hordered, hdepth => by
    rw [depthMembers] at hdepth
    obtain ⟨hv, hms⟩ := List.forall_mem_cons.1 hordered
    have hvalue : (sourceAt depth v).read? = _ := read?_of_depth v h.1 hv (by omega)
    have hmembers : Source.readMembers? (memberSourcesAt depth ms) = _ :=
      readMembers?_of_depth ms h.2 hms (by omega)
    rw [memberSourcesAt, Source.readMembers?.eq_def]
    simp only [hvalue, hmembers, rereadMembers]

end

/-- What is read back from the text of a value: the value with its doubles reread, unless its text is
nested too deep to be read. -/
theorem readBack?_eq {v : Json} (hexact : v.IsExact) (hordered : v.Ordered) :
    v.readBack? = if v.depth ≤ maxDepth then some v.reread else none := by
  rw [readBack?_eq_read?]
  split
  · next h => exact read?_of_depth v hexact hordered h
  · next h =>
    rw [Option.eq_none_iff_forall_ne_some]
    intro w hw
    exact h (depth_of_read? v (Nat.zero_le _) hw)

mutual

theorem reread_of_read? : (v : Json) → {depth : Nat} → (sourceAt depth v).read? = some v →
    v.reread = v
  | .null, _, _ | .bool _, _, _ | .str _, _, _ | .num (.int _), _, _ => rfl
  | .num (.double x), _, h => Option.some.inj h
  | .arr vs, depth, h => by
    rw [sourceAt] at h
    split at h
    · obtain ⟨-, ws, hws, heq⟩ := Source.read?_arr_eq_some_iff.1 h
      obtain rfl := Json.arr.inj heq
      exact congrArg Json.arr (reread_of_readItems? _ hws)
    · cases h
  | .obj ms, depth, h => by
    rw [sourceAt] at h
    split at h
    · obtain ⟨-, kvs, hkvs, heq⟩ := Source.read?_obj_eq_some_iff.1 h
      have hentries := Json.obj.inj heq
      have hkeys : (kvs.map Prod.fst).Pairwise (· < ·) := by
        rw [keys_of_readMembers? hkvs, hentries]
        exact List.pairwise_map.2 (KeyMap.ofList kvs).sorted
      rw [entries_ofList_of_keys hkeys] at hentries
      obtain rfl := hentries
      exact congrArg Json.obj (reread_of_readMembers? _ hkvs)
    · cases h

theorem reread_of_readItems? : (vs : List Json) → {depth : Nat} →
    Source.readItems? (sourcesAt depth vs) = some vs → rereadItems vs = vs
  | [], _, _ => rfl
  | v :: vs, depth, h => by
    rw [sourcesAt, Source.readItems?] at h
    split at h
    · next hv hvs =>
      cases h
      rw [rereadItems, reread_of_read? v hv, reread_of_readItems? vs hvs]
    · cases h

theorem reread_of_readMembers? : (ms : List (String × Json)) → {depth : Nat} →
    Source.readMembers? (memberSourcesAt depth ms) = some ms → rereadMembers ms = ms
  | [], _, _ => rfl
  | (k, v) :: ms, depth, h => by
    rw [memberSourcesAt] at h
    unfold Source.readMembers? at h
    split at h
    · next hv hms =>
      cases h
      rw [rereadMembers, reread_of_read? v hv, reread_of_readMembers? ms hms]
    · cases h

end

/-! ## What survives -/

/-- As the value of a property, the value is read back from its text as it was written. -/
def Survives (v : Json) : Prop := ∀ k, readBack? (.obj [(k, v)]) = some (.obj [(k, v)])

theorem readBack?_obj_eq_self_iff {ms : List (String × Json)}
    (h : (ms.map Prod.fst).Pairwise (· < ·)) :
    readBack? (.obj ms) = some (.obj ms) ↔ ∀ m ∈ ms, (sourceAt 1 m.2).read? = some m.2 := by
  have hsource : sourceAt 0 (.obj ms) = .obj (memberSourcesAt 1 ms) .closed := by
    rw [sourceAt, if_pos (by decide)]
  have hmembers : Source.readMembers? (memberSourcesAt 1 ms) = some ms ↔
      ∀ m ∈ ms, (sourceAt 1 m.2).read? = some m.2 := by
    have hmap : memberSourcesAt 1 ms = ms.map fun m => (some m.1, sourceAt 1 m.2) := by
      clear h hsource
      induction ms with
      | nil => rfl
      | cons m ms ih => rw [memberSourcesAt, ih, List.map_cons]
    rw [Source.readMembers?_eq_some_iff, hmap, List.forall₂_map_left_iff, List.forall₂_same]
    simp
  rw [readBack?_eq_read?, hsource, Source.read?_obj_eq_some_iff, ← hmembers]
  constructor
  · rintro ⟨-, kvs, hkvs, heq⟩
    have hentries := Json.obj.inj heq
    rw [entries_ofList_of_keys (by rw [keys_of_readMembers? hkvs]; exact h)] at hentries
    rw [hkvs, hentries]
  · intro hms
    exact ⟨by decide, ms, hms, by rw [entries_ofList_of_keys h]⟩

theorem survives_iff {v : Json} : v.Survives ↔ (sourceAt 1 v).read? = some v := by
  have hone : ∀ k, readBack? (.obj [(k, v)]) = some (.obj [(k, v)]) ↔
      (sourceAt 1 v).read? = some v := by
    intro k
    rw [readBack?_obj_eq_self_iff (List.pairwise_singleton _ _)]
    simp
  exact ⟨fun h => (hone "").1 (h ""), fun h k => (hone k).2 h⟩

theorem survives_str (s : String) : (Json.str s).Survives := survives_iff.2 rfl

theorem Survives.reread {v : Json} (h : v.Survives) : v.reread = v :=
  reread_of_read? v (survives_iff.1 h)

theorem Survives.depth_lt {v : Json} (h : v.Survives) : v.depth < maxDepth :=
  depth_of_read? v (by decide) (survives_iff.1 h)

end DatasetGraph.Json

namespace DatasetGraph

/-- The values of properties survive exactly if the properties are read back from their text as they
were written. -/
theorem Properties.all_survives_iff {p : Properties} :
    p.All Json.Survives ↔ p.toJson.readBack? = some p.toJson := by
  have hkeys : (p.entries.map Prod.fst).Pairwise (· < ·) := List.pairwise_map.2 p.sorted
  rw [Properties.toJson, Json.ofMap, Json.readBack?_obj_eq_self_iff hkeys]
  constructor
  · intro h m hm
    exact Json.survives_iff.1 (h m.1 m.2 (KeyMap.get?_eq_some_iff.2 hm))
  · intro h k v hv
    exact Json.survives_iff.2 (h (k, v) (KeyMap.get?_eq_some_iff.1 hv))

end DatasetGraph
