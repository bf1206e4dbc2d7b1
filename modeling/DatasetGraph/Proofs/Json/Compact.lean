import DatasetGraph.Graph.Basic
import DatasetGraph.Json.Token
import DatasetGraph.Proofs.Double.Shortest
import DatasetGraph.Proofs.Json.Value

/-!
# The text of a value names it

No two values have one text without white space (`compact_injective`), and so no two lists of
properties have (`Properties.text_injective`).

A text of several values can be cut in one way only.  Texts end at the first quote that is not
escaped, and their characters are read back as they were (`Token.text?_textChars`).  Numbers end
where a character comes that is in no number, and such a one, or nothing, follows every value
(`numberChars_append_inj`).  Of everything else the first character tells what it is
(`sameKind_of_append`), and its parts are cut by induction (`compactChars_append_inj`).
-/

namespace DatasetGraph

namespace Json

/-! ## Texts -/

namespace Token

/-- The part is what one character of a text is written as. -/
def Part.StandsFor : Part → Char → Prop
  | .char d, c => d = c
  | .code n, c => n = c.toNat ∧ n < 0x20

theorem Part.StandsFor.join? {p : Part} {c : Char} (h : p.StandsFor c) (ps : List Part) :
    join? (p :: ps) = (join? ps).map (c :: ·) := by
  cases p with
  | char d =>
    obtain rfl : d = c := h
    rw [Token.join?]
  | code n =>
    obtain ⟨rfl, hcontrol⟩ := h
    have hhigh : isHighHalf c.toNat = false := by
      rw [isHighHalf, Bool.and_eq_false_iff, decide_eq_false_iff_not]
      exact .inl (by omega)
    have hlow : isLowHalf c.toNat = false := by
      rw [isLowHalf, Bool.and_eq_false_iff, decide_eq_false_iff_not]
      exact .inl (by omega)
    cases ps with
    | nil => simp [Token.join?, hhigh, hlow]
    | cons q ps => cases q <;> simp [Token.join?, hhigh, hlow]

/-- A control character is written as its number. -/
theorem lower_of_control {n : Nat} (h : n < 0x20) :
    ∃ a b c d, Text.Hex.lower n 4 = [a, b, c, d] ∧ Text.Hex.ofDigits [a, b, c, d] = some n := by
  have hread : ∀ n < 0x20, Text.Hex.ofDigits (Text.Hex.lower n 4) = some n := by decide
  have hlen : (Text.Hex.lower n 4).length = 4 := by simp [Text.Hex.lower]
  obtain ⟨a, b, c, d, heq⟩ := List.length_eq_four.1 hlen
  exact ⟨a, b, c, d, heq, heq ▸ hread n h⟩

/-- A character is escaped by a letter or by its number, or stands for itself. -/
theorem escapedChar_cases (c : Char) :
    (∃ e, e ≠ 'u' ∧ shortEscape? e = some c ∧ escapedChar c = ['\\', e]) ∨
    (c.toNat < 0x20 ∧ escapedChar c = '\\' :: 'u' :: Text.Hex.lower c.toNat 4) ∨
    (c ≠ '"' ∧ c ≠ '\\' ∧ 0x20 ≤ c.toNat ∧ escapedChar c = [c]) := by
  by_cases hletter : c ∈ ['"', '\\', '\n', '\r', '\t', '\x08', '\x0c']
  · left
    simp only [List.mem_cons, List.not_mem_nil, or_false] at hletter
    rcases hletter with rfl | rfl | rfl | rfl | rfl | rfl | rfl <;>
      exact ⟨_, by decide, rfl, rfl⟩
  · right
    simp only [List.mem_cons, List.not_mem_nil, or_false, not_or] at hletter
    obtain ⟨hquote, hslash, hline, hreturn, htab, hback, hfeed⟩ := hletter
    rw [escapedChar, if_neg hquote, if_neg hslash, if_neg hline, if_neg hreturn, if_neg htab,
      if_neg hback, if_neg hfeed]
    split
    · next hcontrol => exact .inl ⟨hcontrol, rfl⟩
    · next hplain => exact .inr ⟨hquote, hslash, Nat.le_of_not_lt hplain, rfl⟩

/-- Each character of a text is read back. -/
theorem parts?_escapedChar (c : Char) : ∃ p : Part, p.StandsFor c ∧
    ∀ {cs ps rest}, parts? cs = some (ps, rest) →
      parts? (escapedChar c ++ cs) = some (p :: ps, rest) := by
  rcases escapedChar_cases c with ⟨e, hne, he, heq⟩ | ⟨hcontrol, heq⟩ | ⟨hquote, hslash, hle, heq⟩
  · refine ⟨.char c, rfl, fun {cs ps rest} h => ?_⟩
    rw [heq, List.cons_append, List.cons_append, List.nil_append, parts?, he, h]
    · rfl
    · -- The escape of one letter is not the start of one by number.
      intro a b d f rest hu _
      exact hne hu
  · obtain ⟨a, b, d, e, hdigits, hvalue⟩ := lower_of_control hcontrol
    refine ⟨.code c.toNat, ⟨rfl, hcontrol⟩, fun {cs ps rest} h => ?_⟩
    rw [heq, hdigits]
    simp only [List.cons_append, List.nil_append]
    rw [parts?, hvalue, h]
    rfl
  · refine ⟨.char c, rfl, fun {cs ps rest} h => ?_⟩
    have hplain : ¬ (c.toNat < 0x20 ∨ c = '\\') := by
      rintro (hcontrol | hc)
      · omega
      · exact hslash hc
    rw [heq, List.singleton_append, parts?, if_neg hplain, h]
    · rfl
    · exact hquote
    · exact fun _ _ _ _ _ hc => (hslash hc).elim
    · exact fun _ _ hc => (hslash hc).elim

/-- A text is read back, up to its closing quote. -/
theorem text?_textChars (s : String) (rest : List Char) :
    text? (s.toList.flatMap escapedChar ++ '"' :: rest) = some (.str s, rest) := by
  have hparts : ∀ cs : List Char, ∃ ps, join? ps = some cs ∧
      parts? (cs.flatMap escapedChar ++ '"' :: rest) = some (ps, rest) := by
    intro cs
    induction cs with
    | nil => exact ⟨[], rfl, by rw [List.flatMap_nil, List.nil_append, parts?]⟩
    | cons c cs ih =>
      obtain ⟨ps, hjoin, hread⟩ := ih
      obtain ⟨p, hp, hcons⟩ := parts?_escapedChar c
      refine ⟨p :: ps, by rw [hp.join?, hjoin, Option.map_some], ?_⟩
      rw [List.flatMap_cons, List.append_assoc, hcons hread]
  obtain ⟨ps, hjoin, hread⟩ := hparts s.toList
  rw [text?, hread, Option.bind_eq_bind, Option.bind_some]
  dsimp only
  rw [hjoin]
  show some (Token.str (String.ofList s.toList), rest) = _
  rw [String.ofList_toList]

end Token

/-- A text ends at its closing quote. -/
theorem textChars_append_inj {s t : String} {r r' : List Char}
    (h : textChars s ++ r = textChars t ++ r') : s = t ∧ r = r' := by
  have hread : ∀ (u : String) (q : List Char),
      (textChars u ++ q).tail = u.toList.flatMap escapedChar ++ '"' :: q := by
    intro u q
    rw [textChars, List.cons_append, List.cons_append, List.tail_cons, List.append_assoc,
      List.singleton_append]
  have hs := Token.text?_textChars s r
  rw [← hread, h, hread, Token.text?_textChars] at hs
  cases hs
  exact ⟨rfl, rfl⟩

/-! ## Numbers -/

/-- The characters of numbers. -/
def isNumeric (c : Char) : Bool := c.isDigit || c = '-' || c = '+' || c = '.' || c = 'e'

theorem isNumeric_of_isDigit {c : Char} (h : c.isDigit = true) : isNumeric c = true := by
  simp [isNumeric, h]

theorem mem_intChars {n : Int} {c : Char} (h : c ∈ intChars n) : c = '-' ∨ c.isDigit = true := by
  unfold intChars at h
  split at h
  · exact (List.mem_cons.1 h).imp_right Text.isDigit_of_mem_toDigits
  · exact .inr (Text.isDigit_of_mem_toDigits h)

theorem intChars_injective : Function.Injective intChars := by
  have hsign : ∀ n : Int, intChars n =
      if decide (n < 0) then '-' :: Nat.toDigits 10 n.natAbs else Nat.toDigits 10 n.natAbs := by
    intro n
    simp [intChars]
  have hhead : ∀ n : Int, '-' ∉ (Nat.toDigits 10 n.natAbs).head? := by
    intro n h
    exact absurd (Text.isDigit_of_mem_toDigits (List.mem_of_mem_head? h)) (by decide)
  intro m n h
  rw [hsign, hsign] at h
  obtain ⟨hnegative, hdigits⟩ := Text.sign_inj (hhead m) (hhead n) h
  have habs := Text.toDigits_injective hdigits
  have := decide_eq_decide.1 hnegative
  omega

theorem isNumeric_of_mem_exponentText {e : Int} {c : Char} (h : c ∈ Double.exponentText e) :
    isNumeric c = true := by
  rw [Double.exponentText, List.mem_cons, List.mem_cons] at h
  rcases h with rfl | rfl | h
  · rfl
  · split <;> rfl
  · exact isNumeric_of_isDigit (Text.isDigit_of_mem_toDigits h)

theorem isNumeric_of_mem_behind {n : Double.Numeral} (hn : n.IsProper) {c : Char}
    (h : c ∈ n.behind) : isNumeric c = true := by
  rcases List.mem_append.1 h with h | h
  · split at h
    · cases h
    · rcases List.mem_cons.1 h with rfl | h
      · rfl
      · exact isNumeric_of_isDigit (Double.isDigit_of_mem_map_digitChar hn.fraction c h)
  · cases he : n.exponent with
    | none => simp [he] at h
    | some e => exact isNumeric_of_mem_exponentText (by simpa [he] using h)

theorem isNumeric_of_mem_text {x : Double} {c : Char} (h : c ∈ x.text) : isNumeric c = true := by
  have hproper := Double.isProper_numeral x.rank
  have hmagnitude : ∀ c ∈ (Double.numeral x.rank).text, isNumeric c = true := by
    intro c hc
    rw [Double.Numeral.text_eq] at hc
    rcases List.mem_append.1 hc with hc | hc
    · exact isNumeric_of_isDigit (Double.isDigit_of_mem_map_digitChar hproper.whole c hc)
    · exact isNumeric_of_mem_behind hproper hc
  rw [Double.text] at h
  split at h
  · rcases List.mem_cons.1 h with rfl | h
    · rfl
    · exact hmagnitude c h
  · exact hmagnitude c h

theorem isNumeric_of_mem_numberChars {n : Number} {c : Char} (h : c ∈ numberChars n) :
    isNumeric c = true := by
  cases n with
  | int n =>
    rcases mem_intChars h with rfl | hdigit
    · rfl
    · exact isNumeric_of_isDigit hdigit
  | double x => exact isNumeric_of_mem_text h

theorem intChars_ne_text (n : Int) (x : Double) : intChars n ≠ x.text := by
  intro h
  obtain ⟨c, hc, hbehind⟩ := Double.exists_mem_text x
  rcases mem_intChars (h ▸ hc) with rfl | hdigit
  · rcases hbehind with h | h <;> cases h
  · rcases hbehind with rfl | rfl <;> cases hdigit

theorem numberChars_injective : Function.Injective numberChars := by
  intro m n h
  cases m with
  | int m =>
    cases n with
    | int n => rw [intChars_injective h]
    | double y => exact absurd h (intChars_ne_text m y)
  | double x =>
    cases n with
    | int n => exact absurd h.symm (intChars_ne_text n x)
    | double y => rw [Double.text_injective h]

/-- No number goes on behind the text. -/
def EndsNumber (rest : List Char) : Prop := ∀ c ∈ rest.head?, isNumeric c = false

theorem numberChars_append_inj {m n : Number} {r s : List Char} (hr : EndsNumber r)
    (hs : EndsNumber s) (h : numberChars m ++ r = numberChars n ++ s) : m = n ∧ r = s := by
  obtain ⟨hnumbers, hrest⟩ := Text.run_append_inj (fun _ => isNumeric_of_mem_numberChars)
    (fun _ => isNumeric_of_mem_numberChars) hr hs h
  exact ⟨numberChars_injective hnumbers, hrest⟩

/-! ## Values -/

/-- The first character of a value; for a number, a digit. -/
def lead : Json → Char
  | .null => 'n'
  | .bool true => 't'
  | .bool false => 'f'
  | .num _ => '0'
  | .str _ => '"'
  | .arr _ => '['
  | .obj _ => '{'

theorem numberChars_ne_nil (n : Number) : numberChars n ≠ [] := by
  cases n with
  | int n =>
    rw [numberChars, intChars]
    split
    · exact List.cons_ne_nil _ _
    · exact Nat.toDigits_ne_nil
  | double x =>
    obtain ⟨c, hc, -⟩ := Double.exists_mem_text x
    exact List.ne_nil_of_mem hc

/-- A value starts with a character that tells what it is. -/
theorem exists_compactChars_eq_cons (v : Json) : ∃ c cs, compactChars v = c :: cs ∧
    v.lead = if isNumeric c then '0' else c := by
  cases v with
  | null => exact ⟨_, _, by rw [compactChars], rfl⟩
  | bool b => cases b <;> exact ⟨_, _, by rw [compactChars], rfl⟩
  | num n =>
    obtain ⟨c, cs, h⟩ := List.exists_cons_of_ne_nil (numberChars_ne_nil n)
    have hnumeric : isNumeric c = true :=
      isNumeric_of_mem_numberChars (n := n) (h ▸ List.mem_cons_self)
    exact ⟨c, cs, by rw [compactChars, h], by rw [hnumeric]; rfl⟩
  | str s => exact ⟨_, _, by rw [compactChars, textChars]; rfl, rfl⟩
  | arr items => cases items <;> exact ⟨_, _, by rw [compactChars], rfl⟩
  | obj members => cases members <;> exact ⟨_, _, by rw [compactChars], rfl⟩

/-- Two values that may have one text, as far as their first characters tell. -/
inductive SameKind : Json → Json → Prop where
  | null : SameKind .null .null
  | bool (b : Bool) : SameKind (.bool b) (.bool b)
  | num (m n : Number) : SameKind (.num m) (.num n)
  | str (s t : String) : SameKind (.str s) (.str t)
  | arr (vs ws : List Json) : SameKind (.arr vs) (.arr ws)
  | obj (ms ns : List (String × Json)) : SameKind (.obj ms) (.obj ns)

theorem sameKind_of_append {v w : Json} {r s : List Char}
    (h : compactChars v ++ r = compactChars w ++ s) : SameKind v w := by
  have hlead : v.lead = w.lead := by
    obtain ⟨c, cs, hv, hc⟩ := exists_compactChars_eq_cons v
    obtain ⟨d, ds, hw, hd⟩ := exists_compactChars_eq_cons w
    rw [hv, hw, List.cons_append, List.cons_append] at h
    rw [hc, hd, (List.cons.inj h).1]
  -- On the diagonal there is a rule; elsewhere the first characters differ.
  rcases v with _ | (_ | _) | m | t | vs | ms <;> rcases w with _ | (_ | _) | n | u | ws | ns <;>
    first | constructor | cases hlead

/-- No value starts with the bracket that closes a list. -/
theorem compactChars_append_ne {v : Json} {r s : List Char} :
    compactChars v ++ r ≠ ']' :: s := by
  obtain ⟨c, cs, hv, hlead⟩ := exists_compactChars_eq_cons v
  rw [hv, List.cons_append]
  intro h
  have hclose : v.lead = ']' := by rw [hlead, (List.cons.inj h).1]; rfl
  rcases v with _ | (_ | _) | n | t | vs | ms <;> cases hclose

theorem endsNumber_items (vs : List Json) (r : List Char) : EndsNumber (compactItems vs ++ r) := by
  cases vs <;> rw [compactItems] <;> intro c hc <;> cases hc <;> rfl

theorem endsNumber_members (ms : List (String × Json)) (r : List Char) :
    EndsNumber (compactMembers ms ++ r) := by
  cases ms <;> rw [compactMembers] <;> intro c hc <;> cases hc <;> rfl

mutual

/-- A text falls in one way into a value and what follows it. -/
theorem compactChars_append_inj : (v w : Json) → {r s : List Char} → EndsNumber r → EndsNumber s →
    compactChars v ++ r = compactChars w ++ s → v = w ∧ r = s
  -- The induction is on the first value.  What stands behind a part of it is either more items or
  -- members, or the bracket that closes them, and none of these goes on a number.
  | .null, w, r, s, _, _, h => by
    cases sameKind_of_append h
    exact ⟨rfl, List.append_cancel_left h⟩
  | .bool b, w, r, s, _, _, h => by
    cases sameKind_of_append h
    exact ⟨rfl, List.append_cancel_left h⟩
  | .num m, w, r, s, hr, hs, h => by
    cases sameKind_of_append h
    rw [compactChars, compactChars] at h
    exact (numberChars_append_inj hr hs h).imp_left (congrArg _)
  | .str t, w, r, s, _, _, h => by
    cases sameKind_of_append h
    rw [compactChars, compactChars] at h
    exact (textChars_append_inj h).imp_left (congrArg _)
  | .arr [], w, r, s, _, _, h => by
    cases sameKind_of_append h with
    | arr _ ws =>
      cases ws with
      | nil => exact ⟨rfl, List.append_cancel_left h⟩
      | cons w ws =>
        simp only [compactChars, List.cons_append, List.append_assoc, List.cons.injEq] at h
        exact absurd h.2.symm compactChars_append_ne
  | .arr (v :: vs), w, r, s, _, _, h => by
    cases sameKind_of_append h with
    | arr _ ws =>
      cases ws with
      | nil =>
        simp only [compactChars, List.cons_append, List.append_assoc, List.cons.injEq] at h
        exact absurd h.2 compactChars_append_ne
      | cons w ws =>
        simp only [compactChars, List.cons_append, List.append_assoc, List.cons.injEq] at h
        obtain ⟨rfl, hitems⟩ := compactChars_append_inj v w (endsNumber_items vs r)
          (endsNumber_items ws s) h.2
        obtain ⟨rfl, hrest⟩ := compactItems_append_inj vs ws hitems
        exact ⟨rfl, hrest⟩
  | .obj [], w, r, s, _, _, h => by
    cases sameKind_of_append h with
    | obj _ ns =>
      cases ns with
      | nil => exact ⟨rfl, List.append_cancel_left h⟩
      | cons n ns => simp [compactChars, textChars] at h
  | .obj ((k, v) :: ms), w, r, s, _, _, h => by
    cases sameKind_of_append h with
    | obj _ ns =>
      cases ns with
      | nil => simp [compactChars, textChars] at h
      | cons n ns =>
        simp only [compactChars, List.cons_append, List.append_assoc, List.cons.injEq] at h
        obtain ⟨rfl, hvalue⟩ := textChars_append_inj h.2
        obtain ⟨rfl, hmembers⟩ := compactChars_append_inj v n.2 (endsNumber_members ms r)
          (endsNumber_members ns s) (List.cons.inj hvalue).2
        obtain ⟨rfl, hrest⟩ := compactMembers_append_inj ms ns hmembers
        exact ⟨rfl, hrest⟩

/-- So it does into the items of a list. -/
theorem compactItems_append_inj : (vs ws : List Json) → {r s : List Char} →
    compactItems vs ++ r = compactItems ws ++ s → vs = ws ∧ r = s
  | [], [], _, _, h => ⟨rfl, List.append_cancel_left h⟩
  | [], _ :: _, _, _, h | _ :: _, [], _, _, h => by simp [compactItems] at h
  | v :: vs, w :: ws, r, s, h => by
    simp only [compactItems, List.cons_append, List.append_assoc, List.cons.injEq] at h
    obtain ⟨rfl, hitems⟩ := compactChars_append_inj v w (endsNumber_items vs r)
      (endsNumber_items ws s) h.2
    obtain ⟨rfl, hrest⟩ := compactItems_append_inj vs ws hitems
    exact ⟨rfl, hrest⟩

/-- So it does into the members of an object. -/
theorem compactMembers_append_inj : (ms ns : List (String × Json)) → {r s : List Char} →
    compactMembers ms ++ r = compactMembers ns ++ s → ms = ns ∧ r = s
  | [], [], _, _, h => ⟨rfl, List.append_cancel_left h⟩
  | [], _ :: _, _, _, h | _ :: _, [], _, _, h => by simp [compactMembers] at h
  | (k, v) :: ms, (j, w) :: ns, r, s, h => by
    simp only [compactMembers, List.cons_append, List.append_assoc, List.cons.injEq] at h
    obtain ⟨rfl, hvalue⟩ := textChars_append_inj h.2
    obtain ⟨rfl, hmembers⟩ := compactChars_append_inj v w (endsNumber_members ms r)
      (endsNumber_members ns s) (List.cons.inj hvalue).2
    obtain ⟨rfl, hrest⟩ := compactMembers_append_inj ms ns hmembers
    exact ⟨rfl, hrest⟩

end

/-- No two values have one text. -/
theorem compact_injective : Function.Injective compact := by
  intro v w h
  have hchars : compactChars v ++ [] = compactChars w ++ [] := by
    rw [List.append_nil, List.append_nil]
    exact String.ofList_injective h
  have hend : EndsNumber [] := by
    intro c hc
    cases hc
  exact (compactChars_append_inj v w hend hend hchars).1

end Json

/-- Nor do two lists of properties. -/
theorem Properties.text_injective : Function.Injective Properties.text := by
  intro p q h
  exact KeyMap.ext_entries (Json.obj.inj (Json.compact_injective h))

end DatasetGraph
