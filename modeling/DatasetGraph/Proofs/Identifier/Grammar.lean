import DatasetGraph.Proofs.Digits

/-!
# The grammar of identifiers

Identifiers that a store hands out need not have been written here.  A text is read if it falls into
units: any character but the underscore, two underscores, or the code of a character in hexadecimal
digits between `_u` and `_` (`IsUnit`).  Each text falls into units in at most one way
(`Splits.unique`).

Reading takes one unit after the other (`IsUnit.unescapeChars`) and stops at the first place where
none starts (`Breaks.unescapeChars`).  At the front of each text that is not empty there is either
the one or the other (`exists_front`), so every text is split up to its end or to such a place
(`exists_splits`).  Hence `unescape_reads_units`: texts that fall into units are read as what these
stand for, and any other is refused for the first thing in it that is no unit.
-/

namespace DatasetGraph.Identifier

open Text (Hex.isDigit Hex.Denotes run_append_inj)

/-! ## Units -/

/-- The characters of a unit, and the character that they stand for. -/
inductive IsUnit : List Char → Char → Prop where
  /-- A character stands for itself. -/
  | plain {c : Char} (h : c ≠ '_') : IsUnit [c] c
  | underscore : IsUnit ['_', '_'] '_'
  /-- A code stands for its character. -/
  | escape {ds : List Char} {n : Nat} (hne : ds ≠ []) (hvalue : Hex.Denotes ds n)
      (hvalid : n.isValidChar) : IsUnit ('_' :: 'u' :: (ds ++ ['_'])) (Char.ofNat n)

/-- A text that falls into units, and the characters that these stand for. -/
structure Splits (text : List Char) (units : List (List Char)) (token : List Char) : Prop where
  flatten : units.flatten = text
  stand : List.Forall₂ IsUnit units token

/-- A text starts with something that no unit starts with, for the given reason. -/
inductive Breaks : List Char → IdentifierFault → Prop where
  /-- Neither `_` nor `u` follows the underscore. -/
  | dangling {rest : List Char} (h : ∀ c ∈ rest.head?, c ≠ '_' ∧ c ≠ 'u') :
      Breaks ('_' :: rest) .danglingUnderscore
  /-- The digits of an escape, if any, are followed by something else than `_`, or by nothing. -/
  | unterminated {ds rest : List Char} (hdigits : ∀ d ∈ ds, Hex.isDigit d = true)
      (h : ∀ c ∈ rest.head?, Hex.isDigit c = false ∧ c ≠ '_') :
      Breaks ('_' :: 'u' :: (ds ++ rest)) .unterminatedEscape
  | empty {rest : List Char} : Breaks ('_' :: 'u' :: '_' :: rest) .emptyEscape
  /-- The code has more than 32 bits. -/
  | large {ds rest : List Char} {n : Nat} (hvalue : Hex.Denotes ds n) (hlarge : 2 ^ 32 ≤ n) :
      Breaks ('_' :: 'u' :: (ds ++ '_' :: rest)) .emptyEscape
  /-- The code is that of a surrogate or beyond the last character. -/
  | noCharacter {ds rest : List Char} {n : Nat} (hne : ds ≠ []) (hvalue : Hex.Denotes ds n)
      (hsmall : n < 2 ^ 32) (hinvalid : ¬ n.isValidChar) :
      Breaks ('_' :: 'u' :: (ds ++ '_' :: rest)) .noCharacter

/-- An escape falls in one way into its digits and what follows them. -/
theorem digits_inj {ds es r s : List Char} (hds : ∀ d ∈ ds, Hex.isDigit d = true)
    (hes : ∀ d ∈ es, Hex.isDigit d = true) (hr : ∀ c ∈ r.head?, Hex.isDigit c = false)
    (hs : ∀ c ∈ s.head?, Hex.isDigit c = false)
    (h : '_' :: 'u' :: (ds ++ r) = '_' :: 'u' :: (es ++ s)) : ds = es ∧ r = s :=
  run_append_inj hds hes hr hs (List.cons.inj (List.cons.inj h).2).2

/-- Escapes end at an underscore, which is no digit. -/
theorem isDigit_head?_underscore {rest : List Char} :
    ∀ c ∈ ('_' :: rest).head?, Hex.isDigit c = false := by
  rintro c hc
  cases hc
  exact Text.Hex.isDigit_underscore

theorem IsUnit.ne_nil {u : List Char} {c : Char} (h : IsUnit u c) : u ≠ [] := by
  cases h <;> exact List.cons_ne_nil _ _

/-- At most one unit starts a text. -/
theorem IsUnit.unique {u v r s : List Char} {c d : Char} (hu : IsUnit u c) (hv : IsUnit v d)
    (h : u ++ r = v ++ s) : u = v ∧ c = d ∧ r = s := by
  cases hu with
  | plain hc =>
    cases hv with
    | plain => simp_all
    | underscore => exact absurd (List.cons.inj h).1 hc
    | escape => exact absurd (List.cons.inj h).1 hc
  | underscore =>
    cases hv with
    | plain hd => exact absurd (List.cons.inj h).1.symm hd
    | underscore => simp_all
    | escape => simp_all
  | escape hne hvalue hvalid =>
    cases hv with
    | plain hd => exact absurd (List.cons.inj h).1.symm hd
    | underscore => simp_all
    | escape hne' hvalue' hvalid' =>
      simp only [List.cons_append, List.append_assoc, List.nil_append] at h
      obtain ⟨rfl, hrest⟩ := digits_inj hvalue.all_isDigit hvalue'.all_isDigit
        isDigit_head?_underscore isDigit_head?_underscore h
      obtain rfl := hvalue.unique hvalue'
      exact ⟨rfl, rfl, (List.cons.inj hrest).2⟩

/-- Where a text breaks, no unit starts it. -/
theorem Breaks.not_isUnit {text u r : List Char} {fault : IdentifierFault} {c : Char}
    (h : Breaks text fault) (hu : IsUnit u c) : text ≠ u ++ r := by
  intro heq
  cases hu with
  | plain hc => cases h <;> exact hc (List.cons.inj heq).1.symm
  | underscore => cases h <;> simp_all
  | @escape es m hne' hvalue' hvalid =>
    simp only [List.cons_append, List.append_assoc, List.nil_append] at heq
    have hes := hvalue'.all_isDigit
    cases h with
    | dangling h => simp_all
    | unterminated hdigits h =>
      obtain ⟨-, hrest⟩ := digits_inj hdigits hes (fun c hc => (h c hc).1)
        isDigit_head?_underscore heq
      subst hrest
      exact (h '_' rfl).2 rfl
    | empty =>
      have hnone : ∀ d ∈ [], Hex.isDigit d = true := List.forall_mem_nil _
      obtain ⟨hnil, -⟩ := digits_inj hnone hes isDigit_head?_underscore isDigit_head?_underscore heq
      exact hne' hnil.symm
    | @large ds rest n hvalue hlarge =>
      obtain ⟨rfl, -⟩ := digits_inj hvalue.all_isDigit hes isDigit_head?_underscore
        isDigit_head?_underscore heq
      obtain rfl := hvalue.unique hvalue'
      rcases hvalid with hvalid | hvalid <;> omega
    | @noCharacter ds rest n hne hvalue hsmall hinvalid =>
      obtain ⟨rfl, -⟩ := digits_inj hvalue.all_isDigit hes isDigit_head?_underscore
        isDigit_head?_underscore heq
      obtain rfl := hvalue.unique hvalue'
      exact hinvalid hvalid

/-- A text falls into units in at most one way. -/
theorem Splits.unique {text token token' : List Char} {units units' : List (List Char)}
    (h : Splits text units token) (h' : Splits text units' token') :
    units = units' ∧ token = token' := by
  obtain ⟨rfl, hstand⟩ := h
  obtain ⟨heq, hstand'⟩ := h'
  induction hstand generalizing units' token' with
  | nil =>
    cases hstand' with
    | nil => exact ⟨rfl, rfl⟩
    | cons hv _ => exact absurd (List.append_eq_nil_iff.1 heq).1 hv.ne_nil
  | cons hu _ ih =>
    cases hstand' with
    | nil => exact absurd (List.append_eq_nil_iff.1 heq.symm).1 hu.ne_nil
    | cons hv hvs =>
      obtain ⟨rfl, rfl, hrest⟩ := hv.unique hu heq
      obtain ⟨rfl, rfl⟩ := ih hrest hvs
      exact ⟨rfl, rfl⟩

/-! ## Reading -/

/-- What comes of the digits of an escape. -/
theorem charOfDigits_of_denotes {ds : List Char} {n : Nat} (hne : ds ≠ [])
    (h : Hex.Denotes ds n) : charOfDigits ds = if 2 ^ 32 ≤ n then .error .emptyEscape
      else if n.isValidChar then .ok (Char.ofNat n) else .error .noCharacter := by
  obtain ⟨d, ds, rfl⟩ := List.exists_cons_of_ne_nil hne
  simp only [charOfDigits, Text.Hex.ofDigits_eq_some_iff.2 h]
  rfl

/-- An escape is read once its digits and the underscore behind them are. -/
theorem unescapeChars_escape {ds : List Char} (h : ∀ d ∈ ds, Hex.isDigit d = true)
    (rest : List Char) : unescapeChars .between ('_' :: 'u' :: (ds ++ '_' :: rest)) =
      (charOfDigits ds).bind fun c => (unescapeChars .between rest).map (c :: ·) := by
  rw [unescapeChars, if_pos rfl, unescapeChars, if_neg (by decide), if_pos rfl,
    unescapeChars_digits h, List.nil_append, unescapeChars, if_pos rfl]
  cases charOfDigits ds <;> rfl

/-- A unit is read as the character that it stands for. -/
theorem IsUnit.unescapeChars {u : List Char} {c : Char} (h : IsUnit u c) (rest : List Char) :
    unescapeChars .between (u ++ rest) = (unescapeChars .between rest).map (c :: ·) := by
  cases h with
  | plain hc =>
    show Identifier.unescapeChars .between (c :: rest) = _
    rw [Identifier.unescapeChars, if_neg hc]
  | underscore =>
    show Identifier.unescapeChars .between ('_' :: '_' :: rest) = _
    rw [Identifier.unescapeChars, if_pos rfl, Identifier.unescapeChars, if_pos rfl]
  | @escape ds n hne hvalue hvalid =>
    have hsmall : ¬ 2 ^ 32 ≤ n := by rcases hvalid with hvalid | hvalid <;> omega
    rw [List.cons_append, List.cons_append, List.append_assoc, List.singleton_append,
      unescapeChars_escape hvalue.all_isDigit, charOfDigits_of_denotes hne hvalue,
      if_neg hsmall, if_pos hvalid]
    rfl

/-- Where a text breaks, reading ends. -/
theorem Breaks.unescapeChars {text : List Char} {fault : IdentifierFault} (h : Breaks text fault) :
    unescapeChars .between text = .error fault := by
  cases h with
  | @dangling rest h =>
    rw [Identifier.unescapeChars, if_pos rfl]
    cases rest with
    | nil => rfl
    | cons c rest =>
      obtain ⟨hunderscore, hu⟩ := h c rfl
      rw [Identifier.unescapeChars, if_neg hunderscore, if_neg hu]
  | @unterminated ds rest hdigits h =>
    rw [Identifier.unescapeChars, if_pos rfl, Identifier.unescapeChars, if_neg (by decide),
      if_pos rfl, unescapeChars_digits hdigits, List.nil_append]
    cases rest with
    | nil => rfl
    | cons c rest =>
      obtain ⟨hdigit, hunderscore⟩ := h c rfl
      rw [Identifier.unescapeChars, if_neg hunderscore, if_neg (by simp [hdigit])]
  | @empty rest =>
    have hnone : ∀ d ∈ [], Hex.isDigit d = true := List.forall_mem_nil _
    exact unescapeChars_escape hnone rest
  | @large ds rest n hvalue hlarge =>
    have hne : ds ≠ [] := by
      rintro rfl
      obtain rfl := hvalue.unique ⟨[], rfl, rfl⟩
      simp at hlarge
    rw [unescapeChars_escape hvalue.all_isDigit, charOfDigits_of_denotes hne hvalue,
      if_pos hlarge]
    rfl
  | @noCharacter ds rest n hne hvalue hsmall hinvalid =>
    rw [unescapeChars_escape hvalue.all_isDigit, charOfDigits_of_denotes hne hvalue,
      if_neg (Nat.not_le.2 hsmall), if_neg hinvalid]
    rfl

/-- Units are read one after the other. -/
theorem Splits.unescapeChars {text token : List Char} {units : List (List Char)}
    (h : Splits text units token) (rest : List Char) :
    unescapeChars .between (text ++ rest) = (unescapeChars .between rest).map (token ++ ·) := by
  obtain ⟨rfl, hstand⟩ := h
  induction hstand with
  | nil => cases hrest : Identifier.unescapeChars .between rest <;> simp [hrest, Except.map]
  | cons hu _ ih =>
    rw [List.flatten_cons, List.append_assoc, hu.unescapeChars, ih]
    cases Identifier.unescapeChars .between rest <;> rfl

/-! ## Every text is split as far as it can be -/

/-- What follows the `_u` of an escape completes a unit or breaks. -/
theorem exists_front_escape (cs : List Char) :
    (∃ u c rest, IsUnit u c ∧ '_' :: 'u' :: cs = u ++ rest) ∨
      ∃ fault, Breaks ('_' :: 'u' :: cs) fault := by
  obtain ⟨ds, rest, rfl, hds, hrest⟩ : ∃ ds rest, cs = ds ++ rest ∧
      (∀ d ∈ ds, Hex.isDigit d = true) ∧ ∀ c ∈ rest.head?, Hex.isDigit c = false :=
    ⟨cs.takeWhile Hex.isDigit, cs.dropWhile Hex.isDigit, List.takeWhile_append_dropWhile.symm,
      fun d hd => List.mem_takeWhile_imp hd, fun c hc => by
        have := List.head?_dropWhile_not Hex.isDigit cs
        rw [hc] at this
        simpa using this⟩
  by_cases hend : rest.head? = some '_'
  · obtain ⟨rest, rfl⟩ : ∃ more, rest = '_' :: more := List.head?_eq_some_iff.1 hend
    obtain ⟨n, hvalue⟩ := Text.Hex.exists_denotes_iff.2 hds
    by_cases hne : ds = []
    · subst hne
      exact .inr ⟨_, .empty⟩
    · rcases Nat.lt_or_ge n (2 ^ 32) with hsmall | hlarge
      · by_cases hvalid : n.isValidChar
        · exact .inl ⟨_, _, rest, .escape hne hvalue hvalid, by simp⟩
        · exact .inr ⟨_, .noCharacter hne hvalue hsmall hvalid⟩
      · exact .inr ⟨_, .large hvalue hlarge⟩
  · refine .inr ⟨_, .unterminated hds fun c hc => ⟨hrest c hc, ?_⟩⟩
    rintro rfl
    exact hend hc

/-- A text that is not empty starts with a unit or breaks. -/
theorem exists_front {text : List Char} (hne : text ≠ []) :
    (∃ u c rest, IsUnit u c ∧ text = u ++ rest) ∨ ∃ fault, Breaks text fault := by
  obtain ⟨c, cs, rfl⟩ := List.exists_cons_of_ne_nil hne
  by_cases hc : c = '_'
  · subst hc
    cases cs with
    | nil => exact .inr ⟨_, .dangling nofun⟩
    | cons d cs =>
      by_cases hd : d = '_'
      · subst hd
        exact .inl ⟨_, _, cs, .underscore, rfl⟩
      · by_cases hu : d = 'u'
        · subst hu
          exact exists_front_escape cs
        · refine .inr ⟨_, .dangling fun e he => ?_⟩
          cases he
          exact ⟨hd, hu⟩
  · exact .inl ⟨_, _, cs, .plain hc, rfl⟩

/-- Every text falls into units up to its end or up to where it breaks. -/
theorem exists_splits (text : List Char) : ∃ front units token rest, text = front ++ rest ∧
    Splits front units token ∧ (rest = [] ∨ ∃ fault, Breaks rest fault) := by
  induction hlen : text.length using Nat.strongRecOn generalizing text with
  | _ n ih =>
    by_cases hne : text = []
    · exact ⟨[], [], [], text, rfl, ⟨rfl, .nil⟩, .inl hne⟩
    · rcases exists_front hne with ⟨u, c, more, hu, rfl⟩ | hbreaks
      · have hpos := List.length_pos_iff.2 hu.ne_nil
        have hless : more.length < n := by
          rw [← hlen, List.length_append]
          omega
        obtain ⟨front, units, token, rest, rfl, hsplits, hrest⟩ := ih _ hless more rfl
        refine ⟨u ++ front, u :: units, c :: token, rest, by rw [List.append_assoc], ?_, hrest⟩
        exact ⟨by rw [List.flatten_cons, hsplits.flatten], .cons hu hsplits.stand⟩
      · exact ⟨[], [], [], text, rfl, ⟨rfl, .nil⟩, .inr hbreaks⟩

/-! ## What is read -/

theorem Splits.unescape {s : String} {units : List (List Char)} {token : List Char}
    (h : Splits s.toList units token) : unescape s = .ok (String.ofList token) := by
  have hread := h.unescapeChars []
  rw [List.append_nil] at hread
  rw [Identifier.unescape, hread]
  simp [Identifier.unescapeChars, Except.map]

theorem unescape_of_breaks {s : String} {front rest token : List Char} {units : List (List Char)}
    {fault : IdentifierFault} (hs : s.toList = front ++ rest) (h : Splits front units token)
    (hbreaks : Breaks rest fault) : unescape s = .error ⟨s, fault⟩ := by
  rw [unescape, hs, h.unescapeChars, hbreaks.unescapeChars]
  rfl

/-- A text is read exactly if it falls into units, and is read as what they stand for; it falls into
units in one way only.  Any other text is refused, and the reason is what is wrong where it first
breaks, behind units and where no unit starts. -/
theorem unescape_reads_units (s : String) :
    (∀ t, unescape s = .ok t ↔ ∃ units, Splits s.toList units t.toList) ∧
    (∀ units units' token token', Splits s.toList units token → Splits s.toList units' token' →
      units = units' ∧ token = token') ∧
    (∀ e, unescape s = .error e ↔ e.text = s ∧ ∃ front units token rest,
      s.toList = front ++ rest ∧ Splits front units token ∧ Breaks rest e.fault) ∧
    ∀ rest fault, Breaks rest fault → ∀ unit c, IsUnit unit c → ¬ unit <+: rest := by
  refine ⟨fun t => ?_, fun _ _ _ _ => Splits.unique, fun e => ?_, ?_⟩
  · constructor
    · intro h
      obtain ⟨front, units, token, rest, hs, hsplits, rfl | ⟨fault, hbreaks⟩⟩ :=
        exists_splits s.toList
      · rw [List.append_nil] at hs
        rw [← hs] at hsplits
        rw [hsplits.unescape] at h
        cases h
        exact ⟨units, by rwa [String.toList_ofList]⟩
      · rw [unescape_of_breaks hs hsplits hbreaks] at h
        cases h
    · rintro ⟨units, h⟩
      rw [h.unescape, String.ofList_toList]
  · constructor
    · intro h
      obtain ⟨front, units, token, rest, hs, hsplits, rfl | ⟨fault, hbreaks⟩⟩ :=
        exists_splits s.toList
      · rw [List.append_nil] at hs
        rw [← hs] at hsplits
        rw [hsplits.unescape] at h
        cases h
      · rw [unescape_of_breaks hs hsplits hbreaks] at h
        cases h
        exact ⟨rfl, front, units, token, rest, hs, hsplits, hbreaks⟩
    · rintro ⟨rfl, front, units, token, rest, hs, hsplits, hbreaks⟩
      exact unescape_of_breaks hs hsplits hbreaks
  · rintro rest fault hbreaks unit c hunit ⟨more, hmore⟩
    exact hbreaks.not_isUnit hunit hmore.symm

/-- A code with leading zeros and digits of both cases is read; that of a surrogate is not, and the
units before it do not help. -/
theorem unescape_reads_units_of_codes :
    Splits "a__b_u000e9_".toList [['a'], ['_', '_'], ['b'], "_u000e9_".toList] "a_bé".toList ∧
    unescape "a__b_u000e9_" = .ok "a_bé" ∧
    (∀ units token, Splits "a__b_u000e9_".toList units token →
      units = [['a'], ['_', '_'], ['b'], "_u000e9_".toList] ∧ token = "a_bé".toList) ∧
    Breaks "_uD800_".toList .noCharacter ∧
    unescape "a_uD800_" = .error ⟨"a_uD800_", .noCharacter⟩ ∧
    ∀ unit c, IsUnit unit c → ¬ unit <+: "_uD800_".toList := by
  have hcode : Hex.Denotes ['0', '0', '0', 'e', '9'] 0xe9 := ⟨[0, 0, 0, 14, 9], by decide, by decide⟩
  have hunit : IsUnit "_u000e9_".toList 'é' := .escape (by decide) hcode (by decide)
  have hsplits : Splits "a__b_u000e9_".toList [['a'], ['_', '_'], ['b'], "_u000e9_".toList]
      "a_bé".toList :=
    ⟨by decide, .cons (.plain (by decide)) (.cons .underscore (.cons (.plain (by decide))
      (.cons hunit .nil)))⟩
  have hsurrogate : Hex.Denotes ['D', '8', '0', '0'] 0xd800 := ⟨[13, 8, 0, 0], by decide, by decide⟩
  have hbreaks : Breaks "_uD800_".toList .noCharacter :=
    .noCharacter (by decide) hsurrogate (by decide) (by decide)
  obtain ⟨hread, hunique, -, -⟩ := unescape_reads_units "a__b_u000e9_"
  obtain ⟨-, -, hrefused, hnone⟩ := unescape_reads_units "a_uD800_"
  refine ⟨hsplits, (hread _).2 ⟨_, hsplits⟩, fun units token h => hunique _ _ _ _ h hsplits,
    hbreaks, (hrefused _).2 ⟨rfl, ['a'], [['a']], ['a'], _, by decide, ?_, hbreaks⟩,
    hnone _ _ hbreaks⟩
  exact ⟨rfl, .cons (.plain (by decide)) .nil⟩

end DatasetGraph.Identifier
