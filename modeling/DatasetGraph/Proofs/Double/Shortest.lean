import DatasetGraph.Double.Shortest
import DatasetGraph.Proofs.Digits
import DatasetGraph.Proofs.Double

/-!
# The text of a double names it

No two doubles have one text (`text_injective`).  A text can be read as a numeral in one way
(`Numeral.text_inj`), and the numeral has the value of the decimal that was found for the double
(`value_positional`, `value_exponential`).  That value rounds to the magnitude of the double, and to
no other: the reals that round to two magnitudes do not overlap (`Rounds.unique`).

What has to be shown besides is that a decimal is found at all.  Neighbours of a magnitude are at
least a part of it in `2^53` away (`exists_gap`), which is more than a step of the grid of seventeen
digits (`leadingExponent_le`), so the decimal of that grid which is nearest to the magnitude always
rounds to it (`readsBack_near`).
-/

namespace DatasetGraph.Double

/-! ## Neighbours -/

/-- The octave of a rank, and the number of steps up to it. -/
theorem exists_octave (rank : Nat) : ∃ e q, rank = e * perOctave + q ∧ (e = 0 ∨ perOctave ≤ q) ∧
    q < 2 * perOctave := by
  have hpos : 0 < perOctave := by decide
  have hdiv := Nat.div_add_mod' rank perOctave
  have hmod := Nat.mod_lt rank hpos
  rcases Nat.eq_zero_or_pos (rank / perOctave) with hzero | hquot
  · refine ⟨0, rank, by omega, .inl rfl, ?_⟩
    rw [hzero] at hdiv
    omega
  · refine ⟨rank / perOctave - 1, perOctave + rank % perOctave, ?_, .inr (by omega), by omega⟩
    have hsucc : rank / perOctave = rank / perOctave - 1 + 1 := by omega
    rw [hsucc, Nat.succ_mul] at hdiv
    omega

/-- The next magnitude is at least a part in `2^53` away. -/
theorem exists_gap (rank : Nat) : ∃ gap, 0 < gap ∧ units (rank + 1) = units rank + gap ∧
    units (rank + 1) ≤ 2 ^ 53 * gap := by
  obtain ⟨e, q, rfl, hle, hlt⟩ := exists_octave rank
  have hbound : 2 * perOctave = 2 ^ 53 := by decide
  have hunits := units_octave hle (Nat.le_of_lt hlt)
  have hnext : units (e * perOctave + (q + 1)) = (q + 1) * 2 ^ e :=
    units_octave (hle.imp_right Nat.le_succ_of_le) hlt
  rw [← Nat.add_assoc (e * perOctave)] at hnext
  refine ⟨2 ^ e, Nat.two_pow_pos e, ?_, ?_⟩
  · rw [hnext, hunits, Nat.succ_mul]
  · rw [hnext, ← hbound]
    exact Nat.mul_le_mul_right _ hlt

theorem units_strictMono : StrictMono units := by
  refine strictMono_nat_of_lt_succ fun rank => ?_
  obtain ⟨gap, hpos, hnext, -⟩ := exists_gap rank
  omega

theorem units_pos {rank : Nat} (h : 0 < rank) : 0 < units rank :=
  Nat.zero_lt_of_lt (units_strictMono h)

theorem two_units_pos : (0 : ℚ) < 2 * unitsPerOne :=
  mul_pos two_pos (Nat.cast_pos.2 unitsPerOne_pos)

/-! ## What rounds to a magnitude -/

/-- The number rounds to the magnitude of the rank: it is not beyond the middle between that and a
neighbour, and not at the middle unless the rank is even. -/
def Rounds (rank : Nat) (x : ℚ) : Prop :=
  if rank % 2 = 0 then
    ((units (rank - 1) + units rank : Nat) : ℚ) ≤ x * (2 * unitsPerOne) ∧
      x * (2 * unitsPerOne) ≤ ((units rank + units (rank + 1) : Nat) : ℚ)
  else
    ((units (rank - 1) + units rank : Nat) : ℚ) < x * (2 * unitsPerOne) ∧
      x * (2 * unitsPerOne) < ((units rank + units (rank + 1) : Nat) : ℚ)

theorem Rounds.le {rank : Nat} {x : ℚ} (h : Rounds rank x) :
    ((units (rank - 1) + units rank : Nat) : ℚ) ≤ x * (2 * unitsPerOne) ∧
      x * (2 * unitsPerOne) ≤ ((units rank + units (rank + 1) : Nat) : ℚ) := by
  unfold Rounds at h
  split at h
  · exact h
  · exact ⟨h.1.le, h.2.le⟩

theorem Rounds.lt_of_odd {rank : Nat} {x : ℚ} (h : Rounds rank x) (hodd : rank % 2 ≠ 0) :
    ((units (rank - 1) + units rank : Nat) : ℚ) < x * (2 * unitsPerOne) ∧
      x * (2 * unitsPerOne) < ((units rank + units (rank + 1) : Nat) : ℚ) := by
  rwa [Rounds, if_neg hodd] at h

/-- What rounds to a magnitude does not round to a larger one. -/
theorem Rounds.not_lt {r s : Nat} {x : ℚ} (hr : Rounds r x) (hs : Rounds s x) : ¬ r < s := by
  intro hlt
  have hle := hr.le.2.trans' hs.le.1
  rcases Nat.lt_or_eq_of_le (show r + 1 ≤ s from hlt) with hfar | rfl
  · -- Between them lies a magnitude, and with it a middle.
    have hlow := units_strictMono (by omega : r < s - 1)
    have hhigh := units_strictMono hfar
    have := Nat.cast_le.1 hle
    omega
  · -- Of two neighbours one is odd, and the middle between them does not round to that.
    rcases Nat.mod_two_eq_zero_or_one r with heven | hodd
    · have hstrict := (hs.lt_of_odd (by omega)).1
      rw [Nat.add_sub_cancel] at hstrict
      exact absurd (hstrict.trans_le hr.le.2) (lt_irrefl _)
    · have hstrict := (hr.lt_of_odd (by omega)).2
      have hle := hs.le.1
      rw [Nat.add_sub_cancel] at hle
      exact absurd (hle.trans_lt hstrict) (lt_irrefl _)

theorem Rounds.unique {r s : Nat} {x : ℚ} (hr : Rounds r x) (hs : Rounds s x) : r = s :=
  Nat.le_antisymm (Nat.not_lt.1 (hs.not_lt hr)) (Nat.not_lt.1 (hr.not_lt hs))

/-- Zero rounds to no positive magnitude. -/
theorem Rounds.pos {rank : Nat} {x : ℚ} (h : Rounds rank x) (hrank : 0 < rank) : 0 < x := by
  have hunits : (0 : ℚ) < ((units (rank - 1) + units rank : Nat) : ℚ) :=
    Nat.cast_pos.2 (Nat.add_pos_right _ (units_pos hrank))
  exact pos_of_mul_pos_left (hunits.trans_le h.le.1) two_units_pos.le

/-! ## Decimals -/

/-- The number that a decimal stands for. -/
def Decimal.value (d : Decimal) : ℚ := d.digits * 10 ^ d.exponent

theorem ten_pos : (0 : ℚ) < 10 := by norm_num

theorem ten_zpow_eq (step : ℤ) : (10 : ℚ) ^ step = 10 ^ step.toNat / 10 ^ (-step).toNat := by
  rcases Int.le_total 0 step with h | h
  · obtain ⟨k, rfl⟩ := Int.eq_ofNat_of_zero_le h
    simp
  · obtain ⟨k, hk⟩ := Int.eq_ofNat_of_zero_le (Int.neg_nonneg_of_nonpos h)
    obtain rfl : step = -(k : ℤ) := by omega
    simp

@[simp] theorem Decimal.value_reduce (d : Decimal) : d.reduce.value = d.value := by
  unfold Decimal.reduce
  split
  · next h =>
    have hdigits : (d.digits : ℚ) = (d.digits / 10 : Nat) * 10 := by
      exact_mod_cast (Nat.div_mul_cancel (Nat.dvd_of_mod_eq_zero h)).symm
    rw [value, value, hdigits, zpow_add_one₀ ten_pos.ne']
    ring
  · rfl

theorem readsBack_iff {rank d up down : Nat} :
    readsBack rank d up down = true ↔ Rounds rank (d * 10 ^ up / 10 ^ down) := by
  have hpos : (0 : ℚ) < ((10 ^ down : Nat) : ℚ) := Nat.cast_pos.2 (Nat.pow_pos (by decide))
  have hpoint : (d * 10 ^ up / 10 ^ down : ℚ) * (2 * unitsPerOne) =
      ((d * 10 ^ up * (2 * unitsPerOne) : Nat) : ℚ) / ((10 ^ down : Nat) : ℚ) := by
    push_cast
    ring
  simp only [readsBack, Rounds, Nat.pow_eq, hpoint, le_div_iff₀ hpos, div_le_iff₀ hpos,
    lt_div_iff₀ hpos, div_lt_iff₀ hpos, ← Nat.cast_mul, Nat.cast_le, Nat.cast_lt]
  split <;> simp

theorem rounds_of_onGrid? {rank d : Nat} {step : ℤ}
    (h : onGrid? rank step.toNat (-step).toNat = some d) : Rounds rank (Decimal.value ⟨d, step⟩) := by
  have hread : readsBack rank d step.toNat (-step).toNat = true := by
    unfold onGrid? at h
    extract_lets num den quot near far at h
    split at h
    · next hnear => exact Option.some.inj h ▸ hnear
    · split at h
      · next hfar => exact Option.some.inj h ▸ hfar
      · cases h
  have hrounds := readsBack_iff.1 hread
  rwa [mul_div_assoc, ← ten_zpow_eq] at hrounds

/-- The nearest decimal of a grid rounds to the magnitude, if the steps of the grid are less than a
part in `2^53` of it. -/
theorem exists_onGrid? {rank up down : Nat} (hrank : 0 < rank)
    (hstep : 2 ^ 53 * (10 ^ up * unitsPerOne) < units rank * 10 ^ down) :
    ∃ d, onGrid? rank up down = some d := by
  have hden : 0 < 10 ^ up * unitsPerOne := Nat.mul_pos (Nat.pow_pos (by decide)) unitsPerOne_pos
  have hnear := divRound_near (units rank * 10 ^ down) hden
  -- A gap that is not less than a part in `2^53` of the magnitude is more than a step.
  have hless : ∀ gap, units rank ≤ 2 ^ 53 * gap → 10 ^ up * unitsPerOne < gap * 10 ^ down := by
    intro gap hgap
    have hle := Nat.mul_le_mul_right (10 ^ down) hgap
    rw [Nat.mul_assoc] at hle
    exact Nat.lt_of_mul_lt_mul_left (hstep.trans_le hle)
  obtain ⟨below, -, hbelow, hbelow'⟩ := exists_gap (rank - 1)
  rw [Nat.sub_add_cancel hrank] at hbelow hbelow'
  obtain ⟨above, -, habove, habove'⟩ := exists_gap rank
  have hstep₁ := hless below hbelow'
  have hstep₂ := hless above (by omega)
  have hread : readsBack rank (divRound (units rank * 10 ^ down) (10 ^ up * unitsPerOne)) up down =
      true := by
    generalize divRound (units rank * 10 ^ down) (10 ^ up * unitsPerOne) = near at hnear ⊢
    have hpoint : near * 10 ^ up * (2 * unitsPerOne) = 2 * (near * (10 ^ up * unitsPerOne)) := by ring
    have hlow : (units (rank - 1) + units rank) * 10 ^ down + below * 10 ^ down =
        2 * (units rank * 10 ^ down) := by
      rw [hbelow]
      ring
    have hhigh : (units rank + units (rank + 1)) * 10 ^ down =
        2 * (units rank * 10 ^ down) + above * 10 ^ down := by
      rw [habove]
      ring
    simp only [readsBack, Nat.pow_eq, hpoint]
    split <;> simp only [Bool.and_eq_true, decide_eq_true_eq] <;> omega
  exact ⟨_, if_pos hread⟩

/-! ## The shortest decimal -/

theorem ten_pow_digitCount_le {n : Nat} (h : 0 < n) : 10 ^ (digitCount n - 1) ≤ n := by
  by_contra hlt
  have hcount : 0 < digitCount n := Nat.length_toDigits_pos
  rcases Nat.eq_zero_or_pos (digitCount n - 1) with hzero | hpos
  · rw [hzero] at hlt
    omega
  · have := (Nat.length_toDigits_le_iff (by decide) hpos).2 (Nat.lt_of_not_le hlt)
    rw [digitCount] at *
    omega

/-- The power of ten that is taken for the leading one is not above the magnitude. -/
theorem leadingExponent_le {rank : Nat} (h : 0 < rank) :
    (10 : ℚ) ^ leadingExponent rank * unitsPerOne ≤ units rank := by
  have hscale : unitsPerOne ≤ Nat.pow 10 324 := by decide +kernel
  have hbound : (325 : ℤ) = (324 : Nat) + 1 := rfl
  rw [leadingExponent, hbound]
  -- Only that the scale is not below the units of one matters from here on.
  revert hscale
  generalize 324 = scale
  rw [Nat.pow_eq]
  intro hscale
  have hquot : 0 < units rank * 10 ^ scale / unitsPerOne :=
    Nat.div_pos (hscale.trans (Nat.le_mul_of_pos_left _ (units_pos h))) unitsPerOne_pos
  have hcount : 0 < digitCount (units rank * 10 ^ scale / unitsPerOne) := Nat.length_toDigits_pos
  have hle := (Nat.le_div_iff_mul_le unitsPerOne_pos).1 (ten_pow_digitCount_le hquot)
  generalize digitCount (units rank * 10 ^ scale / unitsPerOne) = count at hcount hle ⊢
  have hlead : (count : ℤ) - (scale + 1) = ((count - 1 : Nat) : ℤ) - scale := by omega
  rw [hlead, zpow_sub₀ ten_pos.ne', zpow_natCast, zpow_natCast, div_mul_eq_mul_div,
    div_le_iff₀ (pow_pos ten_pos _)]
  exact_mod_cast hle

/-- A decimal is found for every positive magnitude, and it rounds to that. -/
theorem rounds_shortestFrom {rank : Nat} (hrank : 0 < rank) {lead : ℤ}
    (hlead : (10 : ℚ) ^ lead * unitsPerOne ≤ units rank) (finer : Nat) :
    Rounds rank (shortestFrom rank lead finer).value := by
  induction finer with
  | zero =>
    obtain ⟨d, hd⟩ : ∃ d, onGrid? rank (lead - 16).toNat (-(lead - 16)).toNat = some d := by
      have hgrid : (10 : ℚ) ^ (lead - 16).toNat / 10 ^ (-(lead - 16)).toNat = 10 ^ lead / 10 ^ 16 := by
        rw [← ten_zpow_eq, zpow_sub₀ ten_pos.ne']
        rfl
      refine exists_onGrid? hrank (Nat.cast_lt.1 (?_ : (_ : ℚ) < _))
      generalize (lead - 16).toNat = up at hgrid ⊢
      generalize (-(lead - 16)).toNat = down at hgrid ⊢
      have hdown : (0 : ℚ) < 10 ^ down := pow_pos ten_pos down
      have hrank' : (0 : ℚ) < units rank := Nat.cast_pos.2 (units_pos hrank)
      rw [div_eq_iff hdown.ne'] at hgrid
      simp only [Nat.cast_mul, Nat.cast_pow, Nat.cast_ofNat, hgrid]
      generalize (unitsPerOne : ℚ) = one at hlead ⊢
      generalize (units rank : ℚ) = magnitude at hlead hrank' ⊢
      calc 2 ^ 53 * (10 ^ lead / 10 ^ 16 * 10 ^ down * one)
          = 2 ^ 53 / 10 ^ 16 * (10 ^ lead * one) * 10 ^ down := by ring
        _ ≤ 2 ^ 53 / 10 ^ 16 * magnitude * 10 ^ down := by gcongr
        _ < 1 * magnitude * 10 ^ down := by gcongr; norm_num
        _ = magnitude * 10 ^ down := by rw [one_mul]
    have hfrom : shortestFrom rank lead 0 = ⟨d, lead - 16⟩ := by
      rw [shortestFrom, hd]
      rfl
    rw [hfrom]
    exact rounds_of_onGrid? hd
  | succ finer ih =>
    rw [shortestFrom]
    split
    · next hd => exact rounds_of_onGrid? hd
    · exact ih

theorem rounds_shortest {rank : Nat} (h : 0 < rank) : Rounds rank (shortest rank).value := by
  rw [shortest, Decimal.value_reduce]
  exact rounds_shortestFrom h (leadingExponent_le h) 16

/-! ## Numerals -/

/-- The number that digits stand for. -/
def numberOf (ds : List Nat) : Nat := Nat.ofDigits 10 ds.reverse

theorem numberOf_append (ds es : List Nat) :
    numberOf (ds ++ es) = numberOf ds * 10 ^ es.length + numberOf es := by
  rw [numberOf, List.reverse_append, Nat.ofDigits_append, List.length_reverse, numberOf, numberOf]
  ring

@[simp] theorem numberOf_replicate_zero (k : Nat) : numberOf (List.replicate k 0) = 0 := by
  rw [numberOf, List.reverse_replicate, Nat.ofDigits_replicate_zero]

@[simp] theorem numberOf_singleton (d : Nat) : numberOf [d] = d := by simp [numberOf]

/-- Digits that are written for a number stand for it. -/
theorem numberOf_digitsOf (n : Nat) : numberOf (digitsOf n) = n := by
  have hchars : ∀ cs : List Char,
      numberOf (cs.map fun c => c.toNat - 48) = Nat.ofDigitChars 10 cs 0 := by
    intro cs
    induction cs using List.reverseRecOn with
    | nil => rfl
    | append_singleton cs c ih =>
      rw [List.map_append, List.map_singleton, numberOf_append, ih, Nat.ofDigitChars_append,
        Nat.ofDigitChars_cons, Nat.ofDigitChars_nil, numberOf_singleton, List.length_singleton,
        Nat.pow_one, Nat.mul_comm]
      rfl
  rw [digitsOf, hchars, Nat.ofDigitChars_ten_toDigits]

theorem digitsOf_ne_nil (n : Nat) : digitsOf n ≠ [] := by
  rw [digitsOf, ne_eq, List.map_eq_nil_iff]
  exact Nat.toDigits_ne_nil

theorem lt_ten_of_mem_digitsOf {n d : Nat} (h : d ∈ digitsOf n) : d < 10 := by
  obtain ⟨c, hc, rfl⟩ := List.mem_map.1 h
  have hdigit := Text.isDigit_of_mem_toDigits hc
  simp only [Char.isDigit, Bool.and_eq_true, decide_eq_true_eq, ge_iff_le,
    UInt32.le_iff_toNat_le] at hdigit
  have := hdigit.2
  show c.val.toNat - 48 < 10
  have h57 : ('9' : Char).val.toNat = 57 := rfl
  omega

/-- The number that a numeral stands for. -/
def Numeral.value (n : Numeral) : ℚ :=
  numberOf (n.whole ++ n.fraction) * 10 ^ (n.exponent.getD 0 - n.fraction.length)

theorem value_positional (ds : List Nat) (e : ℤ) :
    (positional ds e).value = numberOf ds * 10 ^ e := by
  cases e with
  | ofNat k =>
    have hnumber : numberOf (ds ++ List.replicate k 0 ++ [0]) = numberOf ds * 10 ^ (k + 1) := by
      simp [numberOf_append, pow_succ]
    rw [positional, Numeral.value, hnumber]
    simp [pow_succ, mul_assoc]
  | negSucc k =>
    rw [positional]
    split
    · next hlt =>
      have hlen : (ds.drop (ds.length - (k + 1))).length = k + 1 := by
        rw [List.length_drop]
        omega
      rw [Numeral.value, List.take_append_drop, hlen]
      simp [Int.negSucc_eq]
    · next hge =>
      have hnumber : numberOf ([0] ++ (List.replicate (k + 1 - ds.length) 0 ++ ds)) = numberOf ds := by
        rw [numberOf_append, numberOf_append, numberOf_replicate_zero, numberOf_singleton]
        simp
      rw [Numeral.value, hnumber]
      have hlen : (List.replicate (k + 1 - ds.length) 0 ++ ds).length = k + 1 := by
        rw [List.length_append, List.length_replicate]
        omega
      rw [hlen]
      simp [Int.negSucc_eq]

theorem value_exponential {ds : List Nat} (hne : ds ≠ []) (lead : ℤ) :
    (exponential ds lead).value = numberOf ds * 10 ^ (lead - (ds.length - 1)) := by
  have hpos := List.length_pos_iff.2 hne
  have hlen : ((ds.drop 1).length : ℤ) = ds.length - 1 := by
    rw [List.length_drop]
    omega
  rw [exponential, Numeral.value, List.take_append_drop, hlen, Option.getD_some]

/-- The numeral of a positive magnitude stands for the decimal that was found. -/
theorem value_numeral {rank : Nat} (h : 0 < rank) : (numeral rank).value = (shortest rank).value := by
  rw [numeral, if_neg (by omega)]
  dsimp only
  rw [Decimal.value]
  split
  · rw [value_positional, numberOf_digitsOf]
  · rw [value_exponential (digitsOf_ne_nil _), numberOf_digitsOf]
    congr 2
    omega

/-- Different magnitudes have different numerals. -/
theorem numeral_injective : Function.Injective numeral := by
  have hzero : (numeral 0).value = 0 := by
    have hnumber : numberOf ([0] ++ [0]) = 0 := rfl
    have hnumeral : numeral 0 = { whole := [0], fraction := [0] } := rfl
    rw [hnumeral, Numeral.value, hnumber, Nat.cast_zero, zero_mul]
  have hpos : ∀ r, 0 < r → Rounds r (numeral r).value := by
    intro r hr
    rw [value_numeral hr]
    exact rounds_shortest hr
  intro r s h
  rcases Nat.eq_zero_or_pos r with rfl | hr <;> rcases Nat.eq_zero_or_pos s with rfl | hs
  · rfl
  · have := (hpos s hs).pos hs
    rw [← h, hzero] at this
    exact absurd this (lt_irrefl _)
  · have := (hpos r hr).pos hr
    rw [h, hzero] at this
    exact absurd this (lt_irrefl _)
  · exact (hpos r hr).unique (h ▸ hpos s hs)

/-! ## Texts -/

theorem isDigit_of_mem_map_digitChar {ds : List Nat} (h : ∀ d ∈ ds, d < 10) :
    ∀ c ∈ ds.map Nat.digitChar, c.isDigit = true := by
  intro c hc
  obtain ⟨d, hd, rfl⟩ := List.mem_map.1 hc
  rw [Nat.isDigit_digitChar, decide_eq_true (h d hd)]

theorem map_digitChar_inj {ds es : List Nat} (hds : ∀ d ∈ ds, d < 10) (hes : ∀ e ∈ es, e < 10)
    (h : ds.map Nat.digitChar = es.map Nat.digitChar) : ds = es := by
  have hread : ∀ {fs : List Nat}, (∀ f ∈ fs, f < 10) →
      (fs.map Nat.digitChar).map (fun c => c.toNat - 48) = fs := by
    intro fs hfs
    rw [List.map_map]
    refine (List.map_congr_left fun f hf => ?_).trans (List.map_id fs)
    exact Nat.toNat_digitChar_sub_48_of_lt_ten (hfs f hf)
  rw [← hread hds, h, hread hes]

/-- A numeral of decimal digits that goes on behind its whole part. -/
structure Numeral.IsProper (n : Numeral) : Prop where
  whole : ∀ d ∈ n.whole, d < 10
  fraction : ∀ d ∈ n.fraction, d < 10
  goesOn : n.fraction ≠ [] ∨ n.exponent ≠ none

theorem isProper_positional {ds : List Nat} (hne : ds ≠ []) (hds : ∀ d ∈ ds, d < 10) (e : ℤ) :
    (positional ds e).IsProper := by
  have hpos := List.length_pos_iff.2 hne
  have hpad : ∀ k, ∀ d ∈ List.replicate k 0, d < 10 := by
    intro k d hd
    rw [List.eq_of_mem_replicate hd]
    decide
  cases e with
  | ofNat k =>
    refine ⟨fun d hd => ?_, by simp [positional], .inl (List.cons_ne_nil _ _)⟩
    exact (List.mem_append.1 hd).elim (hds d) (hpad k d)
  | negSucc k =>
    rw [positional]
    split
    · refine ⟨fun d hd => hds d (List.mem_of_mem_take hd), fun d hd => hds d (List.mem_of_mem_drop hd),
        .inl ?_⟩
      rw [ne_eq, List.drop_eq_nil_iff]
      omega
    · refine ⟨by simp, fun d hd => ?_, .inl (List.append_ne_nil_of_right_ne_nil _ hne)⟩
      exact (List.mem_append.1 hd).elim (hpad _ d) (hds d)

theorem isProper_numeral (rank : Nat) : (numeral rank).IsProper := by
  rw [numeral]
  split
  · exact ⟨by simp, by simp, .inl (List.cons_ne_nil _ _)⟩
  · have hds := fun d => @lt_ten_of_mem_digitsOf (shortest rank).digits d
    dsimp only
    split
    · exact isProper_positional (digitsOf_ne_nil _) hds _
    · exact ⟨fun d hd => hds d (List.mem_of_mem_take hd), fun d hd => hds d (List.mem_of_mem_drop hd),
        .inr (Option.some_ne_none _)⟩

/-- What follows the whole part of a numeral. -/
def Numeral.behind (n : Numeral) : List Char :=
  (if n.fraction.isEmpty then [] else '.' :: n.fraction.map Nat.digitChar) ++
    (n.exponent.map exponentText).getD []

theorem Numeral.text_eq (n : Numeral) : n.text = n.whole.map Nat.digitChar ++ n.behind := by
  rw [Numeral.text, Numeral.behind, List.append_assoc]

theorem Numeral.IsProper.behind_ne_nil {n : Numeral} (h : n.IsProper) : n.behind ≠ [] := by
  rcases h.goesOn with hfraction | hexponent
  · simp [behind, hfraction]
  · obtain ⟨e, he⟩ := Option.ne_none_iff_exists'.1 hexponent
    simp [behind, he, exponentText]

/-- An exponent starts with its letter. -/
theorem head?_exponent {e : Option ℤ} {c : Char} (h : c ∈ ((e.map exponentText).getD []).head?) :
    c = 'e' := by
  cases e with
  | none => cases h
  | some e => exact (Option.some.inj h).symm

theorem Numeral.head?_behind {n : Numeral} {c : Char} (h : c ∈ n.behind.head?) :
    c = '.' ∨ c = 'e' := by
  rw [behind] at h
  split at h
  · exact .inr (head?_exponent h)
  · exact .inl (Option.some.inj h).symm

theorem exponentText_injective : Function.Injective exponentText := by
  intro d e h
  obtain ⟨-, h⟩ := List.cons.inj h
  obtain ⟨hsign, hdigits⟩ := List.cons.inj h
  have habs := Text.toDigits_injective hdigits
  split at hsign <;> split at hsign
  · omega
  · exact absurd hsign (by decide)
  · exact absurd hsign (by decide)
  · omega

theorem exponent_inj {d e : Option ℤ}
    (h : (d.map exponentText).getD [] = (e.map exponentText).getD []) : d = e := by
  cases d <;> cases e
  · rfl
  · cases h
  · cases h
  · exact congrArg some (exponentText_injective h)

/-- What follows the whole part falls in one way into fraction and exponent. -/
theorem Numeral.IsProper.behind_inj {m n : Numeral} (hm : m.IsProper) (hn : n.IsProper)
    (h : m.behind = n.behind) : m.fraction = n.fraction ∧ m.exponent = n.exponent := by
  have hne : ∀ {e : Option ℤ} {cs : List Char}, (e.map exponentText).getD [] ≠ '.' :: cs := by
    intro e cs heq
    exact absurd (head?_exponent (c := '.') (by rw [heq]; rfl)) (by decide)
  have hdigit : ∀ {e : Option ℤ}, ∀ c ∈ ((e.map exponentText).getD []).head?, c.isDigit = false := by
    intro e c hc
    rw [head?_exponent hc]
    decide
  unfold behind at h
  split at h <;> split at h
  · next hfraction hfraction' =>
    rw [List.isEmpty_iff] at hfraction hfraction'
    exact ⟨hfraction.trans hfraction'.symm, exponent_inj h⟩
  · exact absurd h hne
  · exact absurd h.symm hne
  · obtain ⟨hdigits, hexponent⟩ := Text.run_append_inj (isDigit_of_mem_map_digitChar hm.fraction)
      (isDigit_of_mem_map_digitChar hn.fraction) hdigit hdigit (List.cons.inj h).2
    exact ⟨map_digitChar_inj hm.fraction hn.fraction hdigits, exponent_inj hexponent⟩

/-- A text can be read as a numeral in one way. -/
theorem Numeral.IsProper.text_inj {m n : Numeral} (hm : m.IsProper) (hn : n.IsProper)
    (h : m.text = n.text) : m = n := by
  have hbehind : ∀ k : Numeral, ∀ c ∈ k.behind.head?, c.isDigit = false := by
    intro k c hc
    rcases head?_behind hc with rfl | rfl <;> decide
  rw [text_eq, text_eq] at h
  obtain ⟨hwhole, hrest⟩ := Text.run_append_inj (isDigit_of_mem_map_digitChar hm.whole)
    (isDigit_of_mem_map_digitChar hn.whole) (hbehind m) (hbehind n) h
  have hwholes := map_digitChar_inj hm.whole hn.whole hwhole
  obtain ⟨hfractions, hexponents⟩ := hm.behind_inj hn hrest
  cases m
  cases n
  simp_all

theorem Numeral.IsProper.head?_text {n : Numeral} (h : n.IsProper) : '-' ∉ n.text.head? := by
  intro hminus
  rw [Numeral.text_eq, List.head?_append, Option.mem_def, Option.or_eq_some_iff] at hminus
  rcases hminus with hminus | ⟨-, hminus⟩
  · have := isDigit_of_mem_map_digitChar h.whole _ (List.mem_of_head? hminus)
    cases this
  · rcases head?_behind hminus with hc | hc <;> cases hc

/-- The text of a double has a point or an exponent. -/
theorem exists_mem_text (x : Double) : ∃ c ∈ x.text, c = '.' ∨ c = 'e' := by
  obtain ⟨c, rest, hbehind⟩ :=
    List.exists_cons_of_ne_nil (isProper_numeral x.rank).behind_ne_nil
  have hmem : c ∈ (numeral x.rank).text := by
    rw [Numeral.text_eq, hbehind]
    exact List.mem_append_right _ List.mem_cons_self
  refine ⟨c, ?_, Numeral.head?_behind (by rw [hbehind]; rfl)⟩
  rw [text]
  split
  · exact List.mem_cons_of_mem _ hmem
  · exact hmem

/-- No two doubles have one text. -/
theorem text_injective : Function.Injective text := by
  rintro ⟨negative, rank, hrank⟩ ⟨negative', rank', hrank'⟩ h
  have hr := isProper_numeral rank
  have hr' := isProper_numeral rank'
  obtain ⟨rfl, htext⟩ := Text.sign_inj hr.head?_text hr'.head?_text h
  obtain rfl := numeral_injective (hr.text_inj hr' htext)
  rfl

-- Two neighbours, of which only the second needs all seventeen digits.
example : text ⟨false, 0x3fd3333333333333, by decide⟩ = "0.3".toList ∧
    text ⟨false, 0x3fd3333333333334, by decide⟩ = "0.30000000000000004".toList := by decide +kernel

end DatasetGraph.Double
