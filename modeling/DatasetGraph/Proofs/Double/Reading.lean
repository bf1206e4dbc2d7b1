import DatasetGraph.Proofs.Double.Shortest

/-!
# The text of a double can be read

A numeral is read as a significand, rounded, times a power of ten, rounded too, and a product that is
too large is no double.  The shortest decimal of a double does not lead to one: it has at most
seventeen digits (`digits_shortest_le`) and is at most that of the largest double
(`value_numeral_le`), and rounding keeps the order of products, so it is enough to look at the largest
significand for each power of ten (`timesRank_lt_top`).  So the text of a double is always read as a
double (`ofDigits_numeral`), though it may be a neighbour.
-/

namespace DatasetGraph.Double

/-! ## Rounded products -/

theorem Fits.divRound_mul_le {a d e : Nat} (h : Fits (a / d) e) :
    divRound a (d * 2 ^ e) ≤ 2 * perOctave := by
  have hquot : a / (d * 2 ^ e) < 2 * perOctave := by
    rw [← Nat.div_div_eq_div_mul]
    exact Nat.div_lt_of_lt_mul h.lt
  have hcases := divRound_cases a (d * 2 ^ e)
  omega

theorem Fits.le_divRound_mul {a d e : Nat} (h : Fits (a / d) e) :
    e = 0 ∨ perOctave ≤ divRound a (d * 2 ^ e) := by
  refine h.le.imp_right fun hle => ?_
  have hquot : perOctave ≤ a / (d * 2 ^ e) := by
    rw [← Nat.div_div_eq_div_mul, Nat.le_div_iff_mul_le (Nat.two_pow_pos e), Nat.mul_comm]
    exact hle
  have hcases := divRound_cases a (d * 2 ^ e)
  omega

theorem rankOf_mono_left (den : Nat) {m n : Nat} (h : m ≤ n) : rankOf m den ≤ rankOf n den := by
  rw [rankOf, rankOf]
  simp only [pow_eq]
  have hle : m * unitsPerOne ≤ n * unitsPerOne := Nat.mul_le_mul_right _ h
  generalize m * unitsPerOne = u at hle ⊢
  generalize n * unitsPerOne = v at hle ⊢
  have hdiv : u / den ≤ v / den := Nat.div_le_div_right hle
  have hu := fits_log2 (u / den)
  have hv := fits_log2 (v / den)
  generalize (u / den).log2 - 52 = e at hu ⊢
  generalize (v / den).log2 - 52 = f at hv ⊢
  rcases Nat.lt_trichotomy e f with hlt | rfl | hgt
  · have hoctave : (e + 1) * perOctave ≤ f * perOctave := Nat.mul_le_mul_right _ hlt
    have hsteps := hu.divRound_mul_le
    have hsteps' := hv.le_divRound_mul.resolve_left (by omega)
    rw [Nat.succ_mul] at hoctave
    omega
  · exact Nat.add_le_add_left (divRound_mono _ hle) _
  · -- A quotient of a later octave is not below one of an earlier octave.
    have hlow := hu.le.resolve_left (by omega)
    have hpow : 2 ^ f * (2 * perOctave) ≤ 2 ^ e * perOctave := by
      rw [← Nat.mul_assoc, ← Nat.pow_succ]
      exact Nat.mul_le_mul_right _ (Nat.pow_le_pow_right (by decide) hgt)
    have hhigh := hv.lt
    omega

theorem units_mono : Monotone units := units_strictMono.monotone

theorem timesRank_mono {a b c d : Nat} (h : a ≤ b) (h' : c ≤ d) : timesRank a c ≤ timesRank b d :=
  rankOf_mono_left _ (Nat.mul_le_mul (units_mono h) (units_mono h'))

theorem powerOfTen_mono {j k : Nat} (h : j ≤ k) : powerOfTen j ≤ powerOfTen k :=
  rankOf_mono (Nat.pow_le_pow_right (by decide) h)

/-- The shortest decimal of the largest double. -/
def largest : Decimal := ⟨17976931348623157, 292⟩

/-- The largest number that is read, scaled down by a power of ten. -/
def largestOver (k : Nat) : Nat := 17976931348623157 * Nat.pow 10 292 / Nat.pow 10 k

/-- The largest significand for each large power of ten leads to a double. -/
theorem timesRank_largestOver :
    ∀ k < 309, 291 < k → timesRank (rankOf (largestOver k) 1) (powerOfTen k) < top := by
  decide +kernel

/-- A product that is not larger than the largest double is a double, if its significand is short or
its power of ten leaves room. -/
theorem timesRank_lt_top {s k : Nat} (hs : s < significandBound)
    (hlarge : 288 < k → s ≤ Nat.pow 10 17) (hk : k ≤ maxPowerOfTen) (h : s ≤ largestOver k) :
    timesRank (rankOf s 1) (powerOfTen k) < top := by
  rcases Nat.lt_or_ge 291 k with hk' | hk'
  · exact (timesRank_mono (rankOf_mono h) (le_refl _)).trans_lt
      (timesRank_largestOver k (Nat.lt_succ_of_le hk) hk')
  · rcases Nat.lt_or_ge 288 k with hshort | hsmall
    · refine (timesRank_mono (rankOf_mono (hlarge hshort)) (powerOfTen_mono hk')).trans_lt ?_
      decide +kernel
    · refine (timesRank_mono (rankOf_mono hs.le) (powerOfTen_mono hsmall)).trans_lt ?_
      decide +kernel

theorem exists_multiplyByTens? {s k : Nat} (hs : s < significandBound)
    (hlarge : 288 < k → s ≤ Nat.pow 10 17) (h : s ≤ largestOver k) :
    ∃ r, multiplyByTens? (rankOf s 1) k = some r := by
  rw [multiplyByTens?]
  split
  · next hk => exact ⟨_, if_pos (timesRank_lt_top hs hlarge hk h)⟩
  · next hk =>
    -- Of so large a power of ten there is no positive multiple.
    have hover : largestOver k ≤ largestOver 309 := by
      unfold largestOver
      generalize 17976931348623157 * Nat.pow 10 292 = greatest
      exact Nat.div_le_div_left (Nat.pow_le_pow_right (by decide) (Nat.lt_of_not_le hk))
        (Nat.pow_pos (by decide))
    have hzero : largestOver 309 = 0 := by decide +kernel
    obtain rfl : s = 0 := by omega
    exact ⟨0, if_pos (by decide +kernel)⟩

/-! ## The shortest decimal is short -/

/-- The magnitude is below the power of ten after that of its leading digit. -/
theorem lt_leadingExponent (rank : Nat) :
    (units rank : ℚ) < 10 ^ (leadingExponent rank + 1) * unitsPerOne := by
  have hbound : (325 : ℤ) = (324 : Nat) + 1 := rfl
  rw [leadingExponent, hbound]
  generalize 324 = scale
  rw [Nat.pow_eq]
  have hcount : 0 < digitCount (units rank * 10 ^ scale / unitsPerOne) := Nat.length_toDigits_pos
  have hlt := (Nat.length_toDigits_le_iff (by decide) hcount).1
    (le_refl (digitCount (units rank * 10 ^ scale / unitsPerOne)))
  generalize digitCount (units rank * 10 ^ scale / unitsPerOne) = count at hlt ⊢
  have hunits : units rank * 10 ^ scale < 10 ^ count * unitsPerOne :=
    (Nat.div_lt_iff_lt_mul unitsPerOne_pos).1 hlt
  have hlead : (count : ℤ) - (scale + 1) + 1 = (count : ℤ) - scale := by omega
  rw [hlead, zpow_sub₀ ten_pos.ne', zpow_natCast, zpow_natCast, div_mul_eq_mul_div,
    lt_div_iff₀ (pow_pos ten_pos _)]
  exact_mod_cast hunits

theorem divRound_le_of_lt {num den bound : Nat} (h : num < bound * den) :
    divRound num den ≤ bound ∧ num / den + 1 ≤ bound := by
  have hquot : num / den < bound := Nat.div_lt_of_lt_mul (by rwa [Nat.mul_comm])
  have hcases := divRound_cases num den
  omega

/-- The decimal of a grid is at most one step above the magnitude. -/
theorem le_of_onGrid? {rank up down d bound : Nat}
    (hbound : units rank * 10 ^ down < bound * (10 ^ up * unitsPerOne))
    (h : onGrid? rank up down = some d) : d ≤ bound := by
  obtain ⟨hnear, hfar⟩ := divRound_le_of_lt hbound
  unfold onGrid? at h
  extract_lets num den quot near far at h
  have hfar' : far ≤ quot + 1 := by
    show (if near = quot then quot + 1 else quot) ≤ quot + 1
    split
    · exact le_refl _
    · exact Nat.le_succ _
  split at h
  · exact Option.some.inj h ▸ hnear
  · split at h
    · exact Option.some.inj h ▸ hfar'.trans hfar
    · cases h

/-- Seventeen digits suffice. -/
theorem digits_shortest_le (rank : Nat) : (shortest rank).digits ≤ Nat.pow 10 17 := by
  have hfrom : ∀ finer ≤ 16,
      (shortestFrom rank (leadingExponent rank) finer).digits ≤ 10 ^ 17 := by
    have hgrid : ∀ {step : ℤ} {d : Nat}, leadingExponent rank - 16 ≤ step →
        onGrid? rank step.toNat (-step).toNat = some d → d ≤ 10 ^ 17 := by
      intro step d hstep hd
      refine le_of_onGrid? (Nat.cast_lt.1 (?_ : (_ : ℚ) < _)) hd
      have hpow : (10 : ℚ) ^ (leadingExponent rank + 1) ≤ 10 ^ 17 * 10 ^ step := by
        rw [← zpow_natCast, ← zpow_add₀ ten_pos.ne']
        exact zpow_le_zpow_right₀ (by norm_num) (by push_cast; omega)
      have hdown : (0 : ℚ) < 10 ^ (-step).toNat := pow_pos ten_pos _
      have hscale : (10 : ℚ) ^ step * 10 ^ (-step).toNat = 10 ^ step.toNat := by
        rw [ten_zpow_eq, div_mul_cancel₀ _ hdown.ne']
      have hone : (0 : ℚ) < unitsPerOne := Nat.cast_pos.2 unitsPerOne_pos
      have hlt := lt_leadingExponent rank
      simp only [Nat.cast_mul, Nat.cast_pow, Nat.cast_ofNat, ← hscale]
      generalize (unitsPerOne : ℚ) = one at hone hlt ⊢
      generalize (units rank : ℚ) = magnitude at hlt ⊢
      calc magnitude * 10 ^ (-step).toNat
          < 10 ^ (leadingExponent rank + 1) * one * 10 ^ (-step).toNat := by gcongr
        _ ≤ 10 ^ 17 * 10 ^ step * one * 10 ^ (-step).toNat := by gcongr
        _ = 10 ^ 17 * (10 ^ step * 10 ^ (-step).toNat * one) := by ring
    intro finer hfiner
    induction finer with
    | zero =>
      rw [shortestFrom]
      cases hd : onGrid? rank (leadingExponent rank - 16).toNat
          (-(leadingExponent rank - 16)).toNat with
      | none => exact Nat.zero_le _
      | some d => exact hgrid (le_refl _) hd
    | succ finer ih =>
      rw [shortestFrom]
      split
      · next d hd => exact hgrid (by omega) hd
      · exact ih (by omega)
  rw [shortest, Decimal.reduce]
  have hdigits := hfrom 16 (le_refl _)
  split
  · exact (Nat.div_le_self _ _).trans hdigits
  · exact hdigits

theorem value_largest :
    largest.value = ((17976931348623157 * Nat.pow 10 292 : Nat) : ℚ) := by
  have hpow : (10 : ℚ) ^ (292 : ℤ) = ((Nat.pow 10 292 : Nat) : ℚ) := by
    rw [Nat.pow_eq, Nat.cast_pow]
    exact zpow_natCast _ _
  rw [Decimal.value, largest, hpow]
  push_cast
  ring

/-- No shortest decimal is above that of the largest double. -/
theorem value_shortest_le {rank : Nat} (hpos : 0 < rank) (htop : rank < top) :
    (shortest rank).value ≤ largest.value := by
  rcases Nat.lt_or_eq_of_le (Nat.le_sub_one_of_lt htop) with hlt | rfl
  · -- What rounds to a smaller double is not above the middle between the two largest ones.
    have hunits : units rank + units (rank + 1) ≤ units (top - 2) + units (top - 1) :=
      Nat.add_le_add (units_mono (by omega)) (units_mono (by omega))
    have hmiddle : units (top - 2) + units (top - 1) ≤
        17976931348623157 * Nat.pow 10 292 * (2 * unitsPerOne) := by decide +kernel
    refine le_of_mul_le_mul_right ((rounds_shortest hpos).le.2.trans ?_) two_units_pos
    rw [value_largest]
    exact_mod_cast hunits.trans hmiddle
  · have hlargest : shortest (top - 1) = largest := by decide +kernel
    rw [hlargest]

/-! ## Gathering digits -/

theorem numberOf_cons (d : Nat) (ds : List Nat) :
    numberOf (d :: ds) = d * 10 ^ ds.length + numberOf ds := by
  rw [← List.singleton_append, numberOf_append, numberOf_singleton]

/-- The digits that are gathered are appended to the significand. -/
theorem gather_fst (s : Nat) (ds : List Nat) :
    (gather s ds).1 = s * 10 ^ (gather s ds).2 + numberOf (ds.take (gather s ds).2) := by
  induction ds generalizing s with
  | nil => simp [gather, numberOf]
  | cons d ds ih =>
    rw [gather]
    split
    · dsimp only
      rw [ih, List.take_succ_cons, numberOf_cons, List.length_take, Nat.min_eq_left (gather_le _ _)]
      ring
    · simp [numberOf]

theorem gather_lt {s : Nat} (hs : s < significandBound) (ds : List Nat) :
    (gather s ds).1 < significandBound := by
  induction ds generalizing s with
  | nil => exact hs
  | cons d ds ih =>
    rw [gather]
    split
    · next h => exact ih h
    · exact hs

/-- As long as there is room, all digits are gathered. -/
theorem gather_snd {s : Nat} {ds : List Nat}
    (h : s * 10 ^ ds.length + numberOf ds < significandBound) : (gather s ds).2 = ds.length := by
  induction ds generalizing s with
  | nil => rfl
  | cons d ds ih =>
    rw [numberOf_cons, List.length_cons, pow_succ] at h
    have hnext : (s * 10 + d) * 10 ^ ds.length + numberOf ds < significandBound := by
      convert h using 1
      ring
    have hroom : s * 10 + d < significandBound := by
      refine lt_of_le_of_lt ?_ hnext
      exact (Nat.le_mul_of_pos_right _ (Nat.pow_pos (by decide))).trans (Nat.le_add_right _ _)
    rw [gather, if_pos hroom]
    exact congrArg Nat.succ (ih hnext)

/-- What is gathered stands for no more than all digits do. -/
theorem gather_mul_le (whole fraction : List Nat) :
    (gather (numberOf whole) fraction).1 *
        10 ^ (fraction.length - (gather (numberOf whole) fraction).2) ≤
      numberOf (whole ++ fraction) := by
  have hle := gather_le (numberOf whole) fraction
  rw [gather_fst]
  generalize (gather (numberOf whole) fraction).2 = taken at hle ⊢
  have htake : (whole ++ fraction.take taken) ++ fraction.drop taken = whole ++ fraction := by
    rw [List.append_assoc, List.take_append_drop]
  rw [← htake, numberOf_append, numberOf_append, List.length_take, Nat.min_eq_left hle,
    List.length_drop]
  exact Nat.le_add_right _ _

/-! ## Numerals of doubles -/

/-- A numeral that is not above the largest double is read, if it is laid out as one. -/
theorem exists_ofDigits (negative : Bool) {n : Numeral}
    (hwhole : numberOf n.whole < significandBound)
    (hshort : n.exponent ≠ none → numberOf (n.whole ++ n.fraction) ≤ Nat.pow 10 17)
    (hvalue : n.value ≤ largest.value) :
    ∃ x, ofDigits negative n.whole n.fraction (n.exponent.getD 0) = some x := by
  have htaken : (gather 0 n.whole).2 = n.whole.length := gather_snd (by simpa using hwhole)
  have hgathered : gather 0 n.whole = (numberOf n.whole, n.whole.length) := by
    refine Prod.ext ?_ htaken
    rw [gather_fst, htaken, List.take_length]
    simp
  have hmul := gather_mul_le n.whole n.fraction
  have hle := gather_le (numberOf n.whole) n.fraction
  have hlt := gather_lt hwhole n.fraction
  rw [ofDigits, hgathered]
  dsimp only
  generalize (gather (numberOf n.whole) n.fraction).2 = taken at hmul hle ⊢
  generalize (gather (numberOf n.whole) n.fraction).1 = s at hmul hlt ⊢
  rw [Nat.sub_self]
  unfold ofDecimal
  split
  · next k hk =>
    have hk' : n.exponent.getD 0 = (k : ℤ) + taken := by
      rw [Int.ofNat_eq_natCast] at hk
      omega
    have hlarge : 288 < k → s ≤ Nat.pow 10 17 := by
      intro hlarge
      refine (Nat.le_mul_of_pos_right s (Nat.pow_pos (by decide))).trans (hmul.trans (hshort ?_))
      intro hnone
      rw [hnone, Option.getD_none] at hk'
      omega
    have hover : s ≤ largestOver k := by
      refine (Nat.le_div_iff_mul_le (Nat.pow_pos (by decide))).2 (Nat.cast_le.1 (?_ : (_ : ℚ) ≤ _))
      rw [← value_largest]
      refine le_trans ?_ hvalue
      have hexponent : n.exponent.getD 0 - n.fraction.length =
          (k : ℤ) - (n.fraction.length - taken : Nat) := by omega
      rw [Numeral.value, hexponent, zpow_sub₀ ten_pos.ne', zpow_natCast, zpow_natCast,
        ← mul_div_assoc, le_div_iff₀ (pow_pos ten_pos _)]
      have hscaled := Nat.mul_le_mul_right (10 ^ k) hmul
      have hcast : ((s * 10 ^ (n.fraction.length - taken) * 10 ^ k : Nat) : ℚ) ≤
          ((numberOf (n.whole ++ n.fraction) * 10 ^ k : Nat) : ℚ) := Nat.cast_le.2 hscaled
      push_cast [Nat.pow_eq] at hcast ⊢
      linarith
    obtain ⟨r, hr⟩ := exists_multiplyByTens? hlt hlarge hover
    exact ⟨ofRank negative r, congrArg (Option.map (ofRank negative)) hr⟩
  · exact ⟨_, rfl⟩

theorem numberOf_lt {ds : List Nat} (h : ∀ d ∈ ds, d < 10) : numberOf ds < 10 ^ ds.length := by
  rw [numberOf, ← List.length_reverse]
  exact Nat.ofDigits_lt_base_pow_length' fun d hd => h d (List.mem_reverse.1 hd)

/-- In positional notation at most sixteen digits stand before the point. -/
theorem length_whole_le (rank : Nat) : (numeral rank).whole.length ≤ 16 := by
  rw [numeral]
  split
  · decide
  · dsimp only
    split
    · next hlead =>
      have hlt := hlead.2
      have hbelow : plainBelow = 16 := rfl
      cases he : (shortest rank).exponent with
      | ofNat k =>
        rw [he, Int.ofNat_eq_natCast] at hlt
        rw [positional, List.length_append, List.length_replicate]
        omega
      | negSucc k =>
        rw [he] at hlt
        rw [positional]
        split
        · rw [List.length_take]
          omega
        · show 1 ≤ 16
          decide
    · rw [exponential, List.length_take]
      omega

theorem value_numeral_le {rank : Nat} (h : rank < top) : (numeral rank).value ≤ largest.value := by
  rcases Nat.eq_zero_or_pos rank with rfl | hpos
  · have hnumber : numberOf ([0] ++ [0]) = 0 := rfl
    have hnumeral : numeral 0 = { whole := [0], fraction := [0] } := rfl
    rw [hnumeral, Numeral.value, hnumber, Nat.cast_zero, zero_mul, value_largest]
    exact Nat.cast_nonneg _
  · rw [value_numeral hpos]
    exact value_shortest_le hpos h

/-- The text of a double is read as a double. -/
theorem ofDigits_numeral (x : Double) :
    ofDigits x.negative (numeral x.rank).whole (numeral x.rank).fraction
      ((numeral x.rank).exponent.getD 0) = some x.reread := by
  have hwhole : numberOf (numeral x.rank).whole < significandBound := by
    refine (numberOf_lt (isProper_numeral x.rank).whole).trans_le ?_
    exact (Nat.pow_le_pow_right (by decide) (length_whole_le x.rank)).trans (by decide)
  have hshort : (numeral x.rank).exponent ≠ none →
      numberOf ((numeral x.rank).whole ++ (numeral x.rank).fraction) ≤ Nat.pow 10 17 := by
    rw [numeral]
    split
    · exact fun h => absurd rfl h
    · dsimp only
      split
      · cases (shortest x.rank).exponent with
        | ofNat k => exact fun h => absurd rfl h
        | negSucc k =>
          rw [positional]
          split
          · exact fun h => absurd rfl h
          · exact fun h => absurd rfl h
      · intro _
        rw [exponential, List.take_append_drop, numberOf_digitsOf]
        exact digits_shortest_le x.rank
  obtain ⟨y, hy⟩ := exists_ofDigits x.negative hwhole hshort (value_numeral_le x.rank_lt)
  rw [reread, hy, Option.getD_some]

/-! ## Leading digits -/

/-- Digits before a point: at least one, and none of them a zero that leads others. -/
structure IsWhole (ds : List Nat) : Prop where
  ne_nil : ds ≠ []
  lead : ds = [0] ∨ 0 ∉ ds.head?

theorem zero_not_mem_head?_digitsOf {n : Nat} (h : 0 < n) : 0 ∉ (digitsOf n).head? := by
  intro hzero
  obtain ⟨ds, hds⟩ : ∃ ds, digitsOf n = 0 :: ds := List.head?_eq_some_iff.1 hzero
  have hlen : digitCount n = ds.length + 1 := by
    rw [digitCount, ← List.length_cons (a := 0), ← hds, digitsOf, List.length_map]
  have hnumber : numberOf ds = n := by
    rw [← numberOf_digitsOf n, hds, numberOf_cons, Nat.zero_mul, Nat.zero_add]
  have hlt : numberOf ds < 10 ^ ds.length :=
    numberOf_lt fun d hd => lt_ten_of_mem_digitsOf (hds ▸ List.mem_cons_of_mem 0 hd)
  have hle := ten_pow_digitCount_le h
  rw [hlen, Nat.add_sub_cancel] at hle
  omega

theorem isWhole_digitsOf (n : Nat) : IsWhole (digitsOf n) := by
  refine ⟨digitsOf_ne_nil n, ?_⟩
  rcases Nat.eq_zero_or_pos n with rfl | hpos
  · exact .inl rfl
  · exact .inr (zero_not_mem_head?_digitsOf hpos)

/-- A numeral has no leading zero but the one before its point. -/
theorem isWhole_numeral (rank : Nat) : IsWhole (numeral rank).whole := by
  rw [numeral]
  split
  · exact ⟨List.cons_ne_nil _ _, .inl rfl⟩
  · next hrank =>
    have hpos : 0 < (shortest rank).digits := by
      refine Nat.pos_of_ne_zero fun hzero => ?_
      have hvalue := (rounds_shortest (Nat.pos_of_ne_zero hrank)).pos (Nat.pos_of_ne_zero hrank)
      rw [Decimal.value, hzero, Nat.cast_zero, zero_mul] at hvalue
      exact absurd hvalue (lt_irrefl _)
    obtain ⟨d, ds, hds⟩ := List.exists_cons_of_ne_nil (digitsOf_ne_nil (shortest rank).digits)
    have hlead : 0 ≠ d := by
      rintro rfl
      exact zero_not_mem_head?_digitsOf hpos (by rw [hds]; rfl)
    have hcons : ∀ es, IsWhole (d :: es) := fun es =>
      ⟨List.cons_ne_nil _ _, .inr fun h => hlead (Option.some.inj h).symm⟩
    dsimp only
    rw [hds]
    split
    · cases (shortest rank).exponent with
      | ofNat k => exact hcons _
      | negSucc k =>
        rw [positional]
        split
        · next hlt =>
          obtain ⟨before, hbefore⟩ : ∃ before, (d :: ds).length - (k + 1) = before + 1 :=
            Nat.exists_eq_succ_of_ne_zero (by omega)
          rw [hbefore]
          exact hcons _
        · exact ⟨List.cons_ne_nil _ _, .inl rfl⟩
    · exact hcons _

end DatasetGraph.Double
