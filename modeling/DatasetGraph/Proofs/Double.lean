import DatasetGraph.Double.Basic
import Mathlib

/-!
# Whole numbers as doubles

A whole number is rounded to the nearest double.  Rounding keeps the order of whole numbers, though
not strictly (`key_ofInt_mono`), and two of them compare as equal exactly if they are rounded to the
very same double (`compare_ofInt`).

That does not happen to whole numbers up to `2^53`, which are doubles themselves (`units_rankOf`,
`ofInt_ne_of_small`).  Beyond, the double nearest to a whole number below `2^(53+k)` is at most half
of `2^k` away (`units_rankOf_near`), so whole numbers of 64 bits that are more than `2^11` apart stay
apart (`ofInt_ne_of_apart`).

A magnitude lies in the octave of a power of two, which is divided into `2^52` equal steps
(`Fits`); its rank counts those below it, so ranks are compared octave by octave.
-/

namespace DatasetGraph.Double

/-! ## Rounded quotients -/

theorem divRound_cases (a d : Nat) :
    (divRound a d = a / d ∧ 2 * (a % d) ≤ d) ∨ (divRound a d = a / d + 1 ∧ d ≤ 2 * (a % d)) := by
  unfold divRound
  dsimp only
  split <;> omega

theorem divRound_mono {a b : Nat} (d : Nat) (h : a ≤ b) : divRound a d ≤ divRound b d := by
  have hquot : a / d ≤ b / d := Nat.div_le_div_right h
  rcases Nat.lt_or_eq_of_le hquot with hlt | heq
  · have ha := divRound_cases a d
    have hb := divRound_cases b d
    omega
  · -- With one quotient the remainders are in the same order as the numbers.
    have hrem : a % d ≤ b % d := by
      have ha := Nat.div_add_mod a d
      have hb := Nat.div_add_mod b d
      rw [heq] at ha
      omega
    unfold divRound
    dsimp only
    rw [heq]
    split <;> split <;> omega

theorem divRound_of_dvd {a d : Nat} (hd : 0 < d) (h : d ∣ a) : divRound a d * d = a := by
  have hrem : a % d = 0 := Nat.mod_eq_zero_of_dvd h
  rw [divRound, if_pos (by omega), Nat.div_mul_cancel h]

/-- The nearest multiple is at most half a step away. -/
theorem divRound_near (a : Nat) {d : Nat} (hd : 0 < d) :
    2 * (divRound a d * d) ≤ 2 * a + d ∧ 2 * a ≤ 2 * (divRound a d * d) + d := by
  have hdiv := Nat.div_add_mod' a d
  have hlt : a % d < d := Nat.mod_lt a hd
  rcases divRound_cases a d with ⟨h, hrem⟩ | ⟨h, hrem⟩
  · rw [h]
    omega
  · rw [h, Nat.add_mul, Nat.one_mul]
    generalize a / d * d = multiple at hdiv ⊢
    omega

/-! ## Octaves -/

theorem perOctave_eq : perOctave = 2 ^ 52 := by decide

theorem pow_eq (n : Nat) : Nat.pow 2 n = 2 ^ n := rfl

/-- A magnitude of `u` units lies among those that are `2^e` units apart. -/
structure Fits (u e : Nat) : Prop where
  lt : u < 2 ^ e * (2 * perOctave)
  le : e = 0 ∨ 2 ^ e * perOctave ≤ u

theorem fits_log2 (u : Nat) : Fits u (u.log2 - 52) := by
  have hlt : u < 2 ^ (u.log2 + 1) := Nat.lt_log2_self
  rcases Nat.lt_or_ge u.log2 52 with hlog | hlog
  · have hzero : u.log2 - 52 = 0 := by omega
    have hpow : 2 ^ (u.log2 + 1) ≤ 2 ^ 52 := Nat.pow_le_pow_right (by decide) (by omega)
    rw [hzero]
    exact ⟨by rw [perOctave_eq]; omega, .inl rfl⟩
  · have hne : u ≠ 0 := by
      rintro rfl
      simp at hlog
    have hsum : 2 ^ (u.log2 - 52) * 2 ^ 52 = 2 ^ u.log2 := by
      rw [← Nat.pow_add]
      congr 1
      omega
    refine ⟨?_, .inr ?_⟩
    · rw [perOctave_eq, Nat.mul_left_comm, hsum, ← Nat.pow_succ']
      exact hlt
    · rw [perOctave_eq, hsum]
      exact Nat.log2_self_le hne

/-- Numbers of steps stay within an octave and the first step of the next. -/
theorem Fits.divRound_le {u e : Nat} (h : Fits u e) : divRound u (2 ^ e) ≤ 2 * perOctave := by
  have hquot : u / 2 ^ e < 2 * perOctave := Nat.div_lt_of_lt_mul h.lt
  have hcases := divRound_cases u (2 ^ e)
  omega

theorem Fits.le_divRound {u e : Nat} (h : Fits u e) : e = 0 ∨ perOctave ≤ divRound u (2 ^ e) := by
  refine h.le.imp_right fun hle => ?_
  have hquot : perOctave ≤ u / 2 ^ e := by
    rw [Nat.le_div_iff_mul_le (Nat.two_pow_pos e), Nat.mul_comm]
    exact hle
  have hcases := divRound_cases u (2 ^ e)
  omega

/-- The magnitude that is `q` steps of an octave up, counted from zero. -/
theorem units_octave {e q : Nat} (hle : e = 0 ∨ perOctave ≤ q) (hq : q ≤ 2 * perOctave) :
    units (e * perOctave + q) = q * 2 ^ e := by
  have hpos : 0 < perOctave := by decide
  rcases Nat.lt_or_ge q perOctave with hlow | hhigh
  · obtain rfl : e = 0 := hle.resolve_right (by omega)
    have hscale : scale q = 0 := by rw [scale, Nat.div_eq_of_lt hlow]
    rw [Nat.zero_mul, Nat.zero_add, units, mantissa, if_pos hlow, hscale, pow_eq]
  · obtain ⟨r, rfl⟩ := Nat.exists_eq_add_of_le hhigh
    have hsplit : e * perOctave + (perOctave + r) = r + perOctave * (e + 1) := by ring
    have hnot : ¬ e * perOctave + (perOctave + r) < perOctave := by omega
    rw [units, mantissa, if_neg hnot, scale, hsplit, Nat.add_mul_div_left _ _ hpos,
      Nat.add_mul_mod_self_left, pow_eq]
    rcases Nat.lt_or_eq_of_le (by omega : r ≤ perOctave) with hlt | rfl
    · rw [Nat.div_eq_of_lt hlt, Nat.mod_eq_of_lt hlt, Nat.zero_add, Nat.add_sub_cancel]
    · -- The last step of an octave is the first of the next.
      rw [Nat.div_self hpos, Nat.mod_self, Nat.add_zero, Nat.add_comm 1, Nat.add_sub_cancel]
      ring

/-! ## Ranks of whole numbers -/

/-- A whole number in units, with the exponent of its steps. -/
theorem rankOf_one (n : Nat) :
    ∃ e, Fits (n * unitsPerOne) e ∧
      rankOf n 1 = e * perOctave + divRound (n * unitsPerOne) (2 ^ e) := by
  refine ⟨(n * unitsPerOne).log2 - 52, fits_log2 _, ?_⟩
  rw [rankOf, Nat.div_one, Nat.one_mul, pow_eq]

theorem rank_mono {u v e f : Nat} (hu : Fits u e) (hv : Fits v f) (h : u ≤ v) :
    e * perOctave + divRound u (2 ^ e) ≤ f * perOctave + divRound v (2 ^ f) := by
  have hpos : 0 < perOctave := by decide
  rcases Nat.lt_trichotomy e f with hlt | rfl | hgt
  · have hoctave : (e + 1) * perOctave ≤ f * perOctave := Nat.mul_le_mul_right _ hlt
    have hsteps := hu.divRound_le
    have hsteps' := hv.le_divRound.resolve_left (by omega)
    rw [Nat.succ_mul] at hoctave
    omega
  · exact Nat.add_le_add_left (divRound_mono _ h) _
  · -- A magnitude of a later octave is not below one of an earlier octave.
    have hle := hu.le.resolve_left (by omega)
    have hpow : 2 ^ f * (2 * perOctave) ≤ 2 ^ e * perOctave := by
      rw [← Nat.mul_assoc, ← Nat.pow_succ]
      exact Nat.mul_le_mul_right _ (Nat.pow_le_pow_right (by decide) hgt)
    have hlt := hv.lt
    omega

theorem rankOf_mono {m n : Nat} (h : m ≤ n) : rankOf m 1 ≤ rankOf n 1 := by
  obtain ⟨e, hm, hrank⟩ := rankOf_one m
  obtain ⟨f, hn, hrank'⟩ := rankOf_one n
  rw [hrank, hrank']
  exact rank_mono hm hn (Nat.mul_le_mul_right _ h)

theorem rankOf_pos {n : Nat} (h : 0 < n) : 0 < rankOf n 1 :=
  Nat.lt_of_lt_of_le (by decide +kernel : 0 < rankOf 1 1) (rankOf_mono h)

theorem exists_unitsPerOne : ∃ j, unitsPerOne = 2 ^ j := by
  unfold unitsPerOne
  generalize 1074 = j
  exact ⟨j, pow_eq j⟩

theorem unitsPerOne_pos : 0 < unitsPerOne := by
  obtain ⟨j, hj⟩ := exists_unitsPerOne
  rw [hj]
  exact Nat.two_pow_pos j

/-- The steps between whole numbers below `2^(53+k)` divide `2^k`. -/
theorem Fits.pow_dvd {n e k c : Nat} (h : Fits (n * unitsPerOne) e) (hn : n < 2 ^ (53 + k))
    (hc : 2 ^ k ∣ c) : 2 ^ e ∣ c * unitsPerOne := by
  refine Nat.dvd_trans ?_ (Nat.mul_dvd_mul_right hc _)
  obtain ⟨j, hj⟩ := exists_unitsPerOne
  rw [hj, ← Nat.pow_add]
  refine Nat.pow_dvd_pow 2 ?_
  rcases h.le with rfl | hle
  · exact Nat.zero_le _
  · have hlt : 2 ^ (e + 52) < 2 ^ (53 + k + j) := by
      calc 2 ^ (e + 52) = 2 ^ e * perOctave := by rw [Nat.pow_add, perOctave_eq]
        _ ≤ n * unitsPerOne := hle
        _ < 2 ^ (53 + k) * unitsPerOne := Nat.mul_lt_mul_of_pos_right hn unitsPerOne_pos
        _ = 2 ^ (53 + k + j) := by rw [hj, ← Nat.pow_add]
    have := (Nat.pow_lt_pow_iff_right (by decide)).1 hlt
    omega

/-- Whole numbers up to `2^53` are doubles. -/
theorem units_rankOf {n : Nat} (h : n ≤ 2 ^ 53) : units (rankOf n 1) = n * unitsPerOne := by
  obtain ⟨e, hfits, hrank⟩ := rankOf_one n
  have hstep : 2 ^ e ∣ n * unitsPerOne := by
    rcases Nat.lt_or_eq_of_le h with hlt | rfl
    · exact hfits.pow_dvd (k := 0) hlt (Nat.one_dvd n)
    · exact hfits.pow_dvd (k := 1) (Nat.pow_lt_pow_right (by decide) (by decide))
        (Nat.pow_dvd_pow 2 (by decide))
  rw [hrank, units_octave hfits.le_divRound hfits.divRound_le,
    divRound_of_dvd (Nat.two_pow_pos e) hstep]

/-- The double nearest to a whole number below `2^(53+k)` is at most half of `2^k` away. -/
theorem units_rankOf_near {n k : Nat} (h : n < 2 ^ (53 + k)) :
    2 * units (rankOf n 1) ≤ (2 * n + 2 ^ k) * unitsPerOne ∧
      2 * n * unitsPerOne ≤ 2 * units (rankOf n 1) + 2 ^ k * unitsPerOne := by
  obtain ⟨e, hfits, hrank⟩ := rankOf_one n
  have hstep : 2 ^ e ≤ 2 ^ k * unitsPerOne :=
    Nat.le_of_dvd (Nat.mul_pos (Nat.two_pow_pos k) unitsPerOne_pos) (hfits.pow_dvd h (Nat.dvd_refl _))
  have hnear := divRound_near (n * unitsPerOne) (Nat.two_pow_pos e)
  rw [hrank, units_octave hfits.le_divRound hfits.divRound_le, Nat.add_mul, Nat.mul_assoc]
  omega

theorem rankOf_ne_of_apart {m n k : Nat} (hn : n < 2 ^ (53 + k)) (h : m + 2 ^ k < n) :
    rankOf m 1 ≠ rankOf n 1 := by
  intro heq
  have hpos : 0 < 2 ^ k := Nat.two_pow_pos k
  have hlow := (units_rankOf_near (by omega : m < 2 ^ (53 + k))).1
  have hhigh := (units_rankOf_near hn).2
  rw [heq] at hlow
  have hle : 2 * n * unitsPerOne ≤ (2 * m + 2 ^ k + 2 ^ k) * unitsPerOne := by
    rw [Nat.add_mul _ (2 ^ k)]
    omega
  have := Nat.le_of_mul_le_mul_right hle unitsPerOne_pos
  omega

theorem rankOf_ne_of_small {m n : Nat} (hn : n ≤ 2 ^ 53) (h : m < n) : rankOf m 1 ≠ rankOf n 1 := by
  intro heq
  have hunits : m * unitsPerOne = n * unitsPerOne := by
    rw [← units_rankOf (by omega : m ≤ 2 ^ 53), heq, units_rankOf hn]
  have := Nat.eq_of_mul_eq_mul_right unitsPerOne_pos hunits
  omega

/-! ## Whole numbers as doubles -/

theorem negative_ofRank (b : Bool) (r : Nat) : (ofRank b r).negative = b := by
  unfold ofRank
  split <;> rfl

/-- Ranks that are too large become the last one. -/
theorem rank_ofRank (b : Bool) (r : Nat) : (ofRank b r).rank = min r (top - 1) := by
  have htop : 0 < top := by decide
  unfold ofRank
  split
  · show r = _
    omega
  · show top - 1 = _
    omega

theorem ofInt_eq_iff {m n : Int} : ofInt m = ofInt n ↔ ((m < 0) ↔ (n < 0)) ∧
    min (rankOf m.natAbs 1) (top - 1) = min (rankOf n.natAbs 1) (top - 1) := by
  have hext : ∀ x y : Double, x = y ↔ x.negative = y.negative ∧ x.rank = y.rank := by
    rintro ⟨b, r, _⟩ ⟨b', r', _⟩
    simp
  rw [hext, ofInt, ofInt, negative_ofRank, negative_ofRank, rank_ofRank, rank_ofRank,
    decide_eq_decide]

theorem key_ofInt (n : Int) :
    (ofInt n).key = if n < 0 then -((min (rankOf n.natAbs 1) (top - 1) : Nat) : Int)
      else ((min (rankOf n.natAbs 1) (top - 1) : Nat) : Int) := by
  simp only [key, ofInt, negative_ofRank, rank_ofRank, decide_eq_true_eq]

/-- Rounding keeps whole numbers in order. -/
theorem key_ofInt_mono {m n : Int} (h : m ≤ n) : (ofInt m).key ≤ (ofInt n).key := by
  rw [key_ofInt, key_ofInt]
  split
  · next hm =>
    split
    · next hn =>
      have := rankOf_mono (by omega : n.natAbs ≤ m.natAbs)
      omega
    · omega
  · next hm =>
    have := rankOf_mono (by omega : m.natAbs ≤ n.natAbs)
    rw [if_neg (by omega)]
    omega

/-- Zero is given one sign only, so whole numbers that are rounded to equal doubles are rounded to the
same one. -/
theorem ofInt_eq_iff_key {m n : Int} : ofInt m = ofInt n ↔ (ofInt m).key = (ofInt n).key := by
  refine ⟨congrArg key, fun h => ofInt_eq_iff.2 ?_⟩
  have hpos : ∀ i : Int, i < 0 → 0 < min (rankOf i.natAbs 1) (top - 1) := fun i hi =>
    Nat.lt_min.2 ⟨rankOf_pos (by omega), by decide⟩
  have hm := hpos m
  have hn := hpos n
  rw [key_ofInt, key_ofInt] at h
  split at h <;> split at h <;> omega

/-- Whole numbers compare as doubles in their own order, or as equal where they become one double. -/
theorem compare_ofInt {m n : Int} (h : m < n) :
    (ofInt m).compare (ofInt n) = if ofInt m = ofInt n then .eq else .lt := by
  have hle := key_ofInt_mono (Int.le_of_lt h)
  split
  · next heq => rw [heq, compare, compare_eq_iff_eq]
  · next hne =>
    rw [ofInt_eq_iff_key] at hne
    rw [compare, compare_lt_iff_lt]
    omega

/-! ## Whole numbers that are told apart -/

/-- Whole numbers of 64 bits are far below the largest double. -/
theorem rankOf_lt_top {n : Nat} (h : n ≤ 2 ^ 64) : rankOf n 1 < top :=
  Nat.lt_of_le_of_lt (rankOf_mono h) (by decide +kernel)

/-- It is enough that the ranks of magnitudes differ. -/
theorem ofInt_ne_of_rankOf {m n : Int} (hm : m.natAbs ≤ 2 ^ 64) (hn : n.natAbs ≤ 2 ^ 64)
    (h : ((m < 0) ↔ (n < 0)) → rankOf m.natAbs 1 ≠ rankOf n.natAbs 1) : ofInt m ≠ ofInt n := by
  intro heq
  obtain ⟨hsign, hrank⟩ := ofInt_eq_iff.1 heq
  have := rankOf_lt_top hm
  have := rankOf_lt_top hn
  have := h hsign
  omega

theorem ofInt_ne_of_small {m n : Int} (hm : m.natAbs ≤ 2 ^ 53) (hn : n.natAbs ≤ 2 ^ 53)
    (h : m < n) : ofInt m ≠ ofInt n := by
  refine ofInt_ne_of_rankOf (by omega) (by omega) fun hsign => ?_
  rcases Nat.lt_or_ge m.natAbs n.natAbs with hlt | hge
  · exact rankOf_ne_of_small hn hlt
  · exact (rankOf_ne_of_small hm (by omega)).symm

theorem ofInt_ne_of_apart {m n : Int} (hm : m.natAbs < 2 ^ 64) (hn : n.natAbs < 2 ^ 64)
    (h : m + 2 ^ 11 < n) : ofInt m ≠ ofInt n := by
  refine ofInt_ne_of_rankOf (by omega) (by omega) fun hsign => ?_
  rcases Nat.lt_or_ge m.natAbs n.natAbs with hlt | hge
  · exact rankOf_ne_of_apart (k := 11) hn (by omega)
  · exact (rankOf_ne_of_apart (k := 11) hm (by omega)).symm

-- `2^53 + 1` lies half way between two doubles and goes to the even one.
example : ofInt (2 ^ 53 + 1) = ofInt (2 ^ 53) := by decide +kernel

end DatasetGraph.Double
