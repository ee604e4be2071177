import ServiceSchema.Proofs.Double.Rounding
import ServiceSchema.Proofs.Json.Number

/-! # Shortest decimals stand for their doubles
The search for a shortest decimal ends, on the grid that contains the double itself if not before, and what it
finds lies in the interval of the double. So the decimal, rounded once, is the double again. -/
namespace ServiceSchema.Double

def Interval.Holds (i : Interval) (d : Decimal) : Prop :=
  i.contains (10 ^ (-d.exponent).toNat) (4 * (d.digits * 10 ^ d.exponent.toNat * one))

theorem Interval.holds_of_point? {i : Interval} {tie : Tie} {e : Int} {d : Nat} (h : i.point? tie e = some d) :
    i.Holds ⟨d, e⟩ := by
  have hgrid (n : Nat) : 4 * (n * 10 ^ e.toNat * one) = n * (10 ^ e.toNat * (4 * one)) := by ring
  simp only [Interval.Holds, hgrid]
  simp only [point?, Nat.pow_eq] at h
  generalize 10 ^ e.toNat * (4 * one) = grid at *
  generalize 10 ^ (-e).toNat = factor at *
  generalize hlow : i.contains factor (i.mid * factor / grid * grid) = low at h
  generalize hhigh : i.contains factor ((i.mid * factor / grid + 1) * grid) = high at h
  cases low with
  | true =>
    cases high with
    | true =>
      have hchoose (n : Nat) (hn : i.contains factor (n * grid)) (hn1 : i.contains factor ((n + 1) * grid)) :
          i.contains factor (tie.choose n * grid) := by
        cases tie with
        | upward => exact hn1
        | toEven =>
          rcases Nat.mod_two_eq_zero_or_one n with hmod | hmod
          · rwa [Tie.choose, hmod, Nat.add_zero]
          · rwa [Tie.choose, hmod]
      simp only at h
      split at h
      · cases h
        exact hlow
      · split at h
        · cases h
          exact hhigh
        · cases h
          exact hchoose _ hlow hhigh
    | false =>
      cases h
      exact hlow
  | false =>
    cases high with
    | true =>
      cases h
      exact hhigh
    | false => cases h

theorem Interval.holds_search {i : Interval} {tie : Tie} {n : Nat} {e : Int} (h : (i.point? tie (e - n)).isSome) :
    i.Holds (i.search tie n e) := by
  induction n generalizing e with
  | zero =>
    obtain ⟨d, hd⟩ := Option.isSome_iff_exists.1 h
    rw [Int.natCast_zero, Int.sub_zero] at hd
    rw [search, hd]
    exact holds_of_point? hd
  | succ n ih =>
    rw [search]
    split
    · exact holds_of_point? ‹_›
    · refine ih ?_
      rwa [Int.sub_sub, Int.add_comm 1, ← Int.natCast_succ]

theorem interval_bounds {x : Double} (hx : x.isZero = false) :
    0 < x.interval.low ∧ x.interval.low < x.interval.mid ∧ x.interval.mid < x.interval.high := by
  have hm : 0 < x.mantissa := Nat.pos_of_ne_zero (by simpa [isZero] using hx)
  have hstep : 0 < 2 ^ x.scale := Nat.pow_pos (by decide)
  have hunits : 2 ^ x.scale ≤ x.units := Nat.le_mul_of_pos_left _ hm
  simp only [interval, Nat.pow_eq]
  split <;> omega

/-- Every double is in its interval. -/
theorem contains_mid (x : Double) {factor : Nat} (hfactor : 0 < factor) :
    x.interval.contains factor (x.interval.mid * factor) := by
  rw [Interval.contains]
  split <;> simp only [Bool.and_eq_true, decide_eq_true_eq]
  · have hlow : x.interval.low ≤ x.interval.mid := Nat.sub_le _ _
    have hhigh : x.interval.mid ≤ x.interval.high := Nat.le_add_right _ _
    exact ⟨Nat.mul_le_mul_right _ hlow, Nat.mul_le_mul_right _ hhigh⟩
  · rename_i hopen
    have hodd : x.mantissa ≠ 0 := by
      intro hzero
      simp [interval, hzero] at hopen
    obtain ⟨-, hlow, hhigh⟩ := interval_bounds (by simpa [isZero] using hodd : x.isZero = false)
    exact ⟨Nat.mul_lt_mul_of_pos_right hlow hfactor, Nat.mul_lt_mul_of_pos_right hhigh hfactor⟩

/-- Zero is in no interval but its own. -/
theorem contains_zero {x : Double} (hx : x.isZero = false) {factor : Nat} (hfactor : 0 < factor) :
    x.interval.contains factor 0 = false := by
  have hlow := Nat.mul_pos (interval_bounds hx).1 hfactor
  rw [Interval.contains]
  split <;> simp only [Bool.and_eq_false_iff, decide_eq_false_iff_not]
  · exact .inl (Nat.not_le.2 hlow)
  · exact .inl (Nat.not_lt.2 hlow.le)

/-- A decimal in the interval of a double other than zero has a digit other than zero. -/
theorem digits_ne_zero_of_holds {x : Double} (hx : x.isZero = false) {d : Decimal} (h : x.interval.Holds d) :
    d.digits ≠ 0 := by
  intro hzero
  rw [Interval.Holds, hzero, Nat.zero_mul, Nat.zero_mul, Nat.mul_zero,
    contains_zero hx (Nat.pow_pos (by decide))] at h
  cases h

/-- A grid that contains the double has a decimal for it. -/
theorem point?_of_dvd {x : Double} (tie : Tie) {e : Int}
    (h : 10 ^ e.toNat * (4 * one) ∣ x.interval.mid * 10 ^ (-e).toNat) : (x.interval.point? tie e).isSome := by
  have hcontains := contains_mid x (Nat.pow_pos (by decide) : 0 < 10 ^ (-e).toNat)
  simp only [Interval.point?, Nat.pow_eq, Nat.div_mul_cancel h, Nat.mod_eq_zero_of_dvd h, hcontains]
  generalize x.interval.contains _ _ = next
  cases next with
  | true =>
    rw [apply_ite Option.isSome, apply_ite Option.isSome]
    simp
  | false => rfl

/-- With 1076 digits after the point there is a decimal for every double. -/
theorem point?_finest (x : Double) (tie : Tie) :
    (x.interval.point? tie (-1076)).isSome := by
  have hgrid : 10 ^ (-1076 : Int).toNat * (4 * one) ∣ 10 ^ (- -1076 : Int).toNat := by decide +kernel
  exact point?_of_dvd tie (Nat.dvd_mul_left_of_dvd hgrid _)

theorem holds_shortest {x : Double} (hx : x.isZero = false) (tie : Tie) : x.interval.Holds (x.shortest tie) := by
  simp only [shortest, hx, Bool.false_eq_true, if_false]
  refine Interval.holds_search ?_
  have hexponent : (x.leadingExponent : Int) - (x.leadingExponent + 1076 : Nat) = -1076 := by omega
  rw [hexponent]
  exact point?_finest x tie

/-- The shortest decimal of a double rounds to it. -/
theorem nearest_shortest {x : Double} (hx : x.isZero = false) (tie : Tie) (negative : Bool) :
    nearest negative ((x.shortest tie).digits * 10 ^ (x.shortest tie).exponent.toNat * one)
      (10 ^ (-(x.shortest tie).exponent).toNat) = some { x with negative } :=
  nearest_of_contains (Nat.pow_pos (by decide)) (holds_shortest hx tie) negative

/-! ## Numbers that are doubles -/

/-- A number of units that is a double rounds to it. -/
theorem nearest_units (x : Double) {den : Nat} (hden : 0 < den) (negative : Bool) :
    nearest negative (x.units * den) den = some { x with negative } := by
  refine nearest_of_contains hden ?_ negative
  rw [← Nat.mul_assoc]
  exact contains_mid x hden

theorem Interval.contains_mul (i : Interval) {factor n c : Nat} (hc : 0 < c) :
    i.contains (factor * c) (n * c) = i.contains factor n := by
  simp only [contains, ← Nat.mul_assoc, Nat.mul_le_mul_right_iff hc, Nat.mul_lt_mul_right hc]

/-- The natural numbers that fit an unsigned 64-bit significand and are doubles. -/
def Exact (n : Nat) : Prop := ∃ m k, m < 0x20000000000000 ∧ k ≤ 11 ∧ n = m * 2 ^ k

theorem Exact.le {n : Nat} (h : Exact n) : n ≤ 0xFFFFFFFFFFFFFFFF := by
  obtain ⟨m, k, hm, hk, rfl⟩ := h
  have hpow : 2 ^ k ≤ 2 ^ 11 := Nat.pow_le_pow_right (by decide) hk
  have hmul := Nat.mul_le_mul (show m ≤ 0x1fffffffffffff by omega) hpow
  omega

theorem exists_units {m k : Nat} (hm : m < 0x20000000000000) (hk : k ≤ 971) :
    ∃ x : Double, x.negative = false ∧ x.units = m * 2 ^ k * one := by
  by_cases hzero : m = 0
  · refine ⟨zero false, rfl, ?_⟩
    rw [hzero, Nat.zero_mul, Nat.zero_mul]
    exact Nat.zero_mul _
  · have hlog : m.log2 < 53 := (Nat.log2_lt hzero).2 hm
    have hle : 0x10000000000000 ≤ m * 2 ^ (52 - m.log2) := by
      have hself := Nat.mul_le_mul_right (2 ^ (52 - m.log2)) (Nat.log2_self_le hzero)
      rwa [← Nat.pow_add, show m.log2 + (52 - m.log2) = 52 by omega] at hself
    have hlt : m * 2 ^ (52 - m.log2) < 0x20000000000000 := by
      have hself := Nat.mul_lt_mul_of_pos_right (Nat.lt_log2_self (n := m))
        (Nat.pow_pos (by decide) : 0 < 2 ^ (52 - m.log2))
      rwa [← Nat.pow_add, show m.log2 + 1 + (52 - m.log2) = 53 by omega] at hself
    -- the exponent is kept as a variable, or the power would be computed
    obtain ⟨u, hu⟩ : ∃ u, u = 1074 := ⟨_, rfl⟩
    have hscale : k + u - (52 - m.log2) ≤ 2045 := by omega
    have hexponent : 52 - m.log2 + (k + u - (52 - m.log2)) = k + u := by omega
    have hone : one = 2 ^ u := by
      rw [hu]
      decide +kernel
    refine ⟨⟨false, m * 2 ^ (52 - m.log2), k + u - (52 - m.log2), hlt, fun _ => hle, hscale⟩, rfl, ?_⟩
    rw [units, Nat.pow_eq, Nat.mul_assoc, ← Nat.pow_add, hexponent, hone, Nat.mul_assoc, ← Nat.pow_add]

/-- A number with no more than 53 binary digits, apart from zeros at the end, is a double. -/
theorem ofNat?_mul_pow {m k : Nat} (hm : m < 0x20000000000000) (hk : k ≤ 971) :
    ∃ x, ofNat? (m * 2 ^ k) = some x ∧ x.negative = false ∧ x.units = m * 2 ^ k * one := by
  obtain ⟨x, hnegative, hunits⟩ := exists_units hm hk
  have hnearest := nearest_units x Nat.one_pos x.negative
  rw [Nat.mul_one, hunits, hnegative] at hnearest
  refine ⟨x, hnearest.trans ?_, hnegative, hunits⟩
  rw [← hnegative]

theorem pow10?_exact {k : Nat} (hk : k ≤ 22) :
    ∃ x, pow10? k = some x ∧ x.negative = false ∧ x.units = 10 ^ k * one := by
  have hfive : 5 ^ k < 0x20000000000000 :=
    Nat.lt_of_le_of_lt (Nat.pow_le_pow_right (by decide) hk) (by decide)
  have hten : 10 ^ k = 5 ^ k * 2 ^ k := Nat.mul_pow 5 2 k
  rw [pow10?, Nat.pow_eq, hten]
  exact ofNat?_mul_pow hfive (by omega)

end ServiceSchema.Double
