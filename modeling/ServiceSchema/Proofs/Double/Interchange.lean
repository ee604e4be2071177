import Mathlib.Algebra.Ring.Nat
import ServiceSchema.Double.Interchange

/-! # Doubles through their bits
Whatever format holds a double exactly, its bits stand for this double and no other. Double precision holds
every double. -/
namespace ServiceSchema.Double

/-! ## Leading digits -/

/-- Cut to its leading `p` binary digits, a number is below `2 ^ p`. -/
theorem leading_lt (n p : Nat) : n / 2 ^ (n.log2 + 1 - p) < 2 ^ p := by
  rw [Nat.div_lt_iff_lt_mul (Nat.pow_pos (by decide)), ← Nat.pow_add]
  exact Nat.lt_of_lt_of_le Nat.lt_log2_self (Nat.pow_le_pow_right (by decide) (by omega))

/-- A number that had to be cut fills all `p` digits. -/
theorem le_leading {n p : Nat} (hp : 0 < p) (h : n.log2 + 1 - p ≠ 0) :
    2 ^ (p - 1) ≤ n / 2 ^ (n.log2 + 1 - p) := by
  have hn : n ≠ 0 := fun hn => h (by rw [hn, Nat.log2_zero]; omega)
  rw [Nat.le_div_iff_mul_le (Nat.pow_pos (by decide)), ← Nat.pow_add,
    show p - 1 + (n.log2 + 1 - p) = n.log2 by omega]
  exact Nat.log2_self_le hn

theorem log2_units_sub (x : Double) : x.units.log2 - 52 = x.scale := by
  have hm := x.mantissa_lt
  simp only [units, Nat.pow_eq]
  by_cases hs : x.scale = 0
  · rw [hs, Nat.pow_zero, Nat.mul_one]
    by_cases h0 : x.mantissa = 0
    · rw [h0, Nat.log2_zero]
    · have := (Nat.log2_lt (k := 53) h0).2 hm
      omega
  · have hn := x.normal hs
    have hpos : 0 < 2 ^ x.scale := Nat.pow_pos (by decide)
    have hlog : (x.mantissa * 2 ^ x.scale).log2 = 52 + x.scale := by
      refine (Nat.log2_eq_iff (Nat.mul_ne_zero (by omega) (by omega))).2 ⟨?_, ?_⟩
      · rw [Nat.pow_add]
        exact Nat.mul_le_mul_right _ hn
      · rw [show 52 + x.scale + 1 = 53 + x.scale by omega, Nat.pow_add]
        exact Nat.mul_lt_mul_of_pos_right hm hpos
    omega

theorem ofUnits?_units (x : Double) : ofUnits? x.negative x.units = some x := by
  have hpos : 0 < Nat.pow 2 x.scale := Nat.pow_pos (by decide)
  simp only [ofUnits?, log2_units_sub]
  rw [units, Nat.mul_div_cancel _ hpos, ofParts?_self]

/-! ## Fields -/

/-- The scale and the mantissa are found again in the sum that packs them. -/
theorem unpack {lead m s : Nat} (hlt : m < 2 * lead) (hle : s ≠ 0 → lead ≤ m) :
    (s * lead + m) / lead - 1 = s ∧
      (if s * lead + m < 2 * lead then s * lead + m else (s * lead + m) % lead + lead) = m := by
  by_cases hs : s = 0
  · subst hs
    have hdiv : m / lead < 2 := (Nat.div_lt_iff_lt_mul (by omega)).2 hlt
    simp only [Nat.zero_mul, Nat.zero_add, hlt, if_true, and_true]
    omega
  · obtain ⟨r, rfl⟩ := Nat.exists_eq_add_of_le (hle hs)
    have hr : r < lead := by omega
    have hsum : s * lead + (lead + r) = r + lead * (s + 1) := by rw [Nat.mul_add, Nat.mul_comm]; omega
    have hge : ¬ r + lead * (s + 1) < 2 * lead := by
      have := Nat.mul_le_mul_left lead (show 2 ≤ s + 1 by omega)
      omega
    rw [hsum, if_neg hge, Nat.add_mul_div_left _ _ (by omega), Nat.add_mul_mod_self_left,
      Nat.div_eq_of_lt hr, Nat.mod_eq_of_lt hr]
    omega

/-- The bits of a format stand for the double they were made from. -/
theorem ofBits_of_toBits? {f : Format} (hp : 0 < f.precision) {x : Double} {bits : Nat}
    (h : toBits? f x = some bits) : bits < 2 * f.signWeight ∧ ofBits f bits = .finite x := by
  simp only [toBits?, Nat.pow_eq] at h
  split at h
  · rename_i hexact
    obtain ⟨hunits, hscale, htop⟩ := hexact
    cases h
    -- `w` units of the format, of which `m * 2 ^ s` is the packed form
    generalize hw : x.units / 2 ^ f.shift = w at *
    generalize hs : w.log2 + 1 - f.precision = s at *
    generalize hm : w / 2 ^ s = m at *
    have hlead : 2 ^ f.precision = 2 * 2 ^ (f.precision - 1) := by
      rw [← Nat.pow_succ', show (f.precision - 1).succ = f.precision by omega]
    have hlt : m < 2 * 2 ^ (f.precision - 1) := by
      rw [← hm, ← hs, ← hlead]
      exact leading_lt w f.precision
    have hle : s ≠ 0 → 2 ^ (f.precision - 1) ≤ m := by
      intro hne
      rw [← hm, ← hs]
      exact le_leading hp (hs ▸ hne)
    have hfit : s * 2 ^ (f.precision - 1) + m < f.signWeight := by
      have := Nat.mul_le_mul_right (2 ^ (f.precision - 1)) (show s + 3 ≤ f.topScale + 3 by omega)
      simp only [Format.signWeight, Nat.pow_eq]
      rw [Nat.add_mul] at this
      omega
    have hback : m * 2 ^ (s + f.shift) = x.units := by
      rw [Nat.pow_add, ← Nat.mul_assoc, ← hm, Nat.div_mul_cancel (Nat.dvd_of_mod_eq_zero hscale), ← hw,
        Nat.div_mul_cancel (Nat.dvd_of_mod_eq_zero hunits)]
    obtain ⟨hs', hm'⟩ := unpack hlt hle
    generalize hM : s * 2 ^ (f.precision - 1) + m = M at *
    have hbits : (if x.negative then f.signWeight else 0) + s * 2 ^ (f.precision - 1) + m
        = (if x.negative then f.signWeight else 0) + M := by omega
    rw [hbits]
    have hmod : ((if x.negative then f.signWeight else 0) + M) % f.signWeight = M := by
      cases x.negative <;> simp [Nat.mod_eq_of_lt hfit]
    have hneg : decide (f.signWeight ≤ (if x.negative then f.signWeight else 0) + M) = x.negative := by
      cases x.negative <;> simp [hfit]
    refine ⟨by cases x.negative <;> simp <;> omega, ?_⟩
    simp only [ofBits, Nat.pow_eq, hmod, hs', hm', htop, if_true, hneg, hback, ofUnits?_units]
  · cases h

theorem toBits?_double (x : Double) : (toBits? .double x).isSome := by
  have hscale : x.units.log2 + 1 - 53 = x.scale := by
    have := log2_units_sub x
    omega
  have hshift : Nat.pow 2 Format.double.shift = 1 := rfl
  have hmod : x.units % Nat.pow 2 x.scale = 0 := Nat.mul_mod_left _ _
  simp only [toBits?, hshift, Nat.div_one, Nat.mod_one]
  simp only [Format.double, hscale, hmod, x.scale_le, and_self, if_true, Option.isSome_some]

end ServiceSchema.Double
