import ServiceSchema.Json.Number

/-! # Numbers as natural numbers
An integer and an integral double denote the same natural number. Ranges, the test for integers and the
conversion to machine words agree on it. -/
namespace ServiceSchema

theorem Double.one_pos : 0 < Double.one := by decide +kernel

namespace Json.Number

/-- The number is the natural number `k`; negative zero is zero. -/
def Denotes (n : Number) (k : Nat) : Prop :=
  match n with
  | .integer m _ => m = k
  | .double x => x.units = k * Double.one ∧ x.isNegative = false

theorem Denotes.unique {n : Number} {j k : Nat} (hj : n.Denotes j) (hk : n.Denotes k) : j = k := by
  cases n with
  | integer m h => exact Int.ofNat.inj (hj.symm.trans hk)
  | double x => exact Nat.eq_of_mul_eq_mul_right Double.one_pos (hj.1.symm.trans hk.1)

theorem denotes_double {x : Double} {k : Nat} (h : (Number.double x).Denotes k) :
    x.isIntegral ∧ x.isNegative = false ∧ x.floor = k := by
  obtain ⟨hunits, hneg⟩ := h
  refine ⟨?_, hneg, ?_⟩
  · rw [Double.isIntegral, hunits, Nat.mul_mod_left]
    rfl
  · rw [Double.floor, hunits, Nat.mul_div_cancel k Double.one_pos]

theorem denotes_floor {x : Double} (hintegral : x.isIntegral) (hneg : x.isNegative = false) :
    (Number.double x).Denotes x.floor := by
  have hdvd : Double.one ∣ x.units := Nat.dvd_of_mod_eq_zero (beq_iff_eq.1 hintegral)
  exact ⟨(Nat.div_mul_cancel hdvd).symm, hneg⟩

/-- The numbers that are integers in a range. -/
theorem denotes_within {n : Number} {bound : Nat} :
    n.isAbove bound = false ∧ n.isBelow 0 = false ∧ n.isIntegral ↔ ∃ k ≤ bound, n.Denotes k := by
  cases n with
  | integer m h =>
    simp only [isAbove, isBelow, isIntegral, Denotes, decide_eq_false_iff_not, and_true]
    constructor
    · intro hbounds
      exact ⟨m.toNat, by omega, by omega⟩
    · rintro ⟨k, hk, hm⟩
      omega
  | double x =>
    simp only [isAbove, isBelow, isIntegral, Nat.zero_mul, Nat.not_lt_zero, decide_false, Bool.or_false]
    constructor
    · rintro ⟨habove, hneg, hintegral⟩
      refine ⟨x.floor, ?_, denotes_floor hintegral hneg⟩
      rw [hneg, Bool.not_false, Bool.true_and, decide_eq_false_iff_not, Nat.not_lt] at habove
      exact Nat.div_le_of_le_mul (Nat.mul_comm _ _ ▸ habove)
    · rintro ⟨k, hbound, hk⟩
      obtain ⟨hintegral, hneg, hfloor⟩ := denotes_double hk
      refine ⟨?_, hneg, hintegral⟩
      rw [hneg, Bool.not_false, Bool.true_and, decide_eq_false_iff_not, Nat.not_lt, hk.1]
      exact Nat.mul_le_mul_right _ hbound

theorem toUnsigned?_of_denotes {n : Number} {k : Nat} (h : n.Denotes k) (hk : k < 0x10000000000000000) :
    n.toUnsigned? = some k := by
  cases n with
  | integer m hrange =>
    obtain rfl : m = k := h
    simp [toUnsigned?]
  | double x =>
    obtain ⟨hintegral, hneg, hfloor⟩ := denotes_double h
    simp only [toUnsigned?, hintegral, hneg, hfloor, Bool.not_false, Bool.and_self, Bool.true_and]
    rw [if_pos (decide_eq_true (Nat.le_of_lt hk)), Nat.min_eq_left (by omega)]

theorem denotes_of_toUnsigned? {n : Number} {k : Nat} (h : n.toUnsigned? = some k)
    (hk : k < 0xFFFFFFFFFFFFFFFF) : n.Denotes k := by
  cases n with
  | integer m hrange =>
    simp only [toUnsigned?, Option.ite_none_right_eq_some, Option.some.injEq] at h
    simp only [Denotes]
    omega
  | double x =>
    simp only [toUnsigned?, Option.ite_none_right_eq_some, Option.some.injEq, Bool.and_eq_true,
      Bool.not_eq_true', decide_eq_true_eq] at h
    obtain ⟨⟨⟨hintegral, hneg⟩, -⟩, hmin⟩ := h
    have hfloor : x.floor = k := by omega
    exact hfloor ▸ denotes_floor hintegral hneg

end Json.Number
end ServiceSchema
