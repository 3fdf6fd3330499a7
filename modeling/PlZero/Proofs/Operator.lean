import Mathlib.Algebra.Ring.Int.Parity
import PlZero.Operator

/-! Exactness of the operators. `Exact` says what an operator gives on integers of any size,
division by the remainder it leaves and not by an algorithm. On words an operator gives that very
integer wherever a word holds it, and nothing where none does; so the least word has no negation,
and division fails for a zero divisor and at one more pair of operands. -/

namespace PlZero

/-! ### Words -/

/-- The integers that a word can hold. -/
def InWord (n : Int) : Prop := -2 ^ 63 ≤ n ∧ n ≤ 2 ^ 63 - 1

theorem inWord_toInt (a : Int64) : InWord a.toInt := by
  have hle := a.le_toInt
  have hlt := a.toInt_lt
  unfold InWord
  omega

theorem checked_eq_some_iff {n : Int} {v : Int64} : checked n = some v ↔ v.toInt = n := by
  unfold checked
  rw [Int64.toInt_minValue, Int64.toInt_maxValue]
  constructor
  · intro h
    split_ifs at h with hn
    obtain rfl := Option.some.inj h
    exact Int64.toInt_ofInt_of_le hn.1 (by omega)
  · rintro rfl
    obtain ⟨hmin, hmax⟩ := inWord_toInt v
    rw [if_pos ⟨hmin, hmax⟩, Int64.ofInt_toInt]

/-- The word `x`, if there is one, holds the integer for which `P` is true; there is none only if no
such integer is one of a word. -/
structure Computes (P : Int → Prop) (x : Option Int64) : Prop where
  eq_some_iff : ∀ v : Int64, x = some v ↔ ∃ n, P n ∧ InWord n ∧ v.toInt = n
  eq_none_iff : x = none ↔ ∀ n, P n → ¬ InWord n

theorem computes_of_some_iff {P : Int → Prop} {x : Option Int64}
    (h : ∀ v : Int64, x = some v ↔ P v.toInt) : Computes P x where
  eq_some_iff v := by
    rw [h]
    constructor
    · intro hv
      exact ⟨v.toInt, hv, inWord_toInt v, rfl⟩
    · rintro ⟨n, hn, -, rfl⟩
      exact hn
  eq_none_iff := by
    constructor
    · rintro hnone n hn ⟨hmin, hmax⟩
      have hword : (Int64.ofInt n).toInt = n := Int64.toInt_ofInt_of_le hmin (by omega)
      have hsome : x = some (Int64.ofInt n) := (h _).2 (hword.symm ▸ hn)
      rw [hnone] at hsome
      cases hsome
    · intro hout
      cases x with
      | none => rfl
      | some v => exact absurd (inWord_toInt v) (hout _ ((h v).1 rfl))

/-! ### Truth values -/

/-- One says that `p` holds, and zero that it does not. -/
def Tells (p : Prop) (n : Int) : Prop := p ∧ n = 1 ∨ ¬ p ∧ n = 0

theorem truth_eq_some_iff {b : Bool} {p : Prop} (h : b = true ↔ p) {v : Int64} :
    some (truth b) = some v ↔ Tells p v.toInt := by
  have hone : v.toInt = 1 ↔ 1 = v := by rw [eq_comm]; exact Int64.toInt_inj (x := 1)
  have hzero : v.toInt = 0 ↔ 0 = v := by rw [eq_comm]; exact Int64.toInt_inj (x := 0)
  rw [Tells, hone, hzero, ← h, Option.some_inj]
  cases b <;> simp [truth]

/-! ### Quotients -/

/-- The number `q` is `a / b` truncated toward zero: what it leaves of `a` is smaller than `b` and
does not have the other sign than `a`. -/
def Truncates (a b q : Int) : Prop :=
  ∃ r, a = b * q + r ∧ r.natAbs < b.natAbs ∧ (0 ≤ a → 0 ≤ r) ∧ (a ≤ 0 → r ≤ 0)

theorem tmod_nonpos {a : Int} (b : Int) (h : a ≤ 0) : a.tmod b ≤ 0 := by
  have hneg := Int.tmod_nonneg b (Int.neg_nonneg_of_nonpos h)
  rw [Int.neg_tmod] at hneg
  omega

theorem truncates_iff {a b q : Int} : Truncates a b q ↔ b ≠ 0 ∧ a.tdiv b = q := by
  constructor
  · rintro ⟨r, ha, hr, hnonneg, hnonpos⟩
    have hb : b ≠ 0 := by omega
    refine ⟨hb, ?_⟩
    rcases Int.le_total 0 a with h | h
    · have hbounds : r + b * q = a ∧ 0 ≤ r ∧ r < b.natAbs := ⟨by omega, hnonneg h, by omega⟩
      exact ((Int.tdiv_tmod_unique h hb).2 hbounds).1
    · have hbounds : r + b * q = a ∧ -b.natAbs < r ∧ r ≤ 0 := ⟨by omega, by omega, hnonpos h⟩
      exact ((Int.tdiv_tmod_unique' h hb).2 hbounds).1
  · rintro ⟨hb, rfl⟩
    refine ⟨a.tmod b, (Int.mul_tdiv_add_tmod a b).symm, ?_, Int.tmod_nonneg b, tmod_nonpos b⟩
    rw [Int.natAbs_tmod]
    exact Nat.mod_lt _ (by omega)

/-- Quotients are no greater than what is divided, so only a change of sign can lead out of the
integers that a word holds. -/
theorem inWord_tdiv_iff {a b : Int} (ha : InWord a) (hb : b ≠ 0) :
    InWord (a.tdiv b) ↔ ¬ (a = -2 ^ 63 ∧ b = -1) := by
  unfold InWord at ha ⊢
  by_cases hone : b = 1
  · rw [hone, Int.tdiv_one]
    omega
  by_cases hminus : b = -1
  · rw [hminus, Int.tdiv_neg, Int.tdiv_one]
    omega
  have hhalf : (a.tdiv b).natAbs ≤ a.natAbs / 2 := by
    rw [Int.natAbs_tdiv]
    exact Nat.div_le_div_left (by omega) (by decide)
  omega

/-! ### Operators -/

namespace BinaryOp

/-- What the operator gives on integers of any size. A zero divisor gives nothing. -/
def Exact : BinaryOp → Int → Int → Int → Prop
  | add, a, b, n => n = a + b
  | sub, a, b, n => n = a - b
  | mul, a, b, n => n = a * b
  | div, a, b, n => Truncates a b n
  | equal, a, b, n => Tells (a = b) n
  | notEqual, a, b, n => Tells (a ≠ b) n
  | less, a, b, n => Tells (a < b) n
  | lessEqual, a, b, n => Tells (a ≤ b) n
  | greater, a, b, n => Tells (a > b) n
  | greaterEqual, a, b, n => Tells (a ≥ b) n

theorem apply_eq_some_iff (op : BinaryOp) (a b v : Int64) :
    op.apply a b = some v ↔ op.Exact a.toInt b.toInt v.toInt := by
  cases op with
  | add | sub | mul => exact checked_eq_some_iff
  | div =>
    rw [Exact, truncates_iff, apply]
    split_ifs with hb
    · simp [hb]
    · rw [checked_eq_some_iff, eq_comm]
      exact (and_iff_right hb).symm
  | equal | notEqual | less | lessEqual | greater | greaterEqual =>
    exact truth_eq_some_iff decide_eq_true_iff

theorem div_eq_none_iff (a b : Int64) :
    div.apply a b = none ↔ b.toInt = 0 ∨ a.toInt = -2 ^ 63 ∧ b.toInt = -1 := by
  rw [(computes_of_some_iff (div.apply_eq_some_iff a b)).eq_none_iff]
  by_cases hb : b.toInt = 0
  · simp [Exact, truncates_iff, hb]
  · have hquotient := inWord_tdiv_iff (inWord_toInt a) hb
    simp only [Exact, truncates_iff, hb, ne_eq, not_false_eq_true, true_and, forall_eq', false_or]
    rw [hquotient, not_not]

end BinaryOp

namespace UnaryOp

/-- What the operator gives on integers of any size. -/
def Exact : UnaryOp → Int → Int → Prop
  | neg, a, n => n = -a
  | odd, a, n => Tells (Odd a) n

theorem tmod_two_ne_zero_iff (a : Int) : (a.tmod 2 != 0) = true ↔ Odd a := by
  have hmod := Int.tmod_two_eq a
  have hsplit := Int.mul_tdiv_add_tmod a 2
  rw [bne_iff_ne, Int.odd_iff]
  omega

theorem apply_eq_some_iff (op : UnaryOp) (a v : Int64) :
    op.apply a = some v ↔ op.Exact a.toInt v.toInt := by
  cases op with
  | neg => exact checked_eq_some_iff
  | odd => exact truth_eq_some_iff (tmod_two_ne_zero_iff a.toInt)

theorem neg_eq_none_iff (a : Int64) : neg.apply a = none ↔ a.toInt = -2 ^ 63 := by
  have ha := inWord_toInt a
  rw [(computes_of_some_iff (neg.apply_eq_some_iff a)).eq_none_iff]
  simp only [Exact, forall_eq]
  unfold InWord at ha ⊢
  omega

end UnaryOp

/-- The operators compute on words what they give on integers, wherever a word holds it. -/
theorem constants_computed_exactly (a b : Int64) :
    (∀ op : BinaryOp, Computes (op.Exact a.toInt b.toInt) (op.apply a b)) ∧
    (BinaryOp.div.apply a b = none ↔ b.toInt = 0 ∨ a.toInt = -2 ^ 63 ∧ b.toInt = -1) ∧
    (∀ op : UnaryOp, Computes (op.Exact a.toInt) (op.apply a)) ∧
    (UnaryOp.neg.apply a = none ↔ a.toInt = -2 ^ 63) := by
  refine ⟨?_, BinaryOp.div_eq_none_iff a b, ?_, UnaryOp.neg_eq_none_iff a⟩
  · intro op
    exact computes_of_some_iff (op.apply_eq_some_iff a b)
  · intro op
    exact computes_of_some_iff (op.apply_eq_some_iff a)

-- Quotients and parity of negative numbers, and the product that a word just does not hold.
example : BinaryOp.div.apply (-7) 2 = some (-3) ∧ UnaryOp.odd.apply (-7) = some 1 ∧
    BinaryOp.mul.apply 4294967296 2147483648 = none := by
  decide

end PlZero
