import Mathlib.Data.Nat.Bitwise
import Mathlib.Tactic.Ring

/-!
# Machine words

`word_t` on a 64-bit target, with the bit macros of `util.h`: `BIT`, `MASK`. The lemmas say what
the masks and shifts of the source compute as arithmetic on natural numbers or bit by bit, so that
proofs about addresses and bit fields do not unfold them.
-/

namespace SeL4.Lib

/-- `word_t`. -/
abbrev Word := BitVec 64

instance : LawfulBEq Word := inferInstance

def wordBits : Nat := 64

/-- `wordRadix`: `wordBits` is two to this power. -/
def wordRadix : Nat := 6

/-- `BIT(n)`. -/
def bit (n : Nat) : Word := 1#64 <<< n

/-- `MASK(n)`. -/
def mask (n : Nat) : Word := bit n - 1#64

variable {n : Nat}

theorem toNat_bit (h : n < 64) : (bit n).toNat = 2 ^ n := by
  unfold bit
  rw [BitVec.toNat_shiftLeft, BitVec.toNat_ofNat, Nat.shiftLeft_eq]
  have : 2 ^ n < 2 ^ 64 := Nat.pow_lt_pow_right (by decide) h
  rw [Nat.one_mul, Nat.mod_eq_of_lt this]

/-- `MASK(64)` is the word of ones, as `BIT(64)` is 0 here. -/
theorem toNat_mask (h : n ≤ 64) : (mask n).toNat = 2 ^ n - 1 := by
  rcases Nat.lt_or_eq_of_le h with h | rfl
  · have hle : (1#64).toNat ≤ (bit n).toNat := by
      rw [toNat_bit h]
      exact Nat.two_pow_pos n
    unfold mask
    rw [BitVec.toNat_sub_of_le hle, toNat_bit h]
    rfl
  · decide

theorem getLsbD_mask (h : n ≤ 64) (i : Nat) : (mask n).getLsbD i = decide (i < n) := by
  rw [BitVec.getLsbD, toNat_mask h, Nat.testBit_two_pow_sub_one]

/-- Masking is the remainder. -/
theorem toNat_and_mask (x : Word) (h : n ≤ 64) : (x &&& mask n).toNat = x.toNat % 2 ^ n := by
  rw [BitVec.toNat_and, toNat_mask h, Nat.and_two_pow_sub_one_eq_mod]

/-- Clearing a mask rounds down. -/
theorem toNat_and_not_mask (x : Word) (h : n ≤ 64) : (x &&& ~~~mask n).toNat = x.toNat / 2 ^ n * 2 ^ n := by
  have hdisj : (x &&& ~~~mask n) &&& (x &&& mask n) = 0#64 := by
    apply BitVec.eq_of_getLsbD_eq
    intro i hi
    simp only [BitVec.getLsbD_and, BitVec.getLsbD_not, hi, decide_true, Bool.true_and,
      BitVec.getLsbD_zero]
    cases (mask n).getLsbD i <;> simp
  have hjoin : (x &&& ~~~mask n) ||| (x &&& mask n) = x := by
    apply BitVec.eq_of_getLsbD_eq
    intro i hi
    simp only [BitVec.getLsbD_or, BitVec.getLsbD_and, BitVec.getLsbD_not, hi, decide_true, Bool.true_and]
    cases x.getLsbD i <;> cases (mask n).getLsbD i <;> rfl
  have hsum := BitVec.toNat_add_of_and_eq_zero hdisj
  rw [BitVec.add_eq_or_of_and_eq_zero _ _ hdisj, hjoin, toNat_and_mask x h] at hsum
  have := Nat.div_add_mod x.toNat (2 ^ n)
  rw [Nat.mul_comm] at this
  omega

/-- A multiple of `2 ^ n` has no bits in the mask. -/
theorem and_not_mask_of_dvd {x : Word} (h : n ≤ 64) (hx : 2 ^ n ∣ x.toNat) : x &&& ~~~mask n = x := by
  apply BitVec.eq_of_toNat_eq
  rw [toNat_and_not_mask x h, Nat.div_mul_cancel hx]

/-! ## Single bits -/

theorem getLsbD_bit (h : n < 64) (i : Nat) : (bit n).getLsbD i = decide (i = n) := by
  rw [BitVec.getLsbD, toNat_bit h, Nat.testBit_two_pow]
  exact decide_eq_decide.mpr eq_comm

/-- A store to the field of `w` bits at offset `o`. -/
theorem getLsbD_setField (x v : Word) {o w j : Nat} (hw : w ≤ 64) (hj : j < 64) :
    ((x &&& ~~~(mask w <<< o)) ||| ((v &&& mask w) <<< o)).getLsbD j =
      if o ≤ j ∧ j < o + w then v.getLsbD (j - o) else x.getLsbD j := by
  simp only [BitVec.getLsbD_or, BitVec.getLsbD_and, BitVec.getLsbD_not, BitVec.getLsbD_shiftLeft, hj,
    decide_true, Bool.true_and, getLsbD_mask hw]
  by_cases ho : j < o
  · simp [ho]
  · have hsub : j - o < w ↔ j < o + w := by omega
    by_cases hlt : j < o + w
    · rw [if_pos ⟨Nat.not_lt.mp ho, hlt⟩]
      simp [ho, hsub.mpr hlt]
    · simp [ho, hsub, hlt]

variable {w : Word}

theorem ne_zero_of_getLsbD {i : Nat} (h : w.getLsbD i = true) : w ≠ 0 := by
  rintro rfl
  rw [show (0 : Word) = 0#64 from rfl, BitVec.getLsbD_zero] at h
  cases h

/-- `wordBits - 1 - clzl(w)`: the highest bit that is set. -/
def highBit (w : Word) : Nat := wordBits - 1 - w.clz.toNat

theorem highBit_lt (w : Word) : highBit w < 64 := by
  unfold highBit wordBits
  omega

theorem getLsbD_highBit (h : w ≠ 0) : w.getLsbD (highBit w) = true :=
  BitVec.getLsbD_true_clz_of_ne_zero (by decide) h

theorem le_highBit {i : Nat} (h : w.getLsbD i = true) : i ≤ highBit w := by
  by_contra hlt
  unfold highBit wordBits at hlt
  have hpow : 2 ^ (64 - w.clz.toNat) ≤ 2 ^ i := Nat.pow_le_pow_right (by decide) (by omega)
  have hw : w.toNat < 2 ^ i := Nat.lt_of_lt_of_le BitVec.toNat_lt_two_pow_sub_clz hpow
  rw [BitVec.getLsbD, Nat.testBit_lt_two_pow hw] at h
  cases h

end SeL4.Lib
