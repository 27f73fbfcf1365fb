import SeL4.Lib.Word

/-!
# Aligned blocks

Kernel objects live in blocks of a power-of-two size, at an address that is a multiple of the
size. Two such blocks are nested or disjoint (`Block.nested`), which is what lets the kernel decide
by comparing end points who lies inside whom.

`Block.carve` is the arithmetic of carving objects of one size out of a block from a free offset
on: if the bytes that are left are enough for `count` objects, then so are the bytes that are left
after rounding the offset up to the object size.
-/

namespace SeL4.Lib

/-- The block of `2 ^ bits` bytes from `base` on. -/
structure Block where
  base : Nat
  bits : Nat
  deriving DecidableEq, Repr

namespace Block

/-- The first address behind the block. -/
def top (b : Block) : Nat := b.base + 2 ^ b.bits

/-- The base is a multiple of the size. -/
def Aligned (b : Block) : Prop := 2 ^ b.bits ∣ b.base

/-- `a ≤ b`: the block `a` lies inside `b`. -/
instance : LE Block where
  le a b := b.base ≤ a.base ∧ a.top ≤ b.top

/-- The blocks have no byte in common. -/
def Apart (a b : Block) : Prop := a.top ≤ b.base ∨ b.top ≤ a.base

variable {a b c : Block} {x n s : Nat}

theorem le_def : a ≤ b ↔ b.base ≤ a.base ∧ a.top ≤ b.top := .rfl

theorem base_lt_top (a : Block) : a.base < a.top := Nat.lt_add_of_pos_right (Nat.two_pow_pos a.bits)

protected theorem le_refl (a : Block) : a ≤ a := ⟨le_refl _, le_refl _⟩

protected theorem le_trans (hab : a ≤ b) (hbc : b ≤ c) : a ≤ c := ⟨hbc.1.trans hab.1, hab.2.trans hbc.2⟩

theorem Apart.symm (h : a.Apart b) : b.Apart a := Or.symm h

theorem Apart.off (h : a.Apart b) (h1 : a.base ≤ x) (h2 : x < a.top) :
    x < b.base ∨ b.top ≤ x := h.imp h2.trans_le h1.trans'

theorem Apart.of_le (h : b.Apart c) (hab : a ≤ b) : a.Apart c := by
  rcases h with h | h
  · exact .inl (hab.2.trans h)
  · exact .inr (h.trans hab.1)

theorem not_apart_self (a : Block) : ¬ a.Apart a := by
  have := a.base_lt_top
  rintro (h | h) <;> omega

/-- A block inside another one is not apart from it. -/
theorem not_apart_of_le (h : a ≤ b) : ¬ a.Apart b := by
  intro hap
  exact a.not_apart_self (hap.symm.of_le h).symm

/-- The address `x` lies in the block. -/
def Has (b : Block) (x : Nat) : Prop := b.base ≤ x ∧ x < b.top

/-- Blocks with an address in common are not apart. -/
theorem not_apart_of_has (ha : a.Has x) (hb : b.Has x) : ¬ a.Apart b := by
  rintro (h | h)
  · exact absurd (ha.2.trans_le (h.trans hb.1)) (Nat.lt_irrefl x)
  · exact absurd (hb.2.trans_le (h.trans ha.1)) (Nat.lt_irrefl x)

/-- An aligned block of words ends at or below the end of the address space. -/
theorem top_le_of_aligned {p : Word} (h : Aligned ⟨p.toNat, n⟩) (hn : n ≤ 64) :
    p.toNat + 2 ^ n ≤ 2 ^ 64 := by
  obtain ⟨k, hk⟩ := h
  have hlt := p.isLt
  have hk' : p.toNat = 2 ^ n * k := hk
  obtain ⟨d, hd⟩ := pow_dvd_pow 2 hn
  rw [hk', hd] at hlt
  have hkd : k < d := Nat.lt_of_mul_lt_mul_left hlt
  calc p.toNat + 2 ^ n = 2 ^ n * (k + 1) := by rw [hk', Nat.mul_add, Nat.mul_one]
    _ ≤ 2 ^ n * d := Nat.mul_le_mul_left _ hkd
    _ = 2 ^ 64 := hd.symm

/-- The last word address of an aligned block, as the source computes it. -/
theorem toNat_add_mask {p : Word} (h : Aligned ⟨p.toNat, n⟩) (hn : n ≤ 64) :
    (p + mask n).toNat = p.toNat + 2 ^ n - 1 := by
  have htop := top_le_of_aligned h hn
  have hpos := Nat.two_pow_pos n
  rw [BitVec.toNat_add, toNat_mask hn]
  omega

/-- The test of the source for one block inside another. -/
theorem le_iff_words {p q : Word} {m : Nat} (hp : Aligned ⟨p.toNat, n⟩) (hn : n ≤ 64)
    (hq : Aligned ⟨q.toNat, m⟩) (hm : m ≤ 64) :
    (decide (p ≤ q) && decide (q + mask m ≤ p + mask n) && decide (q ≤ q + mask m)) = true ↔
      (⟨q.toNat, m⟩ : Block) ≤ ⟨p.toNat, n⟩ := by
  have hpos := Nat.two_pow_pos n
  have hpos' := Nat.two_pow_pos m
  simp only [Bool.and_eq_true, decide_eq_true_eq, BitVec.le_def, toNat_add_mask hp hn,
    toNat_add_mask hq hm, le_def, top]
  omega

/-! ## Carving objects out of a block -/

/-- Round up to a multiple of `2 ^ s`. -/
def roundUp (x s : Nat) : Nat := (x + (2 ^ s - 1)) / 2 ^ s * 2 ^ s

theorem le_roundUp (x s : Nat) : x ≤ roundUp x s := by
  unfold roundUp
  have hpos := Nat.two_pow_pos s
  have h := Nat.lt_div_mul_add hpos (a := x + (2 ^ s - 1))
  omega

theorem dvd_roundUp (x s : Nat) : 2 ^ s ∣ roundUp x s := Nat.dvd_mul_left _ _

theorem roundUp_lt (x s : Nat) : roundUp x s < x + 2 ^ s := by
  unfold roundUp
  have hpos := Nat.two_pow_pos s
  have h := Nat.div_mul_le_self (x + (2 ^ s - 1)) (2 ^ s)
  omega

theorem roundUp_of_dvd (h : 2 ^ s ∣ x) : roundUp x s = x := by
  obtain ⟨m, rfl⟩ := h
  have hlt : 2 ^ s - 1 < 2 ^ s := Nat.sub_one_lt (Nat.two_pow_pos s).ne'
  rw [roundUp, Nat.mul_add_div (Nat.two_pow_pos s), Nat.div_eq_of_lt hlt, Nat.add_zero, Nat.mul_comm]

theorem roundUp_add {p : Nat} (h : 2 ^ s ∣ p) (x : Nat) : roundUp (p + x) s = p + roundUp x s := by
  obtain ⟨m, rfl⟩ := h
  rw [roundUp, Nat.add_assoc, Nat.mul_add_div (Nat.two_pow_pos s), Nat.add_mul, Nat.mul_comm m]
  rfl

/-- If `count` objects of size `2 ^ s` fit into the bytes behind `x`, they still fit behind `x`
rounded up, as the end is a multiple of the size. -/
theorem roundUp_add_le {e count : Nat} (he : 2 ^ s ∣ e) (hx : x ≤ e)
    (hfit : count ≤ (e - x) / 2 ^ s) : roundUp x s + count * 2 ^ s ≤ e := by
  obtain ⟨k, rfl⟩ := he
  have hmul : count * 2 ^ s ≤ 2 ^ s * k - x :=
    (Nat.mul_le_mul_right _ hfit).trans (Nat.div_mul_le_self _ _)
  obtain ⟨m, hm⟩ := dvd_roundUp x s
  have hlt := roundUp_lt x s
  rw [hm] at hlt ⊢
  have hlt' : 2 ^ s * (m + count) < 2 ^ s * (k + 1) := by
    rw [Nat.mul_add, Nat.mul_add, Nat.mul_comm _ count]
    omega
  have hle : m + count ≤ k := Nat.lt_succ_iff.mp (Nat.lt_of_mul_lt_mul_left hlt')
  calc 2 ^ s * m + count * 2 ^ s = 2 ^ s * (m + count) := by
        rw [Nat.mul_add, Nat.mul_comm count]
    _ ≤ 2 ^ s * k := Nat.mul_le_mul_left _ hle

/-- Object `i` of size `2 ^ s` of those carved from `start` on. -/
def carve (start s i : Nat) : Block := ⟨start + i * 2 ^ s, s⟩

theorem carve_aligned {start : Nat} (h : 2 ^ s ∣ start) (i : Nat) : (carve start s i).Aligned :=
  Nat.dvd_add h (Nat.dvd_mul_left _ _)

theorem carve_top (start s i : Nat) : (carve start s i).top = start + (i + 1) * 2 ^ s := by
  unfold top carve
  rw [Nat.add_assoc, Nat.add_mul, Nat.one_mul]

theorem carve_apart (start s : Nat) {i j : Nat} (hij : i ≠ j) :
    (carve start s i).Apart (carve start s j) := by
  unfold Apart
  rw [carve_top, carve_top]
  rcases Nat.lt_or_gt_of_ne hij with h | h
  · exact .inl (Nat.add_le_add_left (Nat.mul_le_mul_right _ h) _)
  · exact .inr (Nat.add_le_add_left (Nat.mul_le_mul_right _ h) _)

theorem carve_le {start i count e : Nat} (hi : i < count) (hb : b.base ≤ start)
    (he : start + count * 2 ^ s ≤ e) (hetop : e ≤ b.top) : carve start s i ≤ b := by
  refine ⟨?_, ?_⟩
  · exact hb.trans (Nat.le_add_right _ _)
  · rw [carve_top]
    exact ((Nat.add_le_add_left (Nat.mul_le_mul_right _ hi) _).trans he).trans hetop

end Block

end SeL4.Lib
