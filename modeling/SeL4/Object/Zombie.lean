import SeL4.CNode.Derivation

/-!
# Zombie capabilities

A zombie packs the address of an object's slots and the number of slots that are left into one word:
the low bits, one more than the object's radix, hold the number. Slots are aligned more than that, so
packing loses nothing: `zombiePtr_zombieNew`, `zombieNumber_zombieNew`, and the same for
`zombieSetNumber`. The zombie of a CNode or thread covers its memory (`region_zombieNew_cnode`,
`region_zombieNew_thread`).
-/

namespace SeL4.Object.Cap

open SeL4.Lib

/-! ## Packing -/

/-- The high part of a packed word. -/
theorem packed_high (x y m : Word) : ((x &&& ~~~m) ||| (y &&& m)) &&& ~~~m = x &&& ~~~m := by
  apply BitVec.eq_of_getLsbD_eq
  intro i hi
  simp only [BitVec.getLsbD_and, BitVec.getLsbD_or, BitVec.getLsbD_not]
  cases m.getLsbD i <;> simp

/-- The low part of a packed word. -/
theorem packed_low (x y m : Word) : ((x &&& ~~~m) ||| (y &&& m)) &&& m = y &&& m := by
  apply BitVec.eq_of_getLsbD_eq
  intro i hi
  simp only [BitVec.getLsbD_and, BitVec.getLsbD_or, BitVec.getLsbD_not]
  cases m.getLsbD i <;> simp

variable {t : Nat}

theorem zombieNew_eq (n : Word) (ht : t = zombieTCB ∨ t < zombieTCB) (p : Word) :
    zombieNew n t p = zombie ((p &&& ~~~mask (zombieBits t + 1)) |||
      (n &&& mask (zombieBits t + 1))) t := by
  unfold zombieNew zombieBits
  by_cases h : t = zombieTCB
  · rw [if_pos h, if_pos h]
  · have hlt : t < 2 ^ wordRadix := ht.resolve_left h
    rw [if_neg h, if_neg h, Nat.mod_eq_of_lt hlt]

theorem key_zombieSetNumber (id : Word) (t : Nat) (n : Word) :
    (zombieSetNumber id t n).key = (zombie id t).key := by
  simp only [zombieSetNumber, key, zombiePtr, packed_high]

theorem zombieBits_lt (t : Nat) : zombieBits t < 2 ^ wordRadix := by
  unfold zombieBits
  split_ifs
  · decide
  · exact Nat.mod_lt _ (by decide)

variable {n : Word}

/-- A small number survives packing. -/
theorem and_mask_of_lt {k : Nat} (hk : k ≤ 64) (hn : n.toNat < 2 ^ k) : n &&& mask k = n := by
  apply BitVec.eq_of_toNat_eq
  rw [toNat_and_mask n hk, Nat.mod_eq_of_lt hn]

variable {id : Word}

theorem zombieNumber_zombieSetNumber (hn : n.toNat < 2 ^ (zombieBits t + 1)) :
    ∃ id', zombieSetNumber id t n = zombie id' t ∧ zombiePtr id' t = zombiePtr id t ∧
      zombieNumber id' t = n := by
  have hk : zombieBits t + 1 ≤ 64 := zombieBits_lt t
  exact ⟨_, rfl, packed_high _ _ _, (packed_low _ _ _).trans (and_mask_of_lt hk hn)⟩

variable {p : Word}

/-- Packing an aligned address and a small number. -/
theorem zombieNew_spec (ht : t = zombieTCB ∨ t < zombieTCB)
    (hp : 2 ^ (zombieBits t + 1) ∣ p.toNat) (hn : n.toNat < 2 ^ (zombieBits t + 1)) :
    ∃ id, zombieNew n t p = zombie id t ∧ zombiePtr id t = p ∧ zombieNumber id t = n := by
  have hk : zombieBits t + 1 ≤ 64 := zombieBits_lt t
  refine ⟨_, zombieNew_eq n ht p, (packed_high _ _ _).trans ?_, (packed_low _ _ _).trans ?_⟩
  · exact and_not_mask_of_dvd hk hp
  · exact and_mask_of_lt hk hn

/-! ## The zombies of CNodes and threads -/

variable {cfg : KernelConfig}

variable {g r : Nat} {gd : Word}

theorem WF.cnode_radix (h : (Cap.cnode r g gd p).WF cfg) :
    1 ≤ r ∧ r + slotBits ≤ maxUntypedBits ∧ 2 ^ (r + slotBits) ∣ p.toNat ∧ p ≠ 0 :=
  ⟨(h.cnode rfl).1, h.bits_le rfl, h.aligned rfl, (h.cnode rfl).2.2.2⟩

theorem zombieBits_of_lt (ht : t < zombieTCB) : zombieBits t = t := by
  unfold zombieBits
  rw [if_neg (Nat.ne_of_lt ht)]
  exact Nat.mod_eq_of_lt ht

theorem zombieNew_cnode (h : (Cap.cnode r g gd p).WF cfg) :
    ∃ id, zombieNew (bit r) r p = zombie id r ∧ zombiePtr id r = p ∧ zombieNumber id r = bit r := by
  obtain ⟨-, hr, hp, -⟩ := h.cnode_radix
  have hr' : r + 5 ≤ 47 := hr
  have hlt : r < zombieTCB := by
    have : zombieTCB = 64 := rfl
    omega
  have hbits := zombieBits_of_lt hlt
  refine zombieNew_spec (.inr hlt) ?_ ?_
  · rw [hbits]
    refine (pow_dvd_pow 2 ?_).trans hp
    show r + 1 ≤ r + 5
    omega
  · rw [toNat_bit (by omega)]
    exact Nat.pow_lt_pow_right (by decide) (by omega)

theorem WF.thread_ptr (h : (Cap.thread p).WF cfg) :
    2 ^ cfg.tcbBits ∣ (tcbCTEPtr cfg p).toNat ∧ tcbCTEPtr cfg p ≠ 0 :=
  ⟨h.aligned rfl, (h.thread rfl).2⟩

theorem zombieNew_thread (h : (Cap.thread p).WF cfg) :
    ∃ id, zombieNew (BitVec.ofNat 64 tcbCNodeEntries) zombieTCB (tcbCTEPtr cfg p) =
        zombie id zombieTCB ∧ zombiePtr id zombieTCB = tcbCTEPtr cfg p ∧
      zombieNumber id zombieTCB = BitVec.ofNat 64 tcbCNodeEntries := by
  refine zombieNew_spec (.inl rfl) ?_ (by decide)
  have hbits : zombieBits zombieTCB + 1 = 5 := rfl
  refine (pow_dvd_pow 2 ?_).trans h.thread_ptr.1
  have := cfg.tcbBits_cases
  omega

theorem region_zombie : (Cap.zombie id t).region cfg =
    ⟨(zombiePtr id t).toNat, if t = zombieTCB then cfg.tcbBits else t % 2 ^ wordRadix + slotBits⟩ :=
  rfl

/-- A zombie over the memory of a well-formed capability is well formed. -/
theorem WF.zombie_of_region {c : Cap} (h : c.WF cfg)
    (hp : c.capIsPhysical = true) (hr : (Cap.zombie id t).region cfg = c.region cfg)
    (ht : t = zombieTCB ∨ 1 ≤ t ∧ t < zombieTCB) (h0 : zombiePtr id t ≠ 0) :
    (Cap.zombie id t).WF cfg where
  aligned _ := by
    rw [hr]
    exact h.aligned hp
  bits_le _ := by
    have := congrArg Block.bits hr
    exact this.trans_le (h.bits_le hp)
  untyped h := (nomatch h)
  cnode h := (nomatch h)
  thread h := (nomatch h)
  zombie he := by
    cases he
    exact ⟨ht, h0⟩

/-- The zombie of a CNode covers its memory. -/
theorem zombie_cnode (h : (Cap.cnode r g gd p).WF cfg)
    (hp : zombiePtr id r = p) : (Cap.zombie id r).region cfg = (Cap.cnode r g gd p).region cfg ∧
      (Cap.zombie id r).WF cfg := by
  obtain ⟨h1, hr, -, h0⟩ := h.cnode_radix
  have hr' : r + 5 ≤ 47 := hr
  have hlt : r < zombieTCB := by
    have : zombieTCB = 64 := rfl
    omega
  have hreg : (zombie id r).region cfg = (cnode r g gd p).region cfg := by
    have hmod : r % 2 ^ wordRadix = r := Nat.mod_eq_of_lt hlt
    rw [region_zombie, hp, if_neg (Nat.ne_of_lt hlt), hmod]
    rfl
  exact ⟨hreg, h.zombie_of_region rfl hreg (.inr ⟨h1, hlt⟩) (hp ▸ h0)⟩

/-- The zombie of a thread covers its memory. -/
theorem zombie_thread (h : (Cap.thread p).WF cfg) (hp : zombiePtr id zombieTCB = tcbCTEPtr cfg p) :
    (Cap.zombie id zombieTCB).region cfg = (Cap.thread p).region cfg ∧
      (Cap.zombie id zombieTCB).WF cfg := by
  have hreg : (zombie id zombieTCB).region cfg = (thread p).region cfg := by
    rw [region_zombie, hp]
    rfl
  exact ⟨hreg, h.zombie_of_region rfl hreg (.inl rfl) (hp ▸ h.thread_ptr.2)⟩

/-- Changing a zombie's number keeps it well formed. -/
theorem WF.zombieSetNumber (h : (Cap.zombie id t).WF cfg) (n : Word) :
    (Cap.zombieSetNumber id t n).WF cfg := by
  obtain ⟨ht, h0⟩ := h.zombie rfl
  refine h.zombie_of_region rfl ?_ ht ?_
  · exact region_eq_of_key (key_zombieSetNumber id t n)
  · unfold zombiePtr
    rw [packed_high]
    exact h0

end SeL4.Object.Cap
