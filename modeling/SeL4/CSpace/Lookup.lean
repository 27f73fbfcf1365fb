import SeL4.Lib.Checked
import SeL4.Object.Cap

/-!
# Capability lookup: the slow and the fast walk of a CSpace

Model of `resolveAddressBits` (`cspace.c`) and of `lookup_fp` (`fastpath.h`). Both walk a graph of
CNodes, given here as the capability stored at each slot address.

* `resolveAddressBits` counts down the bits that are left, and takes a guard and an index out of
  the middle of the address with right shifts. The shift for the guard is masked to
  `wordRadix` bits, so that it is defined when all bits are left and the guard is empty.
* `lookup_fp` counts up the bits it has consumed, shifts these out to the left, and tests only
  after the walk whether it has used more bits than there are.

A shift by `wordBits` is undefined in C, so `lookup_fp` on a CNode of radix 0 is a fault of the
model, as is the failed assertion that every CNode resolves bits.

Result: `lookup_fp_refines`. On a graph of well-formed CNodes neither walk faults; where the slow
one finds a slot the fast one returns what is stored there, and where it fails the fast one returns
a null capability.
-/

namespace SeL4.CSpace

open SeL4.Lib SeL4.Object

/-- `lookup_fault_t`. Address resolution itself does not raise `missingCapability`. -/
inductive LookupFault
  | invalidRoot
  | missingCapability (bitsLeft : Nat)
  | guardMismatch (guardFound : Word) (bitsLeft bitsFound : Nat)
  | depthMismatch (bitsFound bitsLeft : Nat)
  deriving DecidableEq, Repr

/-- The slot that `resolveAddressBits` found, and the bits it did not need. -/
structure Resolved where
  slot : Word
  bitsRemaining : Nat
  deriving DecidableEq, Repr

/-- `CTE_PTR(p) + i`: slot `i` of the array at `p`. -/
def cteAt (p i : Word) : Word := p + (i <<< slotBits)

theorem toNat_cteAt_of_lt {p i : Word} (h : p.toNat + i.toNat * 2 ^ slotBits < 2 ^ 64) :
    (cteAt p i).toNat = p.toNat + i.toNat * 2 ^ slotBits := by
  rw [cteAt, BitVec.toNat_add, BitVec.toNat_shiftLeft, Nat.shiftLeft_eq, Nat.add_mod_mod,
    Nat.mod_eq_of_lt h]

/-- The shift `(n_bits - guardBits) & MASK(wordRadix)`, on words. -/
def guardShift (nBits guardBits : Nat) : Nat :=
  ((BitVec.ofNat 64 nBits - BitVec.ofNat 64 guardBits) &&& mask wordRadix).toNat

section Walks

variable (caps : Word → Cap) (cptr : Word)

/-- The loop of `resolveAddressBits`, at a CNode with the given fields. -/
def resolveLoop (radixBits guardBits : Nat) (capGuard ptr : Word) (nBits : Nat) :
    Checked (Except LookupFault Resolved) :=
  if _h : radixBits + guardBits = 0 then .error .assertion
  else
    let guard := (cptr >>> guardShift nBits guardBits) &&& mask guardBits
    if guardBits > nBits ∨ guard ≠ capGuard then
      .ok (.error (.guardMismatch capGuard nBits guardBits))
    else if _h : radixBits + guardBits > nBits then
      .ok (.error (.depthMismatch (radixBits + guardBits) nBits))
    else
      let offset := (cptr >>> (nBits - (radixBits + guardBits))) &&& mask radixBits
      let slot := cteAt ptr offset
      if nBits = radixBits + guardBits then .ok (.ok ⟨slot, 0⟩)
      else
        match caps slot with
        | .cnode r g gd p => resolveLoop r g gd p (nBits - (radixBits + guardBits))
        | _ => .ok (.ok ⟨slot, nBits - (radixBits + guardBits)⟩)
termination_by nBits
decreasing_by omega

def resolveAddressBits (nodeCap : Cap) (nBits : Nat) : Checked (Except LookupFault Resolved) :=
  match nodeCap with
  | .cnode r g gd p => resolveLoop caps cptr r g gd p nBits
  | _ => .ok (.error .invalidRoot)

/-- The loop of `lookup_fp`, at a CNode with the given fields, with `bits` bits consumed. -/
def lookupFpLoop (radixBits guardBits : Nat) (capGuard ptr : Word) (bits : Nat) : Checked Cap :=
  if _h : radixBits = 0 then .error .assertion
  else
    let cptr2 := cptr <<< bits
    if guardBits ≠ 0 ∧ cptr2 >>> (wordBits - guardBits) ≠ capGuard then .ok .null
    else
      let radix := (cptr2 <<< guardBits) >>> (wordBits - radixBits)
      let slot := cteAt ptr radix
      let bits' := bits + (guardBits + radixBits)
      if _h : bits' < wordBits then
        match caps slot with
        | .cnode r g gd p => lookupFpLoop r g gd p bits'
        | cap => .ok cap
      else if bits' > wordBits then .ok .null
      else .ok (caps slot)
termination_by wordBits - bits
decreasing_by omega

def lookupFp (cap : Cap) : Checked Cap :=
  match cap with
  | .cnode r g gd p => lookupFpLoop caps cptr r g gd p 0
  | _ => .ok .null

end Walks

/-! ## Shifts -/

theorem guardShift_eq {n g : Nat} (hg : g ≤ n) (hn : n ≤ 64) : guardShift n g = (n - g) % 64 := by
  unfold guardShift
  rw [toNat_and_mask _ (by decide), BitVec.toNat_sub]
  simp only [BitVec.toNat_ofNat, wordRadix]
  omega

/-- The index, taken from the left or from the right. -/
theorem offset_eq (cptr : Word) {n r g : Nat} (hr : 0 < r) (hl : r + g ≤ n) (hn : n ≤ 64) :
    ((cptr <<< (64 - n)) <<< g) >>> (64 - r) = (cptr >>> (n - (r + g))) &&& mask r := by
  apply BitVec.eq_of_getLsbD_eq
  intro i hi
  rw [BitVec.getLsbD_ushiftRight, BitVec.getLsbD_shiftLeft, BitVec.getLsbD_shiftLeft,
    BitVec.getLsbD_and, BitVec.getLsbD_ushiftRight, getLsbD_mask (show r ≤ 64 by omega)]
  by_cases hir : i < r
  · have h1 : 64 - r + i < 64 := by omega
    have h2 : ¬ 64 - r + i < g := by omega
    have h3 : 64 - r + i - g < 64 := by omega
    have h4 : ¬ 64 - r + i - g < 64 - n := by omega
    have h5 : 64 - r + i - g - (64 - n) = n - (r + g) + i := by omega
    simp only [h1, h2, h3, h4, h5, hir, decide_true, decide_false, Bool.true_and, Bool.not_false,
      Bool.and_true]
  · have h1 : ¬ 64 - r + i < 64 := by omega
    simp only [h1, hir, decide_false, Bool.false_and, Bool.and_false]

/-- The guard, taken from the left or from the right. -/
theorem guard_eq (cptr : Word) {n g : Nat} (hg : 0 < g) (hgn : g ≤ n) (hn : n ≤ 64) :
    (cptr <<< (64 - n)) >>> (64 - g) = (cptr >>> guardShift n g) &&& mask g := by
  rw [guardShift_eq hgn hn, Nat.mod_eq_of_lt (by omega)]
  simpa using offset_eq cptr (g := 0) hg hgn hn

/-! ## The two walks agree -/

/-- What `updateCapData` and `createObject` make of a CNode capability: it resolves at least one
bit and at most a word, and its guard fits its size. -/
def CNodeValid : Cap → Prop
  | .cnode radix guardSize guard _ =>
    1 ≤ radix ∧ radix + guardSize ≤ wordBits ∧ guard.toNat < 2 ^ guardSize
  | _ => True

/-- The fast result `cap` for the slow result `ret`. -/
def Agrees (caps : Word → Cap) (ret : Except LookupFault Resolved) (cap : Cap) : Prop :=
  match ret with
  | .ok r => cap = caps r.slot
  | .error _ => cap = .null

/-- Both tests of the guard, where enough bits are left for it. -/
theorem guard_test (cptr : Word) {n r g : Nat} {guard : Word} (hrg : r + g ≤ wordBits)
    (hguard : guard.toNat < 2 ^ g) (hgn : g ≤ n) (hn : n ≤ 64) :
    (g ≠ 0 ∧ (cptr <<< (64 - n)) >>> (wordBits - g) ≠ guard) ↔
      (cptr >>> guardShift n g) &&& mask g ≠ guard := by
  unfold wordBits at *
  by_cases hg : g = 0
  · subst hg
    have hz : guard = 0 := by
      apply BitVec.eq_of_toNat_eq
      simpa using hguard
    constructor
    · rintro ⟨h, -⟩
      exact absurd rfl h
    · intro h
      rw [hz] at h
      exact absurd BitVec.and_zero h
  · rw [guard_eq cptr (Nat.pos_of_ne_zero hg) hgn hn]
    exact and_iff_right hg

section Agreement

variable {caps : Word → Cap} (hcaps : ∀ p, CNodeValid (caps p)) (cptr : Word)
include hcaps

/-- From any CNode, with `n` bits left, the loops end and agree. -/
theorem loops_agree (n : Nat) : ∀ (r g : Nat) (guard ptr : Word), 0 < n → n ≤ 64 →
    CNodeValid (.cnode r g guard ptr) → ∃ ret cap, resolveLoop caps cptr r g guard ptr n = .ok ret ∧
      lookupFpLoop caps cptr r g guard ptr (64 - n) = .ok cap ∧ Agrees caps ret cap := by
  -- strong induction: each level of the graph consumes at least its radix
  induction n using Nat.strong_induction_on with
  | _ n ih =>
    rintro r g guard ptr hpos hn ⟨hr, hrg, hguard⟩
    have hw : wordBits = 64 := rfl
    have hlevel : ¬ r + g = 0 := by omega
    have hradix : ¬ r = 0 := by omega
    rw [resolveLoop, lookupFpLoop, dif_neg hlevel, dif_neg hradix]
    -- `lookup_fp` runs on where the slow walk sees too few bits; the final test catches it
    have hover : n < r + g → ∀ slot : Word,
        (if _h : 64 - n + (g + r) < wordBits then
          match caps slot with
          | .cnode r' g' gd' p' => lookupFpLoop caps cptr r' g' gd' p' (64 - n + (g + r))
          | cap => .ok cap
        else if 64 - n + (g + r) > wordBits then .ok .null
        else .ok (caps slot) : Checked Cap) = .ok .null := by
      intro hlt slot
      rw [dif_neg (by omega), if_pos (by omega)]
    by_cases hgn : g ≤ n
    · have htest := guard_test cptr hrg hguard hgn hn
      by_cases hgd : (cptr >>> guardShift n g) &&& mask g ≠ guard
      · rw [if_pos (.inr hgd), if_pos (htest.mpr hgd)]
        exact ⟨_, _, rfl, rfl, rfl⟩
      · rw [if_neg (by rintro (h | h) <;> [omega; exact hgd h]), if_neg (fun h => hgd (htest.mp h))]
        by_cases hl : n < r + g
        · rw [dif_pos hl]
          exact ⟨_, _, rfl, hover hl _, rfl⟩
        · rw [dif_neg hl, hw, offset_eq cptr hr (by omega) hn]
          simp only
          generalize cteAt ptr ((cptr >>> (n - (r + g))) &&& mask r) = slot
          by_cases hlast : n = r + g
          · rw [if_pos hlast, dif_neg (by omega), if_neg (by omega)]
            exact ⟨_, _, rfl, rfl, rfl⟩
          · rw [if_neg hlast, dif_pos (by omega)]
            have hbits : 64 - n + (g + r) = 64 - (n - (r + g)) := by omega
            rw [hbits]
            have hc := hcaps slot
            cases hcap : caps slot with
            | cnode r' g' gd' p' =>
              rw [hcap] at hc
              exact ih _ (by omega) r' g' gd' p' (by omega) (by omega) hc
            | _ => exact ⟨_, _, rfl, rfl, hcap.symm⟩
    · rw [if_pos (.inl (by omega))]
      by_cases hgd : g ≠ 0 ∧ (cptr <<< (64 - n)) >>> (wordBits - g) ≠ guard
      · rw [if_pos hgd]
        exact ⟨_, _, rfl, rfl, rfl⟩
      · rw [if_neg hgd]
        exact ⟨_, _, rfl, hover (by omega) _, rfl⟩

end Agreement

/-- **The fast lookup agrees with the slow one.** For every graph of well-formed CNodes, every root
capability and every address, both walks end without a fault. If `resolveAddressBits` finds a slot,
`lookup_fp` returns the capability stored in it, whatever bits remain; if it raises a lookup fault,
`lookup_fp` returns a null capability. -/
theorem lookup_fp_refines (caps : Word → Cap) (hcaps : ∀ p, CNodeValid (caps p)) (root : Cap)
    (hroot : CNodeValid root) (cptr : Word) :
    ∃ ret cap, resolveAddressBits caps cptr root wordBits = .ok ret ∧
      lookupFp caps cptr root = .ok cap ∧
      (∀ r, ret = .ok r → cap = caps r.slot) ∧ (∀ f, ret = .error f → cap = .null) := by
  have hend : ∃ ret cap, resolveAddressBits caps cptr root wordBits = .ok ret ∧
      lookupFp caps cptr root = .ok cap ∧ Agrees caps ret cap := by
    cases root with
    | cnode r g guard ptr =>
      exact loops_agree hcaps cptr 64 r g guard ptr (by decide) (le_refl _) hroot
    | _ => exact ⟨_, _, rfl, rfl, rfl⟩
  obtain ⟨ret, cap, hslow, hfast, hagree⟩ := hend
  refine ⟨ret, cap, hslow, hfast, ?_, ?_⟩
  · rintro r rfl
    exact hagree
  · rintro f rfl
    exact hagree

/-- A CSpace of two levels: slot 0 of the array at `0x1000` holds a second CNode, over the same
array and behind a guard of 56 bits. -/
def sampleCaps (p : Word) : Cap :=
  if p = 0x1000#64 then .cnode 4 56 0x1 0x1000 else .endpoint 0 true true true true 0x2000

theorem lookup_fp_refines_sample : CNodeValid (.cnode 2 2 1 0x1000) ∧
      ∃ ret cap, resolveAddressBits sampleCaps 0x4000000000000016 (.cnode 2 2 1 0x1000) wordBits =
          .ok ret ∧ lookupFp sampleCaps 0x4000000000000016 (.cnode 2 2 1 0x1000) = .ok cap ∧
        (∀ r, ret = .ok r → cap = sampleCaps r.slot) ∧ (∀ f, ret = .error f → cap = .null) := by
  have hcaps : ∀ p, CNodeValid (sampleCaps p) := by
    intro p
    unfold sampleCaps
    split_ifs with hp
    · exact ⟨by decide, by decide, by decide⟩
    · trivial
  have hroot : CNodeValid (.cnode 2 2 1 0x1000) := ⟨by decide, by decide, by decide⟩
  exact ⟨hroot, lookup_fp_refines sampleCaps hcaps _ hroot _⟩

end SeL4.CSpace
