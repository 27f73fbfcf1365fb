import SeL4.Object.Region

/-!
# Looking up slots for invocations

`lookupSlotForCNodeOp` and its three users, and `lookupSlot` for a thread's own CSpace. A look-up
in well-formed CNodes does not fault, and the slot it finds is not the null pointer.
-/

namespace SeL4.CSpace

open SeL4.Lib SeL4.Object

section Lookups

variable (caps : Word → Cap)

def lookupSlotForCNodeOp (isSource : Bool) (root : Cap) (capptr depth : Word) : Decode Word :=
  if !root.isCNode then .error (.syscall (.failedLookup isSource .invalidRoot))
  else if depth < 1 ∨ depth > BitVec.ofNat 64 wordBits then
    .error (.syscall (.rangeError 1 (BitVec.ofNat 64 wordBits)))
  else
    match resolveAddressBits caps capptr root depth.toNat with
    | .error f => .error (.fault f)
    | .ok (.error fault) => .error (.syscall (.failedLookup isSource fault))
    | .ok (.ok r) =>
      if r.bitsRemaining ≠ 0 then
        .error (.syscall (.failedLookup isSource (.depthMismatch 0 r.bitsRemaining)))
      else .ok r.slot

def lookupSourceSlot (root : Cap) (capptr depth : Word) : Decode Word :=
  lookupSlotForCNodeOp caps true root capptr depth

def lookupTargetSlot (root : Cap) (capptr depth : Word) : Decode Word :=
  lookupSlotForCNodeOp caps false root capptr depth

def lookupPivotSlot (root : Cap) (capptr depth : Word) : Decode Word :=
  lookupSlotForCNodeOp caps true root capptr depth

/-- `lookupSlot` in a CSpace with the given root. -/
def lookupSlot (threadRoot : Cap) (capptr : Word) : Checked (Except LookupFault Word) :=
  match resolveAddressBits caps capptr threadRoot wordBits with
  | .error f => .error f
  | .ok (.error fault) => .ok (.error fault)
  | .ok (.ok r) => .ok (.ok r.slot)

end Lookups

/-! ## Well-formed CSpaces -/

variable {cfg : KernelConfig} {caps : Word → Cap}

/-- The `i`-th slot of a CNode does not wrap around. -/
theorem toNat_cteAt {radix g : Nat} {gd ptr i : Word}
    (hwf : (Cap.cnode radix g gd ptr).WF cfg) (hi : i.toNat < 2 ^ radix) :
    (cteAt ptr i).toNat = ptr.toNat + i.toNat * 2 ^ slotBits := by
  have hbits : radix + slotBits ≤ 47 := hwf.bits_le rfl
  have hal : Block.Aligned ⟨ptr.toNat, radix + slotBits⟩ := hwf.aligned rfl
  have htop := Block.top_le_of_aligned hal (by omega)
  have hr : 2 ^ (radix + slotBits) = 2 ^ radix * 2 ^ slotBits := Nat.pow_add ..
  have hlt : i.toNat * 2 ^ slotBits < 2 ^ radix * 2 ^ slotBits :=
    Nat.mul_lt_mul_of_pos_right hi (Nat.two_pow_pos slotBits)
  exact toNat_cteAt_of_lt (by omega)

theorem cteAt_ne_zero {radix g : Nat} {gd ptr i : Word}
    (hwf : (Cap.cnode radix g gd ptr).WF cfg) (hi : i.toNat < 2 ^ radix) : cteAt ptr i ≠ 0 := by
  intro h0
  have h := toNat_cteAt hwf hi
  rw [h0] at h
  have hp : ptr.toNat = 0 := Nat.eq_zero_of_add_eq_zero_right h.symm
  exact (hwf.cnode rfl).2.2.2 (BitVec.eq_of_toNat_eq hp)

section Wf

variable (hcaps : ∀ p, (caps p).WF cfg) (cptr : Word)
include hcaps

/-- The walk ends, and a slot it finds belongs to a CNode of the graph. -/
theorem resolveLoop_spec (n : Nat) : ∀ (r g : Nat) (guard ptr : Word),
    (Cap.cnode r g guard ptr).WF cfg →
    ∃ ret, resolveLoop caps cptr r g guard ptr n = .ok ret ∧ ∀ res, ret = .ok res → res.slot ≠ 0 := by
  -- strong induction: each level of the graph consumes at least its radix
  induction n using Nat.strong_induction_on with
  | _ n ih =>
    intro r g guard ptr hwf
    obtain ⟨hr, -, -, -⟩ := hwf.cnode rfl
    have hbits : r + slotBits ≤ 47 := hwf.bits_le rfl
    rw [resolveLoop, dif_neg (by omega)]
    dsimp only
    split_ifs with hg hl hlast
    · exact ⟨_, rfl, by simp⟩
    · exact ⟨_, rfl, by simp⟩
    all_goals
      have hidx : ((cptr >>> (n - (r + g))) &&& mask r).toNat < 2 ^ r := by
        rw [toNat_and_mask _ (by omega)]
        exact Nat.mod_lt _ (Nat.two_pow_pos r)
      have hne := cteAt_ne_zero hwf hidx
    · refine ⟨_, rfl, ?_⟩
      rintro res ⟨⟩
      exact hne
    · cases hc : caps (cteAt ptr ((cptr >>> (n - (r + g))) &&& mask r)) with
      | cnode r' g' gd' p' =>
        exact ih _ (by omega) r' g' gd' p' (hc ▸ hcaps _)
      | _ =>
        refine ⟨_, rfl, ?_⟩
        rintro res ⟨⟩
        exact hne

variable {root : Cap}

section

variable (hroot : root.WF cfg)
include hroot

theorem resolveAddressBits_spec (n : Nat) :
    ∃ ret, resolveAddressBits caps cptr root n = .ok ret ∧ ∀ res, ret = .ok res → res.slot ≠ 0 := by
  cases root with
  | cnode r g guard ptr => exact resolveLoop_spec hcaps cptr n r g guard ptr hroot
  | _ => exact ⟨_, rfl, nofun⟩

/-- **A look-up never faults**, and finds no null pointer. -/
theorem lookupSlotForCNodeOp_spec (isSource : Bool) (depth : Word) :
    (∃ e, lookupSlotForCNodeOp caps isSource root cptr depth = .error (.syscall e)) ∨
      ∃ slot, lookupSlotForCNodeOp caps isSource root cptr depth = .ok slot ∧ slot ≠ 0 := by
  obtain ⟨ret, heq, hne⟩ := resolveAddressBits_spec hcaps cptr hroot depth.toNat
  unfold lookupSlotForCNodeOp
  rw [heq]
  split_ifs
  · exact .inl ⟨_, rfl⟩
  · exact .inl ⟨_, rfl⟩
  · cases ret with
    | error fault => exact .inl ⟨_, rfl⟩
    | ok r =>
      by_cases hb : r.bitsRemaining ≠ 0
      · exact .inl ⟨_, if_pos hb⟩
      · exact .inr ⟨r.slot, if_neg hb, hne r rfl⟩

theorem lookupSlotForCNodeOp_ne_zero {isSource : Bool}
    {depth slot : Word} (h : lookupSlotForCNodeOp caps isSource root cptr depth = .ok slot) :
    slot ≠ 0 := by
  rcases lookupSlotForCNodeOp_spec hcaps cptr hroot isSource depth with ⟨e, he⟩ | ⟨s, hs, hne⟩
  · rw [he] at h
    cases h
  · rw [hs] at h
    cases h
    exact hne

theorem lookupSlotForCNodeOp_no_fault (isSource : Bool) (depth : Word) (f : Fault) :
    lookupSlotForCNodeOp caps isSource root cptr depth ≠ .error (.fault f) := by
  intro h
  rcases lookupSlotForCNodeOp_spec hcaps cptr hroot isSource depth with ⟨e, he⟩ | ⟨s, hs, hne⟩
  · rw [he] at h
    cases h
  · rw [hs] at h
    cases h

end

end Wf

end SeL4.CSpace
