import SeL4.Lib.Checked
import SeL4.Lib.Trace
import SeL4.Lib.Word

/-!
# The single-level CSpace allocator

`libsel4allocman/src/cspace/single_level.c` gives out the slots `first_slot` to `end_slot` of one CNode
from a bitmap in which the bit of a free slot is set. `alloc` looks for a word with a bit set, in a circle
from the word it took a slot from last.

`bitmap_length` is the number of full words: it is stored before the word for the remaining slots is
counted. So the allocator knows which slots are free (`Exact`) in all its runs if and only if the number
of slots is a multiple of the word size (`single_level_exact_iff`). Otherwise slots are never given out
(`last_slots_lost`).
-/

namespace SeL4.Allocman

open SeL4.Lib Function

/-- `cspace_single_level_t`. The bitmap is the memory at `bitmap`, by words. -/
structure SingleLevel where
  firstSlot : Word
  endSlot : Word
  bitmap : Nat → Word
  bitmapLength : Nat
  lastEntry : Nat

namespace SingleLevel

variable (c : SingleLevel)

/-- `cspace_single_level_create`, where the allocation of the bitmap succeeds. -/
def create (firstSlot endSlot : Word) : SingleLevel :=
  let numSlots := (endSlot - firstSlot).toNat
  let ones : Nat → Word := fun _ => BitVec.allOnes 64
  let excess := numSlots % 64
  -- the padding slots are marked as allocated
  let padded := (List.range' excess (64 - excess)).foldl (fun w i => w ^^^ bit i) (BitVec.allOnes 64)
  { firstSlot := firstSlot
    endSlot := endSlot
    bitmap := if excess ≠ 0 then update ones (numSlots / 64) padded else ones
    bitmapLength := numSlots / 64
    lastEntry := 0 }

/-- The words that the loop of `_cspace_single_level_alloc` looks at, in its order. It ends at the word it
started from. -/
def circle : List Nat :=
  (List.range c.bitmapLength).map fun j => (c.lastEntry + 1 + j) % c.bitmapLength

/-- The word that `_cspace_single_level_alloc` takes a slot from. -/
def findWord : Checked (Option Nat) :=
  if c.bitmap c.lastEntry = 0 then do
    require (decide (c.bitmapLength ≠ 0))
    require (decide (c.lastEntry < c.bitmapLength))
    .ok (c.circle.find? fun i => c.bitmap i != 0)
  else .ok (some c.lastEntry)

/-- The bit of slot number `k` from `first_slot` on is set or cleared. -/
def setBit (k : Nat) (b : Bool) : SingleLevel :=
  let w := c.bitmap (k / 64)
  { c with bitmap := update c.bitmap (k / 64) (if b then w ||| bit (k % 64) else w &&& ~~~bit (k % 64)) }

/-- `_cspace_single_level_alloc`: the slot, or `none` for the error. -/
def alloc : Checked (Option (Word × SingleLevel)) := do
  match ← c.findWord with
  | none => .ok none
  | some i =>
    let k := i * 64 + highBit (c.bitmap i)
    .ok (some (c.firstSlot + BitVec.ofNat 64 k, { c with lastEntry := i }.setBit k false))

/-- `index` of `_cspace_single_level_alloc_at` and `_cspace_single_level_free`. -/
def index (slot : Word) : Nat := (slot - c.firstSlot).toNat

/-- `_cspace_single_level_alloc_at`. -/
def allocAt (slot : Word) : Option SingleLevel :=
  if c.index slot / 64 ≥ c.bitmapLength then none
  else if c.bitmap (c.index slot / 64) &&& bit (c.index slot % 64) = 0 then none
  else some (c.setBit (c.index slot) false)

/-- `_cspace_single_level_free`. -/
def free (slot : Word) : Checked SingleLevel := do
  require (decide (c.bitmap (c.index slot / 64) &&& bit (c.index slot % 64) = 0))
  .ok (c.setBit (c.index slot) true)

end SingleLevel

/-- The allocator, and the slots that are live: given out and not freed since. -/
structure SlotSys where
  c : SingleLevel
  live : Word → Bool

inductive SlotOp where
  | alloc
  | allocAt (slot : Word)
  | free (slot : Word)

namespace SlotSys

def create (firstSlot endSlot : Word) : SlotSys := ⟨.create firstSlot endSlot, fun _ => false⟩

/-- One call; only live slots are freed. There is no next state after an assertion that fails. -/
def next (s : SlotSys) : SlotOp → Option SlotSys
  | .alloc =>
    match s.c.alloc with
    | .ok (some (slot, c)) => some ⟨c, update s.live slot true⟩
    | .ok none => some s
    | .error _ => none
  | .allocAt slot =>
    match s.c.allocAt slot with
    | some c => some ⟨c, update s.live slot true⟩
    | none => some s
  | .free slot =>
    if s.live slot then
      match s.c.free slot with
      | .ok c => some ⟨c, update s.live slot false⟩
      | .error _ => none
    else none

def InRange (s : SlotSys) (slot : Word) : Prop := s.c.firstSlot ≤ slot ∧ slot < s.c.endSlot

/-- The next call succeeds exactly where it should, and `alloc` gives out a slot that is not live. -/
structure Exact (s : SlotSys) : Prop where
  alloc : (s.c.alloc = .ok none ∧ ∀ slot, s.InRange slot → s.live slot = true) ∨
    ∃ slot c, s.c.alloc = .ok (some (slot, c)) ∧ s.InRange slot ∧ s.live slot = false
  allocAt : ∀ slot, s.c.allocAt slot ≠ none ↔ s.InRange slot ∧ s.live slot = false
  free : ∀ slot, s.live slot = true → ∃ c, s.c.free slot = .ok c

end SlotSys

namespace SingleLevel

variable {c : SingleLevel}

/-- The bit of slot number `k`. -/
def isFree (c : SingleLevel) (k : Nat) : Bool := (c.bitmap (k / 64)).getLsbD (k % 64)

theorem and_bit_eq_zero (w : Word) {k : Nat} (hk : k < 64) : w &&& bit k = 0 ↔ w.getLsbD k = false := by
  constructor
  · intro h
    have hbit := congrArg (BitVec.getLsbD · k) h
    simpa [getLsbD_bit hk] using hbit
  · intro h
    refine BitVec.eq_of_getLsbD_eq fun j _ => ?_
    by_cases hj : j = k <;> simp [getLsbD_bit hk, hj, h]

theorem isFree_setBit (c : SingleLevel) (k : Nat) (b : Bool) (m : Nat) :
    (c.setBit k b).isFree m = if m = k then b else c.isFree m := by
  have hlt : ∀ n : Nat, n % 64 < 64 := fun n => Nat.mod_lt n (by decide)
  by_cases hm : m / 64 = k / 64
  · have hiff : m % 64 = k % 64 ↔ m = k := by omega
    simp only [isFree, setBit, hm, ← hiff]
    cases b <;> by_cases hk : m % 64 = k % 64 <;> simp [-BitVec.getLsbD_eq_getElem, getLsbD_bit, hlt, hk]
  · have hne : m ≠ k := fun he => hm (he ▸ rfl)
    simp [isFree, setBit, hm, hne]

theorem mem_circle (hl : c.lastEntry < c.bitmapLength) {p : Nat} : p ∈ c.circle ↔ p < c.bitmapLength := by
  have hpos := Nat.zero_lt_of_lt hl
  constructor
  · intro hp
    obtain ⟨j, -, rfl⟩ := List.mem_map.mp hp
    exact Nat.mod_lt _ hpos
  · intro hp
    refine List.mem_map.mpr ⟨(p + (c.bitmapLength - c.lastEntry - 1)) % c.bitmapLength,
      List.mem_range.mpr (Nat.mod_lt _ hpos), ?_⟩
    rw [Nat.add_mod_mod, show c.lastEntry + 1 + (p + (c.bitmapLength - c.lastEntry - 1)) =
      p + c.bitmapLength by omega, Nat.add_mod_right, Nat.mod_eq_of_lt hp]

theorem findWord_spec (hl : c.lastEntry < c.bitmapLength) : ∃ r, c.findWord = .ok r ∧
    (r = none → ∀ p, p < c.bitmapLength → c.bitmap p = 0) ∧
    ∀ i, r = some i → i < c.bitmapLength ∧ c.bitmap i ≠ 0 := by
  unfold findWord
  split_ifs with h0
  · rw [require_ok (decide_eq_true (Nat.ne_zero_of_lt hl)), require_ok (decide_eq_true hl)]
    refine ⟨_, rfl, fun hr p hp => ?_, fun i hi => ?_⟩
    · simpa using List.find?_eq_none.mp hr p ((mem_circle hl).mpr hp)
    · exact ⟨(mem_circle hl).mp (List.mem_of_find?_eq_some hi), by simpa using List.find?_some hi⟩
  · exact ⟨_, rfl, nofun, fun i hi => Option.some.inj hi ▸ ⟨hl, h0⟩⟩

end SingleLevel

namespace SlotSys

variable {s s' : SlotSys} {slot : Word}

/-- The bitmap says which slots are live. -/
structure Inv (s : SlotSys) : Prop where
  length : s.c.bitmapLength * 64 = (s.c.endSlot - s.c.firstSlot).toNat
  order : s.c.firstSlot ≤ s.c.endSlot
  last : s.c.lastEntry < s.c.bitmapLength
  live : ∀ slot, s.live slot = true ↔ s.InRange slot ∧ s.c.isFree (s.c.index slot) = false

section

variable (h : Inv s)
include h

theorem Inv.inRange_iff : s.InRange slot ↔ s.c.index slot < s.c.bitmapLength * 64 := by
  have horder := h.order
  rw [h.length]
  unfold InRange SingleLevel.index
  bv_omega

theorem Inv.not_live_iff (hr : s.InRange slot) :
    s.live slot = false ↔ s.c.isFree (s.c.index slot) = true := by
  rw [← Bool.not_eq_true, h.live, ← Bool.not_eq_false]
  exact not_congr (and_iff_right hr)

/-- A slot becomes live, or is not live any more. -/
theorem Inv.setBit (hr : s.InRange slot) {l : Nat} (hl : l < s.c.bitmapLength) (b : Bool) :
    Inv ⟨{ s.c with lastEntry := l }.setBit (s.c.index slot) b, update s.live slot (!b)⟩ := by
  refine ⟨h.length, h.order, hl, fun x => ?_⟩
  rw [SingleLevel.isFree_setBit]
  show update s.live slot (!b) x = true ↔ s.InRange x ∧
    (if s.c.index x = s.c.index slot then b else s.c.isFree (s.c.index x)) = false
  by_cases hx : x = slot
  · simp [hx, hr]
  · have hne : s.c.index x ≠ s.c.index slot := by
      unfold SingleLevel.index
      bv_omega
    simpa [hx, hne] using h.live x

theorem Inv.allocAt (slot : Word) : s.c.allocAt slot = none ∧ ¬ (s.InRange slot ∧ s.live slot = false) ∨
      s.c.allocAt slot = some (s.c.setBit (s.c.index slot) false) ∧ s.InRange slot ∧
        s.live slot = false := by
  have hmod := Nat.mod_lt (s.c.index slot) (show 0 < 64 by decide)
  have hrange : s.InRange slot ↔ _ := h.inRange_iff
  unfold SingleLevel.allocAt
  split_ifs with hlt hbit
  · exact .inl ⟨rfl, fun hr => absurd (hrange.mp hr.1) (by omega)⟩
  · rw [SingleLevel.and_bit_eq_zero _ hmod] at hbit
    exact .inl ⟨rfl, fun hr => nomatch hbit.symm.trans ((h.not_live_iff hr.1).mp hr.2)⟩
  · rw [SingleLevel.and_bit_eq_zero _ hmod, Bool.not_eq_false] at hbit
    have hr := hrange.mpr (by omega)
    exact .inr ⟨rfl, hr, (h.not_live_iff hr).mpr hbit⟩

/-- What `alloc` returns is a free slot, and there is none where it fails. -/
theorem Inv.alloc : (s.c.alloc = .ok none ∧ ∀ slot, s.InRange slot → s.live slot = true) ∨
    ∃ slot c, s.c.alloc = .ok (some (slot, c)) ∧ s.InRange slot ∧ s.live slot = false ∧
      Inv ⟨c, update s.live slot true⟩ := by
  obtain ⟨r, hr, hnone, hsome⟩ := SingleLevel.findWord_spec h.last
  unfold SingleLevel.alloc
  rw [hr, ok_bind]
  cases r with
  | none =>
    refine .inl ⟨rfl, fun slot hs => (h.live slot).mpr ⟨hs, ?_⟩⟩
    have hi := h.inRange_iff.mp hs
    rw [SingleLevel.isFree, hnone rfl _ (by omega)]
    exact BitVec.getLsbD_zero
  | some i =>
    obtain ⟨hi, hne⟩ := hsome i rfl
    have hk := highBit_lt (s.c.bitmap i)
    have hbit := getLsbD_highBit hne
    have hlen := h.length ▸ (s.c.endSlot - s.c.firstSlot).isLt
    dsimp only
    generalize highBit (s.c.bitmap i) = k at hk hbit ⊢
    have hidx : s.c.index (s.c.firstSlot + .ofNat 64 (i * 64 + k)) = i * 64 + k := by
      unfold SingleLevel.index
      bv_omega
    have hs : s.InRange (s.c.firstSlot + .ofNat 64 (i * 64 + k)) := by
      rw [h.inRange_iff]
      omega
    have hset := h.setBit hs hi false
    rw [hidx] at hset
    refine .inr ⟨_, _, rfl, hs, (h.not_live_iff hs).mpr ?_, hset⟩
    rwa [hidx, SingleLevel.isFree, show (i * 64 + k) / 64 = i by omega, show (i * 64 + k) % 64 = k by omega]

theorem Inv.free (hl : s.live slot = true) : s.c.free slot = .ok (s.c.setBit (s.c.index slot) true) := by
  have hmod := Nat.mod_lt (s.c.index slot) (show 0 < 64 by decide)
  have hzero := (SingleLevel.and_bit_eq_zero _ hmod).mpr ((h.live slot).mp hl).2
  rw [SingleLevel.free, require_ok (decide_eq_true hzero), ok_bind]

theorem Inv.exact : Exact s := by
  refine ⟨h.alloc.imp_right ?_, fun slot => ?_, fun slot hl => ⟨_, h.free hl⟩⟩
  · rintro ⟨slot, c, hs, hr, hl, -⟩
    exact ⟨slot, c, hs, hr, hl⟩
  · rcases h.allocAt slot with ⟨ha, hn⟩ | ⟨ha, hr⟩
    · simp [ha, hn]
    · simp [ha, hr]

theorem Inv.next {op : SlotOp} (hn : s.next op = some s') : Inv s' := by
  cases op with
  | alloc =>
    rcases h.alloc with ⟨ha, -⟩ | ⟨slot, c, ha, -, -, hi⟩
    · simp only [SlotSys.next, ha, Option.some.injEq] at hn
      exact hn ▸ h
    · simp only [SlotSys.next, ha, Option.some.injEq] at hn
      exact hn ▸ hi
  | allocAt slot =>
    rcases h.allocAt slot with ⟨ha, -⟩ | ⟨ha, hr, -⟩
    · simp only [SlotSys.next, ha, Option.some.injEq] at hn
      exact hn ▸ h
    · simp only [SlotSys.next, ha, Option.some.injEq] at hn
      exact hn ▸ h.setBit hr h.last false
  | free slot =>
    obtain ⟨hl, hn⟩ := Option.ite_none_right_eq_some.mp hn
    simp only [h.free hl, Option.some.injEq] at hn
    exact hn ▸ h.setBit ((h.live slot).mp hl).1 h.last true

end

theorem inv_create {f e : Word} (hlt : f < e) (hdvd : 64 ∣ (e - f).toNat) : Inv (create f e) := by
  have hpos : 0 < (e - f).toNat := by bv_omega
  refine ⟨Nat.div_mul_cancel hdvd, BitVec.le_of_lt hlt, Nat.div_pos (Nat.le_of_dvd hpos hdvd) (by decide),
    fun slot => iff_of_false nofun fun hr => ?_⟩
  have hones : (create f e).c.bitmap = fun _ => BitVec.allOnes 64 :=
    if_neg (not_not.mpr (Nat.mod_eq_zero_of_dvd hdvd))
  have hbit := hr.2
  rw [SingleLevel.isFree, hones, BitVec.getLsbD_allOnes, decide_eq_false_iff_not] at hbit
  exact hbit (Nat.mod_lt _ (by decide))

/-- **The single-level allocator** is exact in all its runs if and only if the number of slots is a multiple
of the word size. -/
theorem single_level_exact_iff {f e : Word} (hlt : f < e) :
    (∀ tr s, runFrom next (create f e) tr = some s → Exact s) ↔ 64 ∣ (e - f).toNat := by
  constructor
  · intro h
    have hat := (h [] _ rfl).allocAt (f + .ofNat 64 ((e - f).toNat / 64 * 64))
    have hidx : (create f e).c.index (f + .ofNat 64 ((e - f).toNat / 64 * 64)) =
        (e - f).toNat / 64 * 64 := by
      show (f + BitVec.ofNat 64 ((e - f).toNat / 64 * 64) - f).toNat = _
      bv_omega
    have hfail : (create f e).c.allocAt (f + BitVec.ofNat 64 ((e - f).toNat / 64 * 64)) = none :=
      if_pos (by rw [hidx, Nat.mul_div_cancel _ (by decide)]; exact Nat.le_refl _)
    by_contra hdvd
    refine hat.mpr ⟨⟨?_, ?_⟩, rfl⟩ hfail
    · show f ≤ _
      bv_omega
    · show _ < e
      bv_omega
  · intro hdvd tr s hr
    exact (runFrom_invariant (P := fun _ s => Inv s) (inv_create hlt hdvd)
      (fun _ _ _ _ _ hi hn => hi.next hn) hr).exact

theorem single_level_exact_iff_word :
    (runFrom next (create 1 65) [.alloc, .allocAt 3, .free 3]).isSome = true ∧
      ∀ s, runFrom next (create 1 65) [.alloc, .allocAt 3, .free 3] = some s → Exact s :=
  ⟨by decide +kernel, (single_level_exact_iff (by decide)).mpr (by decide) _⟩

/-- With 65 slots the last one is never given out: `alloc` fails after 64 calls, and `alloc_at` always. -/
theorem last_slots_lost : (runFrom next (create 1 66) (List.replicate 64 .alloc)).map (fun s =>
      (s.live 65, (s.c.alloc.toOption.map Option.isNone), (s.c.allocAt 65).isNone)) =
      some (false, some true, true) := by
  decide +kernel

end SlotSys

end SeL4.Allocman
