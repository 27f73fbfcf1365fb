import SeL4.Allocman.UtSplit
import SeL4.Object.FreeSpace

/-!
# The slab allocator

`slab_init` (`slab.c`) makes all objects that a client will need out of one untyped, whose size is the sum
of their sizes, rounded up to a power of two. `slab_utspace_alloc` then hands them out.

The objects are made in the order of `qsort`, the largest first, so that no retype of the kernel
(`retypeOne`) has to round up. `slab_fits` says that the untyped never runs out, and that the objects of a
type are handed out one by one before the delegate is asked.
-/

namespace SeL4.Utils

open SeL4.Lib SeL4.Object Allocman.UtSplit

/-- `vka_object_t`, with the part of the untyped that the object is in. -/
structure VkaObject where
  cptr : Word
  type : ObjectType
  sizeBits : Word
  memory : Block

/-- `slab_t`. -/
structure Slab where
  n : Nat
  next : Nat
  objects : List VkaObject

/-- `slabs` of `slab_data_t`. -/
abbrev SlabData := ObjectType → Slab

/-- `object_desc_t`. -/
structure ObjectDesc where
  sizeBits : Word
  type : ObjectType

/-- What others grant. -/
structure Env where
  /-- `calloc` for `slab_data_t`, and for the objects of a type. -/
  calloc : Option ObjectType → Bool
  allocUntyped : Nat → Bool
  /-- `vka_cspace_alloc`, if the kernel accepts the slot, by what is used of the untyped so far. -/
  slot : Nat → Option Word

/-- Why `slab_init` fails; `memory` is `seL4_NotEnoughMemory` of a retype. -/
inductive Failure
  | undefined | assertion | refused | memory

/-! ## The model -/

def compareObjectDescs (a b : ObjectDesc) : Int := ((b.sizeBits - a.sizeBits).setWidth 32).toInt

/-- The loop of `calculate_total_size`. -/
def totalFrom (cfg : KernelConfig) (freq : ObjectType → Word) : List ObjectType → Word → Word
  | [], total => total
  | t :: types, total =>
    if freq t = 0 then totalFrom cfg freq types total
    else
      let objectSize := vkaGetObjectSize cfg (some t) 0
      if objectSize = 0 ∨ objectSize = -1 then 0
      else totalFrom cfg freq types (total + bit objectSize.toNat * freq t)

def calculateTotalSize (cfg : KernelConfig) (freq : ObjectType → Word) : Word :=
  totalFrom cfg freq (ObjectType.all cfg) 0

section

variable (cfg : KernelConfig) (env : Env) (bits : Nat)

/-- `alloc_object` out of an untyped of `2 ^ bits` bytes, of which `used` are in use. -/
def allocObject (sizeBits : Word) (t : ObjectType) (used : Nat) : Except Failure (VkaObject × Nat) :=
  match env.slot used with
  | none => .error .refused
  | some cptr =>
    match retypeOne bits used (t.getObjectSize cfg sizeBits).toNat with
    | none => .error .memory
    | some b => .ok (⟨cptr, t, sizeBits, b⟩, b.top)

/-- The loop of `alloc_object_slab`. -/
def allocObjects (sizeBits : Word) (t : ObjectType) : Nat → Nat → Except Failure (List VkaObject × Nat)
  | 0, used => .ok ([], used)
  | n + 1, used => do
    let (o, used) ← allocObject cfg env bits sizeBits t used
    let (os, used) ← allocObjects sizeBits t n used
    .ok (o :: os, used)

/-- `alloc_object_slab`. The loop counts in an `int`. -/
def allocObjectSlab (n : Nat) (sizeBits : Word) (t : ObjectType) (used : Nat) :
    Except Failure (Slab × Nat) :=
  if n > 0 ∧ !env.calloc (some t) then .error .refused
  else do
    let (os, used) ← allocObjects cfg env bits sizeBits t (min n (2 ^ 31)) used
    if 2 ^ 31 ≤ n then .error .undefined else .ok (⟨n, 0, os⟩, used)

/-- The loop of `slab_init` over the sorted descriptions. -/
def allocSlabs (freq : ObjectType → Word) : List ObjectDesc → SlabData → Nat → Except Failure SlabData
  | [], d, _ => .ok d
  | desc :: descs, d, used =>
    if desc.sizeBits = 0 then .ok d
    else do
      let (slab, used) ← allocObjectSlab cfg env bits (freq desc.type).toNat desc.sizeBits desc.type used
      allocSlabs freq descs (Function.update d desc.type slab) used

end

def objectDesc (cfg : KernelConfig) (t : ObjectType) : ObjectDesc := ⟨vkaGetObjectSize cfg (some t) 0, t⟩

/-- `slab_init`; `types` is the order into which `qsort` puts the descriptions. `CLZL` is not defined for 0,
nor is `BIT` for the size of a word. -/
def slabInit (cfg : KernelConfig) (env : Env) (freq : ObjectType → Word) (types : List ObjectType) :
    Except Failure SlabData :=
  if !env.calloc none then .error .refused
  else
    let totalSize := calculateTotalSize cfg freq
    let totalSizeBits := highBit totalSize + 1
    if totalSize = 0 ∨ totalSizeBits = 64 then .error .undefined
    else if bit totalSizeBits < totalSize then .error .assertion
    else if !env.allocUntyped totalSizeBits then .error .refused
    else allocSlabs cfg env totalSizeBits freq (types.map (objectDesc cfg)) (fun _ => ⟨0, 0, []⟩) 0

/-- What `slab_utspace_alloc` returns: an object, an error, or what the delegate returns. -/
inductive Answer
  | object (o : VkaObject)
  | error | delegate | undefined

/-- `slab_utspace_alloc`; the type is `none` for a number that is no type, and `moves` is whether
`vka_cnode_move` succeeds. -/
def slabUtspaceAlloc (type : Option ObjectType) (moves : Bool) (d : SlabData) : Answer × SlabData :=
  match type with
  | none => (.error, d)
  | some t =>
    if (d t).next = (d t).n then (.delegate, d)
    else
      match (d t).objects[(d t).next]? with
      | none => (.undefined, d)
      | some o =>
        if moves then (.object o, Function.update d t { d t with next := (d t).next + 1 })
        else (.error, d)

/-- The objects of type `t` that the calls of a client get. -/
def slabRun (t : ObjectType) : List (Option ObjectType × Bool) → SlabData → List VkaObject × SlabData
  | [], d => ([], d)
  | (type, moves) :: calls, d =>
    let (a, d) := slabUtspaceAlloc type moves d
    let (os, d) := slabRun t calls d
    match a with
    | .object o => (if type = some t then o :: os else os, d)
    | _ => (os, d)

/-! ## Sizes -/

variable {cfg : KernelConfig} {env : Env} {freq : ObjectType → Word} {t : ObjectType} {bits used : Nat}

/-- The size of an object of the type. -/
abbrev typeBits (cfg : KernelConfig) (t : ObjectType) : Nat := (vkaGetObjectSize cfg (some t) 0).toNat

/-- The types whose size does not depend on a request. -/
def fixedSize : ObjectType → Bool
  | .untyped | .capTable => false
  | _ => true

theorem typeBits_range (t : ObjectType) :
    typeBits cfg t ≤ 30 ∧ (fixedSize t = true → 0 < typeBits cfg t) := by
  have htcb := cfg.tcbBits_cases
  have hvs := cfg.vspaceBits_cases
  cases t with
  | tcb =>
    show cfg.tcbBits % 2 ^ 64 ≤ 30 ∧ (_ → 0 < cfg.tcbBits % 2 ^ 64)
    omega
  | vspace =>
    show cfg.vspaceBits % 2 ^ 64 ≤ 30 ∧ (_ → 0 < cfg.vspaceBits % 2 ^ 64)
    omega
  | notification =>
    show (if cfg.mcs then 6 else 5) % 2 ^ 64 ≤ 30 ∧ (_ → 0 < (if cfg.mcs then 6 else 5) % 2 ^ 64)
    split_ifs <;> decide
  | untyped | capTable => exact ⟨Nat.le_of_ble_eq_true rfl, nofun⟩
  | _ => exact ⟨Nat.le_of_ble_eq_true rfl, fun _ => Nat.le_of_ble_eq_true rfl⟩

/-- The kernel makes objects of the size that was added up. -/
theorem getObjectSize_fixed (h : fixedSize t = true) :
    t.getObjectSize cfg (vkaGetObjectSize cfg (some t) 0) = vkaGetObjectSize cfg (some t) 0 := by
  cases t with
  | untyped | capTable => cases h
  | _ => rfl

theorem typeBits_le_of_compare {t' : ObjectType}
    (h : compareObjectDescs (objectDesc cfg t) (objectDesc cfg t') ≤ 0) : typeBits cfg t' ≤ typeBits cfg t := by
  have h1 : typeBits cfg t ≤ 30 := (typeBits_range t).1
  have h2 : typeBits cfg t' ≤ 30 := (typeBits_range t').1
  unfold compareObjectDescs at h
  rw [BitVec.toInt_eq_toNat_cond, BitVec.toNat_setWidth, BitVec.toNat_sub] at h
  dsimp only [objectDesc, typeBits] at h h1 h2 ⊢
  omega

/-- The bytes that the objects take. -/
def bytes (cfg : KernelConfig) (freq : ObjectType → Word) (types : List ObjectType) : Nat :=
  (types.map fun t => 2 ^ typeBits cfg t * (freq t).toNat).sum

theorem toNat_totalFrom (hfix : ∀ t, freq t ≠ 0 → fixedSize t = true) (types : List ObjectType) :
    ∀ {total : Word}, total.toNat + bytes cfg freq types < 2 ^ 64 →
      (totalFrom cfg freq types total).toNat = total.toNat + bytes cfg freq types := by
  induction types with
  | nil => exact fun _ => rfl
  | cons t types ih =>
    intro total hlt
    rw [bytes, List.map_cons, List.sum_cons, ← bytes] at hlt ⊢
    by_cases h0 : freq t = 0
    · rw [totalFrom, if_pos h0, ih (by omega), h0]
      simp
    · have hrange : typeBits cfg t ≤ 30 ∧ _ := typeBits_range t
      have hbad : ¬ (vkaGetObjectSize cfg (some t) 0 = 0 ∨ vkaGetObjectSize cfg (some t) 0 = -1) := by
        rintro (hbad | hbad) <;> rw [typeBits, hbad] at hrange
        · cases hrange.2 (hfix t h0)
        · exact absurd hrange.1 (by decide)
      have hnext : (total + bit (typeBits cfg t) * freq t).toNat =
          total.toNat + 2 ^ typeBits cfg t * (freq t).toNat := by
        rw [BitVec.toNat_add, BitVec.toNat_mul, toNat_bit (by omega), Nat.add_mod_mod,
          Nat.mod_eq_of_lt (by omega)]
      rw [totalFrom, if_neg h0]
      rw [if_neg hbad, ih (by rw [hnext]; omega), hnext, Nat.add_assoc]

/-! ## Making the objects -/

/-- The untyped did not run out, and what holds of a result. -/
def Returns {α : Type} (P : α → Prop) : Except Failure α → Prop
  | .ok a => P a
  | .error e => e ≠ .memory

theorem Returns.bind {α β : Type} {P : α → Prop} {Q : β → Prop} {r : Except Failure α}
    {f : α → Except Failure β} (hr : Returns P r) (hf : ∀ a, P a → Returns Q (f a)) :
    Returns Q (r >>= f) := by
  cases r with
  | ok a => exact hf a hr
  | error e => exact hr

theorem allocObject_returns (ht : fixedSize t = true) (hd : 2 ^ typeBits cfg t ∣ used)
    (hfit : used + 2 ^ typeBits cfg t ≤ 2 ^ bits) :
    Returns (fun r => r.1.memory = ⟨used, typeBits cfg t⟩ ∧ r.2 = used + 2 ^ typeBits cfg t)
      (allocObject cfg env bits (vkaGetObjectSize cfg (some t) 0) t used) := by
  unfold allocObject
  rw [getObjectSize_fixed ht, retypeOne, Block.roundUp_of_dvd hd, if_pos hfit]
  split
  · exact nofun
  · exact ⟨rfl, rfl⟩

/-- The memory of `b` comes after that of `a`. -/
def Before (a b : VkaObject) : Prop := a.memory.top ≤ b.memory.base

theorem allocObjects_returns (ht : fixedSize t = true) (n : Nat) :
    ∀ {used : Nat}, 2 ^ typeBits cfg t ∣ used → used + 2 ^ typeBits cfg t * n ≤ 2 ^ bits →
      Returns (fun r => r.2 = used + 2 ^ typeBits cfg t * n ∧ r.1.length = n ∧ r.1.Pairwise Before ∧
          ∀ o ∈ r.1, used ≤ o.memory.base)
        (allocObjects cfg env bits (vkaGetObjectSize cfg (some t) 0) t n used) := by
  induction n with
  | zero => exact fun _ _ => ⟨rfl, rfl, .nil, by simp⟩
  | succ n ih =>
    intro used hd hfit
    rw [Nat.mul_succ] at hfit ⊢
    refine (allocObject_returns ht hd (by omega)).bind ?_
    rintro ⟨o, _⟩ ⟨ho, rfl⟩
    refine (ih (Nat.dvd_add hd (Nat.dvd_refl _)) (by omega)).bind ?_
    rintro ⟨os, _⟩ ⟨rfl, hlen, hpair, hos⟩
    refine ⟨by dsimp only; omega, congrArg (· + 1) hlen, List.pairwise_cons.mpr ⟨fun b hb => ?_, hpair⟩,
      fun b hb => ?_⟩
    · rw [Before, show o.memory = _ from ho]
      exact hos b hb
    · rcases List.mem_cons.mp hb with rfl | hb
      · rw [show b.memory = _ from ho]
      · exact (Nat.le_add_right _ _).trans (hos b hb)

/-- All objects of a type are made. -/
structure Filled (n : Nat) (slab : Slab) : Prop where
  n_eq : slab.n = n
  next : slab.next = 0
  length : slab.objects.length = n
  distinct : slab.objects.Pairwise Before

theorem allocObjectSlab_returns {n : Nat} (ht : n ≠ 0 → fixedSize t = true)
    (hd : 2 ^ typeBits cfg t ∣ used) (hfit : used + 2 ^ typeBits cfg t * n ≤ 2 ^ bits) :
    Returns (fun r => r.2 = used + 2 ^ typeBits cfg t * n ∧ Filled n r.1)
      (allocObjectSlab cfg env bits n (vkaGetObjectSize cfg (some t) 0) t used) := by
  unfold allocObjectSlab
  by_cases hn : n = 0
  · subst hn
    exact ⟨rfl, rfl, rfl, rfl, .nil⟩
  · have hle := Nat.mul_le_mul_left (2 ^ typeBits cfg t) (Nat.min_le_left n (2 ^ 31))
    have hroom : used + 2 ^ typeBits cfg t * min n (2 ^ 31) ≤ 2 ^ bits := by omega
    split_ifs with _ hbig
    · exact nofun
    · exact (allocObjects_returns (ht hn) _ hd hroom).bind fun ⟨_, _⟩ _ => nofun
    · refine (allocObjects_returns (ht hn) _ hd hroom).bind ?_
      rintro ⟨os, used'⟩ ⟨hu, hlen, hpair, -⟩
      rw [Nat.min_eq_left (by omega)] at hu hlen
      exact ⟨hu, rfl, rfl, hlen, hpair⟩

/-- The largest objects come first, so that what is used is a multiple of the size of each one that is left. -/
theorem allocSlabs_returns (hfix : ∀ t, freq t ≠ 0 → fixedSize t = true) {types : List ObjectType}
    (hsort : types.Pairwise fun t t' => compareObjectDescs (objectDesc cfg t) (objectDesc cfg t') ≤ 0) :
    ∀ {d : SlabData} {used : Nat},
      (∀ t, Filled (freq t).toNat (d t) ∨ d t = ⟨0, 0, []⟩ ∧ t ∈ types) →
      (∀ t ∈ types, 2 ^ typeBits cfg t ∣ used) → used + bytes cfg freq types ≤ 2 ^ bits →
      Returns (fun d => ∀ t, Filled (freq t).toNat (d t))
        (allocSlabs cfg env bits freq (types.map (objectDesc cfg)) d used) := by
  induction types with
  | nil =>
    intro d used hi _ _ t
    exact (hi t).resolve_right fun h => List.not_mem_nil h.2
  | cons t₀ types ih =>
    intro d used hi hd hfit
    obtain ⟨hle, hrest⟩ := List.pairwise_cons.mp hsort
    rw [bytes, List.map_cons, List.sum_cons, ← bytes] at hfit
    rw [List.map_cons, allocSlabs]
    split_ifs with h0
    · -- the rest have no size either, and are not asked for
      intro t
      rcases hi t with hf | ⟨he, hx⟩
      · exact hf
      · have hx0 : typeBits cfg t ≤ typeBits cfg t₀ := by
          rcases List.mem_cons.mp hx with rfl | hx
          · exact le_rfl
          · exact typeBits_le_of_compare (hle t hx)
        have hfreq : freq t = 0 := by
          by_contra hne
          rw [typeBits, typeBits, show vkaGetObjectSize cfg (some t₀) 0 = 0 from h0] at hx0
          exact absurd hx0 (Nat.not_le.mpr ((typeBits_range t).2 (hfix t hne)))
        rw [he, hfreq]
        exact ⟨rfl, rfl, rfl, .nil⟩
    · refine (allocObjectSlab_returns (n := (freq t₀).toNat) ?_ (hd _ List.mem_cons_self)
        (by omega)).bind ?_
      · exact fun hn => hfix t₀ fun h => hn (by simp [h])
      rintro ⟨slab, _⟩ ⟨rfl, hfull⟩
      refine ih hrest (fun t => ?_) (fun t ht => ?_) (by omega)
      · show Filled _ (Function.update d t₀ slab t) ∨ Function.update d t₀ slab t = _ ∧ _
        by_cases heq : t = t₀
        · subst heq
          exact .inl (by simpa using hfull)
        · rw [Function.update_of_ne heq]
          exact (hi t).imp_right fun ⟨he, hx⟩ => ⟨he, List.mem_of_ne_of_mem heq hx⟩
      · refine Nat.dvd_add (hd t (List.mem_cons_of_mem _ ht)) (Nat.dvd_mul_right_of_dvd ?_ _)
        exact pow_dvd_pow 2 (typeBits_le_of_compare (hle t ht))

/-! ## Handing them out -/

/-- What was handed out is what the slab had up to `next`. -/
theorem slabRun_spec (calls : List (Option ObjectType × Bool)) :
    ∀ {d : SlabData}, (d t).objects.length = (d t).n → (d t).next ≤ (d t).n →
      ((slabRun t calls d).2 t).objects = (d t).objects ∧ ((slabRun t calls d).2 t).n = (d t).n ∧
        ((slabRun t calls d).2 t).next ≤ (d t).n ∧
        (d t).objects.take (d t).next ++ (slabRun t calls d).1 =
          (d t).objects.take ((slabRun t calls d).2 t).next := by
  induction calls with
  | nil => exact fun _ hle => ⟨rfl, rfl, hle, by simp [slabRun]⟩
  | cons call calls ih =>
    intro d hlen hle
    obtain ⟨_ | t', moves⟩ := call
    · exact ih hlen hle
    by_cases hn : (d t').next = (d t').n
    · simpa [slabRun, slabUtspaceAlloc, hn] using ih hlen hle
    rcases ho : (d t').objects[(d t').next]? with _ | o
    · simpa [slabRun, slabUtspaceAlloc, hn, ho] using ih hlen hle
    cases moves with
    | false => simpa [slabRun, slabUtspaceAlloc, hn, ho] using ih hlen hle
    | true =>
      have hi := @ih (Function.update d t' { d t' with next := (d t').next + 1 })
      by_cases ht : t = t'
      · subst ht
        simp only [Function.update_self] at hi
        obtain ⟨h1, h2, h3, h4⟩ := hi hlen (by omega)
        simp only [slabRun, slabUtspaceAlloc, hn, ho, if_false, if_true]
        refine ⟨h1, h2, h3, ?_⟩
        rw [← h4, List.take_add_one, ho]
        simp
      · simp only [Function.update_of_ne ht] at hi
        simpa [slabRun, slabUtspaceAlloc, hn, ho, Ne.symm ht] using hi hlen hle

/-- Every type that is used has a fixed size, the total does not overflow, and `types` is what `qsort` makes
of the descriptions. -/
structure Request (cfg : KernelConfig) (freq : ObjectType → Word) (types : List ObjectType) : Prop where
  fixed : ∀ t, freq t ≠ 0 → t ∈ ObjectType.all cfg ∧ fixedSize t = true
  total : bytes cfg freq (ObjectType.all cfg) < 2 ^ 64
  perm : types.Perm (ObjectType.all cfg)
  sorted : types.Pairwise fun t t' => compareObjectDescs (objectDesc cfg t) (objectDesc cfg t') ≤ 0

theorem slabInit_returns {types : List ObjectType} (h : Request cfg freq types) :
    Returns (fun d => ∀ t, Filled (freq t).toNat (d t)) (slabInit cfg env freq types) := by
  unfold slabInit
  dsimp only
  split_ifs with _ hz hbit
  · exact nofun
  · exact nofun
  · exact nofun
  · exact nofun
  · have htotal : (calculateTotalSize cfg freq).toNat = _ :=
      toNat_totalFrom (fun t ht => (h.fixed t ht).2) _ (by simpa using h.total)
    have hle : (calculateTotalSize cfg freq).toNat ≤
        (bit (highBit (calculateTotalSize cfg freq) + 1)).toNat := BitVec.not_lt.mp hbit
    have hlt := highBit_lt (calculateTotalSize cfg freq)
    rw [toNat_bit (by omega)] at hle
    refine allocSlabs_returns (fun t ht => (h.fixed t ht).2) h.sorted (fun t => ?_) (fun _ _ => Nat.dvd_zero _) ?_
    · by_cases h0 : freq t = 0
      · rw [h0]
        exact .inl ⟨rfl, rfl, rfl, .nil⟩
      · exact .inr ⟨rfl, h.perm.mem_iff.mpr (h.fixed t h0).1⟩
    · rw [bytes, (h.perm.map _).sum_nat, ← bytes]
      simpa [htotal] using hle

/-- **The untyped of a slab allocator never runs out**, and the objects of a type are handed out, each
one once, before the delegate is asked. -/
theorem slab_fits (cfg : KernelConfig) (env : Env) (freq : ObjectType → Word) (types : List ObjectType)
    (h : Request cfg freq types) :
    slabInit cfg env freq types ≠ .error .memory ∧
      ∀ d, slabInit cfg env freq types = .ok d → ∀ t,
        (d t).objects.length = (freq t).toNat ∧ (d t).objects.Pairwise Before ∧
        ∀ calls moves,
          if (slabRun t calls d).1.length = (freq t).toNat then
            (slabRun t calls d).1 = (d t).objects ∧
              (slabUtspaceAlloc (some t) moves (slabRun t calls d).2).1 = .delegate
          else ∃ o, (slabRun t calls d).1 ++ [o] <+: (d t).objects ∧
            (slabUtspaceAlloc (some t) moves (slabRun t calls d).2).1 =
              if moves then .object o else .error := by
  have hinit : Returns _ (slabInit cfg env freq types) := slabInit_returns h
  refine ⟨fun he => ?_, fun d he t => ?_⟩
  · rw [he] at hinit
    exact hinit rfl
  · rw [he] at hinit
    obtain ⟨hn, hnext, hlen, hpair⟩ := hinit t
    refine ⟨hlen, hpair, fun calls moves => ?_⟩
    obtain ⟨h1, h2, h3, h4⟩ := slabRun_spec calls (hlen.trans hn.symm) (hnext ▸ Nat.zero_le _)
    rw [hnext, List.take_zero, List.nil_append] at h4
    have hnum : (slabRun t calls d).1.length = ((slabRun t calls d).2 t).next := by
      rw [h4, List.length_take]
      omega
    by_cases hall : (slabRun t calls d).1.length = (freq t).toNat
    · rw [if_pos hall]
      rw [hnum] at hall
      refine ⟨?_, by simp [slabUtspaceAlloc, h2, hn, hall]⟩
      rw [h4, List.take_of_length_le (by omega)]
    · rw [if_neg hall]
      have hlt : ((slabRun t calls d).2 t).next < (d t).objects.length := by omega
      have hne : ((slabRun t calls d).2 t).next ≠ ((slabRun t calls d).2 t).n := by omega
      refine ⟨(d t).objects[((slabRun t calls d).2 t).next], ?_, ?_⟩
      · rw [h4, ← List.take_succ_eq_append_getElem hlt]
        exact List.take_prefix _ _
      · cases moves <;> simp [slabUtspaceAlloc, hne, h1, hlt]

/-- One thread and three endpoints, with everything granted. -/
def sampleFreq : ObjectType → Word
  | .tcb => 1
  | .endpoint => 3
  | _ => 0

def sampleEnv : Env := ⟨fun _ => true, fun _ => true, fun used => some (BitVec.ofNat 64 used)⟩

def sampleTypes : List ObjectType :=
  [.hugePage, .largePage, .vspace, .smallPage, .pageTable, .tcb, .notification, .capTable, .endpoint, .untyped]

theorem slab_fits_sample : ∃ d, slabInit benchConfig sampleEnv sampleFreq sampleTypes = .ok d ∧
    (d .endpoint).objects.length = 3 := by
  obtain ⟨d, hd⟩ : ∃ d, slabInit benchConfig sampleEnv sampleFreq sampleTypes = .ok d := ⟨_, rfl⟩
  refine ⟨d, hd, ((slab_fits _ _ _ _ ⟨fun t ht => ?_, ?_, ?_, ?_⟩).2 d hd .endpoint).1⟩
  · cases t <;> first | exact absurd rfl ht | decide
  · decide
  · decide
  · decide

end SeL4.Utils
