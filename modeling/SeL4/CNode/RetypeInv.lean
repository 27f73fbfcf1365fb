import SeL4.CNode.DeleteInv
import SeL4.Object.FreeSpace

/-!
# Retype keeps the invariants

`invokeUntyped_Retype` resets the untyped if it has no children, stores the new free index, and
creates the objects one after the other.

* `resetUntypedCap_spec`: the reset always ends, and whether it is preempted or not, memory above the
  free index that it leaves is zero. The loop clears chunks from the last one down, so what it has to
  keep is that everything above the chunk it stands at is zero already.
* `createNewObjects_spec`: after `k` rounds the first `k` objects exist, each in its own block, and
  the blocks of the others are still free and zero (`Created`).
* `decodeUntypedInvocation_spec` puts them together.
-/

namespace SeL4.Object

open SeL4.Lib SeL4.CSpace CteHeap KState

variable {slot p : Word} {i j n : Nat} {dev : Bool}

/-! ## Memory -/

/-- The bytes from `lo` up to `hi` are zero. -/
def ZeroFrom (mem : Memory) (lo hi : Nat) : Prop := ∀ a : Word, lo ≤ a.toNat → a.toNat < hi → mem a = 0

variable {mem : Memory}

theorem ZeroFrom.mono {lo hi lo' hi' : Nat} (h : ZeroFrom mem lo hi)
    (h1 : lo ≤ lo') (h2 : hi' ≤ hi) : ZeroFrom mem lo' hi' :=
  fun a ha1 ha2 => h a (h1.trans ha1) (ha2.trans_le h2)

variable {a ptr : Word}

/-- The test on offsets that `clearMemory` and `initMemory` make, as one on addresses. -/
theorem sub_lt_iff {k : Nat} (h : ptr.toNat + k ≤ 2 ^ 64) :
    (a - ptr).toNat < k ↔ ptr.toNat ≤ a.toNat ∧ a.toNat < ptr.toNat + k := by
  rw [BitVec.toNat_sub]
  omega

variable {bits : Nat}

/-- Clearing memory never makes a byte nonzero. -/
theorem clearMemory_zero (h : mem a = 0) : clearMemory ptr bits mem a = 0 := by
  unfold clearMemory
  split_ifs
  · rfl
  · exact h

/-- Clearing the block right below zeroed memory. -/
theorem zeroFrom_clearMemory {hi : Nat}
    (h : ptr.toNat + 2 ^ bits ≤ 2 ^ 64) (hz : ZeroFrom mem (ptr.toNat + 2 ^ bits) hi) :
    ZeroFrom (clearMemory ptr bits mem) ptr.toNat hi := by
  intro a h1 h2
  by_cases ha : a.toNat < ptr.toNat + 2 ^ bits
  · unfold clearMemory
    rw [if_pos ((sub_lt_iff h).mpr ⟨h1, ha⟩)]
  · exact clearMemory_zero (hz a (Nat.le_of_not_lt ha) h2)

/-- The stores of `createObject` stay in the object. -/
theorem initMemory_off {t : ObjectType} {base : Word} {init : Word → Option (BitVec 8)}
    (h : base.toNat + 2 ^ bits ≤ 2 ^ 64) (ha : a.toNat < base.toNat ∨ base.toNat + 2 ^ bits ≤ a.toNat) :
    t.initMemory base bits init mem a = mem a := by
  have hout : ¬ (a - base).toNat < 2 ^ bits := by
    rw [sub_lt_iff h]
    omega
  cases t with
  | tcb | vcpu => exact if_neg hout
  | _ => rfl

/-- They depend on nothing but the byte they replace. -/
theorem initMemory_congr {t : ObjectType} {base : Word}
    {init : Word → Option (BitVec 8)} {mem' : Memory} (ha : mem a = mem' a) :
    t.initMemory base bits init mem a = t.initMemory base bits init mem' a := by
  cases t <;> simp only [ObjectType.initMemory, ha]

variable {cfg : KernelConfig} {s s' : KState}

/-! ## The free index -/

namespace KState

/-- A capability, memory and coming interrupts, written to the state. -/
def rewrite (slot : Word) (cap : Cap) (mem : Memory) (pre : Nat → Bool) (s : KState) : KState :=
  { s with cte := s.cte.setCap slot cap, mem := mem, preempted := pre }

theorem cap_rewrite (slot : Word) (c : Cap) (m : Memory) (p : Nat → Bool) (s : KState) (x : Word) :
    ((s.rewrite slot c m p).cte x).cap = if x = slot then c else (s.cte x).cap :=
  s.cte_setCap slot c x

theorem links_rewrite (slot : Word) (c : Cap) (m : Memory) (p : Nat → Bool) (s : KState) :
    (s.rewrite slot c m p).cte.links = s.cte.links :=
  s.links_setCap slot c

theorem rewrite_rewrite (slot : Word) (c c' : Cap) (m m' : Memory) (p p' : Nat → Bool)
    (s : KState) : (s.rewrite slot c m p).rewrite slot c' m' p' = s.rewrite slot c' m' p' := by
  have hcte : (s.cte.setCap slot c).setCap slot c' = s.cte.setCap slot c' := by
    funext x
    unfold CteHeap.setCap CteHeap.set
    split_ifs <;> rfl
  unfold rewrite
  rw [hcte]

theorem rewrite_self (slot : Word) (s : KState) :
    s.rewrite slot (s.cte slot).cap s.mem s.preempted = s := by
  have hcte : s.cte.setCap slot (s.cte slot).cap = s.cte := congrArg cte (setCap_self rfl)
  unfold rewrite
  rw [hcte]

end KState

/-- Nothing behind the slot is below it. -/
def Childless (cfg : KernelConfig) (s : KState) (slot : Word) : Prop :=
  ∀ b, s.cte.Bef slot b → ¬ s.cte.Same cfg slot b

namespace SysInv

variable (hi : SysInv cfg s)
include hi

/-- Another free index, above all children, with zeroed memory above it. -/
theorem setIndex
    {pre : Nat → Bool} (hc : (s.cte slot).cap = .untyped i dev n p) (hj : j ≤ maxFreeIndex n)
    (hb : ∀ b, s.cte.Bef slot b → s.cte.Same cfg slot b → BelowIndex cfg (s.cte b).cap p j)
    (hzero : dev = false → ZeroFrom mem (p.toNat + 2 ^ minUntypedBits * j) (p.toNat + 2 ^ n))
    (hmono : ∀ a, s.mem a = 0 → mem a = 0) :
    SysInv cfg (s.rewrite slot (.untyped j dev n p) mem pre) := by
  have hwf : (Cap.untyped i dev n p).WF cfg := hc ▸ hi.deriv.wf slot
  have hk : (Cap.untyped j dev n p).key = (s.cte slot).cap.key := by
    rw [hc]
    rfl
  have hbadge : (Cap.untyped j dev n p).badge = (s.cte slot).cap.badge := by
    rw [hc]
    rfl
  have hl := s.links_setCap slot (.untyped j dev n p)
  refine ⟨hi.deriv.recap hl (key_setCap hk)
      (wf_setCap (hwf.setIndex hj) hi.deriv.wf) ?_,
    hi.tree.recap hi.deriv hl (face_setCap hk hbadge) rfl rfl, ?_,
    hi.objects.of_keys fun x => .inr ⟨x, key_setCap hk x⟩⟩
  · intro a b i' dev' n' p' hab hs ha
    rw [cap_rewrite] at ha
    split_ifs at ha with hx
    · cases ha
      subst hx
      exact hb b hab hs
    · exact hi.deriv.below hab hs ha
  · intro x i' n' p' hx
    rw [cap_rewrite] at hx
    split_ifs at hx with he
    · cases hx
      exact hzero rfl
    · exact fun a h1 h2 => hmono a (hi.zeroed x i' n' p' hx a h1 h2)

/-- An untyped that `ensureNoChildren` lets pass has nothing below it behind it. -/
theorem childless (hu : (s.cte slot).cap.isUntyped = true)
    (h : s.cte.ensureNoChildren cfg slot = true) : Childless cfg s slot := by
  intro b hb
  refine hi.deriv.no_children (fun x hx hs => ?_) hb
  have hpar : s.cte.Par cfg slot x := by
    refine par_iff.mpr ⟨hi.tree.revocable (.inl hu), hs, fun w hw => ?_⟩
    rw [Cap.badge_of_isUntyped hu] at hw
    cases hw
  have hnext : (s.cte slot).cteMDBNode.mdbNext = x := hx.1
  unfold ensureNoChildren at h
  simp only [hnext] at h
  rw [if_pos hx.2, hpar] at h
  cases h

variable {u dst : Word} {c : Cap}

/-- What the order looks like after a new object below `u`. -/
theorem bef_insertNewCap (hu : (s.cte u).cap ≠ .null)
    (hd : (s.cte dst).cap = .null) (hd0 : dst ≠ 0) {x : Word}
    (h : (s.cte.insertNewCap u dst c).Bef u x) : x = dst ∨ x ≠ dst ∧ s.cte.Bef u x := by
  obtain ⟨LL, hm⟩ := hi.deriv.lists
  rw [Bef, links_insertNewCap, hm.lists.before_insertAfter (hm.mem hu) (hm.notMem hd) hd0] at h
  rcases h with ⟨-, hx, h⟩ | ⟨rfl, -⟩ | ⟨rfl, -⟩
  · exact .inr ⟨hx, h⟩
  · exact .inl rfl
  · exact absurd hd hu

section

variable (hf : Fresh cfg s.cte u c)
include hf

/-- The free memory of an untyped does not meet the memory of a new object below `u`. -/
theorem free_apart
    (hidx : ∀ {i dev n p}, (s.cte u).cap = .untyped i dev n p → BelowIndex cfg c p i) {x : Word} (hx : (s.cte x).cap = .untyped i dev n p) {a : Nat}
    (h1 : p.toNat + 2 ^ minUntypedBits * i ≤ a) (h2 : a < p.toNat + 2 ^ n) :
    a < (c.region cfg).base ∨ (c.region cfg).top ≤ a := by
  have hphys : (s.cte x).cap.capIsPhysical = true := by
    rw [hx]
    rfl
  by_cases hap : Block.Apart ((s.cte x).cap.region cfg) (c.region cfg)
  · rw [hx] at hap
    exact hap.off ((Nat.le_add_right _ _).trans h1) h2
  · refine .inr (le_trans ?_ h1)
    by_cases hxu : x = u
    · subst hxu
      exact hidx hx
    · have hs := (hi.deriv.above_of_meets hf hphys hap).resolve_left hxu
      rcases hi.deriv.laminar.related hxu hs with h | h
      · exact hf.le.2.trans (hi.deriv.below h hs hx)
      · exact absurd (.inr hs) (hi.deriv.not_above_of_bef hf h)

/-- A new object has no memory in common with another one. -/
theorem objects_insertBelow : ObjectsApart cfg (s.cte.insertNewCap u dst c) := by
  have hcap := s.cte.cap_insertNewCap u dst c
  have hone : ∀ b ≠ dst, (s.cte b).cap.capIsPhysical = true →
      (s.cte b).cap.isUntyped = false →
      Block.Apart ((s.cte b).cap.region cfg) (c.region cfg) := by
    intro b hb hbp hbu
    by_contra hap
    rcases hi.deriv.above_of_meets hf hbp hap with rfl | hs
    · rw [hf.isUntyped] at hbu
      cases hbu
    · rw [Cap.isUntyped_of_same hs hf.isUntyped] at hbu
      cases hbu
  intro a b ha hb hau hbu hne
  rw [hcap] at ha hau hne ⊢
  rw [hcap] at hb hbu hne ⊢
  split_ifs at ha hau hb hbu hne ⊢ with had hbd hbd
  · exact absurd rfl hne
  · exact (hone b hbd hb hbu).symm
  · exact hone a had ha hau
  · exact hi.objects a b ha hb hau hbu hne

/-- A new object in the free memory of `u`, with stores that stay inside it. -/
theorem insertBelow (hd : (s.cte dst).cap = .null) (hd0 : dst ≠ 0)
    (hidx : ∀ {i dev n p}, (s.cte u).cap = .untyped i dev n p → BelowIndex cfg c p i)
    (hmem : ∀ a : Word, a.toNat < (c.region cfg).base ∨ (c.region cfg).top ≤ a.toNat → mem a = s.mem a)
    (hnew : ∀ {i n p}, c = .untyped i false n p →
      ZeroFrom mem (p.toNat + 2 ^ minUntypedBits * i) (p.toNat + 2 ^ n)) :
    SysInv cfg (({ s with mem := mem } : KState).insertNewCap u dst c) := by
  have ht := hi.tree.insertBelow hi.deriv hd hd0 hf hidx
  refine ⟨hi.deriv.insertBelow hf hd hd0 hidx,
    ⟨ht.badges, ht.revocable, ht.one_control, ht.handler_active, ht.encodes⟩, ?_,
    hi.objects_insertBelow hf⟩
  intro x i n p hx a h1 h2
  have hx' : (if x = dst then c else (s.cte x).cap) = .untyped i false n p :=
    (cap_insertNewCap s.cte u dst c x).symm.trans hx
  split_ifs at hx' with hxd
  · exact hnew hx' a h1 h2
  · show mem a = 0
    rw [hmem a (hi.free_apart hf hidx hx' h1 h2)]
    exact hi.zeroed x i n p hx' a h1 h2

end

end SysInv

/-- A new free index does not give a slot children. -/
theorem Childless.rewrite
    {pre : Nat → Bool} (hc : (s.cte slot).cap = .untyped i dev n p) (h : Childless cfg s slot) :
    Childless cfg (s.rewrite slot (.untyped j dev n p) mem pre) slot := by
  have hk : (Cap.untyped j dev n p).key = (s.cte slot).cap.key := by
    rw [hc]
    rfl
  intro b hb hs
  unfold Bef at hb
  rw [links_rewrite] at hb
  exact h b hb ((same_of_keys (key_setCap hk slot) (key_setCap hk b)).mp hs)

/-! ## Reset -/

theorem Cap.WF.untyped_top {i n : Nat} {dev : Bool} {p : Word} (h : (Cap.untyped i dev n p).WF cfg) :
    n ≤ 47 ∧ p.toNat + 2 ^ n ≤ 2 ^ 64 := by
  have hn : n ≤ 47 := h.bits_le rfl
  exact ⟨hn, Block.top_le_of_aligned (h.aligned rfl) (by omega)⟩

namespace KState

/-- The address, index and next offset of a round of the reset. -/
theorem chunk_words {m : Nat} (htop : p.toNat + 2 ^ n ≤ 2 ^ 64) (hn : n ≤ 47)
    (hm : 2 ^ resetChunkBits * (m + 1) ≤ 2 ^ n) :
    BitVec.ofNat 64 (2 ^ resetChunkBits * (m + 1)) - bit resetChunkBits =
        BitVec.ofNat 64 (2 ^ resetChunkBits * m) ∧
      (BitVec.ofNat 64 (2 ^ resetChunkBits * m) : Word) ≠ -bit resetChunkBits ∧
      (p + BitVec.ofNat 64 (2 ^ resetChunkBits * m)).toNat = p.toNat + 2 ^ resetChunkBits * m ∧
      (BitVec.ofNat 64 (2 ^ resetChunkBits * m) >>> minUntypedBits : Word).toNat % 2 ^ freeIndexBits
        = 2 ^ minUntypedBits * m := by
  have hn47 : 2 ^ n ≤ 2 ^ 47 := Nat.pow_le_pow_right (by decide) hn
  have hbit : (bit resetChunkBits).toNat = 256 := rfl
  have hchunk : 2 ^ resetChunkBits = 256 := rfl
  rw [hchunk] at hm ⊢
  refine ⟨BitVec.eq_of_toNat_eq ?_, fun h => ?_, ?_, ?_⟩
  · rw [BitVec.toNat_sub, BitVec.toNat_ofNat, BitVec.toNat_ofNat]
    omega
  · have h' := congrArg BitVec.toNat h
    rw [BitVec.toNat_neg, BitVec.toNat_ofNat] at h'
    omega
  · rw [BitVec.toNat_add, BitVec.toNat_ofNat]
    omega
  · rw [BitVec.toNat_ushiftRight, Nat.shiftRight_eq_div_pow]
    show 256 * m % 2 ^ 64 / 2 ^ 4 % 2 ^ 48 = 2 ^ 4 * m
    omega

/-- With `m` chunks left, and everything above them zero, the loop ends, at index 0 unless it is
preempted. -/
theorem resetLoop_spec {i0 : Nat} (m : Nat) :
    ∀ {i fuel : Nat} {s : KState}, SysInv cfg s → (s.cte slot).cap = .untyped i false n p →
      Childless cfg s slot → 2 ^ resetChunkBits * m ≤ 2 ^ n → (m = 0 → i = 0) →
      ZeroFrom s.mem (p.toNat + 2 ^ resetChunkBits * m) (p.toNat + 2 ^ n) → m < fuel →
      ∃ e j mem pre, resetLoop slot (.untyped i0 false n p) p fuel
          (BitVec.ofNat 64 (2 ^ resetChunkBits * m) - bit resetChunkBits) s =
          .ok (e, s.rewrite slot (.untyped j false n p) mem pre) ∧
        SysInv cfg (s.rewrite slot (.untyped j false n p) mem pre) ∧
        (e = .none ∧ j = 0 ∨ e = .preempted) := by
  induction m with
  | zero =>
    intro i fuel s hi hc _ _ hi0 _ hfuel
    obtain ⟨fuel, rfl⟩ := Nat.exists_eq_succ_of_ne_zero (Nat.ne_of_gt hfuel)
    have hend : (BitVec.ofNat 64 (2 ^ resetChunkBits * 0) - bit resetChunkBits : Word) =
        -bit resetChunkBits := by decide
    have hself := s.rewrite_self slot
    rw [hc, hi0 rfl] at hself
    refine ⟨.none, 0, s.mem, s.preempted, ?_, hself.symm ▸ hi, .inl ⟨rfl, rfl⟩⟩
    rw [hend, resetLoop, if_pos rfl, hself]
  | succ m ih =>
    intro i fuel s hi hc hch hm _ hz hfuel
    obtain ⟨fuel, rfl⟩ := Nat.exists_eq_succ_of_ne_zero (Nat.ne_of_gt (Nat.zero_lt_of_lt hfuel))
    have hwf : (Cap.untyped i false n p).WF cfg := hc ▸ hi.deriv.wf slot
    obtain ⟨hn47, htop⟩ := hwf.untyped_top
    obtain ⟨hoff, hne, haddr, hidx⟩ := chunk_words htop hn47 hm
    have hpow : 2 ^ minUntypedBits * maxFreeIndex n = 2 ^ n :=
      two_pow_mul_maxFreeIndex (hwf.untyped rfl).1
    have hchunk : 2 ^ minUntypedBits * (2 ^ minUntypedBits * m) = 2 ^ resetChunkBits * m := by
      rw [← Nat.mul_assoc]
      rfl
    have hjle : 2 ^ minUntypedBits * m ≤ maxFreeIndex n := by
      refine Nat.le_of_mul_le_mul_left ?_ (Nat.two_pow_pos minUntypedBits)
      rw [hpow, hchunk]
      exact (Nat.mul_le_mul_left _ (Nat.le_succ m)).trans hm
    -- one round: the chunk is cleared and the index moved below it
    set mem := clearMemory (p + BitVec.ofNat 64 (2 ^ resetChunkBits * m)) resetChunkBits s.mem
      with hmem
    have hzero : ZeroFrom mem (p.toNat + 2 ^ resetChunkBits * m) (p.toNat + 2 ^ n) := by
      have hfit : (p + BitVec.ofNat 64 (2 ^ resetChunkBits * m)).toNat + 2 ^ resetChunkBits =
          p.toNat + 2 ^ resetChunkBits * (m + 1) := by
        rw [haddr, Nat.add_assoc, Nat.mul_succ]
      rw [← haddr]
      refine zeroFrom_clearMemory ?_ ?_
      · omega
      · rw [hfit]
        exact hz
    have hround : ∀ pre, SysInv cfg
        (s.rewrite slot (.untyped (2 ^ minUntypedBits * m) false n p) mem pre) := by
      intro pre
      refine hi.setIndex hc hjle (fun b hb hs => absurd hs (hch b hb)) (fun _ => ?_)
        fun a => clearMemory_zero
      rw [hchunk]
      exact hzero
    set s1 := s.rewrite slot (.untyped (2 ^ minUntypedBits * m) false n p) mem
      fun k => s.preempted (k + 1) with hs1
    have hstep : resetLoop slot (.untyped i0 false n p) p (fuel + 1)
        (BitVec.ofNat 64 (2 ^ resetChunkBits * m)) s =
        if (if s.preempted 0 then Exception.preempted else .none) ≠ .none then
          .ok (if s.preempted 0 then .preempted else .none, s1)
        else resetLoop slot (.untyped i0 false n p) p fuel
          (BitVec.ofNat 64 (2 ^ resetChunkBits * m) - bit resetChunkBits) s1 := by
      rw [resetLoop, if_neg hne, setFreeIndex, hidx]
      rfl
    rw [hoff, hstep]
    by_cases hpre : s.preempted 0 = true
    · refine ⟨.preempted, _, mem, fun k => s.preempted (k + 1), ?_, hround _, .inr rfl⟩
      rw [if_pos hpre, if_pos (by decide)]
    · rw [if_neg hpre]
      have hc1 : (s1.cte slot).cap = .untyped (2 ^ minUntypedBits * m) false n p := by
        rw [cap_rewrite, if_pos rfl]
      obtain ⟨e, j, mem', pre', heq, hinv, he⟩ := ih (hround _) hc1 (hch.rewrite hc)
        ((Nat.mul_le_mul_left _ (Nat.le_succ m)).trans hm) (fun h => by rw [h]; rfl) hzero
        (Nat.lt_of_succ_lt_succ hfuel)
      rw [rewrite_rewrite] at heq hinv
      exact ⟨e, j, mem', pre', heq, hinv, he⟩

/-- The number of chunks that hold memory below the free index, and where the loop starts. -/
theorem start_words (hi0 : i ≠ 0) (hi : 2 ^ minUntypedBits * i ≤ 2 ^ n)
    (hn8 : resetChunkBits ≤ n) (hn : n ≤ 47) : ∃ m,
    (freeIndexToOffset i - 1) &&& ~~~mask resetChunkBits =
      BitVec.ofNat 64 (2 ^ resetChunkBits * m) - bit resetChunkBits ∧
    ((freeIndexToOffset i - 1) &&& ~~~mask resetChunkBits).toNat / 2 ^ resetChunkBits + 2 = m + 1 ∧
    m ≠ 0 ∧ 2 ^ minUntypedBits * i ≤ 2 ^ resetChunkBits * m ∧ 2 ^ resetChunkBits * m ≤ 2 ^ n := by
  have hn47 : 2 ^ n ≤ 2 ^ 47 := Nat.pow_le_pow_right (by decide) hn
  obtain ⟨k, hk⟩ : 2 ^ resetChunkBits ∣ 2 ^ n := pow_dvd_pow 2 hn8
  have h16 : 2 ^ minUntypedBits = 16 := rfl
  have h256 : 2 ^ resetChunkBits = 256 := rfl
  have hbit : (bit resetChunkBits).toNat = 256 := rfl
  have hstart := toNat_and_not_mask (freeIndexToOffset i - 1) (show resetChunkBits ≤ 64 by decide)
  rw [h16] at hi
  rw [h256] at hk hstart
  rw [h16, h256]
  have hoff : (freeIndexToOffset i).toNat = 16 * i := toNat_freeIndexToOffset (by omega)
  have hsub : (freeIndexToOffset i - 1).toNat = 16 * i - 1 := by
    have hle : (1 : Word).toNat ≤ (freeIndexToOffset i).toNat := by
      show 1 ≤ _
      omega
    rw [BitVec.toNat_sub_of_le hle, hoff]
    rfl
  refine ⟨(16 * i - 1) / 256 + 1, BitVec.eq_of_toNat_eq ?_, ?_, Nat.succ_ne_zero _, ?_, ?_⟩
  · rw [BitVec.toNat_sub, BitVec.toNat_ofNat]
    omega
  · omega
  · omega
  · omega

/-- **A reset always ends**, at free index 0 unless it is preempted, and keeps the invariant. It
writes nothing but the capability of the untyped and its memory. -/
theorem resetUntypedCap_spec (hi : SysInv cfg s)
    (hc : (s.cte slot).cap = .untyped i dev n p) (hch : Childless cfg s slot) : ∃ e j mem pre,
      s.resetUntypedCap slot = .ok (e, s.rewrite slot (.untyped j dev n p) mem pre) ∧
      SysInv cfg (s.rewrite slot (.untyped j dev n p) mem pre) ∧
      (e = .none ∧ j = 0 ∨ e = .preempted) := by
  have hwf : (Cap.untyped i dev n p).WF cfg := hc ▸ hi.deriv.wf slot
  obtain ⟨hn4, hile, -⟩ := hwf.untyped rfl
  obtain ⟨hn47, htop⟩ := hwf.untyped_top
  have hpow : 2 ^ minUntypedBits * maxFreeIndex n = 2 ^ n := two_pow_mul_maxFreeIndex hn4
  have hin : 2 ^ minUntypedBits * i ≤ 2 ^ n := hpow ▸ Nat.mul_le_mul_left _ hile
  have hcap : s.cap slot = .untyped i dev n p := hc
  unfold resetUntypedCap
  rw [hcap]
  by_cases hi0 : i = 0
  · subst hi0
    have hself := s.rewrite_self slot
    rw [hc] at hself
    refine ⟨.none, 0, s.mem, s.preempted, ?_, hself.symm ▸ hi, .inl ⟨rfl, rfl⟩⟩
    rw [hself]
    rfl
  · have hne : freeIndexToOffset i ≠ 0 := by
      intro h
      have h' := congrArg BitVec.toNat h
      rw [toNat_freeIndexToOffset (hile.trans (maxFreeIndex_le hn47))] at h'
      have : 2 ^ minUntypedBits * i ≠ 0 := Nat.mul_ne_zero (by decide) hi0
      exact this h'
    dsimp only
    rw [if_neg hne]
    by_cases hs : (dev || decide (n < resetChunkBits)) = true
    · rw [if_pos hs]
      refine ⟨.none, 0, if dev then s.mem else clearMemory p n s.mem, s.preempted, ?_,
        hi.setIndex hc (Nat.zero_le _) (fun b hb hs => absurd hs (hch b hb)) (fun hdev => ?_) ?_,
        Or.inl ⟨rfl, rfl⟩⟩
      · cases dev <;> rfl
      · rw [hdev]
        exact zeroFrom_clearMemory htop fun a h1 h2 => absurd h1 (Nat.not_le_of_lt h2)
      · intro a ha
        split_ifs
        · exact ha
        · exact clearMemory_zero ha
    · rw [if_neg hs]
      rw [Bool.or_eq_true, not_or, decide_eq_true_eq, Nat.not_lt] at hs
      obtain rfl : dev = false := Bool.eq_false_iff.mpr hs.1
      obtain ⟨m, hstart, hfuel, hm0, hle, hmn⟩ := start_words hi0 hin hs.2 hn47
      rw [hfuel, hstart]
      exact resetLoop_spec m hi hc hch hmn (fun h => absurd h hm0)
        (ZeroFrom.mono (hi.zeroed slot i n p hc) (Nat.add_le_add_left hle _) le_rfl)
        (Nat.lt_succ_self m)

/-! ## The new objects -/

/-- The slot of the `j`-th new capability. -/
def RetypeRequest.dest (req : RetypeRequest) (j : Nat) : Word :=
  cteAt req.destCNode (req.destOffset + BitVec.ofNat 64 j)

/-- The address of the `j`-th new object. -/
def RetypeRequest.address (cfg : KernelConfig) (req : RetypeRequest) (j : Nat) : Word :=
  req.retypeBase + BitVec.ofNat 64 j <<< req.objectBits cfg

/-- The `j`-th new capability. -/
def RetypeRequest.newCap (cfg : KernelConfig) (req : RetypeRequest) (j : Nat) : Cap :=
  req.newType.createObject cfg (req.address cfg j) req.userSize req.deviceMemory

/-- What holds of an accepted request on the untyped with base `p` and size `n`, for the slots and
the objects it asks for. -/
structure Ready (cfg : KernelConfig) (req : RetypeRequest) (p : Word) (n f : Nat) : Prop extends
    Plan cfg req p n f where
  dest_ne_zero : ∀ {j}, j < req.destLength.toNat → req.dest j ≠ 0
  dest_inj : ∀ {j k}, j < req.destLength.toNat → k < req.destLength.toNat →
    req.dest j = req.dest k → j = k
  address_eq : ∀ {j}, j < req.destLength.toNat → (req.address cfg j).toNat = (req.block cfg j).base
  region : ∀ {j}, j < req.destLength.toNat → (req.newCap cfg j).region cfg = req.block cfg j
  wf : ∀ {j}, j < req.destLength.toNat → (req.newCap cfg j).WF cfg
  aligned : ∀ j, (req.block cfg j).Aligned
  le : ∀ {j}, j < req.destLength.toNat → req.block cfg j ≤ ⟨p.toNat, n⟩
  block_le_index : ∀ {j}, j < req.destLength.toNat →
    (req.block cfg j).top ≤ p.toNat + 2 ^ minUntypedBits * (retypeFreeIndex cfg req p).toNat
  index_le_block : ∀ {j}, p.toNat + 2 ^ minUntypedBits * f ≤ (req.block cfg j).base

variable {radix : Nat}

/-- An index of a window inside a CNode. -/
theorem toNat_window {offset : Word} (hr : radix ≤ 47) (hin : offset.toNat + j < 2 ^ radix) :
    (offset + BitVec.ofNat 64 j).toNat = offset.toNat + j := by
  have hr47 : 2 ^ radix ≤ 2 ^ 47 := Nat.pow_le_pow_right (by decide) hr
  rw [BitVec.toNat_add, BitVec.toNat_ofNat]
  omega

variable {f : Nat} {req : RetypeRequest}

section

variable (hp : Plan cfg req p n f)
include hp

/-- The address of an object of the plan. -/
theorem Plan.address
    (htop : p.toNat + 2 ^ n ≤ 2 ^ 64) (hj : j < req.destLength.toNat) :
    (req.address cfg j).toNat = (req.block cfg j).base := by
  have hpos := Nat.two_pow_pos (req.objectBits cfg)
  have hlt : j * 2 ^ req.objectBits cfg < req.destLength.toNat * 2 ^ req.objectBits cfg :=
    Nat.mul_lt_mul_of_pos_right hj hpos
  have hfits := hp.fits
  have hj64 : (BitVec.ofNat 64 j : Word).toNat = j := by
    rw [BitVec.toNat_ofNat, Nat.mod_eq_of_lt (by omega)]
  have hshift : (BitVec.ofNat 64 j <<< req.objectBits cfg : Word).toNat =
      j * 2 ^ req.objectBits cfg := by
    rw [toNat_shiftLeft_of_lt, hj64]
    rw [hj64]
    omega
  show (req.retypeBase + BitVec.ofNat 64 j <<< req.objectBits cfg).toNat =
    req.retypeBase.toNat + j * 2 ^ req.objectBits cfg
  rw [BitVec.toNat_add, hshift, Nat.mod_eq_of_lt (by omega)]

theorem Plan.start_le : p.toNat + 2 ^ minUntypedBits * f ≤ req.retypeBase.toNat :=
  hp.base ▸ Block.le_roundUp _ _

theorem Plan.aligned (j : Nat) : (req.block cfg j).Aligned :=
  Block.carve_aligned (hp.base ▸ Block.dvd_roundUp _ _) j

end

/-- An accepted request is ready, if the capabilities it uses are well formed. -/
theorem ready {args : RetypeArgs} {destCNode : Word}
    (ha : Accepted cfg args slot s req radix destCNode i dev n p)
    (hwf : ∀ x, (s.cap x).WF cfg) : Ready cfg req p n (if req.reset then 0 else i) := by
  have hu : (Cap.untyped i dev n p).WF cfg := ha.cap ▸ hwf slot
  have hplan := plan ha hu
  obtain ⟨x, g, gd, hnode⟩ := ha.node
  have hnwf : (Cap.cnode radix g gd destCNode).WF cfg := hnode ▸ hwf x
  have hradix : radix + slotBits ≤ 47 := hnwf.bits_le rfl
  obtain ⟨hn47, htop⟩ := hu.untyped_top
  have hslot : ∀ {j}, j < req.destLength.toNat →
      (req.dest j).toNat = destCNode.toNat + (req.destOffset.toNat + j) * 2 ^ slotBits := by
    intro j hj
    have hin := ha.in_node j (ha.window ▸ hj) (by omega)
    rw [← ha.offset] at hin
    have hidx := toNat_window (by omega) hin
    rw [RetypeRequest.dest, ha.dest, toNat_cteAt hnwf (hidx ▸ hin), hidx]
  have haddr : ∀ {j}, j < req.destLength.toNat →
      (req.address cfg j).toNat = (req.block cfg j).base := hplan.address htop
  have hsize : ∀ {j}, j < req.destLength.toNat →
      2 ^ (req.newType.getObjectSize cfg req.userSize).toNat ∣ (req.address cfg j).toNat := by
    intro j hj
    rw [haddr hj]
    exact hplan.aligned j
  refine
    { toPlan := hplan
      dest_ne_zero := fun {j} hj h0 => ?_
      dest_inj := fun {j k} hj hk he => ?_
      address_eq := haddr
      region := fun {j} hj => ?_
      wf := fun {j} hj => ?_
      aligned := hplan.aligned
      le := fun {j} hj => ?_
      block_le_index := fun {j} hj => ?_
      index_le_block := fun {j} => hplan.start_le.trans (Nat.le_add_right _ _) }
  · have h := hslot hj
    rw [h0] at h
    have h0' : destCNode.toNat = 0 := Nat.eq_zero_of_add_eq_zero_right h.symm
    exact (hnwf.cnode rfl).2.2.2 (BitVec.eq_of_toNat_eq h0')
  · have h := congrArg BitVec.toNat he
    rw [hslot hj, hslot hk] at h
    have h' := Nat.eq_of_mul_eq_mul_right (Nat.two_pow_pos slotBits) (Nat.add_left_cancel h)
    exact Nat.add_left_cancel h'
  · have hr : (req.newCap cfg j).region cfg = _ := ObjectType.region_createObject
      (by rw [ha.userSize]; exact ha.userSize_lt) (hsize hj)
    rw [hr, haddr hj]
    rfl
  · have hlt := ha.userSize_lt
    have hle := ha.size_le
    have htable := ha.capTable
    have hunt := ha.untyped
    rw [← ha.userSize] at hlt hle htable hunt
    refine ObjectType.wf_createObject hlt (hsize hj) hle htable hunt ?_ fun hdev h0 => ?_
    · rw [ha.memory]
      exact ha.device
    · -- a new object starts at or above the base of the untyped
      rw [ha.memory] at hdev
      have hp0 : p.toNat ≠ 0 := fun h => (hu.untyped rfl).2.2 hdev (BitVec.eq_of_toNat_eq h)
      have hge : p.toNat ≤ (req.address cfg j).toNat := by
        rw [haddr hj]
        exact (Nat.le_add_right _ _).trans (hplan.start_le.trans (Nat.le_add_right _ _))
      rw [h0] at hge
      exact hp0 (Nat.le_zero.mp hge)
  · exact Block.carve_le hj ((Nat.le_add_right _ _).trans hplan.start_le) hplan.fits le_rfl
  · rw [hplan.index, RetypeRequest.block, Block.carve_top]
    exact Nat.add_le_add_left (Nat.mul_le_mul_right _ hj) _

/-! ## Creating them -/

/-- The invariant of the loop of `createNewObjects` on the untyped in `u`, after `k` rounds that
started from `s₀`. -/
structure Created (cfg : KernelConfig) (req : RetypeRequest) (init : Word → Option (BitVec 8))
    (u : Word) (s₀ : KState) (k : Nat) (s : KState) : Prop where
  inv : SysInv cfg s
  untyped : (s.cte u).cap = (s₀.cte u).cap
  empty : ∀ {j}, k ≤ j → j < req.destLength.toNat → (s.cte (req.dest j)).cap = .null
  /-- The blocks to come are free. -/
  free : ∀ {x j}, s.cte.Bef u x → s.cte.Same cfg u x → k ≤ j → j < req.destLength.toNat →
    Block.Apart ((s.cte x).cap.region cfg) (req.block cfg j)
  zero : req.deviceMemory = false → ∀ {j}, k ≤ j → j < req.destLength.toNat →
    ZeroFrom s.mem (req.block cfg j).base (req.block cfg j).top
  cap : ∀ {j}, j < k → (s.cte (req.dest j)).cap = req.newCap cfg j
  /-- Only capabilities above the untyped meet the memory of a new object. -/
  apart : ∀ {x j}, j < k → x ≠ req.dest j → (s.cte x).cap.capIsPhysical = true →
    Block.Apart ((s.cte x).cap.region cfg) (req.block cfg j) ∨
      (s.cte x).cap.isUntyped = true ∧ (s.cte u).cap.region cfg ≤ (s.cte x).cap.region cfg
  /-- A new object has been set up on zeroed memory. -/
  content : req.deviceMemory = false → ∀ {j}, j < k → ∀ a : Word, (req.block cfg j).base ≤ a.toNat →
    a.toNat < (req.block cfg j).top → s.mem a = req.newType.initMemory (req.address cfg j)
      (req.objectBits cfg) init (fun _ => 0) a
  keeps : ∀ {x}, (∀ j, j < k → x ≠ req.dest j) → (s.cte x).cap = (s₀.cte x).cap

section Create

variable {init : Word → Option (BitVec 8)} {u : Word} {s₀ : KState} {k : Nat}

/-- Only untypeds are created as untypeds. -/
theorem newType_of_newCap {m : Nat} {q : Word} (h : req.newCap cfg j = .untyped i dev m q) :
    req.newType = .untyped ∧ req.deviceMemory = dev ∧ i = 0 := by
  unfold RetypeRequest.newCap at h
  cases ht : req.newType with
  | untyped =>
    rw [ht] at h
    cases h
    exact ⟨rfl, rfl, rfl⟩
  | _ =>
    rw [ht] at h
    cases h

section Rounds

variable (hr : Ready cfg req p n f)
  (hu : (s₀.cte u).cap = .untyped (retypeFreeIndex cfg req p).toNat req.deviceMemory n p)
include hr hu

/-- The block of the next round is free. -/
theorem Created.fresh (hc : Created cfg req init u s₀ k s) (hk : k < req.destLength.toNat) : Fresh cfg s.cte u (req.newCap cfg k) := by
  have hcu := hc.untyped.trans hu
  refine ⟨?_, hr.wf hk, ObjectType.physical_createObject, ?_, fun x hx hs => ?_⟩
  · rw [hcu]
    rfl
  · rw [hr.region hk, hcu]
    exact hr.le hk
  · rw [hr.region hk]
    exact hc.free hx hs le_rfl hk

theorem createNewObject_step (hc : Created cfg req init u s₀ k s) (hk : k < req.destLength.toNat) :
    Created cfg req init u s₀ (k + 1) (createNewObject cfg req init u s k) := by
  have hcu := hc.untyped.trans hu
  have hfresh := hc.fresh hr hu hk
  have hreg := hr.region hk
  have hempty := hc.empty le_rfl hk
  have hun : (s.cte u).cap ≠ .null := by
    rw [hcu]
    exact nofun
  have hud : u ≠ req.dest k := fun he => hun (he ▸ hempty)
  have hbase := hr.address_eq hk
  have hbtop : (req.address cfg k).toNat + 2 ^ req.objectBits cfg = (req.block cfg k).top := by
    rw [hbase]
    rfl
  have hfit : (req.address cfg k).toNat + 2 ^ req.objectBits cfg ≤ 2 ^ 64 := by
    have hal : Block.Aligned ⟨(req.address cfg k).toNat, req.objectBits cfg⟩ := by
      rw [hbase]
      exact hr.aligned k
    have hwf := hfresh.wf.bits_le_64 hfresh.physical
    have hbits : (req.newCap cfg k).capSizeBits cfg = req.objectBits cfg := congrArg Block.bits hreg
    exact Block.top_le_of_aligned hal (hbits ▸ hwf)
  set mem := req.newType.initMemory (req.address cfg k) (req.objectBits cfg) init s.mem with hmem
  have hoff : ∀ a : Word, a.toNat < (req.block cfg k).base ∨ (req.block cfg k).top ≤ a.toNat →
      mem a = s.mem a := by
    intro a ha
    refine initMemory_off hfit ?_
    rwa [hbtop, hbase]
  have hstate : createNewObject cfg req init u s k =
      ({ s with mem := mem } : KState).insertNewCap u (req.dest k) (req.newCap cfg k) := rfl
  have hcap : ∀ x, ((createNewObject cfg req init u s k).cte x).cap =
      if x = req.dest k then req.newCap cfg k else (s.cte x).cap :=
    fun x => cap_insertNewCap s.cte u (req.dest k) (req.newCap cfg k) x
  have hother : ∀ {j}, j ≠ k → j < req.destLength.toNat → req.dest j ≠ req.dest k :=
    fun hjk hj he => hjk (hr.dest_inj hj hk he)
  refine ⟨?_, ?_, ?_, ?_, ?_, ?_, ?_, ?_, ?_⟩
  · -- the invariant
    rw [hstate]
    refine hc.inv.insertBelow hfresh hempty (hr.dest_ne_zero hk) ?_ ?_ ?_
    · intro i dev m q hiq
      rw [hcu] at hiq
      cases hiq
      rw [BelowIndex, hreg]
      exact hr.block_le_index hk
    · rw [hreg]
      exact hoff
    · intro i m q he
      obtain ⟨ht, hdev, rfl⟩ := newType_of_newCap he
      have hmem' : mem = s.mem := by
        rw [hmem, ht]
        rfl
      have hz := hc.zero hdev le_rfl hk
      rw [← hreg, he] at hz
      rw [hmem']
      exact hz
  · rw [hcap, if_neg hud, hc.untyped]
  · intro j hj hlt
    rw [hcap, if_neg (hother (by omega) hlt)]
    exact hc.empty (by omega) hlt
  · intro x j hx hs hj hlt
    have hsu := hcap u
    have hsx := hcap x
    rw [Same, hsu, hsx, if_neg hud] at hs
    rw [hsx]
    rcases hc.inv.bef_insertNewCap hun hempty (hr.dest_ne_zero hk) hx with rfl | ⟨hxd, hx⟩
    · rw [if_pos rfl, hreg]
      exact Block.carve_apart _ _ (by omega)
    · rw [if_neg hxd] at hs ⊢
      exact hc.free hx hs (by omega) hlt
  · intro hdev j hj hlt a h1 h2
    -- a store of this round is not in a later block
    have hap : Block.Apart (req.block cfg j) (req.block cfg k) := Block.carve_apart _ _ (by omega)
    show mem a = 0
    rw [hoff a (hap.off h1 h2)]
    exact hc.zero hdev (by omega) hlt a h1 h2
  · intro j hj
    rw [hcap]
    rcases Nat.lt_succ_iff_lt_or_eq.mp hj with hj | rfl
    · rw [if_neg (hother (by omega) (by omega))]
      exact hc.cap hj
    · rw [if_pos rfl]
  · intro x j hj hxj hx
    rw [hcap] at hx ⊢
    rw [hcap u]
    split_ifs at hx ⊢ with hxk
    · have hjk : j ≠ k := fun he => hxj (by rw [he, hxk])
      rw [hreg]
      exact .inl (Block.carve_apart _ _ hjk.symm)
    · rcases Nat.lt_succ_iff_lt_or_eq.mp hj with hj | rfl
      · exact hc.apart hj hxj hx
      · by_cases hap : Block.Apart ((s.cte x).cap.region cfg) (req.block cfg j)
        · exact .inl hap
        · rw [← hreg] at hap
          rcases hc.inv.deriv.above_of_meets hfresh hx hap with rfl | hs
          · exact .inr ⟨hfresh.isUntyped, Block.le_refl _⟩
          · exact .inr ⟨Cap.isUntyped_of_same hs hfresh.isUntyped, hc.inv.deriv.region_le hs hx⟩
  · intro hdev j hj a h1 h2
    show mem a = _
    rcases Nat.lt_succ_iff_lt_or_eq.mp hj with hj | rfl
    · have hap : Block.Apart (req.block cfg j) (req.block cfg k) := Block.carve_apart _ _ (by omega)
      rw [hoff a (hap.off h1 h2)]
      exact hc.content hdev hj a h1 h2
    · exact initMemory_congr (hc.zero hdev le_rfl hk a h1 h2)
  · intro x hx
    rw [hcap, if_neg (hx k (Nat.lt_succ_self k))]
    exact hc.keeps fun j hj => hx j (Nat.lt_succ_of_lt hj)

theorem createNewObjects_spec (h0 : Created cfg req init u s₀ 0 s₀) :
    Created cfg req init u s₀ req.destLength.toNat (s₀.createNewObjects cfg req init u) := by
  have hrun : ∀ k, k ≤ req.destLength.toNat → Created cfg req init u s₀ k
      ((List.range k).foldl (createNewObject cfg req init u) s₀) := by
    intro k hk
    induction k with
    | zero => exact h0
    | succ k ih =>
      rw [List.range_succ, List.foldl_append]
      exact createNewObject_step hr hu (ih (Nat.le_of_succ_le hk)) hk
  exact hrun _ le_rfl

end Rounds

/-- The new free index is stored as it is: the field is wide enough. -/
theorem setFreeIndex_eq (hr : Ready cfg req p n f) (hn : n ≤ maxUntypedBits) :
    setFreeIndex (retypeFreeIndex cfg req p) (.untyped i dev n p) =
      .untyped (retypeFreeIndex cfg req p).toNat dev n p := by
  have hle := hr.index_le.trans (maxFreeIndex_le hn)
  rw [setFreeIndex, Nat.mod_eq_of_lt (hle.trans_lt (by decide))]

/-- Where the loop starts: the free index is past all blocks, which are free and zero. -/
theorem created_zero (hi : SysInv cfg s) (hr : Ready cfg req p n f)
    (hc : (s.cte u).cap = .untyped f req.deviceMemory n p)
    (hempty : ∀ j, j < req.destLength.toNat → (s.cte (req.dest j)).cap = .null) (hs0 : s₀ = s.setCap u
      (.untyped (retypeFreeIndex cfg req p).toNat req.deviceMemory n p)) :
    Created cfg req init u s₀ 0 s₀ := by
  have hidx : p.toNat + 2 ^ minUntypedBits * f ≤
      p.toNat + 2 ^ minUntypedBits * (retypeFreeIndex cfg req p).toNat := by
    rw [hr.index]
    exact hr.start_le.trans (Nat.le_add_right _ _)
  have hk : (Cap.untyped (retypeFreeIndex cfg req p).toNat req.deviceMemory n p).key =
      (s.cte u).cap.key := by
    rw [hc]
    rfl
  have hcap : ∀ {x}, x ≠ u → (s₀.cte x).cap = (s.cte x).cap := by
    intro x hx
    rw [hs0, cte_setCap, if_neg hx]
  have hregion : ∀ x, (s₀.cte x).cap.region cfg = (s.cte x).cap.region cfg := by
    intro x
    rw [hs0]
    exact Cap.region_eq_of_key (key_setCap hk x)
  refine ⟨?_, rfl, ?_, ?_, ?_, fun h => absurd h (Nat.not_lt_zero _),
    fun h => absurd h (Nat.not_lt_zero _), fun _ _ h => absurd h (Nat.not_lt_zero _), fun _ => rfl⟩
  · rw [hs0]
    refine hi.setIndex hc hr.index_le (fun b hb hs => ?_) (fun hdev => ?_) fun a ha => ha
    · exact (hi.deriv.below hb hs hc).trans hidx
    · rw [hdev] at hc
      exact ZeroFrom.mono (hi.zeroed u f n p hc) hidx le_rfl
  · intro j _ hj
    rw [hcap, hempty j hj]
    rintro rfl
    have := hempty j hj
    rw [hc] at this
    cases this
  · intro x j hx hs _ _
    have hx' : s.cte.Bef u x := by
      rw [Bef, hs0, links_setCap] at hx
      exact hx
    have hs' : s.cte.Same cfg u x := by
      rw [hs0] at hs
      exact (same_of_keys (key_setCap hk u) (key_setCap hk x)).mp hs
    rw [hregion x]
    exact .inl ((hi.deriv.below hx' hs' hc).trans hr.index_le_block)
  · intro hdev j _ hj
    rw [hdev] at hc
    have hz := ZeroFrom.mono (hi.zeroed u f n p hc) (hr.index_le_block (j := j)) (hr.le hj).2
    rw [hs0]
    exact hz

end Create

/-- What a retype on the untyped in `slot` that ran to its end has done: the invariant of the loop
holds after all rounds, and nothing happened before it but to the untyped itself. -/
structure Retyped (cfg : KernelConfig) (req : RetypeRequest) (init : Word → Option (BitVec 8))
    (slot : Word) (i : Nat) (dev : Bool) (n : Nat) (p : Word) (s s' : KState) : Prop where
  ready : Ready cfg req p n (if req.reset then 0 else i)
  created : ∃ s₀, Created cfg req init slot s₀ req.destLength.toNat s' ∧
    ∀ x ≠ slot, (s₀.cte x).cap = (s.cte x).cap
  untyped : (s'.cte slot).cap = .untyped (retypeFreeIndex cfg req p).toNat dev n p

/-- **A retype that is accepted never goes wrong**: it keeps the invariant, and it has created the
objects it was asked for unless its reset was preempted. -/
theorem invokeUntypedRetype_spec (hi : SysInv cfg s) {args : RetypeArgs} {destCNode : Word}
    (ha : Accepted cfg args slot s req radix destCNode i dev n p) (init : Word → Option (BitVec 8)) :
    ∃ e s', s.invokeUntypedRetype cfg req init slot = .ok (e, s') ∧ SysInv cfg s' ∧
      (e = .none ∧ Retyped cfg req init slot i dev n p s s' ∨ e = .preempted) := by
  have hr := ready ha hi.deriv.wf
  have hc : (s.cte slot).cap = .untyped i dev n p := ha.cap
  have hwf : (Cap.untyped i dev n p).WF cfg := hc ▸ hi.deriv.wf slot
  have hdest : ∀ j, j < req.destLength.toNat →
      (s.cte (req.dest j)).cap = .null ∧ req.dest j ≠ slot := by
    intro j hj
    have he := ha.empty j (ha.window ▸ hj)
    rw [← ha.dest, ← ha.offset] at he
    refine ⟨he, fun hs => ?_⟩
    have he' : (s.cte (req.dest j)).cap = .null := he
    rw [hs, hc] at he'
    cases he'
  -- what happens once the untyped is at the free index of the request
  have hcreate : ∀ t : KState, SysInv cfg t → (∀ x ≠ slot, (t.cte x).cap = (s.cte x).cap) →
      (t.cte slot).cap = .untyped (if req.reset then 0 else i) dev n p →
      SysInv cfg ((t.setCap slot (setFreeIndex (retypeFreeIndex cfg req p)
        (t.cap slot))).createNewObjects cfg req init slot) ∧
      Retyped cfg req init slot i dev n p s ((t.setCap slot
        (setFreeIndex (retypeFreeIndex cfg req p) (t.cap slot))).createNewObjects cfg req init
          slot) := by
    intro t ht hoff hslot
    have hset : setFreeIndex (retypeFreeIndex cfg req p) (t.cap slot) =
        .untyped (retypeFreeIndex cfg req p).toNat dev n p := by
      rw [show t.cap slot = _ from hslot]
      exact setFreeIndex_eq hr (hwf.bits_le rfl)
    rw [hset]
    rw [← ha.memory] at hslot ⊢
    have h0 : Created cfg req init slot _ 0 _ := created_zero ht hr hslot (fun j hj => by
      rw [hoff _ (hdest j hj).2]
      exact (hdest j hj).1) rfl
    have hu := t.setCap_cap slot (.untyped (retypeFreeIndex cfg req p).toNat req.deviceMemory n p)
    have hend := createNewObjects_spec hr hu h0
    refine ⟨hend.inv, hr, ⟨_, hend, fun x hx => ?_⟩, hend.untyped.trans hu⟩
    rw [cte_setCap, if_neg hx, hoff x hx]
  have hbase : (s.cap slot).capPtr cfg = p := by
    rw [show s.cap slot = _ from hc]
    rfl
  unfold invokeUntypedRetype
  rw [hbase]
  split_ifs at hcreate ⊢ with hreset
  · have hch : Childless cfg s slot := by
      refine hi.childless ?_ (ha.reset ▸ hreset)
      rw [hc]
      rfl
    obtain ⟨e, j, mem, pre, heq, hinv, he⟩ := resetUntypedCap_spec hi hc hch
    rw [heq]
    rcases he with ⟨rfl, rfl⟩ | rfl
    · obtain ⟨h1, h2⟩ := hcreate _ hinv (fun x hx => by rw [cap_rewrite, if_neg hx])
        (by rw [cap_rewrite, if_pos rfl])
      exact ⟨.none, _, rfl, h1, .inl ⟨rfl, h2⟩⟩
    · exact ⟨.preempted, _, rfl, hinv, .inr rfl⟩
  · obtain ⟨h1, h2⟩ := hcreate s hi (fun _ _ => rfl) hc
    exact ⟨.none, _, rfl, h1, .inl ⟨rfl, h2⟩⟩

/-- **An invocation of an untyped** always returns, with the invariant; an error changes nothing. -/
theorem decodeUntypedInvocation_spec (hi : SysInv cfg s) (args : RetypeArgs)
    (init : Word → Option (BitVec 8)) (slot : Word) :
    ∃ e s', s.decodeUntypedInvocation cfg args init slot = .ok (e, s') ∧ SysInv cfg s' ∧
      ((∃ err, e = .syscallError err ∧ s' = s) ∨ e = .preempted ∨ e = .none ∧
        ∃ req i dev n p, s.cap slot = .untyped i dev n p ∧ decodeRetype cfg args slot s = .ok req ∧
          Retyped cfg req init slot i dev n p s s') := by
  unfold decodeUntypedInvocation
  cases hd : decodeRetype cfg args slot s with
  | error e =>
    cases e with
    | syscall err => exact ⟨.syscallError err, s, rfl, hi, .inl ⟨err, rfl, rfl⟩⟩
    | fault f => exact absurd hd (decodeRetype_no_fault hi.deriv.wf f)
  | ok req =>
    obtain ⟨radix, destCNode, i, dev, n, p, ha⟩ := decodeRetype_ok hd
    obtain ⟨e, s', heq, hinv, he⟩ := invokeUntypedRetype_spec hi ha init
    refine ⟨e, s', heq, hinv, .inr ?_⟩
    rcases he with ⟨rfl, h⟩ | rfl
    · exact .inr ⟨rfl, req, i, dev, n, p, ha.cap, rfl, h⟩
    · exact .inl rfl

end KState

end SeL4.Object
