import SeL4.VSpace.Asid

/-!
# Hardware VMIDs

With `CONFIG_ARM_HYPERVISOR_SUPPORT` two tables have to agree: the entry of an ASID stores its VMID, and
`armKSHWASIDTable` stores for each VMID its ASID. `VmidInv` says that they are inverse to each other,
and that what the log of the TLB says is still true: an ASID that used a VMID after the VMID was last
invalidated still owns it. The flush before a VMID passes on is made in `findFreeHWASID` when the VMID
is taken away from its owner, and in `invalidateTLBByASID` when the owner is deleted.

Results:
* `VmidInv` is kept by each primitive update (`VmidInv.revoke`, `VmidInv.setFree`, `VmidInv.store`,
  `VmidInv.dropPool`), and by each operation, none of which fails (`AsidOp.run_inv`).
* **`vmid_table_consistent`**: in every reachable state the tables are inverse to each other, so that no
  VMID has two owners, and between the uses of a VMID by two address spaces it was invalidated.
-/

namespace SeL4.VSpace

open SeL4.Lib Function

/-! ## ASIDs -/

theorem toNat_asidHigh (a : Word) : (asidHigh a).toNat = a.toNat / 2 ^ asidLowBits := by
  unfold asidHigh
  rw [BitVec.toNat_ushiftRight, Nat.shiftRight_eq_div_pow]

theorem toNat_asidLow (a : Word) : (asidLow a).toNat = a.toNat % 2 ^ asidLowBits :=
  toNat_and_mask a (by decide)

variable {a : Word}

theorem asid_ext {b : Word} (hh : asidHigh a = asidHigh b) (hl : asidLow a = asidLow b) : a = b := by
  apply BitVec.eq_of_toNat_eq
  have hh' := congrArg BitVec.toNat hh
  have hl' := congrArg BitVec.toNat hl
  rw [toNat_asidHigh, toNat_asidHigh] at hh'
  rw [toNat_asidLow, toNat_asidLow] at hl'
  rw [← Nat.div_add_mod a.toNat (2 ^ asidLowBits), hh', hl', Nat.div_add_mod]

/-- An entry of the pool with base `base`. -/
theorem asid_of_entry {base : Word} (hb : asidLow base = 0) {i : Nat} (hi : i < 2 ^ asidLowBits) :
    asidHigh (base + BitVec.ofNat 64 i) = asidHigh base ∧
      asidLow (base + BitVec.ofNat 64 i) = BitVec.ofNat 64 i := by
  have h9 : 2 ^ asidLowBits = 512 := rfl
  have hb' : base.toNat % 512 = 0 := by
    have := congrArg BitVec.toNat hb
    rwa [toNat_asidLow, h9] at this
  have hi64 : (BitVec.ofNat 64 i).toNat = i := by
    rw [BitVec.toNat_ofNat, Nat.mod_eq_of_lt (by omega)]
  have hsum : (base + BitVec.ofNat 64 i).toNat = base.toNat + i := by
    rw [BitVec.toNat_add, hi64, Nat.mod_eq_of_lt (by omega)]
  constructor <;> apply BitVec.eq_of_toNat_eq
  · rw [toNat_asidHigh, toNat_asidHigh, h9]
    omega
  · rw [toNat_asidLow, h9]
    omega

/-- Every ASID of a pool is one of its entries. -/
theorem asid_eq_entry {base : Word} (hb : asidLow base = 0) (ha : asidHigh a = asidHigh base) :
    ∃ i < 2 ^ asidLowBits, a = base + BitVec.ofNat 64 i := by
  have hlt : (asidLow a).toNat < 2 ^ asidLowBits := by
    rw [toNat_asidLow]
    exact Nat.mod_lt _ (by decide)
  obtain ⟨hh, hl⟩ := asid_of_entry hb hlt
  refine ⟨(asidLow a).toNat, hlt, asid_ext (ha.trans hh.symm) ?_⟩
  rw [hl, BitVec.ofNat_toNat, BitVec.setWidth_eq]

/-! ## The log of the TLB -/

/-- The address space at `r` with ASID `a` used the VMID after it was last invalidated. -/
def Recent (hw : HwAsid) (a r : Word) : List TlbEvent → Prop
  | [] => False
  | .use a' r' hw' :: l => (a' = a ∧ r' = r ∧ hw' = hw) ∨ Recent hw a r l
  | .invalidateASID hw' :: l => hw' ≠ hw ∧ Recent hw a r l
  | .invalidateSingle _ :: l => Recent hw a r l

/-- Whenever a VMID was used, no other address space had used it since it was last invalidated. -/
def Flushed : List TlbEvent → Prop
  | [] => True
  | .use b r' hw :: l => (∀ a r, Recent hw a r l → a = b ∧ r = r') ∧ Flushed l
  | _ :: l => Flushed l

theorem recent_of_append {hw : HwAsid} {r : Word} {l1 l2 : List TlbEvent}
    (h : TlbEvent.invalidateASID hw ∉ l2) : Recent hw a r (l2 ++ .use a r hw :: l1) := by
  induction l2 with
  | nil => exact .inl ⟨rfl, rfl, rfl⟩
  | cons e l2 ih =>
    have ih' := ih fun hm => h (.tail e hm)
    cases e with
    | use => exact .inr ih'
    | invalidateASID hw' => exact ⟨fun he => h (he ▸ (.head _)), ih'⟩
    | invalidateSingle => exact ih'

/-- Between the uses of a VMID by two address spaces it was invalidated. -/
theorem Flushed.invalidated {l l1 l2 l3 : List TlbEvent} (h : Flushed l) {hw : HwAsid} {r b r' : Word}
    (hl : l = l3 ++ .use b r' hw :: (l2 ++ .use a r hw :: l1)) (hne : ¬ (a = b ∧ r = r')) :
    .invalidateASID hw ∈ l2 := by
  subst hl
  induction l3 with
  | nil =>
    by_contra hn
    exact hne (h.1 a r (recent_of_append hn))
  | cons e l3 ih =>
    cases e with
    | use => exact ih h.2
    | invalidateASID => exact ih h
    | invalidateSingle => exact ih h

/-- An entry that holds no VMID. -/
def AsidMap.Free : AsidMap → Prop
  | .vspace _ _ true => False
  | _ => True

namespace AsidState

/-! ## One entry -/

/-- No pool is installed twice. -/
def Unaliased (s : AsidState) : Prop := ∀ i j, s.asidTable i = s.asidTable j → s.asidTable i ≠ 0 → i = j

variable {s : AsidState} {b r : Word} {m : AsidMap} {hw hw' : HwAsid}

theorem findMap_of_null (h : s.getPoolPtr a = 0) : s.findMapForASID a = .none := if_pos h

theorem findMap_of_pool {p : Word} (h : s.getPoolPtr a = p) (hp : p ≠ 0) :
    s.findMapForASID a = s.pools p (asidLow a) := by
  subst h
  exact if_neg hp

theorem findMap_congr {s' : AsidState} (hptr : s'.getPoolPtr a = s.getPoolPtr a)
    (hpool : s.getPoolPtr a ≠ 0 → s'.pools (s.getPoolPtr a) = s.pools (s.getPoolPtr a)) :
    s'.findMapForASID a = s.findMapForASID a := by
  by_cases h0 : s.getPoolPtr a = 0
  · rw [findMap_of_null h0, findMap_of_null (hptr.trans h0)]
  · rw [findMap_of_pool rfl h0, findMap_of_pool hptr h0, hpool h0]

/-- A pool that is in no slot of the table goes into one, or none does. -/
theorem Unaliased.setPoolPtr {i p : Word} (h : s.Unaliased) (hp : p ≠ 0 → ∀ j, s.asidTable j ≠ p) :
    (s.setPoolPtr i p).Unaliased := by
  intro j k hjk hj
  unfold AsidState.setPoolPtr at hjk hj
  dsimp only at hjk hj
  by_cases hji : j = i <;> by_cases hki : k = i
  · rw [hji, hki]
  · rw [hji, update_self] at hj hjk
    rw [update_of_ne hki] at hjk
    exact absurd hjk.symm (hp hj k)
  · rw [update_of_ne hji] at hj hjk
    rw [hki, update_self] at hjk
    exact absurd hjk (hp (hjk ▸ hj) j)
  · rw [update_of_ne hji] at hj hjk
    rw [update_of_ne hki] at hjk
    exact h j k hjk hj

theorem findMap_set (hs : s.Unaliased) (hp : s.getPoolPtr a ≠ 0) (b : Word) :
    (s.setASIDMap a m).findMapForASID b = if b = a then m else s.findMapForASID b := by
  by_cases hb0 : s.getPoolPtr b = 0
  · have hne : b ≠ a := fun he => hp (he ▸ hb0)
    rw [if_neg hne, findMap_of_null hb0]
    exact findMap_of_null hb0
  · refine (findMap_of_pool (s := s.setASIDMap a m) rfl hb0).trans ?_
    rw [findMap_of_pool rfl hb0]
    show update s.pools (s.getPoolPtr a)
      (update (s.pools (s.getPoolPtr a)) (asidLow a) m) (s.getPoolPtr b) (asidLow b) = _
    by_cases hpool : s.getPoolPtr b = s.getPoolPtr a
    · have hhigh : asidHigh b = asidHigh a := hs _ _ hpool hb0
      rw [hpool, update_self, update_apply]
      by_cases hlow : asidLow b = asidLow a
      · rw [if_pos hlow, if_pos (asid_ext hhigh hlow)]
      · rw [if_neg hlow, if_neg fun he : b = a => hlow (he ▸ rfl)]
    · rw [update_of_ne hpool, if_neg fun he : b = a => hpool (he ▸ rfl)]

variable {v : Bool}

theorem pool_of_map {root : Word} (h : s.findMapForASID a = .vspace root hw v) : s.getPoolPtr a ≠ 0 := by
  intro h0
  rw [findMap_of_null h0] at h
  cases h

theorem map_ne (h : s.findMapForASID a = .vspace r hw true) (hm : (s.findMapForASID b).Free) : a ≠ b := by
  rintro rfl
  rw [h] at hm
  exact hm

/-- **The two tables are inverse to each other**, and what the log says is true. -/
structure VmidInv (s : AsidState) : Prop where
  unaliased : s.Unaliased
  /-- ASID 0 is never assigned; it marks a free VMID. -/
  zero : s.findMapForASID asidInvalid = .none
  table : ∀ hw a, a ≠ asidInvalid → (s.hwAsidTable hw = a ↔ ∃ r, s.findMapForASID a = .vspace r hw true)
  recent : ∀ hw a r, Recent hw a r s.tlb → s.findMapForASID a = .vspace r hw true
  flushed : Flushed s.tlb

section

variable (h : s.VmidInv)
include h

theorem VmidInv.ne_zero {root : Word} (hm : s.findMapForASID a = .vspace root hw v) : a ≠ asidInvalid := by
  rintro rfl
  rw [h.zero] at hm
  cases hm

/-- A VMID has one owner. -/
theorem VmidInv.owner {r' : Word} (ha : s.findMapForASID a = .vspace r hw true)
    (hb : s.findMapForASID b = .vspace r' hw true) : a = b :=
  ((h.table hw a (h.ne_zero ha)).mpr ⟨r, ha⟩).symm.trans ((h.table hw b (h.ne_zero hb)).mpr ⟨r', hb⟩)

theorem VmidInv.tellFlush (hw : HwAsid) : (s.tell (.invalidateASID hw)).VmidInv :=
  ⟨h.unaliased, h.zero, h.table, fun hw' a r hr => h.recent hw' a r hr.2, h.flushed⟩

theorem VmidInv.tellUse (hm : s.findMapForASID a = .vspace r hw true) : (s.tell (.use a r hw)).VmidInv := by
  refine ⟨h.unaliased, h.zero, h.table, fun hw' b r' hr => ?_, fun b r' hr => ?_, h.flushed⟩
  · rcases hr with ⟨rfl, rfl, rfl⟩ | hr
    · exact hm
    · exact h.recent hw' b r' hr
  · have hb := h.recent hw b r' hr
    obtain rfl := h.owner hb hm
    rw [hb] at hm
    injection hm with hroot
    exact ⟨rfl, hroot⟩

/-- One entry changes, and the table of VMIDs with it. Nobody has used the old VMID of the entry since it
was invalidated. -/
theorem VmidInv.setEntry {table : HwAsid → Word} (ha : a ≠ asidInvalid) (hp : s.getPoolPtr a ≠ 0)
    (hlog : ∀ hw b r, Recent hw b r s.tlb → b ≠ a) (hself : ∀ hw, table hw = a ↔ ∃ r, m = .vspace r hw true)
    (hother : ∀ hw b, b ≠ asidInvalid → b ≠ a → (table hw = b ↔ s.hwAsidTable hw = b)) :
    VmidInv { s.setASIDMap a m with hwAsidTable := table } := by
  have hset := findMap_set (m := m) h.unaliased hp
  refine ⟨h.unaliased, (hset asidInvalid).trans ((if_neg ha.symm).trans h.zero), fun hw b hb => ?_,
    fun hw b r hr => (hset b).trans ((if_neg (hlog hw b r hr)).trans (h.recent hw b r hr)), h.flushed⟩
  show table hw = b ↔ ∃ r, (s.setASIDMap a m).findMapForASID b = .vspace r hw true
  rw [hset b]
  split_ifs with hba
  · rw [hba]
    exact hself hw
  · rw [hother hw b hb hba]
    exact h.table hw b hb

/-- The owner of a VMID loses it. Nobody has used it since it was invalidated. -/
theorem VmidInv.revoke (hm : s.findMapForASID a = .vspace r hw true) (hf : m.Free)
    (hlog : ∀ b r', ¬ Recent hw b r' s.tlb) :
    ((s.setASIDMap a m).setHwAsid hw asidInvalid).VmidInv := by
  have ha0 := h.ne_zero hm
  have hown : ∀ hw', s.hwAsidTable hw' = a → hw' = hw := by
    intro hw' ht
    obtain ⟨r1, hr1⟩ := (h.table hw' a ha0).mp ht
    rw [hm] at hr1
    injection hr1 with _ he
    exact he.symm
  refine h.setEntry ha0 (pool_of_map hm) (fun hw' b r' hr => ?_) (fun hw' => iff_of_false ?_ ?_)
    fun hw' b hb hba => ?_
  · rintro rfl
    have hhw := hown hw' ((h.table hw' b ha0).mpr ⟨r', h.recent hw' b r' hr⟩)
    exact hlog b r' (hhw ▸ hr)
  · intro ht
    by_cases hhw : hw' = hw
    · rw [hhw, update_self] at ht
      exact ha0 ht.symm
    · rw [update_of_ne hhw] at ht
      exact hhw (hown hw' ht)
  · rintro ⟨r1, rfl⟩
    exact hf
  · by_cases hhw : hw' = hw
    · rw [hhw, update_self, (h.table hw a ha0).mpr ⟨r, hm⟩]
      exact iff_of_false hb.symm (Ne.symm hba)
    · exact iff_of_eq (congrArg (· = b) (update_of_ne hhw _ _))

/-- An entry that holds no VMID changes to another that holds none. -/
theorem VmidInv.setFree (ha : a ≠ asidInvalid) (hp : s.getPoolPtr a ≠ 0)
    (hold : (s.findMapForASID a).Free) (hf : m.Free) : (s.setASIDMap a m).VmidInv := by
  refine h.setEntry ha hp (fun hw b r hr => map_ne (h.recent hw b r hr) hold)
    (fun hw => iff_of_false ?_ ?_) fun _ _ _ _ => .rfl
  · intro ht
    obtain ⟨r1, hr1⟩ := (h.table hw a ha).mp ht
    exact map_ne hr1 hold rfl
  · rintro ⟨r1, rfl⟩
    exact hf

/-- A free VMID is given to an entry that holds none. -/
theorem VmidInv.store (hm : s.findMapForASID a = .vspace r hw' false)
    (hfree : s.hwAsidTable hw = asidInvalid) :
    ((s.setASIDMap a (.vspace r hw true)).setHwAsid hw a).VmidInv := by
  have ha0 := h.ne_zero hm
  have hold : (s.findMapForASID a).Free := by
    rw [hm]
    trivial
  refine h.setEntry ha0 (pool_of_map hm) (fun hw b r hr => map_ne (h.recent hw b r hr) hold)
    (fun hw1 => ?_) fun hw1 b hb hba => ?_
  · by_cases hhw : hw1 = hw
    · rw [hhw, update_self]
      exact ⟨fun _ => ⟨r, rfl⟩, fun _ => rfl⟩
    · rw [update_of_ne hhw]
      refine iff_of_false (fun ht => ?_) ?_
      · obtain ⟨r1, hr1⟩ := (h.table hw1 a ha0).mp ht
        exact map_ne hr1 hold rfl
      · rintro ⟨r1, hr1⟩
        injection hr1 with _ he
        exact hhw he.symm
  · by_cases hhw : hw1 = hw
    · rw [hhw, update_self, hfree]
      exact iff_of_false (Ne.symm hba) hb.symm
    · exact iff_of_eq (congrArg (· = b) (update_of_ne hhw _ _))

end

/-! ## The functions -/

theorem invalidateASID_eq (hm : s.findMapForASID a = .vspace r hw v) :
    s.invalidateASID a = .ok (s.setASIDMap a (.vspace r 0 false)) := by
  unfold invalidateASID
  rw [hm]

section

variable (h : s.VmidInv)
include h

/-- `findFreeHWASID` gives a VMID that is free, and takes it from its owner first if it has to. -/
theorem VmidInv.findFreeHWASID :
    ∃ hw s', s.findFreeHWASID = .ok (hw, s') ∧ s'.VmidInv ∧ s'.hwAsidTable hw = asidInvalid ∧
      ∀ b r v hw1, s.findMapForASID b = .vspace r hw1 v →
        ∃ hw2 v', s'.findMapForASID b = .vspace r hw2 v' ∧ (v = false → v' = false) := by
  unfold AsidState.findFreeHWASID
  cases hc : s.candidates.find? fun hw => s.hwAsidTable hw == asidInvalid with
  | some hw =>
    have hf := List.find?_some hc
    exact ⟨hw, s, rfl, h, beq_iff_eq.mp hf, fun b r v hw1 hb => ⟨hw1, v, hb, id⟩⟩
  | none =>
    -- every VMID has an owner, so the next one in turn has
    have hnext : s.hwAsidTable s.nextAsid ≠ asidInvalid := by
      have hmem : s.nextAsid ∈ s.candidates :=
        List.mem_map.mpr ⟨0, List.mem_range.mpr (by decide), BitVec.add_zero _⟩
      exact fun he => List.find?_eq_none.mp hc s.nextAsid hmem (beq_iff_eq.mpr he)
    obtain ⟨r, hm⟩ := (h.table s.nextAsid _ hnext).mp rfl
    have hrev := (h.tellFlush s.nextAsid).revoke (m := .vspace r 0 false) hm trivial
      fun b r' hr => hr.1 rfl
    refine ⟨s.nextAsid, { ((s.setASIDMap (s.hwAsidTable s.nextAsid) (.vspace r 0 false)).tell
      (.invalidateASID s.nextAsid)).setHwAsid s.nextAsid asidInvalid with nextAsid := s.nextAsid + 1 },
      ?_, ?_, ?_, ?_⟩
    · simp only [invalidateASID_eq hm, ok_bind]
      rfl
    · exact ⟨hrev.unaliased, hrev.zero, hrev.table, hrev.recent, hrev.flushed⟩
    · exact update_self ..
    · intro b r' v hw1 hb
      have hset := findMap_set (m := .vspace r 0 false) h.unaliased (pool_of_map hm) b
      split_ifs at hset with hba
      · rw [hba, hm] at hb
        injection hb with hroot _ hv
        exact ⟨0, false, hroot ▸ hset, fun _ => rfl⟩
      · rw [hb] at hset
        exact ⟨hw1, v, hset, id⟩

theorem VmidInv.getHWASID (hm : s.findMapForASID a = .vspace r hw v) :
    ∃ hw' s', s.getHWASID a = .ok (hw', s') ∧ s'.VmidInv := by
  unfold AsidState.getHWASID
  rw [hm]
  cases v with
  | true => exact ⟨hw, _, rfl, h.tellUse hm⟩
  | false =>
    obtain ⟨hw1, s1, hfind, h1, hfree, hkeep⟩ := h.findFreeHWASID
    obtain ⟨hw2, v', hm1, hv⟩ := hkeep a r false hw hm
    rw [hv rfl] at hm1
    have hst : s1.storeHWASID a hw1 = .ok ((s1.setASIDMap a (.vspace r hw1 true)).setHwAsid hw1 a) := by
      unfold storeHWASID
      rw [hm1]
    have h2 := h1.store hm1 hfree
    have hm2 : ((s1.setASIDMap a (.vspace r hw1 true)).setHwAsid hw1 a).findMapForASID a =
        .vspace r hw1 true := by
      show (s1.setASIDMap a (.vspace r hw1 true)).findMapForASID a = _
      rw [findMap_set h1.unaliased (pool_of_map hm1) a, if_pos rfl]
    exact ⟨hw1, _, by simp only [hfind, ok_bind, hst], h2.tellUse hm2⟩

theorem VmidInv.setVMRoot (threadRoot : Option (Word × Word)) :
    ∃ s', s.setVMRoot true threadRoot = .ok s' ∧ s'.VmidInv := by
  unfold AsidState.setVMRoot
  match threadRoot with
  | none => exact ⟨s, rfl, h⟩
  | some (root, asid) =>
    dsimp only
    cases hm : s.findMapForASID asid with
    | none => exact ⟨s, rfl, h⟩
    | vspace root' hw v =>
      dsimp only
      split_ifs with hr
      · obtain ⟨hw', s', hget, h'⟩ := h.getHWASID hm
        exact ⟨s', by simp only [hget, ok_bind], h'⟩
      · exact ⟨s, rfl, h⟩

/-- An entry is invalidated: its VMID is flushed and free, and every other entry is as before. -/
theorem VmidInv.retireASID (hm : s.findMapForASID a = .vspace r hw v) :
    ∃ s', s.retireASID true a = .ok s' ∧ s'.VmidInv ∧ s'.asidTable = s.asidTable ∧
      ∀ b, s'.findMapForASID b = if b = a then .vspace r 0 false else s.findMapForASID b := by
  have hset := findMap_set (m := .vspace r 0 false) h.unaliased (pool_of_map hm)
  cases v with
  | true =>
    have hrev := (h.tellFlush hw).revoke (m := .vspace r 0 false) hm trivial fun b r' hr => hr.1 rfl
    refine ⟨_, ?_, hrev, rfl, hset⟩
    have htlb : s.invalidateTLBByASID true a = .ok (s.tell (.invalidateASID hw)) := by
      unfold invalidateTLBByASID
      rw [hm]
      rfl
    have hentry : (s.tell (.invalidateASID hw)).invalidateASIDEntry a =
        .ok (((s.tell (.invalidateASID hw)).setASIDMap a (.vspace r 0 false)).setHwAsid hw asidInvalid) := by
      have hm' : (s.tell (.invalidateASID hw)).findMapForASID a = .vspace r hw true := hm
      unfold invalidateASIDEntry
      rw [hm']
      exact invalidateASID_eq hm
    unfold retireASID
    simp only [htlb, ok_bind, if_true, hentry]
  | false =>
    have hfree := h.setFree (m := .vspace r 0 false) (h.ne_zero hm) (pool_of_map hm)
      (by rw [hm]; trivial) trivial
    refine ⟨_, ?_, hfree, rfl, hset⟩
    have htlb : s.invalidateTLBByASID true a = .ok s := by
      unfold invalidateTLBByASID
      rw [hm]
      rfl
    have hentry : s.invalidateASIDEntry a = .ok (s.setASIDMap a (.vspace r 0 false)) := by
      unfold invalidateASIDEntry
      rw [hm]
      exact invalidateASID_eq hm
    unfold retireASID
    simp only [htlb, ok_bind, if_true, hentry]

theorem VmidInv.deleteASID (asid vspace : Word) (threadRoot : Option (Word × Word)) :
    ∃ s', s.deleteASID true asid vspace threadRoot = .ok s' ∧ s'.VmidInv := by
  unfold AsidState.deleteASID
  cases hm : s.findMapForASID asid with
  | none => exact ⟨s, rfl, h⟩
  | vspace root hw v =>
    dsimp only
    split_ifs with hr
    · obtain ⟨s1, hret, h1, htab, hmap⟩ := h.retireASID hm
      have hm1 : s1.findMapForASID asid = .vspace root 0 false := by rw [hmap asid, if_pos rfl]
      have h2 := h1.setFree (m := .none) (h.ne_zero hm) (pool_of_map hm1) (by rw [hm1]; trivial) trivial
      obtain ⟨s', hset, h'⟩ := h2.setVMRoot threadRoot
      exact ⟨s', by simp only [hret, ok_bind, hset], h'⟩
    · exact ⟨s, rfl, h⟩

/-- A pool all of whose entries hold no VMID is taken out of the table. -/
theorem VmidInv.dropPool {i : Word} (hfree : ∀ a, asidHigh a = i → (s.findMapForASID a).Free) :
    (s.setPoolPtr i 0).VmidInv := by
  have hmap : ∀ a, (s.setPoolPtr i 0).findMapForASID a =
      if asidHigh a = i then .none else s.findMapForASID a := by
    intro a
    split_ifs with ha
    · refine findMap_of_null ?_
      show update s.asidTable i 0 (asidHigh a) = 0
      rw [ha, update_self]
    · have hptr : (s.setPoolPtr i 0).getPoolPtr a = s.getPoolPtr a := update_of_ne ha ..
      exact findMap_congr hptr fun _ => rfl
  refine ⟨h.unaliased.setPoolPtr fun h0 => absurd rfl h0, ?_, fun hw a ha => ?_, fun hw a r hr => ?_, h.flushed⟩
  · rw [hmap]
    split_ifs
    · rfl
    · exact h.zero
  · rw [hmap]
    refine (h.table hw a ha).trans ?_
    split_ifs with hai
    · exact ⟨fun ⟨r, hr⟩ => absurd rfl (map_ne hr (hfree a hai)), fun ⟨_, hr⟩ => absurd hr nofun⟩
    · rfl
  · have hm := h.recent hw a r hr
    rw [hmap, if_neg fun hai => absurd rfl (map_ne hm (hfree a hai))]
    exact hm

end

section DeletePool

variable {base pool : Word}

/-- One round of the loop of `deleteASIDPool` leaves the entries before `offset` without a VMID. -/
theorem VmidInv.deletePoolEntry (h : s.VmidInv) (hb : asidLow base = 0) (hp : s.getPoolPtr base = pool)
    (hp0 : pool ≠ 0) {k : Nat} (hk : k < 2 ^ asidLowBits)
    (hdone : ∀ i < k, (s.findMapForASID (base + BitVec.ofNat 64 i)).Free) :
    ∃ s', AsidState.deletePoolEntry true base pool s k = .ok s' ∧ s'.VmidInv ∧
      s'.getPoolPtr base = pool ∧ ∀ i < k + 1, (s'.findMapForASID (base + BitVec.ofNat 64 i)).Free := by
  obtain ⟨hhigh, hlow⟩ := asid_of_entry hb hk
  have hentry : s.findMapForASID (base + .ofNat 64 k) = s.pools pool (.ofNat 64 k) := by
    have hptr : s.getPoolPtr (base + .ofNat 64 k) = pool := by
      unfold getPoolPtr
      rw [hhigh]
      exact hp
    rw [findMap_of_pool hptr hp0, hlow]
  have hsplit : ∀ i, i < k + 1 → i < k ∨ i = k := fun i hi => Nat.lt_or_eq_of_le (Nat.le_of_lt_succ hi)
  unfold AsidState.deletePoolEntry
  cases hm : s.pools pool (BitVec.ofNat 64 k) with
  | none =>
    refine ⟨s, rfl, h, hp, fun i hi => ?_⟩
    rcases hsplit i hi with hlt | rfl
    · exact hdone i hlt
    · rw [hentry, hm]
      trivial
  | vspace root hw v =>
    obtain ⟨s', hret, h', htab, hmap⟩ := h.retireASID (hentry.trans hm)
    refine ⟨s', hret, h', ?_, fun i hi => ?_⟩
    · unfold getPoolPtr
      rw [htab]
      exact hp
    · rw [hmap]
      split_ifs with he
      · trivial
      · rcases hsplit i hi with hlt | rfl
        · exact hdone i hlt
        · exact absurd rfl he

theorem VmidInv.deletePoolLoop (h : s.VmidInv) (hb : asidLow base = 0) (hp : s.getPoolPtr base = pool)
    (hp0 : pool ≠ 0) {k : Nat} (hk : k ≤ 2 ^ asidLowBits) :
    ∃ s', (List.range k).foldlM (AsidState.deletePoolEntry true base pool) s = .ok s' ∧ s'.VmidInv ∧
      s'.getPoolPtr base = pool ∧ ∀ i < k, (s'.findMapForASID (base + BitVec.ofNat 64 i)).Free := by
  induction k with
  | zero => exact ⟨s, rfl, h, hp, fun i hi => absurd hi (Nat.not_lt_zero i)⟩
  | succ k ih =>
    obtain ⟨s1, hrun, h1, hp1, hdone⟩ := ih (Nat.le_of_succ_le hk)
    obtain ⟨s', hstep, h', hp', hdone'⟩ := h1.deletePoolEntry hb hp1 hp0 hk hdone
    refine ⟨s', ?_, h', hp', hdone'⟩
    rw [List.range_succ, List.foldlM_append, hrun]
    simp only [ok_bind, List.foldlM_cons, hstep, List.foldlM_nil, pure_eq_ok]

theorem VmidInv.deleteASIDPool (h : s.VmidInv) (hb : base &&& mask asidLowBits = 0) (hp0 : pool ≠ 0)
    (threadRoot : Option (Word × Word)) :
    ∃ s', s.deleteASIDPool true base pool threadRoot = .ok s' ∧ s'.VmidInv := by
  unfold AsidState.deleteASIDPool
  rw [require_ok (beq_iff_eq.mpr hb)]
  split_ifs with hp
  · obtain ⟨s1, hloop, h1, -, hdone⟩ := h.deletePoolLoop hb hp hp0 (Nat.le_refl _)
    have hdrop := h1.dropPool fun a ha => by
      obtain ⟨i, hi, rfl⟩ := asid_eq_entry hb ha
      exact hdone i hi
    obtain ⟨s', hset, h'⟩ := hdrop.setVMRoot threadRoot
    exact ⟨s', by simp only [hloop, ok_bind, hset], h'⟩
  · exact ⟨s, rfl, h⟩

end DeletePool

variable {pool : Word}

theorem VmidInv.assignASID (h : s.VmidInv) {base : Word} (hb : asidLow base = 0) (root : Word) :
    (s.assignASID base pool root).VmidInv := by
  unfold AsidState.assignASID
  split_ifs with hp
  · exact h
  · obtain ⟨hp0, hpool⟩ := not_or.mp hp
    rw [not_not] at hpool
    cases hf : s.findFreeASID base pool with
    | none => exact h
    | some asid =>
      obtain ⟨i, hfind, rfl⟩ := Option.map_eq_some_iff.mp hf
      have hi := List.mem_range.mp (List.mem_of_find?_eq_some hfind)
      obtain ⟨hhigh, hlow⟩ := asid_of_entry hb hi
      have hcond := List.find?_some hfind
      rw [Bool.and_eq_true, bne_iff_ne, beq_iff_eq] at hcond
      have hptr : s.getPoolPtr (base + BitVec.ofNat 64 i) = pool := by
        unfold getPoolPtr
        rw [hhigh]
        exact hpool
      refine h.setFree hcond.1 (hptr ▸ hpool ▸ hp0) ?_ trivial
      rw [findMap_of_pool hptr (hpool ▸ hp0), hlow, hcond.2]
      trivial

theorem VmidInv.makePool (h : s.VmidInv) {frame : Word} (hf : frame ≠ 0)
    (hnew : ∀ i, s.asidTable i ≠ frame) : (s.makePool frame).VmidInv := by
  unfold AsidState.makePool
  cases hfind : s.findFreePool with
  | none => exact h
  | some i =>
    obtain ⟨k, hk, rfl⟩ := Option.map_eq_some_iff.mp hfind
    have hfree := List.find?_some hk
    rw [beq_iff_eq] at hfree
    generalize (.ofNat 64 k : Word) = i at hfree
    have hptr : ∀ a, ((s.clearPool frame).setPoolPtr i frame).getPoolPtr a =
        if asidHigh a = i then frame else s.getPoolPtr a := fun a => update_apply ..
    -- the entries of the new pool were empty before, because there was no pool, and are empty now
    have hmap : ∀ a, ((s.clearPool frame).setPoolPtr i frame).findMapForASID a = s.findMapForASID a := by
      intro a
      by_cases ha : asidHigh a = i
      · have hold : s.getPoolPtr a = 0 := by
          unfold getPoolPtr
          rw [ha, hfree]
        rw [findMap_of_null hold, findMap_of_pool ((hptr a).trans (if_pos ha)) hf]
        show update s.pools frame (fun _ => .none) frame (asidLow a) = .none
        rw [update_self]
      · exact findMap_congr ((hptr a).trans (if_neg ha)) fun _ => update_of_ne (hnew _) _ _
    have hclear : (s.clearPool frame).Unaliased := h.unaliased
    refine ⟨hclear.setPoolPtr fun _ => hnew, (hmap _).trans h.zero, fun hw a ha => ?_, fun hw a r hr => ?_,
      h.flushed⟩
    · rw [hmap]
      exact h.table hw a ha
    · rw [hmap]
      exact h.recent hw a r hr

theorem boot_asidTable (pool root i : Word) :
    (boot pool root).asidTable i = if i = asidHigh itAsid then pool else 0 := by
  unfold boot
  dsimp only
  rw [update_apply]

theorem findMap_boot (hp : pool ≠ 0) (root a : Word) :
    (boot pool root).findMapForASID a = if a = itAsid then .vspace root 0 false else .none := by
  have hptr := boot_asidTable pool root (asidHigh a)
  split_ifs at hptr with ha
  · rw [findMap_of_pool hptr hp]
    unfold boot
    dsimp only
    rw [update_self, update_apply]
    by_cases hl : asidLow a = asidLow itAsid
    · rw [if_pos hl, if_pos (asid_ext ha hl)]
    · rw [if_neg hl, if_neg fun he : a = itAsid => hl (he ▸ rfl)]
  · rw [if_neg fun he : a = itAsid => ha (he ▸ rfl), findMap_of_null hptr]

theorem vmidInv_boot (hp : pool ≠ 0) (root : Word) : (boot pool root).VmidInv := by
  have hempty : AsidState.Unaliased { boot pool root with asidTable := fun _ => 0 } :=
    fun _ _ _ h0 => absurd rfl h0
  refine ⟨hempty.setPoolPtr fun _ _ => hp.symm, ?_, fun hw a ha => ?_, fun hw a r hr => absurd hr id, trivial⟩
  · rw [findMap_boot hp, if_neg (by decide)]
  · refine ⟨fun he => absurd he.symm ha, fun ⟨r, hr⟩ => ?_⟩
    rw [findMap_boot hp] at hr
    split_ifs at hr
    cases hr

end AsidState

/-! ## Runs -/

/-- The operations on the ASID tables, with the root of the current thread where `setVMRoot` is
called. -/
inductive AsidOp
  | getHWASID (asid : Word)
  | assign (base pool vspaceRoot : Word)
  | makePool (frame : Word)
  | deleteASID (asid vspace : Word) (threadRoot : Option (Word × Word))
  | deleteASIDPool (base pool : Word) (threadRoot : Option (Word × Word))

namespace AsidOp

/-- What an operation does, with hypervisor support. -/
def run : AsidOp → AsidState → Checked AsidState
  | getHWASID asid, s => do
    let (_, s) ← s.getHWASID asid
    .ok s
  | assign base pool vspaceRoot, s => .ok (s.assignASID base pool vspaceRoot)
  | makePool frame, s => .ok (s.makePool frame)
  | deleteASID asid vspace threadRoot, s => s.deleteASID true asid vspace threadRoot
  | deleteASIDPool base pool threadRoot, s => s.deleteASIDPool true base pool threadRoot

/-- When an operation is called: `getHWASID` for an ASID with an address space, the operations on pools
with the base of a pool capability, and a new pool is made of memory that is not a pool already. -/
def Called (s : AsidState) : AsidOp → Prop
  | getHWASID asid => ∃ root hw valid, s.findMapForASID asid = .vspace root hw valid
  | assign base _ _ => asidLow base = 0
  | makePool frame => frame ≠ 0 ∧ ∀ i, s.asidTable i ≠ frame
  | deleteASID .. => True
  | deleteASIDPool base pool _ => asidLow base = 0 ∧ pool ≠ 0

/-- **One operation** returns and keeps the invariant. -/
theorem run_inv {s : AsidState} (h : s.VmidInv) {op : AsidOp} (hc : op.Called s) :
    ∃ s', op.run s = .ok s' ∧ s'.VmidInv := by
  cases op with
  | getHWASID asid =>
    obtain ⟨root, hw, valid, hm⟩ := hc
    obtain ⟨hw', s', hget, h'⟩ := h.getHWASID hm
    exact ⟨s', by simp only [run, hget, ok_bind], h'⟩
  | assign base pool root => exact ⟨_, rfl, h.assignASID hc root⟩
  | makePool frame => exact ⟨_, rfl, h.makePool hc.1 hc.2⟩
  | deleteASID asid vspace threadRoot => exact h.deleteASID asid vspace threadRoot
  | deleteASIDPool base pool threadRoot => exact h.deleteASIDPool hc.1 hc.2 threadRoot

end AsidOp

/-- The states after any sequence of operations from the boot state. -/
inductive AsidReach : AsidState → Prop
  | boot {pool : Word} (hp : pool ≠ 0) (vspaceRoot : Word) : AsidReach (.boot pool vspaceRoot)
  | step {s s' : AsidState} {op : AsidOp} : AsidReach s → op.Called s → op.run s = .ok s' → AsidReach s'

theorem AsidReach.inv {s : AsidState} (h : AsidReach s) : s.VmidInv := by
  induction h with
  | boot hp root => exact AsidState.vmidInv_boot hp root
  | step _ hc hr ih =>
    obtain ⟨s', hr', h'⟩ := AsidOp.run_inv ih hc
    rw [hr] at hr'
    exact Except.ok.inj hr' ▸ h'

/-- **The VMID table is consistent** after every sequence of operations:
* a VMID's entry in `armKSHWASIDTable` is an ASID if and only if the ASID's entry is an address space
  with this VMID, marked valid;
* no two ASIDs hold the same VMID;
* between the uses of a VMID by two address spaces, be it for two ASIDs or for one ASID that was deleted
  and assigned again, the VMID was invalidated in the TLB;
* no operation fails. -/
theorem vmid_table_consistent {s : AsidState} (h : AsidReach s) : (∀ hw a, a ≠ asidInvalid →
      (s.hwAsidTable hw = a ↔ ∃ root, s.findMapForASID a = .vspace root hw true)) ∧
    (∀ a b hw root root', s.findMapForASID a = .vspace root hw true →
      s.findMapForASID b = .vspace root' hw true → a = b) ∧ (∀ hw a root b root' later between earlier,
      s.tlb = later ++ .use b root' hw :: (between ++ .use a root hw :: earlier) →
      ¬ (a = b ∧ root = root') → .invalidateASID hw ∈ between) ∧
    ∀ op : AsidOp, op.Called s → ∃ s', op.run s = .ok s' := by
  have hi := h.inv
  refine ⟨hi.table, fun a b hw root root' ha hb => hi.owner ha hb, ?_, fun op hc => ?_⟩
  · intro hw a root b root' later between earlier hl hne
    exact hi.flushed.invalidated hl hne
  · obtain ⟨s', hr, -⟩ := AsidOp.run_inv hi hc
    exact ⟨s', hr⟩

/-- The first context switch to the initial thread after boot gives it VMID 0. -/
theorem vmid_table_consistent_boot : ∃ s, AsidReach s ∧ s.hwAsidTable 0 = itAsid ∧
      ∃ root, s.findMapForASID itAsid = .vspace root 0 true := by
  have hb : AsidReach (.boot 0x1000 0x2000) := .boot (by decide) 0x2000
  have hm : (AsidState.boot 0x1000 0x2000).findMapForASID itAsid = .vspace 0x2000 0 false := by decide
  have hc : (AsidOp.getHWASID itAsid).Called (.boot 0x1000 0x2000) := ⟨_, _, _, hm⟩
  obtain ⟨s, hr, -⟩ := AsidOp.run_inv hb.inv hc
  have hv : ((AsidOp.getHWASID itAsid).run (.boot 0x1000 0x2000)).toOption.map (·.hwAsidTable 0) =
      some itAsid := by decide +kernel
  rw [hr] at hv
  have hs := AsidReach.step hb hc hr
  have ht : s.hwAsidTable 0 = itAsid := Option.some.inj hv
  exact ⟨s, hs, ht, ((vmid_table_consistent hs).1 0 itAsid (by decide)).mp ht⟩

end SeL4.VSpace
