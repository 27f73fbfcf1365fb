import Mathlib.Algebra.BigOperators.Ring.Finset
import Mathlib.Algebra.Order.BigOperators.Group.Finset
import SeL4.Boot.Freemem

/-!
# The layout of the root server's objects

`create_rootserver_objects` (`boot.c`) takes the objects of the root server one after the other from the
memory that `calculate_rootserver_size` asks for. No address is rounded up: an object is aligned because
no smaller one came before it, and the extra boot info is put in where that holds for its size.

`rootserver_layout` says that all objects are aligned, do not overlap and use up the memory. It needs
memory that does not wrap, and the extra boot info must not be at address 0, which is how the code tells
that it is not allocated yet (`rootserver_at_zero`).
-/

namespace SeL4.Boot

open SeL4.Lib SeL4.Object

/-- The objects in `rootserver`; `paging` is the block of all lower page tables. -/
inductive RootObj
  | cnode | vspace | extraBi | asidPool | ipcBuf | bootInfo | tcb | paging | sc
  deriving DecidableEq

instance : Fintype RootObj where
  elems := {.cnode, .vspace, .extraBi, .asidPool, .ipcBuf, .bootInfo, .tcb, .paging, .sc}
  complete o := by cases o <;> decide

/-- What the sizes of the objects depend on. -/
structure RootPlan where
  cfg : BootConfig
  itVReg : Region
  extra : Nat

namespace RootPlan

/-- An object is aligned to two to the power of its `bits`. -/
def bits (a : RootPlan) : RootObj → Nat
  | .cnode => a.cfg.cnodeSizeBits
  | .vspace => a.cfg.vspaceBits
  | .extraBi => a.extra
  | .asidPool => asidPoolBits
  | .ipcBuf => pageBits
  | .bootInfo => bootInfoFrameBits
  | .tcb => a.cfg.tcbBits
  | .paging => pageTableBits
  | .sc => minSchedContextBits.toNat

/-- How many there are of it. -/
def count (a : RootPlan) : RootObj → Word
  | .extraBi => if 0 < a.extra then 1 else 0
  | .paging => archGetNPaging a.cfg a.itVReg
  | .sc => if a.cfg.mcs then 1 else 0
  | _ => 1

def size (a : RootPlan) (o : RootObj) : Nat := (a.count o).toNat * 2 ^ a.bits o

/-- The assignment to the field of `rootserver`. -/
def store (a : RootPlan) (o : RootObj) (addr : Word) (rs : Rootserver) : Rootserver :=
  match o with
  | .cnode => { rs with cnode := addr }
  | .vspace => { rs with vspace := addr }
  | .extraBi => { rs with extraBi := addr }
  | .asidPool => { rs with asidPool := addr }
  | .ipcBuf => { rs with ipcBuf := addr }
  | .bootInfo => { rs with bootInfo := addr }
  | .tcb => { rs with tcb := addr }
  | .paging => { rs with paging := ⟨addr, addr + a.count .paging * bit pageTableBits⟩ }
  | .sc => { rs with sc := addr }

end RootPlan

def Rootserver.addr (rs : Rootserver) : RootObj → Word
  | .cnode => rs.cnode
  | .vspace => rs.vspace
  | .extraBi => rs.extraBi
  | .asidPool => rs.asidPool
  | .ipcBuf => rs.ipcBuf
  | .bootInfo => rs.bootInfo
  | .tcb => rs.tcb
  | .paging => rs.paging.start
  | .sc => rs.sc

variable {a : RootPlan} {start : Word} {done : Finset RootObj} {rs : Rootserver}

theorem addr_store (o p : RootObj) (x : Word) (m : Region) :
    (a.store o x { rs with mem := m }).addr p = if p = o then x else rs.addr p := by
  cases o <;> cases p <;> rfl

theorem mem_store (o : RootObj) (x : Word) : (a.store o x rs).mem = rs.mem := by
  cases o <;> rfl

/-- The objects do not overlap. -/
def RootPlan.Apart (a : RootPlan) (rs : Rootserver) (o p : RootObj) : Prop :=
  (rs.addr o).toNat + a.size o ≤ (rs.addr p).toNat ∨ (rs.addr p).toNat + a.size p ≤ (rs.addr o).toNat

/-- The objects of `done` are laid out from `start` on. -/
structure Laid (a : RootPlan) (start : Word) (done : Finset RootObj) (rs : Rootserver) : Prop where
  next : rs.mem.start.toNat = start.toNat + ∑ o ∈ done, a.size o
  stop : rs.mem.stop.toNat = start.toNat + ∑ o, a.size o
  below : ∀ o ∈ done, (rs.addr o).toNat + a.size o ≤ rs.mem.start.toNat
  aligned : ∀ o ∈ done, 2 ^ a.bits o ∣ (rs.addr o).toNat
  apart : ∀ o ∈ done, ∀ p ∈ done, o ≠ p → a.Apart rs o p
  extra : rs.extraBi = 0 ↔ .extraBi ∉ done

namespace Laid

variable (h : Laid a start done rs)
include h

theorem size_lt (o : RootObj) : a.size o < 2 ^ 64 := by
  have hle := Finset.single_le_sum (fun p _ => Nat.zero_le (a.size p)) (Finset.mem_univ o)
  have hlt := h.stop ▸ rs.mem.stop.isLt
  omega

theorem bits_lt {o : RootObj} (hc : a.count o = 1) : a.bits o < 64 := by
  have hlt := h.size_lt o
  rw [RootPlan.size, hc, show (1 : Word).toNat = 1 from rfl, Nat.one_mul] at hlt
  exact (Nat.pow_lt_pow_iff_right (by decide)).mp hlt

theorem start_ne_zero {o : RootObj} (ho : o ∈ done) (hc : a.count o = 1) : rs.mem.start ≠ 0 := by
  intro h0
  have hb := h.below o ho
  rw [h0, RootPlan.size, hc] at hb
  simp at hb

/-- One more object. All that came before are at least as large. -/
theorem alloc (o : RootObj) (ho : o ∉ done) (hbits : a.bits o < 64) (hs : 2 ^ a.bits o ∣ start.toNat)
    (hb : ∀ d ∈ done, a.bits o ≤ a.bits d) (h0 : o = .extraBi → rs.mem.start ≠ 0) :
    ∃ rs', allocObj (a.store o) (a.bits o) (a.count o) rs = .ok rs' ∧ Laid a start (insert o done) rs' := by
  have hsum : ∑ d ∈ insert o done, a.size d = a.size o + ∑ d ∈ done, a.size d := Finset.sum_insert ho
  have hle := Finset.sum_le_sum_of_subset (f := a.size) (Finset.subset_univ (insert o done))
  have hlt := h.stop ▸ rs.mem.stop.isLt
  have hdvd : 2 ^ a.bits o ∣ rs.mem.start.toNat := by
    rw [h.next]
    exact dvd_add hs (Finset.dvd_sum fun d hd => dvd_mul_of_dvd_right (pow_dvd_pow 2 (hb d hd)) _)
  have hnext : (rs.mem.start + a.count o * bit (a.bits o)).toNat = rs.mem.start.toNat + a.size o := by
    have hn := h.next
    rw [BitVec.toNat_add, BitVec.toNat_mul, toNat_bit hbits, ← RootPlan.size, Nat.mod_eq_of_lt (h.size_lt o),
      Nat.mod_eq_of_lt (by omega)]
  refine ⟨a.store o rs.mem.start 
    { rs with mem := ⟨rs.mem.start + a.count o * bit (a.bits o), rs.mem.stop⟩ }, ?_, ?_, ?_, ?_, ?_, ?_, ?_⟩
  · have h1 : rs.mem.start % bit (a.bits o) = 0 := by
      refine BitVec.eq_of_toNat_eq ?_
      rw [BitVec.toNat_umod, toNat_bit hbits]
      exact Nat.mod_eq_zero_of_dvd hdvd
    have h2 : rs.mem.start + a.count o * bit (a.bits o) ≤ rs.mem.stop := by
      rw [BitVec.le_def, hnext, h.stop, h.next]
      omega
    simp only [allocObj, allocRootserverObj, h1, h2, decide_true, require_ok]
    rfl
  · rw [mem_store]
    have hn := h.next
    show (rs.mem.start + a.count o * bit (a.bits o)).toNat = _
    omega
  · rw [mem_store]
    exact h.stop
  · intro p hp
    rw [mem_store, addr_store]
    split_ifs with he
    · rw [he, hnext]
    · exact (h.below p (Finset.mem_of_mem_insert_of_ne hp he)).trans (hnext ▸ Nat.le_add_right _ _)
  · intro p hp
    rw [addr_store]
    split_ifs with he
    · exact he ▸ hdvd
    · exact h.aligned p (Finset.mem_of_mem_insert_of_ne hp he)
  · intro p hp q hq hne
    unfold RootPlan.Apart
    rw [addr_store, addr_store]
    split_ifs with h1 h2 h2
    · exact absurd (h1.trans h2.symm) hne
    · exact .inr (h.below q (Finset.mem_of_mem_insert_of_ne hq h2))
    · exact .inl (h.below p (Finset.mem_of_mem_insert_of_ne hp h1))
    · exact h.apart p (Finset.mem_of_mem_insert_of_ne hp h1) q (Finset.mem_of_mem_insert_of_ne hq h2) hne
  · refine Iff.trans (Eq.congr_left (addr_store o .extraBi _ _)) ?_
    split_ifs with he
    · exact iff_of_false (h0 he.symm) fun hn => hn (he ▸ Finset.mem_insert_self o done)
    · rw [Finset.mem_insert, or_iff_right he]
      exact h.extra

/-- `maybe_alloc_extra_bi`, where the extra boot info fits if it is asked for now. -/
theorem maybe (cmp : Nat) (hcmp : 0 < cmp) (hs : 2 ^ a.extra ∣ start.toNat)
    (hb : cmp ≤ a.extra → .extraBi ∉ done → (∀ d ∈ done, a.extra ≤ a.bits d) ∧ rs.mem.start ≠ 0) :
    ∃ rs', maybeAllocExtraBi cmp a.extra rs = .ok rs' ∧
      Laid a start (if cmp ≤ a.extra then insert .extraBi done else done) rs' := by
  unfold maybeAllocExtraBi
  by_cases hle : cmp ≤ a.extra
  · by_cases hin : .extraBi ∈ done
    · rw [if_neg fun hc => h.extra.mp hc.2 hin, if_pos hle, Finset.insert_eq_of_mem hin]
      exact ⟨rs, rfl, h⟩
    · have hc : a.count .extraBi = 1 := if_pos (hcmp.trans_le hle)
      rw [if_pos ⟨hle, h.extra.mpr hin⟩, if_pos hle, ← hc]
      exact h.alloc .extraBi hin (h.bits_lt hc) hs (hb hle hin).1 fun _ => (hb hle hin).2
  · rw [if_neg fun hc => hle hc.1, if_neg hle]
    exact ⟨rs, rfl, h⟩

/-- Objects in falling size. -/
theorem foldlM {l : List RootObj} (hl : l.Pairwise fun o p => p ≠ o ∧ a.bits p ≤ a.bits o)
    (hd : ∀ o ∈ l, o ≠ .extraBi ∧ a.bits o < 64 ∧ 2 ^ a.bits o ∣ start.toNat ∧ o ∉ done ∧
      ∀ d ∈ done, a.bits o ≤ a.bits d) :
    ∃ rs', l.foldlM (fun rs o => allocObj (a.store o) (a.bits o) (a.count o) rs) rs = .ok rs' ∧
      Laid a start (done ∪ l.toFinset) rs' := by
  induction l generalizing done rs with
  | nil => exact ⟨rs, rfl, by simpa using h⟩
  | cons o l ih =>
    obtain ⟨hne, hbits, hs, ho, hb⟩ := hd o (.head _)
    obtain ⟨rs1, e1, h1⟩ := h.alloc o ho hbits hs hb fun he => absurd he hne
    obtain ⟨rs', e, h'⟩ := ih h1 (List.pairwise_cons.mp hl).2 fun p hp => by
      have hop := (List.pairwise_cons.mp hl).1 p hp
      obtain ⟨h1, h2, h3, h4, h5⟩ := hd p (.tail _ hp)
      exact ⟨h1, h2, h3, by simp [hop.1, h4], by simpa using ⟨hop.2, h5⟩⟩
    rw [List.foldlM_cons, e1, List.toFinset_cons, Finset.union_insert, ← Finset.insert_union]
    exact ⟨rs', e, h'⟩

end Laid

theorem mem_ite_insert {c : Prop} [Decidable c] {o p : RootObj} :
    o ∈ (if c then insert p done else done) ↔ o ∈ done ∨ o = p ∧ c := by
  split_ifs with hc
  · rw [Finset.mem_insert, or_comm, and_iff_left hc]
  · rw [or_iff_left fun h => hc h.2]

/-- The root CNode and the root page table in either order, `x` being the larger one, with the three places for
the extra boot info. -/
theorem laid_pair {x y : RootObj} (h : Laid a start ∅ rs) (hx : a.count x = 1) (hy : a.count y = 1)
    (hxy : x ≠ y) (hxe : x ≠ .extraBi) (hye : y ≠ .extraBi) (hle : a.bits y ≤ a.bits x)
    (hpage : pageBits ≤ a.bits y) (hs : 2 ^ max (a.bits x) a.extra ∣ start.toNat)
    (h0 : start = 0 → a.extra < a.bits x) :
    ∃ rs1 rs2 rs3 done, maybeAllocExtraBi (max (a.bits x) a.extra) a.extra rs = .ok rs1 ∧
      (do
        let rs ← allocObj (a.store x) (a.bits x) (a.count x) rs1
        let rs ← maybeAllocExtraBi (a.bits y) a.extra rs
        allocObj (a.store y) (a.bits y) (a.count y) rs) = .ok rs2 ∧
      maybeAllocExtraBi pageBits a.extra rs2 = .ok rs3 ∧ Laid a start done rs3 ∧
      ∀ o, o ∈ done ↔ o = x ∨ o = y ∨ o = .extraBi ∧ pageBits ≤ a.extra := by
  have hpos : 0 < pageBits := by decide
  have dvd : ∀ {b}, b ≤ max (a.bits x) a.extra → 2 ^ b ∣ start.toNat := fun hb => (pow_dvd_pow 2 hb).trans hs
  have hstart : rs.mem.start = start := BitVec.eq_of_toNat_eq h.next
  obtain ⟨rs1, e1, l1⟩ := h.maybe (max (a.bits x) a.extra) (by omega) (dvd (by omega)) fun hm _ =>
    ⟨by simp, fun hz => by have := h0 (hstart ▸ hz); omega⟩
  obtain ⟨rs2, e2, l2⟩ := l1.alloc x (by split_ifs <;> simp [hxe]) (h.bits_lt hx) (dvd (by omega)) (by
    split_ifs with hm
    · simp only [Finset.insert_empty, Finset.mem_singleton, forall_eq]
      exact (le_max_left _ _).trans hm
    · simp) fun he => absurd he hxe
  obtain ⟨rs3, e3, l3⟩ := l2.maybe (a.bits y) (by omega) (dvd (by omega)) fun hm hn => by
    refine ⟨fun d hd => ?_, l2.start_ne_zero (Finset.mem_insert_self x _) hx⟩
    split_ifs at hn hd with hmax <;> simp at hn hd
    rw [hd]
    omega
  obtain ⟨rs4, e4, l4⟩ := l3.alloc y (by split_ifs <;> simp [hxy.symm, hye]) (h.bits_lt hy) (dvd (by omega))
    (fun d hd => by
      split_ifs at hd <;> simp at hd <;> rcases hd with rfl | rfl
      all_goals first | exact hle | (rw [RootPlan.bits]; omega)) fun he => absurd he hye
  obtain ⟨rs5, e5, l5⟩ := l4.maybe pageBits hpos (dvd (by omega)) fun hm hn => by
    refine ⟨fun d hd => ?_, l4.start_ne_zero (Finset.mem_insert_self y _) hy⟩
    split_ifs at hn hd <;> simp at hn hd
    rcases hd with rfl | rfl <;> omega
  refine ⟨rs1, rs4, rs5, _, e1, by rw [e2, ok_bind, e3, ok_bind, e4], e5, l5, fun o => ?_⟩
  have hm : max (a.bits x) a.extra ≤ a.extra → pageBits ≤ a.extra := by omega
  have hm' : a.bits y ≤ a.extra → pageBits ≤ a.extra := hpage.trans
  simp only [mem_ite_insert, Finset.mem_insert, Finset.notMem_empty, false_or]
  by_cases he : o = .extraBi
  · simp only [he, hxe.symm, hye.symm, false_or, true_and]
    exact ⟨fun h => h.elim (fun h => h.elim hm hm') id, .inr⟩
  · simp [he, or_comm]


/-- The objects that come first. -/
theorem laid_top (h : Laid a start ∅ rs) (hcnode : pageBits ≤ a.cfg.cnodeSizeBits)
    (hs : 2 ^ rootserverMaxSizeBits a.cfg a.extra ∣ start.toNat)
    (h0 : start = 0 → a.extra < max a.cfg.cnodeSizeBits a.cfg.vspaceBits) :
    ∃ rs1 rs2 rs3 done, maybeAllocExtraBi (rootserverMaxSizeBits a.cfg a.extra) a.extra rs = .ok rs1 ∧
      allocTop a.cfg a.extra rs1 = .ok rs2 ∧ maybeAllocExtraBi pageBits a.extra rs2 = .ok rs3 ∧
      Laid a start done rs3 ∧
      ∀ o, o ∈ done ↔ o = .cnode ∨ o = .vspace ∨ o = .extraBi ∧ pageBits ≤ a.extra := by
  have hv : pageBits ≤ a.cfg.vspaceBits := by have := a.cfg.vspaceBits_cases; simp only [pageBits]; omega
  unfold rootserverMaxSizeBits at hs ⊢
  unfold allocTop
  by_cases hlt : a.cfg.vspaceBits < a.cfg.cnodeSizeBits
  · rw [max_eq_left hlt.le] at hs h0 ⊢
    simp only [if_pos hlt]
    exact laid_pair (x := .cnode) (y := .vspace) h rfl rfl nofun nofun nofun hlt.le hv hs h0
  · have hle := not_lt.mp hlt
    rw [max_eq_right hle] at hs h0 ⊢
    simp only [if_neg hlt, or_left_comm (b := _ = RootObj.vspace)]
    exact laid_pair (x := .vspace) (y := .cnode) h rfl rfl nofun nofun nofun hle hcnode hs h0

/-- The objects that come last, in the order of `create_rootserver_objects`. -/
def RootPlan.small (a : RootPlan) : List RootObj :=
  [.asidPool, .ipcBuf, .bootInfo] ++
    (if pageTableBits ≤ a.cfg.tcbBits then [.tcb, .paging] else [.paging, .tcb]) ++
    if a.cfg.mcs then [.sc] else []

theorem allocSmall_eq : allocSmall a.cfg a.itVReg rs =
    a.small.foldlM (fun rs o => allocObj (a.store o) (a.bits o) (a.count o) rs) rs := by
  unfold allocSmall RootPlan.small
  have hsc : a.cfg.mcs = true → a.count .sc = 1 := fun hm => if_pos hm
  have hok : ∀ x : Checked Rootserver, x >>= Except.ok = x := bind_pure
  by_cases ht : pageTableBits ≤ a.cfg.tcbBits <;> by_cases hm : a.cfg.mcs = true <;>
    simp [ht, hm, hsc, hok, runIf, ← not_le] <;> rfl

theorem mem_small (o : RootObj) : o ∈ a.small ↔
    o = .asidPool ∨ o = .ipcBuf ∨ o = .bootInfo ∨ o = .tcb ∨ o = .paging ∨ o = .sc ∧ a.cfg.mcs = true := by
  unfold RootPlan.small
  split_ifs with ht hm hm <;> cases o <;> simp [hm]

theorem small_pairwise : a.small.Pairwise fun o p => p ≠ o ∧ a.bits p ≤ a.bits o := by
  have hsc : a.bits .sc = 7 := rfl
  have h12 : a.bits .asidPool = 12 ∧ a.bits .ipcBuf = 12 ∧ a.bits .bootInfo = 12 ∧ a.bits .paging = 12 :=
    ⟨rfl, rfl, rfl, rfl⟩
  have htcb : a.bits .tcb = a.cfg.tcbBits := rfl
  unfold RootPlan.small
  rcases a.cfg.tcbBits_cases with ht | ht <;> split_ifs <;> simp_all [pageTableBits]

theorem bits_small {o : RootObj} (ho : o ∈ a.small) : a.bits o ≤ pageBits := by
  have ht := a.cfg.tcbBits_cases
  rcases (mem_small o).mp ho with rfl | rfl | rfl | rfl | rfl | ⟨rfl, -⟩
  · exact le_rfl
  · exact le_rfl
  · exact le_rfl
  · simp only [RootPlan.bits, pageBits]
    omega
  · exact le_rfl
  · exact Nat.le_of_ble_eq_true rfl

theorem size_eq : calculateRootserverSize a.cfg a.itVReg a.extra = BitVec.ofNat 64 (∑ o, a.size o) := by
  have hbit : ∀ b, bit b = .ofNat 64 (2 ^ b) := fun b =>
    BitVec.eq_of_toNat_eq (by simp [bit, Nat.shiftLeft_eq])
  have hsum : ∑ o, a.size o = a.size .cnode + (a.size .vspace + (a.size .extraBi + (a.size .asidPool +
      (a.size .ipcBuf + (a.size .bootInfo + (a.size .tcb + (a.size .paging + (a.size .sc + 0)))))))) := rfl
  have hsz : ∀ o, .ofNat 64 (a.size o) = a.count o * bit (a.bits o) := fun o => by
    rw [RootPlan.size, hbit, BitVec.ofNat_mul, BitVec.ofNat_toNat, BitVec.setWidth_eq]
  simp only [hsum, BitVec.ofNat_add, hsz, calculateRootserverSize, RootPlan.count, RootPlan.bits]
  split_ifs <;> simp <;> ac_rfl

/-- **The layout of the root server.** Every object is at an address aligned to its size, no two overlap, the
extra boot info is there if and only if it has a size, and the memory is used up. -/
theorem rootserver_layout (a : RootPlan) (start : Word) (rs : Rootserver) (hrs : rs.extraBi = 0)
    (hcnode : pageBits ≤ a.cfg.cnodeSizeBits) (hextra : a.extra = 0 ∨ pageBits ≤ a.extra)
    (halign : 2 ^ rootserverMaxSizeBits a.cfg a.extra ∣ start.toNat)
    (hfit : start.toNat + ∑ o, a.size o < 2 ^ 64)
    (hzero : start = 0 → a.extra < max a.cfg.cnodeSizeBits a.cfg.vspaceBits) :
    ∃ rs', createRootserverObjects a.cfg start a.itVReg a.extra rs = .ok rs' ∧
      (∀ o, a.count o ≠ 0 → 2 ^ a.bits o ∣ (rs'.addr o).toNat) ∧
      (∀ o p, a.count o ≠ 0 → a.count p ≠ 0 → o ≠ p → a.Apart rs' o p) ∧
      (rs'.extraBi ≠ 0 ↔ 0 < a.extra) ∧
      rs'.mem.start = start + calculateRootserverSize a.cfg a.itVReg a.extra := by
  have hstop : (start + calculateRootserverSize a.cfg a.itVReg a.extra).toNat = start.toNat + ∑ o, a.size o := by
    rw [size_eq, BitVec.toNat_add, BitVec.toNat_ofNat]
    omega
  have hinit : Laid a start ∅ { rs with mem := ⟨start, start + calculateRootserverSize a.cfg a.itVReg a.extra⟩ } :=
    ⟨rfl, hstop, by simp, by simp, by simp, by simp [hrs]⟩
  obtain ⟨rs1, rs2, rs3, done, e1, e2, e3, h3, hdone⟩ := laid_top hinit hcnode halign hzero
  have hpos : pageBits ≤ a.extra ↔ 0 < a.extra := by simp only [pageBits] at hextra ⊢; omega
  have hpage : ∀ d ∈ done, pageBits ≤ a.bits d := by
    have := a.cfg.vspaceBits_cases
    intro d hd
    rcases (hdone d).mp hd with rfl | rfl | ⟨rfl, he⟩
    exacts [hcnode, by simp only [RootPlan.bits, pageBits]; omega, he]
  obtain ⟨rs4, e4, h4⟩ := h3.foldlM small_pairwise fun o ho => by
    have hle := bits_small ho
    have hs := (pow_dvd_pow 2 (hle.trans (hcnode.trans (by simp [rootserverMaxSizeBits])))).trans halign
    refine ⟨?_, hle.trans_lt (by decide), hs, ?_, fun d hd => hle.trans (hpage d hd)⟩
    · rintro rfl
      simp [mem_small] at ho
    · intro hd
      rw [mem_small] at ho
      rcases (hdone o).mp hd with rfl | rfl | ⟨rfl, -⟩ <;> simp at ho
  have hmem : ∀ o, a.count o ≠ 0 → o ∈ done ∪ a.small.toFinset := by
    intro o ho
    rw [Finset.mem_union, List.mem_toFinset, mem_small]
    cases o <;> simp_all [RootPlan.count]
  have hend : rs4.mem.start = rs4.mem.stop := by
    refine BitVec.eq_of_toNat_eq ?_
    rw [h4.next, h4.stop, Finset.sum_subset (Finset.subset_univ _)]
    intro o _ ho
    rw [RootPlan.size, not_not.mp fun hc => ho (hmem o hc)]
    exact Nat.zero_mul _
  refine ⟨rs4, ?_, fun o ho => h4.aligned o (hmem o ho), fun o p ho hp => h4.apart o (hmem o ho) p (hmem p hp),
    h4.extra.not.trans ?_, ?_⟩
  · simp only [createRootserverObjects, e1, ok_bind, e2, e3, allocSmall_eq, e4, require_ok (decide_eq_true hend)]
    rfl
  · rw [Finset.mem_union, hdone, List.mem_toFinset, mem_small]
    simp [hpos]
  · exact hend.trans (BitVec.eq_of_toNat_eq (h4.stop.trans hstop.symm))

/-- `rootserver` before the boot. -/
def noRootserver : Rootserver := ⟨⟨0, 0⟩, 0, 0, 0, 0, 0, 0, 0, 0, ⟨0, 0⟩⟩

/-- The extra boot info is laid out between the root page table and the pages. -/
theorem rootserver_layout_bench : ∃ rs',
    createRootserverObjects benchBootConfig 0x40000 ⟨0, 0⟩ 12 noRootserver = .ok rs' ∧
      RootPlan.Apart ⟨benchBootConfig, ⟨0, 0⟩, 12⟩ rs' .extraBi .tcb := by
  obtain ⟨rs', h, -, hap, -⟩ := rootserver_layout ⟨benchBootConfig, ⟨0, 0⟩, 12⟩ 0x40000 noRootserver
    rfl (by decide) (.inr le_rfl) (by decide) (by decide +kernel) (by decide)
  exact ⟨rs', h, hap _ _ (by decide) (by decide) nofun⟩

/-- At address 0 the extra boot info is allocated again and the assertion on the size fails. Memory that wraps
fails at once, and a root CNode smaller than a page leaves the ASID pool unaligned. -/
theorem rootserver_at_zero :
    createRootserverObjects benchBootConfig 0 ⟨0, 0⟩ 18 noRootserver = .error .assertion ∧
    createRootserverObjects benchBootConfig (-0x80000) ⟨0, 0⟩ 18 noRootserver = .error .assertion ∧
    createRootserverObjects { benchBootConfig with rootCNodeSizeBits := 6 } 0x40000 ⟨0, 0⟩ 0 noRootserver =
      .error .assertion :=
  ⟨rfl, rfl, rfl⟩

end SeL4.Boot
