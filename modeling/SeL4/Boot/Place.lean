import SeL4.Boot.Carve
import Mathlib.Data.List.Induction

/-!
# The memory that `init_freemem` hands out

The search for room for the root server's objects, and with it the result of `init_freemem`: what
it leaves in `ndks_boot` when it returns true and no table was too short. The search moves regions
up by one entry until it finds one that is large enough, so the non-empty entries (`live`) are the
same ones, in the same order, all the way.

* `placeRootserver_spec`: one inserted region is split around the root server's objects.
* `init_freemem_exact`: the memory of the free regions and the root server.
-/

namespace SeL4.Boot

open SeL4.Lib SeL4.Object
open SeL4.Lib.Span

variable {cfg : BootConfig} {st st' : NdksBoot}

/-! ## Room for the root server -/

section Rootserver

variable {rs rs' : Rootserver}

theorem allocObj_stop {store : Word → Rootserver → Rootserver} {sizeBits : Nat} {n : Word}
    (h : allocObj store sizeBits n rs = .ok rs')
    (hstore : ∀ addr rs, (store addr rs).mem = rs.mem) : rs'.mem.stop = rs.mem.stop := by
  obtain ⟨⟨addr, rs1⟩, halloc, h⟩ := bind_eq_ok h
  obtain ⟨_, -, _, -, halloc⟩ := bind2_eq_ok halloc
  cases halloc
  cases h
  rw [hstore]

variable {extra : Nat}

theorem maybeAllocExtraBi_stop {cmp : Nat} (h : maybeAllocExtraBi cmp extra rs = .ok rs') :
    rs'.mem.stop = rs.mem.stop := by
  unfold maybeAllocExtraBi at h
  split_ifs at h
  · exact allocObj_stop h (fun _ _ => rfl)
  · cases h
    rfl

theorem allocTop_stop (h : allocTop cfg extra rs = .ok rs') : rs'.mem.stop = rs.mem.stop := by
  unfold allocTop at h
  split_ifs at h
  all_goals
    obtain ⟨rs1, h1, rs2, h2, h⟩ := bind2_eq_ok h
    rw [allocObj_stop h (fun _ _ => rfl), maybeAllocExtraBi_stop h2, allocObj_stop h1 (fun _ _ => rfl)]

theorem runIf_allocObj_stop {c : Prop} [Decidable c] {store : Word → Rootserver → Rootserver}
    {sizeBits : Nat} {n : Word} (h : runIf c (allocObj store sizeBits n) rs = .ok rs')
    (hstore : ∀ addr rs, (store addr rs).mem = rs.mem) : rs'.mem.stop = rs.mem.stop :=
  runIf_rel (R := fun a b => b.mem.stop = a.mem.stop) rfl (fun _ h => allocObj_stop h hstore) h

theorem allocSmall_stop {itVReg : Region} (h : allocSmall cfg itVReg rs = .ok rs') :
    rs'.mem.stop = rs.mem.stop := by
  obtain ⟨rs1, h1, rs2, h2, h⟩ := bind2_eq_ok h
  obtain ⟨rs3, h3, rs4, h4, h⟩ := bind2_eq_ok h
  obtain ⟨rs5, h5, rs6, h6, h⟩ := bind2_eq_ok h
  rw [runIf_allocObj_stop h (fun _ _ => rfl), runIf_allocObj_stop h6 (fun _ _ => rfl),
    allocObj_stop h5 (fun _ _ => rfl), runIf_allocObj_stop h4 (fun _ _ => rfl),
    allocObj_stop h3 (fun _ _ => rfl), allocObj_stop h2 (fun _ _ => rfl),
    allocObj_stop h1 (fun _ _ => rfl)]

/-- The bump allocator of the root server's objects ends where its memory ends. -/
theorem createRootserverObjects_mem {start : Word} {itVReg : Region}
    (h : createRootserverObjects cfg start itVReg extra rs = .ok rs') :
    rs'.mem.stop = start + calculateRootserverSize cfg itVReg extra := by
  obtain ⟨rs1, h1, rs2, h2, h⟩ := bind2_eq_ok h
  obtain ⟨rs3, h3, rs4, h4, h⟩ := bind2_eq_ok h
  obtain ⟨_, -, h⟩ := bind_eq_ok h
  cases h
  rw [allocSmall_stop h4, maybeAllocExtraBi_stop h3, allocTop_stop h2, maybeAllocExtraBi_stop h1]

end Rootserver

theorem toNat_roundDown (n : Word) (b : Nat) : (roundDown n b).toNat = n.toNat / 2 ^ b * 2 ^ b := by
  unfold roundDown
  rw [BitVec.toNat_shiftLeft, BitVec.toNat_ushiftRight, Nat.shiftRight_eq_div_pow, Nat.shiftLeft_eq]
  exact Nat.mod_eq_of_lt (Nat.lt_of_le_of_lt (Nat.div_mul_le_self _ _) n.isLt)

/-- The non-empty entries of the free list. -/
def live (freemem : List Region) : List Region := freemem.filter fun reg => !isRegEmpty reg

variable {reg : Region} {l : List Region}

theorem mem_live : reg ∈ live l ↔ reg ∈ l ∧ isRegEmpty reg = false := by
  simp [live]

theorem live_append (l l' : List Region) : live (l ++ l') = live l ++ live l' := List.filter_append l l'

theorem live_cons_of_empty (h : isRegEmpty reg = true) (l : List Region) : live (reg :: l) = live l := by
  simp [live, h]

theorem live_cons_of_not (h : isRegEmpty reg = false) (l : List Region) :
    live (reg :: l) = reg :: live l := by
  simp [live, h]

theorem live_eq_self (h : ∀ reg ∈ l, isRegEmpty reg = false) : live l = l := by
  simpa [live] using h

theorem live_eq_nil (h : ∀ reg ∈ l, isRegEmpty reg = true) : live l = [] := by
  simpa [live] using h

theorem mem_cover_live (l : List Region) (x : Word) : x ∈ cover (live l) ↔ x ∈ cover l := by
  constructor
  · rintro ⟨reg, hreg, hx⟩
    exact ⟨reg, (mem_live.mp hreg).1, hx⟩
  · rintro ⟨reg, hreg, hx⟩
    have hlt : reg.start < reg.stop := Std.lt_of_le_of_lt hx.1 hx.2
    exact ⟨reg, mem_live.mpr ⟨hreg, isRegEmpty_eq_false hlt⟩, hx⟩

variable {pre post : List Region}

theorem freememAt_length (h : st.freemem = pre ++ reg :: post) : st.freememAt pre.length = reg := by
  simp [NdksBoot.freememAt, h]

theorem setFreemem_length (new : Region) (h : st.freemem = pre ++ reg :: post) :
    (st.setFreemem pre.length new).freemem = pre ++ new :: post := by
  simp [NdksBoot.setFreemem, h]

theorem setFreemem_length_succ {next : Region} (new : Region)
    (h : st.freemem = pre ++ reg :: next :: post) :
    (st.setFreemem (pre.length + 1) new).freemem = pre ++ reg :: new :: post := by
  simp [NdksBoot.setFreemem, h]

/-- The root server's objects take a part of the inserted region `c`; the two parts around it take
its place in the free list. -/
structure Placed (cfg : BootConfig) (itVReg : Region) (extra : Nat) (ins : List Region)
    (st st' : NdksBoot) (left : List Region) (c : Region) (right : List Region) (start : Word) :
    Prop where
  split : ins = left ++ c :: right
  entries : live st'.freemem = live (left ++ ⟨c.start, start⟩ ::
    ⟨start + calculateRootserverSize cfg itVReg extra, c.stop⟩ :: right)
  start_le : c.start ≤ start
  fits : start.toNat + (calculateRootserverSize cfg itVReg extra).toNat ≤ c.stop.toNat
  aligned : 2 ^ rootserverMaxSizeBits cfg extra ∣ start.toNat
  mem : st'.rootserver.mem.stop = start + calculateRootserverSize cfg itVReg extra
  reserved : st'.reserved = st.reserved

section Place

variable {itVReg : Region} {extra : Nat}

/-- The two comparisons of the search mean that the block fits, although the subtraction wraps. -/
theorem roundDown_fits {stop size : Word} {b : Nat} (h : stop - size ≤ stop) :
    (roundDown (stop - size) b).toNat + size.toNat ≤ stop.toNat := by
  have hle : (roundDown (stop - size) b).toNat ≤ (stop - size).toNat := by
    rw [toNat_roundDown]
    exact Nat.div_mul_le_self _ _
  bv_omega

theorem placeRootserver_overflow {n : Nat} {b : Bool}
    (h : placeRootserver cfg itVReg extra n st = .ok (b, st')) : st'.overflow = st.overflow := by
  induction n generalizing st with
  | zero =>
    cases h
    rfl
  | succ n ih =>
    obtain ⟨_, -, _, -, h⟩ := bind2_eq_ok h
    dsimp only at h
    split_ifs at h
    · obtain ⟨rs, -, h⟩ := bind_eq_ok h
      cases h
      rfl
    · have hrest := ih h
      exact hrest

theorem placeRootserver_spec {cand post : List Region} {e : Region}
    (hcand : ∀ c ∈ cand, isRegEmpty c = false) (he : isRegEmpty e = true)
    (hfm : st.freemem = cand ++ e :: post)
    (h : placeRootserver cfg itVReg extra cand.length st = .ok (true, st')) :
    ∃ left c right start, Placed cfg itVReg extra (live st.freemem) st st' left c right start := by
  induction cand using List.reverseRecOn generalizing st e post with
  | nil => cases h
  | append_singleton cand c ih =>
    have hc : isRegEmpty c = false := hcand c (by simp)
    have hcand' : ∀ c ∈ cand, isRegEmpty c = false := fun c hc => hcand c (by simp [hc])
    have hfm' : st.freemem = cand ++ c :: e :: post := by simpa using hfm
    have hat : st.freememAt cand.length = c := freememAt_length hfm'
    have hlive : live st.freemem = cand ++ c :: live post := by
      rw [hfm', live_append, live_eq_self hcand', live_cons_of_not hc, live_cons_of_empty he]
    have hlen : (cand ++ [c]).length = cand.length + 1 := by simp
    rw [hlen, placeRootserver, hat] at h
    obtain ⟨_, -, _, -, h⟩ := bind2_eq_ok h
    dsimp only at h
    split_ifs at h with hfit
    · obtain ⟨rs, hrs, h⟩ := bind_eq_ok h
      cases h
      have hfm1 : NdksBoot.freemem { st with rootserver := rs } = cand ++ c :: e :: post := hfm'
      have hnext := setFreemem_length_succ
        ⟨roundDown (c.stop - calculateRootserverSize cfg itVReg extra)
          (rootserverMaxSizeBits cfg extra) + calculateRootserverSize cfg itVReg extra, c.stop⟩ hfm1
      refine ⟨cand, c, live post, _, hlive, ?_, hfit.2, roundDown_fits hfit.1, ?_,
        createRootserverObjects_mem hrs, rfl⟩
      · have hat' : NdksBoot.freememAt { st with rootserver := rs } cand.length = c := hat
        rw [hat', setFreemem_length _ hnext, freememAt_length hnext]
        simp only [live, List.filter_append, List.filter_cons, List.filter_filter, Bool.and_self]
      · rw [toNat_roundDown]
        exact Nat.dvd_mul_left _ _
    · have hnext := setFreemem_length_succ c hfm'
      have hmoved : ((st.setFreemem (cand.length + 1) c).setFreemem cand.length regEmpty).freemem =
          cand ++ regEmpty :: c :: post := setFreemem_length regEmpty hnext
      obtain ⟨left, c', right, start, hp⟩ := ih hcand' (by rfl) hmoved h
      have hsame : live (cand ++ regEmpty :: c :: post) = live st.freemem := by
        rw [live_append, live_eq_self hcand', live_cons_of_empty (by rfl), live_cons_of_not hc, hlive]
      rw [hmoved, hsame] at hp
      exact ⟨left, c', right, start, hp.split, hp.entries, hp.start_le, hp.fits, hp.aligned, hp.mem,
        hp.reserved⟩

/-- The search starts after the inserted regions. -/
theorem skipEmpty_eq {ins free : List Region} (hins : ∀ i ∈ ins, isRegEmpty i = false)
    (hfree : ∀ f ∈ free, isRegEmpty f = true) (h : st.freemem = ins ++ free) :
    skipEmpty st st.freemem.length = ins.length := by
  rw [h, List.length_append]
  -- down to the end of `ins`, whatever the number of empty entries
  have hskip : ∀ n ≤ free.length, skipEmpty st (ins.length + n) = skipEmpty st ins.length := by
    intro n hn
    induction n with
    | zero => rfl
    | succ n ih =>
      have hempty : isRegEmpty (st.freememAt (ins.length + n)) = true := by
        refine hfree _ ?_
        rw [NdksBoot.freememAt, h, List.getD_append_right _ _ _ _ (by omega),
          Nat.add_sub_cancel_left, List.getD_eq_getElem _ _ (by omega)]
        exact List.getElem_mem _
      rw [← Nat.add_assoc, skipEmpty, if_pos hempty]
      exact ih (by omega)
  rw [hskip _ (Nat.le_refl _)]
  cases ins using List.reverseRecOn with
  | nil => rfl
  | append_singleton ins c =>
    have hc : isRegEmpty (st.freememAt ins.length) = false := by
      rw [freememAt_length (by simpa using h)]
      exact hins c (by simp)
    simp [skipEmpty, hc]

end Place

/-! ## The result -/

/-- The memory of the root server's objects: `rootserver_mem` as `create_rootserver_objects` sets
it up. -/
def rootserverBlock (cfg : BootConfig) (itVReg : Region) (extra : Nat) (st : NdksBoot) : Region :=
  ⟨st.rootserver.mem.stop - calculateRootserverSize cfg itVReg extra, st.rootserver.mem.stop⟩

/-- What `init_freemem` leaves behind when it succeeds. -/
structure FreememExact (cfg : BootConfig) (available : List PRegion) (reserved : List Region)
    (itVReg : Region) (extra : Nat) (st st' : NdksBoot) : Prop where
  /-- The free regions and the root server do not share memory. -/
  disjoint : (rootserverBlock cfg itVReg extra st' :: st'.freemem).Pairwise Apart
  /-- They are the available memory below the end of the window without the reserved regions. -/
  union : ∀ x, x ∈ cover (rootserverBlock cfg itVReg extra st' :: st'.freemem) ↔
    (pptrToPaddr cfg x ∈ cover available ∧ pptrToPaddr cfg x < cfg.paddrTop) ∧ x ∉ cover reserved
  /-- The non-empty free regions are in increasing order. -/
  increasing : (live st'.freemem).Pairwise Before
  /-- The root server has `calculate_rootserver_size` bytes. -/
  size : (rootserverBlock cfg itVReg extra st').start.toNat +
    (calculateRootserverSize cfg itVReg extra).toNat = (rootserverBlock cfg itVReg extra st').stop.toNat
  /-- They are aligned to the largest object. -/
  aligned : 2 ^ rootserverMaxSizeBits cfg extra ∣
    (rootserverBlock cfg itVReg extra st').start.toNat
  /-- The table has, besides what it had, the reserved regions and all the memory handed out. -/
  table : ∀ p, p ∈ cover st'.reserved ↔ p ∈ cover st.reserved ∨
    paddrToPptr cfg p ∈ cover reserved ∨
    paddrToPptr cfg p ∈ cover (rootserverBlock cfg itVReg extra st' :: st'.freemem)

section Result

variable {itVReg : Region} {extra : Nat} {ins left right : List Region} {c : Region} {start : Word}

section

variable (h : Placed cfg itVReg extra ins st st' left c right start)
include h

theorem Placed.block : rootserverBlock cfg itVReg extra st' =
      ⟨start, start + calculateRootserverSize cfg itVReg extra⟩ := by
  unfold rootserverBlock
  rw [h.mem, BitVec.add_sub_cancel]

theorem Placed.toNat_stop : (start + calculateRootserverSize cfg itVReg extra).toNat =
      start.toNat + (calculateRootserverSize cfg itVReg extra).toNat :=
  BitVec.toNat_add_of_lt (Nat.lt_of_le_of_lt h.fits c.stop.isLt)

theorem Placed.stop_bounds : start ≤ start + calculateRootserverSize cfg itVReg extra ∧
    start + calculateRootserverSize cfg itVReg extra ≤ c.stop := by
  rw [BitVec.le_def, BitVec.le_def, h.toNat_stop]
  exact ⟨Nat.le_add_right _ _, h.fits⟩

/-- The inserted regions with `c` cut in three. -/
theorem Placed.pairwise_cut (hins : ins.Pairwise Before) :
    (left ++ ⟨c.start, start⟩ :: rootserverBlock cfg itVReg extra st' ::
      ⟨start + calculateRootserverSize cfg itVReg extra, c.stop⟩ :: right).Pairwise Before := by
  have hstart := h.start_le
  have hstop := h.stop_bounds
  rw [h.block]
  rw [h.split] at hins
  generalize start + calculateRootserverSize cfg itVReg extra = stop at *
  simp only [List.pairwise_append, List.pairwise_cons, List.mem_cons, Before] at hins ⊢
  grind

/-- Cutting `c` keeps what the inserted regions cover. -/
theorem Placed.mem_cover (x : Word) :
    x ∈ cover (rootserverBlock cfg itVReg extra st' :: st'.freemem) ↔ x ∈ cover ins := by
  have hstart := h.start_le
  have hstop := h.stop_bounds
  rw [mem_cover_cons, ← mem_cover_live st'.freemem, h.entries, mem_cover_live, h.block, h.split]
  generalize start + calculateRootserverSize cfg itVReg extra = stop at *
  simp only [mem_cover_append, mem_cover_cons, mem_def]
  grind

/-- The pieces around the root server, and the regions that were not touched, stay apart. -/
theorem Placed.disjoint (hins : ins.Pairwise Before) :
    (rootserverBlock cfg itVReg extra st' :: st'.freemem).Pairwise Apart := by
  have hcut := (h.pairwise_cut hins).imp Before.apart
  rw [List.append_cons, List.pairwise_middle Apart.symm, List.append_assoc, List.singleton_append,
    List.pairwise_cons] at hcut
  obtain ⟨hblock, hrest⟩ := hcut
  have hlive : (live st'.freemem).Pairwise Apart := by
    rw [h.entries]
    exact hrest.filter _
  have hempty : ∀ f : Region, isRegEmpty f ≠ false → ∀ x, x ∉ f := by
    intro f hf x
    rw [ne_eq, Bool.not_eq_false, isRegEmpty_iff] at hf
    exact notMem_of_stop_le (Std.le_of_eq hf.symm)
  refine List.pairwise_cons.mpr ⟨fun f hf => ?_, ?_⟩
  · by_cases hf' : isRegEmpty f = false
    · have hmem : f ∈ live st'.freemem := mem_live.mpr ⟨hf, hf'⟩
      rw [h.entries] at hmem
      exact hblock f (mem_live.mp hmem).1
    · exact fun x _ => hempty f hf' x
  · refine (List.pairwise_filter.mp hlive).imp fun {f g} hfg => ?_
    by_cases hf : isRegEmpty f = false
    · by_cases hg : isRegEmpty g = false
      · exact hfg (by simp [hf]) (by simp [hg])
      · exact fun x _ => hempty g hg x
    · exact fun x hx => absurd hx (hempty f hf x)

end

/-- The last entry of the free list was empty, so the search has room to move regions up. -/
theorem place_of_carve {available : List PRegion} {reserved : List Region} {st1 : NdksBoot}
    (htable : ∀ q ∈ st.reserved, q.Valid) (havail : Ordered available) (hres : Ordered reserved)
    (hcarve : carve cfg available reserved st = .ok st1)
    (hlast : isRegEmpty (st1.freememAt (cfg.maxNumFreememReg - 1)) = true)
    (h : placeRootserver cfg itVReg extra (skipEmpty st1 cfg.maxNumFreememReg) st1 =
      .ok (true, st')) (hov : st'.overflow = false) : ∃ ins left c right start,
      CarveInv cfg (available.map (availReg cfg)) reserved st.reserved ins ⟨[], [], st1⟩ ∧
      Placed cfg itVReg extra ins st1 st' left c right start := by
  have hov1 : st1.overflow = false := (placeRootserver_overflow h).symm.trans hov
  obtain ⟨ins, hinv⟩ := carve_spec havail hres htable hcarve hov1
  have hlen : st1.freemem.length = cfg.maxNumFreememReg := hinv.length
  have hins : ∀ i ∈ ins, isRegEmpty i = false := fun i hi =>
    isRegEmpty_eq_false (hinv.filled.proper i hi)
  obtain ⟨free, hfree, hempty⟩ := hinv.filled.free
  rw [← hlen, skipEmpty_eq hins hempty hfree] at h
  cases free with
  | nil =>
    cases ins using List.reverseRecOn with
    | nil => cases h
    | append_singleton ins c =>
      have hc := hins c (by simp)
      have hlen' : cfg.maxNumFreememReg - 1 = ins.length := by
        rw [← hlen, hfree]
        simp
      rw [hlen', freememAt_length (by simpa using hfree), hc] at hlast
      cases hlast
  | cons e post =>
    obtain ⟨left, c, right, start, hp⟩ := placeRootserver_spec hins (hempty e (.head _)) hfree h
    have hlive : live st1.freemem = ins := by
      rw [hfree, live_append, live_eq_self hins, live_eq_nil hempty, List.append_nil]
    rw [hlive] at hp
    exact ⟨ins, left, c, right, start, hinv, hp⟩

end Result

/-- **The memory handed out at boot is exact.** If `init_freemem` returns true and no table was
too short, the free regions and the root server's block partition what is available, in the kernel
window and not reserved; the block has its size and alignment; and `ndks_boot.reserved` has
everything that is reserved or was handed out. -/
theorem init_freemem_exact (cfg : BootConfig) (available : List PRegion) (reserved : List Region)
    (itVReg : Region) (extra : Nat) (st st' : NdksBoot) (htable : ∀ q ∈ st.reserved, q.Valid)
    (h : initFreemem cfg available reserved itVReg extra st = .ok (true, st'))
    (hov : st'.overflow = false) : FreememExact cfg available reserved itVReg extra st st' := by
  unfold initFreemem at h
  split_ifs at h with havail hres
  · obtain ⟨st₁, hcarve, h⟩ := bind_eq_ok h
    split_ifs at h with hlast
    · obtain ⟨ins, left, c, right, start, hinv, hplaced⟩ := place_of_carve htable
        (ordered_of_checkAvailableMemory havail) (ordered_of_checkReservedFrom hres).1 hcarve hlast
        h hov
      refine ⟨hplaced.disjoint hinv.filled.before, fun x => ?_, ?_, ?_, ?_, fun p => ?_⟩
      · rw [hplaced.mem_cover, ← mem_cover_availReg, ← hinv.handed x]
        simp
      · rw [hplaced.entries]
        refine ((hplaced.pairwise_cut hinv.filled.before).sublist ?_).filter _
        simp
      · rw [hplaced.block, hplaced.toNat_stop]
      · rw [hplaced.block]
        exact hplaced.aligned
      · rw [hplaced.mem_cover, hplaced.reserved, ← hinv.covered p]
        simp
    · cases h
  · cases h
  · cases h

/-- The benchmark's own memory, and a region beyond the kernel window. -/
def sampleAvailable : List PRegion := [⟨0x200000, 0xf0000000⟩, ⟨0x8000000000, 0x8000001000⟩]

/-- The kernel image, a device tree right after it, an empty region and one in the middle. -/
def sampleReserved : List Region :=
  [⟨0xffffff8000200000, 0xffffff8000300000⟩, ⟨0xffffff8000300000, 0xffffff8000310000⟩,
    ⟨0xffffff8000320000, 0xffffff8000320000⟩, ⟨0xffffff8000400000, 0xffffff8000500000⟩]

/-- `ndks_boot` after the benchmark's boot: the table is one region, the memory three. -/
def sampleBooted : NdksBoot where
  reserved := [⟨0x200000, 0xf0000000⟩]
  freemem := [⟨0xffffff8000310000, 0xffffff8000400000⟩, ⟨0xffffff8000500000, 0xffffff80eff80000⟩,
    ⟨0xffffff80effc7800, 0xffffff80f0000000⟩]
  rootserver :=
    { mem := ⟨0xffffff80effc7800, 0xffffff80effc7800⟩
      cnode := 0xffffff80eff80000
      vspace := 0xffffff80effc0000
      asidPool := 0xffffff80effc1000
      ipcBuf := 0xffffff80effc2000
      bootInfo := 0xffffff80effc3000
      extraBi := 0
      tcb := 0xffffff80effc7000
      sc := 0
      paging := ⟨0xffffff80effc4000, 0xffffff80effc7000⟩ }
  overflow := false

theorem init_freemem_exact_sample :
    initFreemem benchBootConfig sampleAvailable sampleReserved ⟨0x400000, 0x600000⟩ 0
        (NdksBoot.zero benchBootConfig) = .ok (true, sampleBooted) ∧
      FreememExact benchBootConfig sampleAvailable sampleReserved ⟨0x400000, 0x600000⟩ 0
        (NdksBoot.zero benchBootConfig) sampleBooted := by
  have hrun : initFreemem benchBootConfig sampleAvailable sampleReserved ⟨0x400000, 0x600000⟩ 0
      (NdksBoot.zero benchBootConfig) = .ok (true, sampleBooted) := by
    decide +kernel
  exact ⟨hrun, init_freemem_exact benchBootConfig sampleAvailable sampleReserved _ 0 _ _
    (fun q hq => absurd hq (List.not_mem_nil)) hrun rfl⟩

end SeL4.Boot
