import SeL4.Boot.Freemem

/-!
# The two region tables of the boot code

What `reserve_region` and `insert_region` do to `ndks_boot.reserved` and `ndks_boot.freemem`, in
terms of the addresses the tables cover, and what the two checks of `init_freemem` establish about
its lists.

The table `ndks_boot.reserved` is physical. Converting a region wraps, so a region that spans the
start of the kernel window would turn inside out; the `assert` of `reserve_region` is what rules
that out (`mem_pptrToPaddrReg`).

* `reserveRegion_spec`: one more region in the table, whatever is in it already.
* `insertRegion_spec`: one more entry in the free list, and in the table.
* `mem_availReg`: an available region is cut off at the end of the kernel window.
-/

namespace SeL4.Boot

open SeL4.Lib SeL4.Object
open SeL4.Lib.Span

variable {cfg : BootConfig} {st st' : NdksBoot}

variable {l : List PRegion} {b : Bool} {reg : Region}

/-! ## The table of reserved regions -/

theorem mergeFrom_spec (p : PRegion) (l : List PRegion) (h : ∀ q ∈ p :: l, q.Valid) :
    (∀ q ∈ mergeFrom p l, q.Valid) ∧ ∀ x, x ∈ cover (mergeFrom p l) ↔ x ∈ cover (p :: l) := by
  induction l generalizing p with
  | nil => exact ⟨h, fun _ => .rfl⟩
  | cons q rest ih =>
    have hp : p.Valid := h p (.head _)
    have hq : q.Valid := h q (.tail p (.head _))
    have hrest : ∀ u ∈ rest, u.Valid := fun u hu =>
      h u (.tail p (.tail q hu))
    unfold mergeFrom
    split_ifs with hmeet
    · have hjoin : Valid (⟨p.start, q.stop⟩ : PRegion) := by
        unfold Valid at hp hq ⊢
        grind
      obtain ⟨hv, hc⟩ := ih _ (List.forall_mem_cons.mpr ⟨hjoin, hrest⟩)
      refine ⟨hv, fun x => ?_⟩
      rw [hc]
      simp only [mem_cover_cons, mem_join hp hq hmeet, or_assoc]
    · obtain ⟨hv, hc⟩ := ih q (List.forall_mem_cons.mpr ⟨hq, hrest⟩)
      refine ⟨List.forall_mem_cons.mpr ⟨hp, hv⟩, fun x => ?_⟩
      rw [mem_cover_cons, hc, mem_cover_cons, mem_cover_cons, mem_cover_cons]

/-- `merge_regions` keeps what the table covers. -/
theorem mergeRegions_spec (h : ∀ q ∈ l, q.Valid) :
    (∀ q ∈ mergeRegions l, q.Valid) ∧ ∀ x, x ∈ cover (mergeRegions l) ↔ x ∈ cover l := by
  cases l with
  | nil => exact ⟨h, fun _ => .rfl⟩
  | cons p rest => exact mergeFrom_spec p rest h

theorem reserveLoop_spec {reg : PRegion} (hreg : reg.Valid) (rest done t : List PRegion)
    (hvalid : ∀ q ∈ done ++ rest, q.Valid) (h : reserveLoop cfg reg done rest = some t) :
    (∀ q ∈ t, q.Valid) ∧ ∀ x, x ∈ cover t ↔ x ∈ reg ∨ x ∈ cover (done ++ rest) := by
  induction rest generalizing done with
  | nil =>
    unfold reserveLoop at h
    split_ifs at h
    obtain rfl := Option.some.inj h
    refine ⟨fun q hq => ?_, fun x => ?_⟩
    · rcases List.mem_append.mp hq with hq | hq
      · exact hvalid q (by simpa using hq)
      · obtain rfl := List.mem_singleton.mp hq
        exact hreg
    · simp [or_comm]
  | cons q rest ih =>
    have hq : q.Valid := hvalid q (by simp)
    -- the entry `q` gives way to one that also covers the new region
    have hgrow : ∀ u : PRegion, u.Valid → (∀ x, x ∈ u ↔ x ∈ reg ∨ x ∈ q) →
        some (mergeRegions (done ++ u :: rest)) = some t →
        (∀ q ∈ t, q.Valid) ∧ ∀ x, x ∈ cover t ↔ x ∈ reg ∨ x ∈ cover (done ++ q :: rest) := by
      intro u hu hmem h
      obtain rfl := Option.some.inj h
      have hall : ∀ v ∈ done ++ u :: rest, v.Valid := by
        intro v hv
        grind
      obtain ⟨hv, hc⟩ := mergeRegions_spec hall
      refine ⟨hv, fun x => ?_⟩
      rw [hc x]
      simp only [mem_cover_append, mem_cover_cons, hmem]
      grind
    unfold reserveLoop at h
    split_ifs at h with hstart hstop hbefore hroom
    · refine hgrow _ ?_ (fun x => mem_join hreg hq hstart.symm) h
      unfold Valid at hreg hq ⊢
      grind
    · refine hgrow _ ?_ (fun x => ?_) h
      · unfold Valid at hreg hq ⊢
        grind
      · rw [mem_join hq hreg hstop, or_comm]
    · obtain rfl := Option.some.inj h
      refine ⟨fun v hv => ?_, fun x => ?_⟩
      · grind
      · simp only [mem_cover_append, mem_cover_cons]
        grind
    · obtain ⟨hv, hc⟩ := ih (done ++ [q]) (by simpa using hvalid) h
      exact ⟨hv, by simpa using hc⟩

section Reserve

variable {reg : PRegion} (h : reserveRegion cfg reg st = .ok (b, st')) (hov : st'.overflow = false)
include h hov

/-- The two ways of `reserve_region` with a table that is not full. -/
theorem reserveRegion_cases :
    reg.Valid ∧ (reg.start = reg.stop ∧ st' = st ∨
      ∃ t, reserveLoop cfg reg [] st.reserved = some t ∧ st' = { st with reserved := t }) := by
  obtain ⟨_, hreq, h⟩ := bind_eq_ok h
  have hle : reg.start ≤ reg.stop := of_decide_eq_true (require_cases hreq)
  refine ⟨hle, ?_⟩
  split_ifs at h with hempty
  · cases h
    exact .inl ⟨hempty, rfl⟩
  · cases hloop : reserveLoop cfg reg [] st.reserved with
    | none =>
      rw [hloop] at h
      cases h
      cases hov
    | some t =>
      rw [hloop] at h
      cases h
      exact .inr ⟨t, rfl, rfl⟩

theorem reserveRegion_overflow : st.overflow = false := by
  obtain ⟨-, ⟨-, rfl⟩ | ⟨t, -, rfl⟩⟩ := reserveRegion_cases h hov <;> exact hov

/-- `reserve_region` adds its region to what the table covers, unless the table is full. -/
theorem reserveRegion_spec (hvalid : ∀ q ∈ st.reserved, q.Valid) :
    reg.Valid ∧ ∃ t, st' = { st with reserved := t } ∧ (∀ q ∈ t, q.Valid) ∧
      ∀ x, x ∈ cover t ↔ x ∈ reg ∨ x ∈ cover st.reserved := by
  obtain ⟨hreg, ⟨hempty, rfl⟩ | ⟨t, hloop, rfl⟩⟩ := reserveRegion_cases h hov
  · refine ⟨hreg, st'.reserved, rfl, hvalid, fun x => ?_⟩
    have : x ∉ reg := notMem_of_stop_le (Std.le_of_eq hempty.symm)
    grind
  · obtain ⟨hv, hc⟩ := reserveLoop_spec hreg st.reserved [] t (by simpa using hvalid) hloop
    exact ⟨hreg, t, rfl, hv, by simpa using hc⟩

end Reserve

/-! ## The kernel window -/

theorem pptrToPaddr_paddrToPptr (p : Word) : pptrToPaddr cfg (paddrToPptr cfg p) = p :=
  BitVec.add_sub_cancel p _

theorem paddrToPptr_pptrToPaddr (x : Word) : paddrToPptr cfg (pptrToPaddr cfg x) = x :=
  BitVec.sub_add_cancel x _

/-- A region that is in order before and after the conversion is converted point by point. -/
theorem mem_pptrToPaddrReg (hreg : reg.Valid) (hp : (pptrToPaddrReg cfg reg).Valid)
    (p : Word) : p ∈ pptrToPaddrReg cfg reg ↔ paddrToPptr cfg p ∈ reg := by
  unfold pptrToPaddrReg pptrToPaddr at hp ⊢
  unfold Valid at hreg hp
  unfold paddrToPptr
  simp only [mem_def]
  generalize cfg.pptrBaseOffset = o at *
  bv_omega

/-- The window ends above its offset, so that no address below `PADDR_TOP` wraps. -/
theorem toNat_paddrTop_add (cfg : BootConfig) :
    cfg.paddrTop.toNat + cfg.pptrBaseOffset.toNat = cfg.pptrTop.toNat := by
  unfold BootConfig.paddrTop BootConfig.pptrBaseOffset BootConfig.pptrTop BootConfig.pptrBase
  cases cfg.hyp <;> decide

theorem toNat_paddrToPptr {p : Word} (h : p ≤ cfg.paddrTop) :
    (paddrToPptr cfg p).toNat = p.toNat + cfg.pptrBaseOffset.toNat := by
  have htop := toNat_paddrTop_add cfg
  rw [BitVec.le_def] at h
  exact BitVec.toNat_add_of_lt (by omega)

/-- The clipped address, seen from the physical side. -/
theorem ceilingKernelWindow_paddrToPptr (p : Word) : ceilingKernelWindow cfg (paddrToPptr cfg p) =
      paddrToPptr cfg (if cfg.paddrTop < p then cfg.paddrTop else p) := by
  unfold ceilingKernelWindow
  rw [pptrToPaddr_paddrToPptr]
  split_ifs
  · exact (paddrToPptr_pptrToPaddr cfg.pptrTop).symm
  · rfl

theorem ceilingKernelWindow_mono {p q : Word} (h : p ≤ q) :
    ceilingKernelWindow cfg (paddrToPptr cfg p) ≤ ceilingKernelWindow cfg (paddrToPptr cfg q) := by
  rw [ceilingKernelWindow_paddrToPptr, ceilingKernelWindow_paddrToPptr, BitVec.le_def,
    toNat_paddrToPptr (by grind), toNat_paddrToPptr (by grind)]
  split_ifs <;> bv_omega

/-- Inside the window the conversion keeps regions. -/
theorem mem_window {lo hi : Word} (hlo : lo ≤ cfg.paddrTop) (hhi : hi ≤ cfg.paddrTop) (p : Word) :
    paddrToPptr cfg p ∈ (⟨paddrToPptr cfg lo, paddrToPptr cfg hi⟩ : Region) ↔
      p ∈ (⟨lo, hi⟩ : PRegion) := by
  have htop := toNat_paddrTop_add cfg
  have hp : (paddrToPptr cfg p).toNat = (p.toNat + cfg.pptrBaseOffset.toNat) % 2 ^ 64 :=
    BitVec.toNat_add p _
  simp only [mem_def, BitVec.le_def, BitVec.lt_def] at hhi ⊢
  rw [toNat_paddrToPptr hlo, toNat_paddrToPptr hhi]
  -- an address above the window may wrap, but then it lands below the window
  omega

/-- What is left of an available region is what of it lies below the end of the window. -/
theorem mem_availReg (reg : PRegion) (x : Word) :
    x ∈ availReg cfg reg ↔ pptrToPaddr cfg x ∈ reg ∧ pptrToPaddr cfg x < cfg.paddrTop := by
  obtain ⟨p, rfl⟩ : ∃ p, x = paddrToPptr cfg p := ⟨_, (paddrToPptr_pptrToPaddr x).symm⟩
  unfold availReg paddrToPptrReg
  rw [ceilingKernelWindow_paddrToPptr, ceilingKernelWindow_paddrToPptr,
    mem_window (by grind) (by grind), pptrToPaddr_paddrToPptr]
  simp only [mem_def]
  split_ifs <;> grind

/-- The available regions stay in order. -/
theorem ordered_availReg (h : Ordered l) : Ordered (l.map (availReg cfg)) where
  valid s hs := by
    obtain ⟨reg, hreg, rfl⟩ := List.mem_map.mp hs
    exact ceilingKernelWindow_mono (h.valid reg hreg)
  before := by
    rw [List.pairwise_map]
    exact h.before.imp fun hst => ceilingKernelWindow_mono hst

theorem mem_cover_availReg (l : List PRegion) (x : Word) : x ∈ cover (l.map (availReg cfg)) ↔
      pptrToPaddr cfg x ∈ cover l ∧ pptrToPaddr cfg x < cfg.paddrTop := by
  induction l with
  | nil => simp
  | cons reg rest ih => simp only [List.map_cons, mem_cover_cons, mem_availReg, ih, or_and_right]

/-! ## The checks of the two lists -/

theorem ordered_of_checkReservedFrom {l : List Region} {prev : Option Region}
    (h : checkReservedFrom prev l = true) : Ordered l ∧ ∀ p ∈ prev, ∀ r ∈ l.head?, p.Before r := by
  induction l generalizing prev with
  | nil => exact ⟨⟨by simp, .nil⟩, by simp⟩
  | cons reg rest ih =>
    unfold checkReservedFrom at h
    split_ifs at h with hvalid hprev
    obtain ⟨hrest, hnext⟩ := ih h
    have hreg : reg.Valid := Std.not_lt.mp hvalid
    refine ⟨?_, fun p hp r hr => ?_⟩
    · cases rest with
      | nil => exact ⟨by simpa using hreg, List.pairwise_singleton _ _⟩
      | cons r rest => exact ordered_cons_cons hreg (hnext reg rfl r rfl) hrest
    · obtain rfl : reg = r := by simpa using hr
      obtain rfl : prev = some p := hp
      have : ¬ reg.start < p.stop := by simpa using hprev
      exact Std.not_lt.mp this

theorem checkReservedFrom_of_available {prev : Option PRegion}
    (h : checkAvailableFrom prev l = true) : checkReservedFrom prev l = true := by
  induction l generalizing prev with
  | nil => rfl
  | cons reg rest ih =>
    unfold checkAvailableFrom at h
    split_ifs at h with hvalid hempty hprev
    unfold checkReservedFrom
    rw [if_neg hvalid, if_neg hprev]
    exact ih h

theorem ordered_of_checkAvailableMemory (h : checkAvailableMemory l = true) : Ordered l := by
  unfold checkAvailableMemory at h
  split_ifs at h
  exact (ordered_of_checkReservedFrom (checkReservedFrom_of_available h)).1

/-! ## One insertion -/

theorem isRegEmpty_iff : isRegEmpty reg = true ↔ reg.start = reg.stop := decide_eq_true_iff

theorem isRegEmpty_eq_false (h : reg.start < reg.stop) : isRegEmpty reg = false :=
  decide_eq_false fun heq => Std.lt_irrefl (heq ▸ h)

theorem fillEmpty_append (reg : Region) (free : List Region) {ins : List Region}
    (h : ∀ i ∈ ins, isRegEmpty i = false) :
    fillEmpty reg (ins ++ free) = (fillEmpty reg free).map (ins ++ ·) := by
  induction ins with
  | nil => simp
  | cons i rest ih =>
    rw [List.forall_mem_cons] at h
    simp only [List.cons_append, fillEmpty, h.1, ih h.2, Bool.false_eq_true, if_false, Option.map_map]
    rfl

/-- The free list holds `ins`, and empty entries after them. -/
structure Filled (ins : List Region) (freemem : List Region) : Prop where
  proper : ∀ i ∈ ins, i.start < i.stop
  before : ins.Pairwise Before
  free : ∃ free, freemem = ins ++ free ∧ ∀ f ∈ free, isRegEmpty f = true

theorem insertRegion_overflow
    (h : insertRegion cfg reg st = .ok (b, st')) (hov : st'.overflow = false) :
    st.overflow = false := by
  obtain ⟨_, -, h⟩ := bind_eq_ok h
  split_ifs at h
  · cases h
    exact hov
  · cases hfill : fillEmpty reg st.freemem with
    | none =>
      rw [hfill] at h
      cases h
    | some freemem =>
      rw [hfill] at h
      obtain ⟨⟨b', st1⟩, hres, h⟩ := bind_eq_ok h
      cases h
      exact reserveRegion_overflow hres hov

/-- `insert_region` puts its region after the others and reserves it. -/
theorem insertRegion_spec {ins : List Region}
    (hfill : Filled ins st.freemem) (hvalid : ∀ q ∈ st.reserved, q.Valid)
    (hreg : reg.start < reg.stop) (hlast : ∀ i ∈ ins, i.Before reg)
    (h : insertRegion cfg reg st = .ok (b, st')) (hov : st'.overflow = false) :
    Filled (ins ++ [reg]) st'.freemem ∧ (∀ q ∈ st'.reserved, q.Valid) ∧
      (∀ p, p ∈ cover st'.reserved ↔ paddrToPptr cfg p ∈ reg ∨ p ∈ cover st.reserved) ∧
      st'.freemem.length = st.freemem.length := by
  obtain ⟨free, hfree, hempty⟩ := hfill.free
  have hins : ∀ i ∈ ins, isRegEmpty i = false := fun i hi => isRegEmpty_eq_false (hfill.proper i hi)
  obtain ⟨_, -, h⟩ := bind_eq_ok h
  rw [if_neg (by rw [isRegEmpty_eq_false hreg]; decide), hfree, fillEmpty_append reg free hins] at h
  cases free with
  | nil => cases h
  | cons f free =>
    rw [fillEmpty, if_pos (hempty f List.mem_cons_self)] at h
    obtain ⟨⟨b', st1⟩, hres, h⟩ := bind_eq_ok h
    cases h
    obtain ⟨hp, t, rfl, htv, htc⟩ := reserveRegion_spec hres hov hvalid
    refine ⟨⟨?_, ?_, free, by simp, fun g hg => hempty g (.tail f hg)⟩, htv, fun p => ?_, ?_⟩
    · intro i hi
      rcases List.mem_append.mp hi with hi | hi
      · exact hfill.proper i hi
      · obtain rfl := List.mem_singleton.mp hi
        exact hreg
    · rw [List.pairwise_append]
      refine ⟨hfill.before, List.pairwise_singleton _ _, fun i hi r hr => ?_⟩
      obtain rfl := List.mem_singleton.mp hr
      exact hlast i hi
    · rw [htc p, mem_pptrToPaddrReg (Std.le_of_lt hreg) hp]
    · simp [hfree]

end SeL4.Boot
