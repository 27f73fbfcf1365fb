import SeL4.Boot.RegionTables

/-!
# The sweep of `init_freemem`

The loops that fill the two tables from the available and the reserved regions. They have one
invariant (`CarveInv`): what has been inserted, and what of the rest is not reserved, is always the
same set. Each case of a round moves some of that set from one side to the other, by one of three
lemmas: `CarveInv.skip`, `CarveInv.reserve` and `CarveInv.insert`.

* `Carving.round`: one round keeps the invariant.
* `sweep_ne_fuel`: the sweep ends.
* `carve_spec`: what the loops leave in the two tables.
-/

namespace SeL4.Boot

open SeL4.Lib SeL4.Object
open SeL4.Lib.Span

variable {cfg : BootConfig} {st st' : NdksBoot}

/-! ## The sweep -/

section Sweep

variable {A₀ R₀ : List Region} {T₀ : List PRegion}

/-- Between two rounds: the regions `ins` have been inserted, and with them and the rest of the
lists neither the memory to hand out nor the memory to reserve has changed. -/
structure CarveInv (cfg : BootConfig) (A₀ R₀ : List Region) (T₀ : List PRegion)
    (ins : List Region) (s : Sweep) : Prop where
  avail : Ordered s.avail
  reserved : Ordered s.reserved
  filled : Filled ins s.st.freemem
  length : s.st.freemem.length = cfg.maxNumFreememReg
  below : ∀ i ∈ ins, ∀ a ∈ s.avail, i.Before a
  table : ∀ q ∈ s.st.reserved, q.Valid
  handed : ∀ x, (x ∈ cover ins ∨ x ∈ cover s.avail ∧ x ∉ cover s.reserved) ↔ x ∈ cover A₀ ∧ x ∉ cover R₀
  covered : ∀ p, (p ∈ cover s.st.reserved ∨ paddrToPptr cfg p ∈ cover s.reserved) ↔
    p ∈ cover T₀ ∨ paddrToPptr cfg p ∈ cover R₀ ∨ paddrToPptr cfg p ∈ cover ins

/-- As long as no table was too short, the invariant holds. -/
def Carving (cfg : BootConfig) (A₀ R₀ : List Region) (T₀ : List PRegion) (s : Sweep) : Prop :=
  s.st.overflow = false → ∃ ins, CarveInv cfg A₀ R₀ T₀ ins s

variable {ins avail avail' reserved : List Region}

/-- Points that are reserved or in no region may leave the available list. -/
theorem CarveInv.skip (h : CarveInv cfg A₀ R₀ T₀ ins ⟨avail, reserved, st⟩)
    (havail : Ordered avail') (hbelow : ∀ i ∈ ins, ∀ a ∈ avail', i.Before a)
    (hsame : ∀ x, x ∉ cover reserved → (x ∈ cover avail' ↔ x ∈ cover avail)) :
    CarveInv cfg A₀ R₀ T₀ ins ⟨avail', reserved, st⟩ where
  avail := havail
  reserved := h.reserved
  filled := h.filled
  length := h.length
  below := hbelow
  table := h.table
  handed x := by
    rw [← h.handed x]
    grind
  covered := h.covered

variable {r : Region}

/-- The next reserved region leaves its list and enters the table. -/
theorem CarveInv.reserve {b : Bool} (h : CarveInv cfg A₀ R₀ T₀ ins ⟨avail, r :: reserved, st⟩)
    (hclear : ∀ x ∈ cover avail, x ∉ r)
    (hres : reserveRegion cfg (pptrToPaddrReg cfg r) st = .ok (b, st'))
    (hov : st'.overflow = false) : CarveInv cfg A₀ R₀ T₀ ins ⟨avail, reserved, st'⟩ := by
  obtain ⟨hp, t, rfl, htv, htc⟩ := reserveRegion_spec hres hov h.table
  refine ⟨h.avail, h.reserved.tail, h.filled, h.length, h.below, htv, fun x => ?_, fun p => ?_⟩
  · rw [← h.handed x]
    simp only [mem_cover_cons]
    grind
  · rw [← h.covered p]
    simp only [mem_cover_cons]
    rw [htc p, mem_pptrToPaddrReg h.reserved.head hp]
    grind

/-- A piece `m` of the available memory is inserted. -/
theorem CarveInv.insert {m : Region} {b : Bool} (h : CarveInv cfg A₀ R₀ T₀ ins ⟨avail, reserved, st⟩)
    (hm : m.start < m.stop) (hlast : ∀ i ∈ ins, i.Before m)
    (hins : insertRegion cfg m st = .ok (b, st')) (hov : st'.overflow = false)
    (havail : Ordered avail') (hbelow : ∀ i ∈ ins ++ [m], ∀ a ∈ avail', i.Before a)
    (hsame : ∀ x, x ∈ cover avail ∧ x ∉ cover reserved ↔ x ∈ m ∨ x ∈ cover avail' ∧ x ∉ cover reserved) :
    CarveInv cfg A₀ R₀ T₀ (ins ++ [m]) ⟨avail', reserved, st'⟩ := by
  obtain ⟨hfill, htv, htc, hlen⟩ := insertRegion_spec h.filled h.table hm hlast hins hov
  refine ⟨havail, h.reserved, hfill, hlen.trans h.length, hbelow, htv, fun x => ?_, fun p => ?_⟩
  · rw [← h.handed x]
    simp only [mem_cover_append, mem_cover_cons, notMem_cover_nil, or_false]
    grind
  · have := h.covered p
    simp only [mem_cover_append, mem_cover_cons, notMem_cover_nil, or_false]
    grind

/-- An empty reserved region leaves its list. -/
theorem CarveInv.drop (h : CarveInv cfg A₀ R₀ T₀ ins ⟨avail, r :: reserved, st⟩) (hr : r.stop ≤ r.start) :
    CarveInv cfg A₀ R₀ T₀ ins ⟨avail, reserved, st⟩ := by
  have hnone : ∀ x, x ∉ r := fun x => notMem_of_stop_le hr
  refine ⟨h.avail, h.reserved.tail, h.filled, h.length, h.below, h.table, fun x => ?_, fun p => ?_⟩
  · rw [← h.handed x]
    simp [hnone]
  · rw [← h.covered p]
    simp [hnone]

variable {a : Region}

theorem CarveInv.below_tail (h : CarveInv cfg A₀ R₀ T₀ ins ⟨a :: avail, reserved, st⟩) :
    ∀ i ∈ ins, ∀ b ∈ avail, i.Before b := fun i hi b hb =>
  h.below i hi b (.tail a hb)

theorem CarveInv.below_snoc {m : Region}
    (h : CarveInv cfg A₀ R₀ T₀ ins ⟨a :: avail, reserved, st⟩) (hm : m.stop ≤ a.stop) :
    ∀ i ∈ ins ++ [m], ∀ b ∈ avail, i.Before b := by
  intro i hi b hb
  rcases List.mem_append.mp hi with hi | hi
  · exact h.below_tail i hi b hb
  · obtain rfl := List.mem_singleton.mp hi
    exact Std.le_trans hm ((List.pairwise_cons.mp h.avail.before).1 b hb)

variable {s : Sweep}

/-- **One round of the sweep** keeps the invariant, whichever of its cases applies. -/
theorem Carving.round (h : Carving cfg A₀ R₀ T₀ ⟨a :: avail, r :: reserved, st⟩)
    (hround : sweepRound cfg a avail r reserved st = .ok s) : Carving cfg A₀ R₀ T₀ s := by
  intro hov
  unfold sweepRound at hround
  split_ifs at hround with hr ha hbelow habove hstart hinside
  · -- an empty reserved region
    cases hround
    obtain ⟨ins, hinv⟩ := h hov
    exact ⟨ins, hinv.drop (Std.le_of_eq hr.symm)⟩
  · -- nothing is left of the available region
    cases hround
    obtain ⟨ins, hinv⟩ := h hov
    refine ⟨ins, hinv.skip hinv.avail.tail (hinv.below_tail) fun x _ => ?_⟩
    simp [notMem_of_stop_le ha]
  · -- the reserved region lies below
    obtain ⟨⟨b, st1⟩, hres, hround⟩ := bind_eq_ok hround
    cases hround
    obtain ⟨ins, hinv⟩ := h (reserveRegion_overflow hres hov)
    refine ⟨ins, hinv.reserve (fun x hx hxr => ?_) hres hov⟩
    rcases mem_cover_cons.mp hx with hx | hx
    · exact Std.lt_irrefl (Std.lt_of_lt_of_le hxr.2 (Std.le_trans hbelow hx.1))
    · have hle := hinv.avail.le_of_mem_cover hx
      have := hxr.2
      grind
  · -- the reserved region lies above
    obtain ⟨⟨b, st1⟩, hins, hround⟩ := bind_eq_ok hround
    cases hround
    obtain ⟨ins, hinv⟩ := h (insertRegion_overflow hins hov)
    refine ⟨ins ++ [a], hinv.insert (Std.not_le.mp ha) (fun i hi => hinv.below i hi a (by simp))
      hins hov hinv.avail.tail (hinv.below_snoc (Std.le_refl _)) fun x => ?_⟩
    have hfree : x ∈ a → x ∉ cover (r :: reserved) := fun hx =>
      hinv.reserved.notMem_of_lt (Std.lt_of_lt_of_le hx.2 habove)
    rw [mem_cover_cons]
    grind
  · -- the reserved region covers the start
    cases hround
    obtain ⟨ins, hinv⟩ := h hov
    refine ⟨ins, hinv.skip (hinv.avail.replace_head ?_ rfl) ?_ fun x hx => ?_⟩
    · unfold Valid minWord
      grind
    · intro i hi b hb
      have hia : i.stop ≤ a.start := hinv.below i hi a (.head _)
      rcases List.mem_cons.mp hb with rfl | hb
      · unfold Before minWord
        grind
      · exact hinv.below_tail i hi b hb
    · simp only [mem_cover_cons, mem_def] at hx ⊢
      unfold minWord
      grind
  · -- the reserved region starts inside and ends inside
    obtain ⟨_, -, ⟨b, st1⟩, hins, hround⟩ := bind2_eq_ok hround
    cases hround
    obtain ⟨ins, hinv⟩ := h (insertRegion_overflow hins hov)
    have hm : a.start < r.start := Std.not_le.mp hstart
    have hrest : Ordered (⟨r.stop, a.stop⟩ :: avail) := hinv.avail.replace_head (Std.le_of_lt hinside) rfl
    refine ⟨ins ++ [⟨a.start, r.start⟩], hinv.insert hm (fun i hi => hinv.below i hi a (by simp))
      hins hov hrest ?_ fun x => ?_⟩
    · intro i hi b hb
      rcases List.mem_cons.mp hb with rfl | hb
      · rcases List.mem_append.mp hi with hi | hi
        · have hia : i.stop ≤ a.start := hinv.below i hi a (.head _)
          unfold Before
          grind
        · obtain rfl := List.mem_singleton.mp hi
          exact hinv.reserved.head
      · exact hinv.below_snoc (Std.le_of_lt (Std.not_le.mp habove)) i hi b hb
    · have hfree : x < r.start → x ∉ cover (r :: reserved) := hinv.reserved.notMem_of_lt
      simp only [mem_cover_cons, mem_def] at hfree ⊢
      grind
  · -- the reserved region starts inside and ends outside
    obtain ⟨_, -, ⟨b, st1⟩, hins, hround⟩ := bind2_eq_ok hround
    cases hround
    obtain ⟨ins, hinv⟩ := h (insertRegion_overflow hins hov)
    have hm : a.start < r.start := Std.not_le.mp hstart
    refine ⟨ins ++ [⟨a.start, r.start⟩], hinv.insert hm (fun i hi => hinv.below i hi a (by simp))
      hins hov hinv.avail.tail (hinv.below_snoc (Std.le_of_lt (Std.not_le.mp habove))) fun x => ?_⟩
    have hfree : x < r.start → x ∉ cover (r :: reserved) := hinv.reserved.notMem_of_lt
    simp only [mem_cover_cons, mem_def] at hfree ⊢
    grind

/-- The sweep runs until one of the lists is used up. -/
theorem Carving.sweep {fuel : Nat} {s' : Sweep} (h : Carving cfg A₀ R₀ T₀ s)
    (hrun : sweep cfg fuel s = .ok s') :
    Carving cfg A₀ R₀ T₀ s' ∧ (s'.avail = [] ∨ s'.reserved = []) := by
  induction fuel generalizing s with
  | zero =>
    obtain ⟨avail, reserved, st⟩ := s
    rcases avail with _ | ⟨a, avail⟩ <;> rcases reserved with _ | ⟨r, reserved⟩ <;> cases hrun <;>
      exact ⟨h, by simp⟩
  | succ fuel ih =>
    obtain ⟨avail, reserved, st⟩ := s
    cases avail with
    | nil =>
      cases hrun
      exact ⟨h, .inl rfl⟩
    | cons a avail =>
      cases reserved with
      | nil =>
        cases hrun
        exact ⟨h, .inr rfl⟩
      | cons r reserved =>
        obtain ⟨s1, hround, hrun⟩ := bind_eq_ok hrun
        exact ih (h.round hround) hrun

/-! The rounds that are left: two for each region, and one if the next is to trim. -/

/-- The available region begins before the reserved one ends. -/
def Sweep.pending : Sweep → Nat
  | ⟨a :: _, r :: _, _⟩ => if a.start < a.stop ∧ a.start < r.stop then 1 else 0
  | _ => 0

/-- A bound on the rounds that are left. -/
def Sweep.rounds (s : Sweep) : Nat := 2 * (s.avail.length + s.reserved.length) + s.pending

theorem Sweep.pending_le (s : Sweep) : s.pending ≤ 1 := by
  unfold Sweep.pending
  split
  · split_ifs <;> omega
  · omega

theorem sweepRound_rounds (h : sweepRound cfg a avail r reserved st = .ok s) :
    s.rounds < Sweep.rounds ⟨a :: avail, r :: reserved, st⟩ := by
  -- a region has left one of the lists
  have hfewer : s.avail.length + s.reserved.length ≤ avail.length + reserved.length + 1 →
      s.rounds < Sweep.rounds ⟨a :: avail, r :: reserved, st⟩ := by
    have hle := s.pending_le
    simp only [Sweep.rounds, List.length_cons]
    omega
  unfold sweepRound at h
  split_ifs at h with hr ha hbelow habove hstart hinside
  · cases h
    exact hfewer (by simp; omega)
  · cases h
    exact hfewer (by simp; omega)
  · obtain ⟨_, -, h⟩ := bind_eq_ok h
    cases h
    exact hfewer (by simp; omega)
  · obtain ⟨_, -, h⟩ := bind_eq_ok h
    cases h
    exact hfewer (by simp; omega)
  · cases h
    simp only [Sweep.rounds, Sweep.pending, minWord, List.length_cons]
    grind
  · obtain ⟨_, -, _, -, h⟩ := bind2_eq_ok h
    cases h
    simp only [Sweep.rounds, Sweep.pending, List.length_cons]
    grind
  · obtain ⟨_, -, _, -, h⟩ := bind2_eq_ok h
    cases h
    exact hfewer (by simp; omega)

theorem reserveRegion_ne_fuel (reg : PRegion) (st : NdksBoot) :
    reserveRegion cfg reg st ≠ .error .fuel := by
  refine bind_ne_fuel (require_ne_fuel _) fun _ _ => ?_
  split_ifs
  · exact nofun
  · split <;> exact nofun

theorem insertRegion_ne_fuel (reg : Region) (st : NdksBoot) : insertRegion cfg reg st ≠ .error .fuel := by
  refine bind_ne_fuel (require_ne_fuel _) fun _ _ => ?_
  split_ifs
  · exact nofun
  · split
    · exact nofun
    · exact bind_ne_fuel (reserveRegion_ne_fuel _ _) fun _ _ => nofun

theorem sweepRound_ne_fuel (a r : Region) (avail reserved : List Region) (st : NdksBoot) :
    sweepRound cfg a avail r reserved st ≠ .error .fuel := by
  unfold sweepRound
  split_ifs
  · exact nofun
  · exact nofun
  · exact bind_ne_fuel (reserveRegion_ne_fuel _ _) fun _ _ => nofun
  · exact bind_ne_fuel (insertRegion_ne_fuel _ _) fun _ _ => nofun
  · exact nofun
  all_goals exact bind_ne_fuel (require_ne_fuel _) fun _ _ =>
    bind_ne_fuel (insertRegion_ne_fuel _ _) fun _ _ => nofun

theorem sweep_ne_fuel_of_rounds {fuel : Nat} (h : s.rounds ≤ fuel) : sweep cfg fuel s ≠ .error .fuel := by
  induction fuel generalizing s with
  | zero =>
    obtain ⟨avail, reserved, st⟩ := s
    cases avail with
    | nil => exact nofun
    | cons a avail => simp [Sweep.rounds] at h
  | succ fuel ih =>
    obtain ⟨avail, reserved, st⟩ := s
    cases avail with
    | nil => exact nofun
    | cons a avail =>
      cases reserved with
      | nil => exact nofun
      | cons r reserved =>
        refine bind_ne_fuel (sweepRound_ne_fuel a r avail reserved st) fun s1 hround => ih ?_
        have := sweepRound_rounds hround
        omega

/-- The bound that `init_freemem` is modelled with is enough. -/
theorem sweep_ne_fuel (avail reserved : List Region) (st : NdksBoot) :
    sweep cfg (sweepBound avail reserved) ⟨avail, reserved, st⟩ ≠ .error .fuel := by
  apply sweep_ne_fuel_of_rounds
  have := Sweep.pending_le ⟨avail, reserved, st⟩
  unfold Sweep.rounds sweepBound
  dsimp only
  omega

/-- With no available region left, the other reserved regions enter the table. -/
theorem Carving.reserveRest (h : Carving cfg A₀ R₀ T₀ ⟨[], reserved, st⟩)
    (hrun : reserveRest cfg reserved st = .ok st') : Carving cfg A₀ R₀ T₀ ⟨[], [], st'⟩ := by
  induction reserved generalizing st with
  | nil =>
    cases hrun
    exact h
  | cons r reserved ih =>
    unfold reserveRest at hrun
    split_ifs at hrun with hr
    · obtain ⟨⟨b, st1⟩, hres, hrun⟩ := bind_eq_ok hrun
      refine ih (fun hov => ?_) hrun
      obtain ⟨ins, hinv⟩ := h (reserveRegion_overflow hres hov)
      exact ⟨ins, hinv.reserve (fun x hx => absurd hx notMem_cover_nil) hres hov⟩
    · refine ih (fun hov => ?_) hrun
      obtain ⟨ins, hinv⟩ := h hov
      exact ⟨ins, hinv.drop (Std.not_lt.mp hr)⟩

/-- With no reserved region left, the other available regions are inserted. -/
theorem Carving.insertRest (h : Carving cfg A₀ R₀ T₀ ⟨avail, [], st⟩)
    (hrun : insertRest cfg avail st = .ok st') : Carving cfg A₀ R₀ T₀ ⟨[], [], st'⟩ := by
  induction avail generalizing st with
  | nil =>
    cases hrun
    exact h
  | cons a avail ih =>
    unfold insertRest at hrun
    split_ifs at hrun with ha
    · obtain ⟨⟨b, st1⟩, hins, hrun⟩ := bind_eq_ok hrun
      refine ih (fun hov => ?_) hrun
      obtain ⟨ins, hinv⟩ := h (insertRegion_overflow hins hov)
      refine ⟨ins ++ [a], hinv.insert ha (fun i hi => hinv.below i hi a (by simp)) hins hov
        hinv.avail.tail (hinv.below_snoc (Std.le_refl _)) fun x => ?_⟩
      simp
    · refine ih (fun hov => ?_) hrun
      obtain ⟨ins, hinv⟩ := h hov
      refine ⟨ins, hinv.skip hinv.avail.tail hinv.below_tail fun x _ => ?_⟩
      simp [notMem_of_stop_le (Std.not_lt.mp ha)]

end Sweep

/-- **The two tables after the loops**: the inserted regions are the available memory in the window
without the reserved regions, and the table has both. -/
theorem carve_spec {available : List PRegion} {reserved : List Region}
    (havail : Ordered available) (hres : Ordered reserved) (hvalid : ∀ q ∈ st.reserved, q.Valid)
    (h : carve cfg available reserved st = .ok st') (hov : st'.overflow = false) :
    ∃ ins, CarveInv cfg (available.map (availReg cfg)) reserved st.reserved ins ⟨[], [], st'⟩ := by
  obtain ⟨s, hsweep, st1, hrest, h⟩ := bind2_eq_ok h
  have hinit : ∀ overflow, Carving cfg (available.map (availReg cfg)) reserved st.reserved
      ⟨available.map (availReg cfg), reserved,
        { st with freemem := .replicate cfg.maxNumFreememReg regEmpty, overflow := overflow }⟩ := by
    intro overflow _
    refine ⟨[], ordered_availReg havail, hres, ⟨by simp, .nil, _, rfl, ?_⟩, by simp,
      by simp, hvalid, fun x => by simp, fun p => by simp⟩
    intro f hf
    obtain rfl := List.eq_of_mem_replicate hf
    rfl
  obtain ⟨hcarve, hend⟩ := (hinit _).sweep hsweep
  obtain ⟨avail', reserved', st2⟩ := s
  rcases hend with rfl | rfl
  · exact ((hcarve.reserveRest hrest).insertRest h) hov
  · cases hrest
    exact (hcarve.insertRest h) hov

end SeL4.Boot
