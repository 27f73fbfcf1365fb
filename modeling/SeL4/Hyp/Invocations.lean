import SeL4.Hyp.VcpuVirtual

/-!
# What `SetTCB` and `InjectIRQ` do to a virtual machine

`dissociateVCPUTCB` calls `vcpu_invalidate_active`, which saves nothing, and `associateVCPUTCB` calls it
for up to two pairs. So `SetTCB`, and the deletion of a thread, keep every register of every virtual
machine unless the VCPU that is loaded is one of those dissociated (`rebinding_keeps_guest`). Then it is
left with what its object had from the last save, also where it is bound to the same thread again
(`rebinding_same_thread_loses`).

`decodeVCPUInjectIRQ` refuses a list register that is in use. It looks at the copy in the object only,
and there for an active entry only, and so does what it should exactly where that copy is active if and
only if the list register is not empty (`inject_refused_iff`).
-/

namespace SeL4.Hyp.VcpuSys

open SeL4.Lib Function

variable {cfg : VcpuConfig} {s s' : VcpuSys cfg}

/-! ## `SetTCB` and the deletion of a thread -/

/-- What is in the hardware only is forgotten. -/
def unload (s : VcpuSys cfg) : VcpuSys cfg := { s with armHSCurVCPU := none, armHSVCPUActive := false }

/-- Thread `t` has the VCPU that is loaded. -/
def HasLoaded (s : VcpuSys cfg) (t : Word) : Prop := s.armHSCurVCPU ≠ none ∧ s.tcbVCPU t = s.armHSCurVCPU

/-- `associateVCPUTCB(v, t)` dissociates the VCPU that is loaded. -/
def Drops (s : VcpuSys cfg) (v t : Word) : Prop :=
  s.HasLoaded t ∨ (s.vcpuTCB v ≠ none ∧ s.armHSCurVCPU = some v)

instance decidableHasLoaded (t : Word) : Decidable (s.HasLoaded t) := inferInstanceAs (Decidable (_ ∧ _))

instance decidableDrops (v t : Word) : Decidable (s.Drops v t) := inferInstanceAs (Decidable (_ ∨ _))

/-- Up to bindings `s'` is `s` with the loaded VCPU dropped if `p`. -/
structure Dropped (s s' : VcpuSys cfg) (p : Prop) : Prop where
  vcpu : s'.vcpu = s.vcpu
  gone : p → s'.armHSCurVCPU = none
  kept : ¬ p → s'.hw = s.hw ∧ s'.armHSCurVCPU = s.armHSCurVCPU ∧ s'.armHSVCPUActive = s.armHSVCPUActive

theorem Dropped.copy {p : Prop} [Decidable p] (h : Dropped s s' p) (x : Word)
    (r : CtxReg cfg.numListRegs) : s'.copy x r = (if p then s.unload else s).copy x r := by
  by_cases hp : p
  · simp [hp, VcpuSys.copy, owner, unload, h.vcpu, h.gone hp]
  · obtain ⟨hhw, hcur, hact⟩ := h.kept hp
    simp [hp, VcpuSys.copy, owner, h.vcpu, hhw, hcur, hact]

theorem Dropped.trans {s1 : VcpuSys cfg} {p q : Prop} (h : Dropped s s1 p) (h1 : Dropped s1 s' q) :
    Dropped s s' (p ∨ q) := by
  refine ⟨h1.vcpu.trans h.vcpu, fun hpq => ?_, fun hpq => ?_⟩
  · by_cases hq : q
    · exact h1.gone hq
    · exact (h1.kept hq).2.1.trans (h.gone (hpq.resolve_right hq))
  · obtain ⟨hp, hq⟩ := not_or.mp hpq
    obtain ⟨hhw, hcur, hact⟩ := h.kept hp
    obtain ⟨hhw1, hcur1, hact1⟩ := h1.kept hq
    exact ⟨hhw1.trans hhw, hcur1.trans hcur, hact1.trans hact⟩

theorem Dropped.congr {p q : Prop} (h : Dropped s s' p) (hpq : p ↔ q) : Dropped s s' q :=
  ⟨h.vcpu, fun hq => h.gone (hpq.mpr hq), fun hq => h.kept (mt hpq.mp hq)⟩

/-- The thread of a VCPU that is loaded, and is not that of `t`, stays the same. -/
theorem vcpuTCB_dissociateTcb {v t : Word} (hn : ¬ s.HasLoaded t) (hl : s.armHSCurVCPU = some v) :
    (s.dissociateTcb t).vcpuTCB v = s.vcpuTCB v := by
  unfold dissociateTcb dissociateVCPUTCB
  cases ht : s.tcbVCPU t with
  | none => rfl
  | some u =>
    have hu : u ≠ v := by
      rintro rfl
      exact hn ⟨hl ▸ nofun, ht.trans hl.symm⟩
    have hl' : s.armHSCurVCPU ≠ some u := fun h => hu (Option.mem_unique h hl)
    simp [hl', Ne.symm hu]

section

variable (s) (v t : Word)

theorem dropped_dissociate : Dropped s (s.dissociateVCPUTCB v t) (s.armHSCurVCPU = some v) := by
  unfold dissociateVCPUTCB vcpuInvalidateActive
  by_cases hl : s.armHSCurVCPU = some v
  · rw [if_pos hl]
    refine ⟨?_, fun _ => rfl, fun h => absurd hl h⟩
    split_ifs <;> rfl
  · rw [if_neg hl]
    exact ⟨rfl, fun h => absurd h hl, fun _ => ⟨rfl, rfl, rfl⟩⟩

theorem dropped_dissociateTcb : Dropped s (s.dissociateTcb t) (s.HasLoaded t) := by
  unfold dissociateTcb HasLoaded
  cases ht : s.tcbVCPU t with
  | none => exact ⟨rfl, fun h => absurd h.2.symm h.1, fun _ => ⟨rfl, rfl, rfl⟩⟩
  | some u =>
    refine (dropped_dissociate s u t).congr ⟨fun h => ?_, fun h => h.2.symm⟩
    rw [h]
    exact ⟨nofun, rfl⟩

theorem dropped_dissociateVcpu :
    Dropped s (s.dissociateVcpu v) (s.vcpuTCB v ≠ none ∧ s.armHSCurVCPU = some v) := by
  unfold dissociateVcpu
  cases hv : s.vcpuTCB v with
  | none => exact ⟨rfl, fun h => absurd rfl h.1, fun _ => ⟨rfl, rfl, rfl⟩⟩
  | some u => exact (dropped_dissociate s v u).congr ⟨fun h => ⟨nofun, h⟩, And.right⟩

theorem dropped_bind :
    Dropped s (((s.dissociateTcb t).dissociateVcpu v).bind v t) (s.Drops v t) := by
  have h := dropped_dissociateTcb s t
  have h2 := (h.trans (dropped_dissociateVcpu (s.dissociateTcb t) v)).congr
    (q := s.Drops v t) (or_congr_right' fun hn => ?_)
  · exact ⟨h2.vcpu, h2.gone, h2.kept⟩
  · rw [(h.kept hn).2.1]
    exact and_congr_left fun hl => by rw [vcpuTCB_dissociateTcb hn hl]

/-- The switch at the end of `associateVCPUTCB` moves copies only. -/
theorem copy_associate (x : Word) {r : CtxReg cfg.numListRegs} (hr : Tracked r) :
    norm cfg r ((s.associateVCPUTCB v t).copy x r) =
      norm cfg r ((if s.Drops v t then s.unload else s).copy x r) := by
  rw [← (dropped_bind s v t).copy]
  unfold associateVCPUTCB
  dsimp only
  split_ifs
  · exact copy_vcpuSwitchTo _ v x hr
  · rfl

end

/-- `ReadReg` returns the same, and the same is loaded when the virtual machine runs. -/
def SameGuest (s s' : VcpuSys cfg) (x : Word) : Prop :=
  (∀ r : VcpuReg, Tracked (.reg r : CtxReg cfg.numListRegs) →
    norm cfg (.reg r) (s'.readVCPUReg x r) = norm cfg (.reg r) (s.readVCPUReg x r)) ∧
  ∀ r : CtxReg cfg.numListRegs, Tracked r →
    norm cfg r ((s'.vcpuSwitchTo x).hw.val r) = norm cfg r ((s.vcpuSwitchTo x).hw.val r)

theorem val_vcpuSwitchTo (s : VcpuSys cfg) (x : Word) {r : CtxReg cfg.numListRegs} (hr : Tracked r) :
    norm cfg r ((s.vcpuSwitchTo x).hw.val r) = norm cfg r (s.copy x r) := by
  obtain ⟨hl, hact⟩ := vcpuSwitchTo_loaded s x
  rw [← copy_vcpuSwitchTo s x x hr]
  simp [copy, owner, hl, hact]

theorem sameGuest_of_copy {x : Word}
    (h : ∀ r : CtxReg cfg.numListRegs, Tracked r → norm cfg r (s'.copy x r) = norm cfg r (s.copy x r)) :
    SameGuest s s' x := by
  refine ⟨fun r hr => ?_, fun r hr => ?_⟩
  · rw [readVCPUReg_copy, readVCPUReg_copy, h _ hr]
  · rw [val_vcpuSwitchTo s' x hr, val_vcpuSwitchTo s x hr, h r hr]

/-- **Rebinding keeps the guest** unless it dissociates the VCPU that is loaded: then what is not in
memory is lost, and nothing else. The same for the deletion of a thread `u`, which is `dissociateTcb`,
before `SetTCB`. -/
theorem rebinding_keeps_guest (s : VcpuSys cfg) (v t u x : Word) :
    SameGuest (if s.Drops v t then s.unload else s) (s.associateVCPUTCB v t) x ∧
    SameGuest (if s.HasLoaded u ∨ (s.dissociateTcb u).Drops v t then s.unload else s)
      ((s.dissociateTcb u).associateVCPUTCB v t) x := by
  refine ⟨sameGuest_of_copy fun r hr => copy_associate s v t x hr, sameGuest_of_copy fun r hr => ?_⟩
  have h := (dropped_dissociateTcb s u).trans (dropped_bind (s.dissociateTcb u) v t)
  rw [copy_associate _ v t x hr, ← h.copy, ← (dropped_bind (s.dissociateTcb u) v t).copy]

/-- Thread 1 runs with VCPU 16, its virtual machine sets `TTBR0`, and VCPU 16 is bound to thread 1
again: `TTBR0` is lost. -/
theorem rebinding_same_thread_loses :
    (runFrom next zeroBoot [.setTCB 16 1, .switchToThread 1, .exit, setTables, .enter]).map (fun s =>
      (s.tcbVCPU 1, s.readVCPUReg 16 .ttbr0, (s.associateVCPUTCB 16 1).readVCPUReg 16 .ttbr0)) =
      some (some 16, 7, 0) := by
  decide +kernel

/-! ## `InjectIRQ` -/

/-- The first message register of an invocation whose arguments are in range, for list register `i`. -/
structure ValidInject (cfg : VcpuConfig) (mr0 : Word) (i : Fin cfg.numListRegs) : Prop where
  vid : (mr0 &&& 0xffff).toNat ≤ 2 ^ 10 - 1
  priority : ((mr0 >>> 16) &&& 0xff).toNat ≤ 31
  group : ((mr0 >>> 24) &&& 0xff).toNat ≤ 1
  index : ((mr0 >>> 32) &&& 0xff).toNat = i

/-- The pending entry that the message asks for. -/
def requested (cfg : VcpuConfig) (mr0 : Word) : Word :=
  virqPendingNew cfg ((mr0 >>> 24) &&& 0xff) ((mr0 >>> 16) &&& 0xff) (mr0 &&& 0xffff)

/-- `decodeVCPUInjectIRQ` with `invokeVCPUInjectIRQ`: the error, if any, and the state after it. -/
def vcpuInjectIRQ (s : VcpuSys cfg) (v : Word) (length : Nat) (mr0 : Word) :
    Option VcpuError × VcpuSys cfg :=
  match s.decodeVCPUInjectIRQ v length mr0 with
  | .ok (i, virq) => (none, s.injectIRQ v i virq)
  | .error e => (some e, s)

/-- In range, only the copy in memory decides. -/
theorem vcpuInjectIRQ_valid {mr0 : Word} {i : Fin cfg.numListRegs} (h : ValidInject cfg mr0 i)
    (s : VcpuSys cfg) (v : Word) (length : Nat) : s.vcpuInjectIRQ v (length + 1) mr0 =
      if virqType cfg ((s.vcpu v).vgic.lr i) = 2 then (some .deleteFirst, s)
      else (none, s.injectIRQ v i (requested cfg mr0)) := by
  have hlt : ((mr0 >>> 32) &&& 0xff).toNat < cfg.numListRegs := h.index ▸ i.isLt
  have hi : (⟨_, hlt⟩ : Fin cfg.numListRegs) = i := Fin.ext h.index
  unfold vcpuInjectIRQ decodeVCPUInjectIRQ
  simp only [Nat.not_lt.mpr h.vid, Nat.not_lt.mpr h.priority, Nat.not_lt.mpr h.group,
    Nat.not_lt.mpr (Nat.le_add_left 1 length), if_false, hlt, dif_pos, hi]
  split_ifs <;> rfl

/-- **Injecting an interrupt discards none** where the copy in memory is active if and only if the list
register, in hardware or in memory, is not empty: only then it succeeds for an empty list register and
makes it the pending entry that is asked for, and fails with `DeleteFirst` for any other and changes
nothing. -/
theorem inject_refused_iff {mr0 : Word} {i : Fin cfg.numListRegs} (h : ValidInject cfg mr0 i)
    (s : VcpuSys cfg) (v : Word) (length : Nat) : (if virqType cfg (s.copy v (.lr i)) = 0 then
      (s.vcpuInjectIRQ v (length + 1) mr0).1 = none ∧
        norm cfg (.lr i) ((s.vcpuInjectIRQ v (length + 1) mr0).2.copy v (.lr i)) =
          norm cfg (.lr i) (requested cfg mr0)
    else s.vcpuInjectIRQ v (length + 1) mr0 = (some .deleteFirst, s)) ↔
      (virqType cfg ((s.vcpu v).vgic.lr i) = 2 ↔ virqType cfg (s.copy v (.lr i)) ≠ 0) := by
  have hcopy := copy_injectIRQ s v i (requested cfg mr0) v (r := .lr i) trivial
  rw [vcpuInjectIRQ_valid h]
  by_cases hshadow : virqType cfg ((s.vcpu v).vgic.lr i) = 2
  · simp only [hshadow, true_iff]
    by_cases hlr : virqType cfg (s.copy v (.lr i)) = 0 <;> simp [hlr]
  · simp only [hshadow, false_iff]
    by_cases hlr : virqType cfg (s.copy v (.lr i)) = 0 <;> simp [hlr, hcopy]

def firstLr : Fin gicV2Config.numListRegs := ⟨0, Nat.one_pos⟩

theorem inject_refused_iff_empty :
    ValidInject gicV2Config 5 firstLr ∧ (zeroBoot.vcpuInjectIRQ 16 1 5).1 = none := by
  have h : ValidInject gicV2Config 5 firstLr := ⟨by decide, by decide, by decide, by decide⟩
  have hiff := (inject_refused_iff h zeroBoot 16 0).mpr (by decide +kernel)
  exact ⟨h, hiff.1⟩

/-- A second injection into the same list register of VCPU 16 replaces interrupt 5, which is pending. And
for a VCPU that is loaded, an entry that its virtual machine has made active is replaced, as the copy in
memory is older. -/
theorem inject_overwrites_pending_and_active : (runFrom next zeroBoot [.injectIRQ 16 1 5]).map (fun s =>
      (virqType gicV2Config (s.copy 16 (.lr firstLr)), (s.vcpuInjectIRQ 16 1 6).1,
        (s.vcpuInjectIRQ 16 1 6).2.copy 16 (.lr firstLr) &&& mask 10)) = some (1, none, 6) ∧
    (runFrom next zeroBoot [.setTCB 16 1, .switchToThread 1, .exit,
      .guest (fun _ => 0) ⟨1, 0, 0, fun _ => 2#64 <<< 28 ||| 5⟩, .enter]).map (fun s =>
      (virqType gicV2Config (s.copy 16 (.lr firstLr)), (s.vcpuInjectIRQ 16 1 6).1,
        (s.vcpuInjectIRQ 16 1 6).2.copy 16 (.lr firstLr) &&& mask 10)) = some (2, none, 6) := by
  decide +kernel

end SeL4.Hyp.VcpuSys
