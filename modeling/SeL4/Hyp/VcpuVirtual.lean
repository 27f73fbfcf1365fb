import SeL4.Hyp.VcpuContext

/-!
# Each virtual machine has its registers to itself

Whatever is switched, flushed, read or written, a thread with a VCPU finds in the hardware the context
of its virtual machine, `ReadReg` returns it, and a thread without a VCPU runs with the virtual GIC and
the MMU of stage 1 off (`vcpu_context_virtualised`).

The invariant `VcpuSysInv` says that the copy of each register that counts has the value of the context.
What the functions do to the copies is said register by register, once for each function of `Machine`:
`vcpuSave_val`, `vcpuRestore_hw`, `vcpuEnable_hw`, `vcpuDisable_vcpu` and so on. From these,
`moves_vcpuSwitchTo`, `moves_vcpuSwitchNull` and `moves_vcpuFlush` say that no copy that counts is lost.

`SetTCB` is the exception: `dissociateVCPUTCB` drops what is loaded without saving it. A VCPU that is
not loaded loses nothing, but if it is bound to a thread that has another VCPU, and that one is loaded,
then the context of the other one is lost (`rebound_thread_loses_context`).
-/

namespace SeL4.Hyp

open SeL4.Lib Function

variable {cfg : VcpuConfig}

namespace VcpuSys

variable {r : CtxReg cfg.numListRegs}

theorem norm_hwRead (r : VcpuReg) (x : Word) : norm cfg (.reg r) (hwRead r x) = norm cfg (.reg r) x := by
  cases r <;> first | rfl | exact low32_low32 x

/-- The status bit of `CNTV_CTL` is not one of those that can be written. -/
theorem ctl_and_or (x old : Word) : ((x &&& 3) ||| (old &&& 4)) &&& 3 = x &&& 3 := by
  have h34 : (4 : Word) &&& 3 = 0#64 := by decide
  have h33 : (3 : Word) &&& 3 = 3 := by decide
  rw [BitVec.and_comm, BitVec.and_or_distrib_left, BitVec.and_comm 3, BitVec.and_comm 3,
    BitVec.and_assoc, BitVec.and_assoc, h33, h34, BitVec.and_zero, BitVec.or_zero]

theorem norm_hwWrite {r : VcpuReg} (h : r ≠ .isr) (old x : Word) :
    norm cfg (.reg r) (hwWrite r old x) = norm cfg (.reg r) x := by
  cases r
  case isr => exact absurd rfl h
  case cntvCTL => exact ctl_and_or x old
  all_goals first | rfl | exact low32_low32 x

end VcpuSys

namespace Machine

open VcpuSys

variable (m : Machine cfg)

/-! ## What the functions on one VCPU do, register by register

Each of them moves a fixed list of registers one after the other, so what becomes of a given register is
computed. -/

theorem saveRegRange_hw : m.saveRegRange.hw = m.hw := by
  suffices h : ∀ l : List VcpuReg, (l.foldl saveReg m).hw = m.hw from h _
  intro l
  induction l generalizing m with
  | nil => rfl
  | cons r l ih => exact ih (m.saveReg r)

theorem vcpuSave_false_hw : (m.vcpuSave false).hw = m.hw := saveRegRange_hw _

theorem vcpuSave_regs (active : Bool) (r : VcpuReg) : (m.vcpuSave active).vcpu.regs r =
    if r.savedWhenDisabled && !active then m.vcpu.regs r else hwRead r (m.hw.regs r) := by
  cases active <;> cases r <;> rfl

/-- The virtual GIC is copied but for `HCR`, which is for an active VCPU only. -/
theorem vcpuSave_vgic (active : Bool) : (m.vcpuSave active).vcpu.vgic =
    ⟨if active then m.hw.vgic.hcr else m.vcpu.vgic.hcr, m.hw.vgic.vmcr, m.hw.vgic.apr, m.hw.vgic.lr⟩ := by
  cases active <;> rfl

variable {r : CtxReg cfg.numListRegs}

/-- **`vcpu_save`** saves every register, but not those of a disabled VCPU that it has saved before. -/
theorem vcpuSave_val (active : Bool) : norm cfg r ((m.vcpuSave active).vcpu.val r) =
    if onDisable r && !active then norm cfg r (m.vcpu.val r) else norm cfg r (m.hw.val r) := by
  cases r with
  | reg r =>
    show norm cfg (.reg r) ((m.vcpuSave active).vcpu.regs r) = _
    rw [vcpuSave_regs, apply_ite (norm cfg (.reg r)), norm_hwRead]
    rfl
  | _ => cases active <;> simp [Vcpu.val, VcpuHw.val, vcpuSave_vgic, onDisable]

theorem vcpuEnable_regs {r : VcpuReg} (h : r ≠ .isr ∧ r ≠ .cntvOFF) : m.vcpuEnable.hw.regs r =
    if r.savedWhenDisabled then hwWrite r (m.hw.regs r) (m.vcpu.regs r) else m.hw.regs r := by
  cases r <;> first | rfl | exact absurd rfl h.1 | exact absurd rfl h.2

/-- **`vcpu_enable`** restores what was saved when the VCPU was disabled, and nothing else. -/
theorem vcpuEnable_hw (hr : Tracked r) : norm cfg r (m.vcpuEnable.hw.val r) =
      if onDisable r then norm cfg r (m.vcpu.val r) else norm cfg r (m.hw.val r) := by
  cases r with
  | reg r =>
    show norm cfg (.reg r) (m.vcpuEnable.hw.regs r) = _
    rw [vcpuEnable_regs m hr, apply_ite (norm cfg (.reg r)), norm_hwWrite hr.1]
    rfl
  | _ => rfl

theorem lrWrite_lrWrite (cfg : VcpuConfig) (x : Word) : lrWrite cfg (lrWrite cfg x) = lrWrite cfg x := by
  unfold lrWrite
  split_ifs <;> simp

theorem vcpuRestore_regs {r : VcpuReg} (h : r ≠ .isr ∧ r ≠ .cntvOFF) :
    m.vcpuRestore.hw.regs r = hwWrite r (m.hw.regs r) (m.vcpu.regs r) := by
  cases r <;> first | rfl | exact absurd rfl h.1 | exact absurd rfl h.2

/-- **`vcpu_restore`** restores every register of the context. -/
theorem vcpuRestore_hw (hr : Tracked r) :
    norm cfg r (m.vcpuRestore.hw.val r) = norm cfg r (m.vcpu.val r) := by
  cases r with
  | reg r =>
    show norm cfg (.reg r) (m.vcpuRestore.hw.regs r) = _
    rw [vcpuRestore_regs m hr, norm_hwWrite hr.1]
    rfl
  | lr i => exact lrWrite_lrWrite cfg _
  | _ => rfl

theorem native_native (hw : VcpuHw cfg) : Native hw.native := by
  refine ⟨rfl, ?_, rfl⟩
  simp [VcpuHw.native, VcpuHw.enableFpuEL01, VcpuHw.writeReg, VcpuHw.setVgicHcr, hwWrite, VcpuReg.is32]

/-- **`vcpu_disable`** saves exactly the registers that it is said to save. -/
theorem vcpuDisable_vcpu (r : CtxReg cfg.numListRegs) : norm cfg r (m.vcpuDisable.vcpu.val r) =
      if onDisable r then norm cfg r (m.hw.val r) else norm cfg r (m.vcpu.val r) := by
  cases r with
  | reg r =>
    have hregs : m.vcpuDisable.vcpu.regs r =
        if r.savedWhenDisabled then hwRead r (m.hw.regs r) else m.vcpu.regs r := by cases r <;> rfl
    show norm cfg (.reg r) (m.vcpuDisable.vcpu.regs r) = _
    rw [hregs, apply_ite (norm cfg (.reg r)), norm_hwRead]
    rfl
  | _ => rfl

theorem vcpuDisable_hw (hd : onDisable r = false) : m.vcpuDisable.hw.val r = m.hw.val r := by
  cases r with
  | reg r => cases r <;> first | rfl | cases hd
  | hcr => cases hd
  | _ => rfl

theorem vcpuDisable_native : Native m.vcpuDisable.hw := ⟨rfl, (native_native m.hw).sctlr, rfl⟩

end Machine

namespace VcpuSys

variable {s s' : VcpuSys cfg} {t v : Word}

/-! ## The copies that count -/

/-- Once the loaded VCPU is saved, memory has the copy that counts of every register. -/
theorem saveLoaded_mem (s : VcpuSys cfg) (w : Word) (r : CtxReg cfg.numListRegs) :
    norm cfg r ((s.saveLoaded.vcpu w).val r) = norm cfg r (s.copy w r) := by
  unfold saveLoaded copy owner
  cases hl : s.armHSCurVCPU with
  | none => simp
  | some u =>
    by_cases hw : w = u
    · subst hw
      have hsave := Machine.vcpuSave_val ⟨s.hw, s.vcpu w⟩ (r := r) s.armHSVCPUActive
      by_cases hd : (onDisable r && !s.armHSVCPUActive) = true <;> simpa [onVcpu, hd] using hsave
    · have hne : ¬ u = w := fun h => hw h.symm
      simp [onVcpu, hw, hne]

/-- Where the contexts are, and which VCPU belongs to which thread. -/
structure Placed (s : VcpuSys cfg) : Prop where
  value : ∀ v r, Tracked r → norm cfg r (s.copy v r) = s.ctx v r
  loaded : s.armHSVCPUActive = true → s.armHSCurVCPU ≠ none
  native : s.armHSVCPUActive = false → Native s.hw
  inverse : ∀ t v, s.tcbVCPU t = some v ↔ s.vcpuTCB v = some t

/-- The invariant: the current thread has its context in the hardware, unless the kernel is about to
switch. -/
structure VcpuSysInv (s : VcpuSys cfg) : Prop extends Placed s where
  cur : s.mustSwitch = false → ∀ v, s.ksCurThread.bind s.tcbVCPU = some v →
    s.armHSCurVCPU = some v ∧ s.armHSVCPUActive = true
  curNone : s.mustSwitch = false → s.ksCurThread.bind s.tcbVCPU = none → s.armHSVCPUActive = false
  user : s.inKernel = false → s.mustSwitch = false

/-- Only the hardware, the VCPU objects and what is loaded differ, and no copy that counts is lost. -/
structure Moves (s s' : VcpuSys cfg) : Prop where
  copy : ∀ v r, Tracked r → norm cfg r (s'.copy v r) = norm cfg r (s.copy v r)
  loaded : s'.armHSVCPUActive = true → s'.armHSCurVCPU ≠ none
  native : s'.armHSVCPUActive = false → Native s'.hw
  tcbVCPU : s'.tcbVCPU = s.tcbVCPU
  vcpuTCB : s'.vcpuTCB = s.vcpuTCB
  cur : s'.ksCurThread = s.ksCurThread
  inKernel : s'.inKernel = s.inKernel
  mustSwitch : s'.mustSwitch = s.mustSwitch
  ctx : s'.ctx = s.ctx

theorem Moves.refl (h : Placed s) : Moves s s :=
  ⟨fun _ _ _ => rfl, h.loaded, h.native, rfl, rfl, rfl, rfl, rfl, rfl⟩

section

variable (s v)

theorem saveLoaded_fields : s.saveLoaded.tcbVCPU = s.tcbVCPU ∧
    s.saveLoaded.vcpuTCB = s.vcpuTCB ∧ s.saveLoaded.ksCurThread = s.ksCurThread ∧
    s.saveLoaded.inKernel = s.inKernel ∧ s.saveLoaded.mustSwitch = s.mustSwitch ∧
    s.saveLoaded.ctx = s.ctx ∧ s.saveLoaded.armHSVCPUActive = s.armHSVCPUActive := by
  unfold saveLoaded
  split <;> exact ⟨rfl, rfl, rfl, rfl, rfl, rfl, rfl⟩

theorem vcpuSwitchTo_loaded :
    (s.vcpuSwitchTo v).armHSCurVCPU = some v ∧ (s.vcpuSwitchTo v).armHSVCPUActive = true := by
  unfold vcpuSwitchTo
  split_ifs with hne hact
  · exact ⟨rfl, rfl⟩
  · exact ⟨not_not.mp hne, hact⟩
  · exact ⟨not_not.mp hne, rfl⟩

/-- **`vcpu_switch`** to a VCPU loses no copy that counts. -/
theorem copy_vcpuSwitchTo (w : Word) (hr : Tracked r) :
    norm cfg r ((s.vcpuSwitchTo v).copy w r) = norm cfg r (s.copy w r) := by
  unfold vcpuSwitchTo
  split_ifs with hne hact
  · refine .trans ?_ (saveLoaded_mem s w r)
    by_cases hw : v = w
    · subst hw
      simpa [copy, owner, onVcpu] using Machine.vcpuRestore_hw ⟨s.saveLoaded.hw, s.saveLoaded.vcpu v⟩ hr
    · simp [copy, owner, onVcpu, hw, Ne.symm hw]
  · rfl
  · have hl := not_not.mp hne
    by_cases hw : v = w
    · subst hw
      have hen := Machine.vcpuEnable_hw ⟨s.hw, s.vcpu v⟩ hr
      cases hd : onDisable r <;> simpa [copy, owner, onVcpu, hl, hact, hd] using hen
    · simp [copy, owner, onVcpu, hl, hw, Ne.symm hw]

theorem moves_vcpuSwitchTo : Moves s (s.vcpuSwitchTo v) := by
  obtain ⟨hl, hact⟩ := vcpuSwitchTo_loaded s v
  obtain ⟨htcb, hvcpu, hcur, hker, hmust, hctx, -⟩ := saveLoaded_fields s
  refine ⟨fun w r hr => copy_vcpuSwitchTo s v w hr, fun _ => hl ▸ nofun,
    fun hf => absurd (hact.symm.trans hf) nofun, ?_, ?_, ?_, ?_, ?_, ?_⟩ <;>
  · unfold vcpuSwitchTo
    split_ifs
    · assumption
    · rfl
    · rfl

/-- `readVCPUReg` reads the copy that counts. -/
theorem readVCPUReg_copy (r : VcpuReg) :
    norm cfg (.reg r) (s.readVCPUReg v r) = norm cfg (.reg r) (s.copy v (.reg r)) := by
  unfold readVCPUReg copy owner
  by_cases hl : s.armHSCurVCPU = some v
  · by_cases hd : (r.savedWhenDisabled && !s.armHSVCPUActive) = true
    · simp [hl, onDisable, hd, Vcpu.val]
    · simp only [hl, onDisable, hd, if_true, Bool.false_eq_true, if_false]
      exact norm_hwRead r _
  · simp [hl, Vcpu.val]

/-- `writeVCPUReg` decides by the place of the copy that counts. -/
theorem writeVCPUReg_eq (r : VcpuReg) (x : Word) : s.writeVCPUReg v r x =
    if s.owner (.reg r) = some v then { s with hw := s.hw.writeReg r x } else s.writeMem v r x := by
  unfold writeVCPUReg owner onDisable
  by_cases hl : s.armHSCurVCPU = some v <;>
    by_cases hd : (r.savedWhenDisabled && !s.armHSVCPUActive) = true <;> simp [hl, hd]

end

/-- **`vcpu_switch(NULL)`**: the VCPU stays loaded and is disabled. -/
theorem moves_vcpuSwitchNull (h : Placed s) :
    Moves s s.vcpuSwitchNull ∧ s.vcpuSwitchNull.armHSVCPUActive = false := by
  unfold vcpuSwitchNull
  cases hl : s.armHSCurVCPU with
  | none =>
    have hact : s.armHSVCPUActive = false := Bool.eq_false_iff.mpr fun ha => h.loaded ha hl
    exact ⟨.refl h, hact⟩
  | some u =>
    split_ifs with hact
    · refine ⟨⟨fun w r hr => ?_, nofun, fun _ => ?_, rfl, rfl, rfl, rfl, rfl, rfl⟩, rfl⟩
      · by_cases hw : u = w
        · subst hw
          have hmem := Machine.vcpuDisable_vcpu ⟨s.hw, s.vcpu u⟩ r
          cases hd : onDisable r with
          | true => simpa [copy, owner, onVcpu, hl, hact, hd] using hmem
          | false =>
            have hhw := Machine.vcpuDisable_hw ⟨s.hw, s.vcpu u⟩ hd
            simp [copy, owner, onVcpu, hl, hd, hhw]
        · have hw' : w ≠ u := fun h => hw h.symm
          cases hd : onDisable r <;> simp [copy, owner, onVcpu, hl, hact, hd, hw, hw']
      · exact Machine.vcpuDisable_native ⟨s.hw, s.vcpu u⟩
    · exact ⟨.refl h, Bool.eq_false_iff.mpr hact⟩

/-- **`vcpu_flush`**: nothing is loaded any more. -/
theorem moves_vcpuFlush (h : Placed s) : Moves s s.vcpuFlush := by
  unfold vcpuFlush
  cases hl : s.armHSCurVCPU with
  | none => exact .refl h
  | some u =>
    obtain ⟨htcb, hvcpu, hcur, hker, hmust, hctx, hact⟩ := saveLoaded_fields s
    unfold vcpuInvalidateActive
    split_ifs with ha
    · refine ⟨fun w r hr => ?_, nofun, fun _ => Machine.native_native _, htcb, hvcpu, hcur, hker, hmust,
        hctx⟩
      simpa [copy, owner] using saveLoaded_mem s w r
    · have ha := Bool.eq_false_iff.mpr ha
      refine ⟨fun w r hr => ?_, fun ht => absurd (ha.symm.trans ht) nofun, fun _ => ?_, htcb, hvcpu, hcur,
        hker, hmust, hctx⟩
      · simpa [copy, owner] using saveLoaded_mem s w r
      · have hs : s.armHSVCPUActive = false := hact.symm.trans ha
        have hhw : s.saveLoaded.hw = s.hw := by
          simp only [saveLoaded, hl, onVcpu, hs]
          exact Machine.vcpuSave_false_hw _
        rw [hhw]
        exact h.native hs

/-- One register of one VCPU is written, in the copy that counts. -/
theorem copy_write {x : Word} (w : Word)
    {q : CtxReg cfg.numListRegs} (hq : Tracked q) (hown : ∀ q, s'.owner q = s.owner q)
    (hhw : ∀ q, Tracked q → norm cfg q (s'.hw.val q) =
      if s.owner r = some v ∧ q = r then norm cfg q x else norm cfg q (s.hw.val q))
    (hmem : ∀ u q, norm cfg q ((s'.vcpu u).val q) =
      if s.owner r ≠ some v ∧ u = v ∧ q = r then norm cfg q x else norm cfg q ((s.vcpu u).val q)) :
    norm cfg q (s'.copy w q) = if w = v ∧ q = r then norm cfg q x else norm cfg q (s.copy w q) := by
  unfold copy
  rw [hown]
  by_cases hqr : q = r
  · subst hqr
    by_cases ho : s.owner q = some w
    · simp [ho, hhw q hq]
    · by_cases hw : w = v
      · subst hw
        simp [ho, hmem]
      · simp [ho, hmem, hw]
  · by_cases ho : s.owner q = some w
    · simp [ho, hhw q hq, hqr]
    · simp [ho, hmem, hqr]

/-- `writeVCPUReg` writes the copy that counts. -/
theorem copy_writeVCPUReg (s : VcpuSys cfg) (v : Word) {r : VcpuReg} (x : Word) (w : Word)
    {r' : CtxReg cfg.numListRegs} (hr : Tracked r') : norm cfg r' ((s.writeVCPUReg v r x).copy w r') =
      if w = v ∧ r' = .reg r then norm cfg r' x else norm cfg r' (s.copy w r') := by
  rw [writeVCPUReg_eq]
  by_cases ho : s.owner (.reg r) = some v
  · rw [if_pos ho]
    refine copy_write w hr (fun _ => rfl) (fun q hq => ?_) fun u q => by simp [ho]
    cases q with
    | reg q =>
      by_cases hqr : q = r
      · subst hqr
        simpa [VcpuHw.writeReg, VcpuHw.val, ho] using norm_hwWrite hq.1 (s.hw.regs q) x
      · simp [VcpuHw.writeReg, VcpuHw.val, hqr]
    | _ => simp [VcpuHw.writeReg, VcpuHw.val]
  · rw [if_neg ho]
    refine copy_write w hr (fun _ => rfl) (fun q _ => by simp [ho, writeMem]) fun u q => ?_
    by_cases hu : u = v
    · subst hu
      cases q with
      | reg q => by_cases hqr : q = r <;> simp [writeMem, Vcpu.writeReg, Vcpu.val, ho, hqr]
      | _ => simp [writeMem, Vcpu.writeReg, Vcpu.val]
    · simp [writeMem, hu]

/-- `invokeVCPUInjectIRQ` writes the copy that counts. -/
theorem copy_injectIRQ (s : VcpuSys cfg) (v : Word) (i : Fin cfg.numListRegs) (x w : Word) (hr : Tracked r) :
    norm cfg r ((s.injectIRQ v i x).copy w r) =
      if w = v ∧ r = .lr i then norm cfg r x else norm cfg r (s.copy w r) := by
  have hown : s.owner (.lr i) = s.armHSCurVCPU := rfl
  unfold injectIRQ
  by_cases ho : s.armHSCurVCPU = some v
  · rw [if_pos ho]
    refine copy_write w hr (fun _ => rfl) (fun q _ => ?_) fun u q => by simp [hown, ho]
    cases q with
    | lr j =>
      by_cases hj : j = i
      · simpa [hj, hown, ho, VcpuHw.setLr, VcpuHw.val, norm] using Machine.lrWrite_lrWrite cfg x
      · simp [VcpuHw.setLr, VcpuHw.val, hj]
    | _ => simp [VcpuHw.setLr, VcpuHw.val]
  · rw [if_neg ho]
    refine copy_write w hr (fun _ => rfl) (fun q _ => by simp [hown, ho]) fun u q => ?_
    by_cases hu : u = v
    · subst hu
      cases q with
      | lr j => by_cases hj : j = i <;> simp [Vcpu.val, hown, ho, hj]
      | _ => simp [Vcpu.val]
    · simp [hu]

/-! ## Events -/

/-- What only moves registers keeps the invariant, if the current thread has what it needs. -/
theorem Placed.of_moves (h : Placed s) (hm : Moves s s') {o : Option Word} {k b : Bool}
    (hcur : b = false → ∀ v, o.bind s.tcbVCPU = some v →
      s'.armHSCurVCPU = some v ∧ s'.armHSVCPUActive = true)
    (hnone : b = false → o.bind s.tcbVCPU = none → s'.armHSVCPUActive = false)
    (huser : k = false → b = false) :
    VcpuSysInv { s' with ksCurThread := o, inKernel := k, mustSwitch := b } := by
  refine ⟨⟨fun v r hr => ?_, hm.loaded, hm.native, ?_⟩, fun hb v hv => ?_, fun hb hv => ?_, huser⟩
  · exact (hm.copy v r hr).trans ((h.value v r hr).trans (congrFun (congrFun hm.ctx v) r).symm)
  · rw [hm.tcbVCPU, hm.vcpuTCB]
    exact h.inverse
  · rw [hm.tcbVCPU] at hv
    exact hcur hb v hv
  · rw [hm.tcbVCPU] at hv
    exact hnone hb hv

theorem Placed.switchTo (h : Placed s) (o : Option Word) :
    VcpuSysInv { s.vcpuSwitch (o.bind s.tcbVCPU) with ksCurThread := o, mustSwitch := false } := by
  cases hb : o.bind s.tcbVCPU with
  | none =>
    obtain ⟨hm, hact⟩ := moves_vcpuSwitchNull h
    exact h.of_moves hm (fun _ v hv => absurd (hb.symm.trans hv) nofun) (fun _ _ => hact) fun _ => rfl
  | some w =>
    obtain ⟨hl, hact⟩ := vcpuSwitchTo_loaded s w
    refine h.of_moves (moves_vcpuSwitchTo s w) (fun _ v hv => ?_) (fun _ hv => absurd (hb.symm.trans hv) nofun) fun _ => rfl
    obtain rfl := Option.mem_unique hb hv
    exact ⟨hl, hact⟩

theorem Placed.switchCurrent (h : Placed s) (hk : s.inKernel = true)
    (hv : s.ksCurThread.bind s.tcbVCPU = some v) : VcpuSysInv (s.vcpuSwitchTo v) := by
  obtain ⟨hl, hact⟩ := vcpuSwitchTo_loaded s v
  have hm := moves_vcpuSwitchTo s v
  generalize s.vcpuSwitchTo v = s' at hm hl hact ⊢
  have hbind : s'.ksCurThread.bind s.tcbVCPU = some v := by
    rw [hm.cur]
    exact hv
  exact h.of_moves hm (fun _ w hw => ⟨hl.trans (hbind.symm.trans hw), hact⟩)
    (fun _ hw => absurd (hbind.symm.trans hw) nofun)
    fun hk' => absurd ((hm.inKernel.trans hk).symm.trans hk') nofun

theorem vcpuFlush_inactive (h : s.armHSVCPUActive = false) : s.vcpuFlush.armHSVCPUActive = false := by
  have hact := (saveLoaded_fields s).2.2.2.2.2.2
  unfold vcpuFlush
  split
  · unfold vcpuInvalidateActive
    split_ifs
    · rfl
    · exact hact.trans h
  · exact h

section

variable (h : VcpuSysInv s)
include h

theorem VcpuSysInv.flush (hk : s.inKernel = true) : VcpuSysInv { s.vcpuFlush with mustSwitch := true } := by
  have hm := moves_vcpuFlush h.toPlaced
  exact h.of_moves hm nofun nofun fun hk' => absurd ((hm.inKernel.trans hk).symm.trans hk') nofun

/-- A thread that is not the current one can only have a VCPU that is disabled. -/
theorem VcpuSysInv.flushIfCurrent (hk : s.inKernel = true) (t : Word) :
    VcpuSysInv { s.vcpuFlushIfCurrent t with
      mustSwitch := if s.ksCurThread = some t then true else s.mustSwitch } := by
  have hm : Moves s (s.vcpuFlushIfCurrent t) := by
    unfold vcpuFlushIfCurrent
    split_ifs
    · exact moves_vcpuFlush h.toPlaced
    · exact .refl h.toPlaced
  have hker : ∀ {b : Bool}, (s.vcpuFlushIfCurrent t).inKernel = false → b = false :=
    fun hk' => absurd ((hm.inKernel.trans hk).symm.trans hk') nofun
  by_cases ht : s.ksCurThread = some t
  · simp only [ht, if_true]
    exact h.of_moves hm nofun nofun hker
  · simp only [ht, if_false]
    refine h.of_moves hm (fun hb v hv => ?_) (fun hb hv => ?_) hker
    · rw [hm.cur] at hv
      obtain ⟨hl, hact⟩ := h.cur hb v hv
      -- the loaded VCPU is that of the current thread, so it is not that of `t`
      have hne : s.tcbVCPU t ≠ s.armHSCurVCPU := by
        rw [hl]
        intro htv
        obtain ⟨c, hc, hcv⟩ := Option.bind_eq_some_iff.mp hv
        have hct := ((h.inverse c v).mp hcv).symm.trans ((h.inverse t v).mp htv)
        exact ht (hc.trans hct)
      unfold vcpuFlushIfCurrent
      rw [if_neg hne]
      exact ⟨hl, hact⟩
    · rw [hm.cur] at hv
      have hact := h.curNone hb hv
      unfold vcpuFlushIfCurrent
      split_ifs
      · exact vcpuFlush_inactive hact
      · exact hact

/-- One register of one VCPU is written, in the copy that counts. -/
theorem VcpuSysInv.write {x : Word} (hcopy : ∀ w r', Tracked r' → norm cfg r' (s'.copy w r') =
      if w = v ∧ r' = r then norm cfg r' x else norm cfg r' (s.copy w r'))
    (hnat : s.armHSVCPUActive = false → Native s'.hw)
    (hrest : ∃ hw vcpu, s' = { s with hw := hw, vcpu := vcpu }) : VcpuSysInv (s'.setCtx v r x) := by
  obtain ⟨hw, vcpu, rfl⟩ := hrest
  refine ⟨⟨fun w r' hr' => ?_, h.loaded, hnat, h.inverse⟩, h.cur, h.curNone, h.user⟩
  refine (hcopy w r' hr').trans ?_
  show _ = update s.ctx v (update (s.ctx v) r (norm cfg r x)) w r'
  by_cases hw : w = v
  · subst hw
    by_cases hrr : r' = r
    · subst hrr
      simp
    · simpa [hrr] using h.value w r' hr'
  · simpa [hw] using h.value w r' hr'

theorem VcpuSysInv.writeReg (v : Word) (r : VcpuReg) (x : Word) :
    VcpuSysInv ((s.writeVCPUReg v r x).setCtx v (.reg r) x) := by
  refine h.write (fun w r' hr' => copy_writeVCPUReg s v x w hr') (fun hact => ?_) ?_
  · have hn := h.native hact
    unfold writeVCPUReg
    split_ifs with hl hd
    · exact hn
    · have hs : r ≠ .sctlr := by
        rintro rfl
        exact hd (by simp [VcpuReg.savedWhenDisabled, hact])
      exact ⟨hn.hcr, (update_of_ne hs.symm _ _).trans hn.sctlr, hn.vgic⟩
    · exact hn
  · unfold writeVCPUReg
    split_ifs <;> exact ⟨_, _, rfl⟩

theorem VcpuSysInv.injectIRQ (v : Word) (i : Fin cfg.numListRegs) (x : Word) :
    VcpuSysInv ((s.injectIRQ v i x).setCtx v (.lr i) x) := by
  refine h.write (fun w r' hr' => copy_injectIRQ s v i x w hr') (fun hact => ?_) ?_
  · have hn := h.native hact
    unfold VcpuSys.injectIRQ
    split_ifs
    · exact ⟨hn.hcr, hn.sctlr, hn.vgic⟩
    · exact hn
  · unfold VcpuSys.injectIRQ
    split_ifs <;> exact ⟨_, _, rfl⟩

/-- A virtual machine changes the hardware while it runs. -/
theorem VcpuSysInv.guest (hk : s.inKernel = false)
    (hv : s.ksCurThread.bind s.tcbVCPU = some v) (regs : VcpuReg → Word) (vgic : Vgic cfg.numListRegs) :
    VcpuSysInv (s.guest v regs vgic) := by
  obtain ⟨hl, hact⟩ := h.cur (h.user hk) v hv
  refine ⟨⟨fun w r hr => ?_, h.loaded, fun hf => absurd (hact.symm.trans hf) nofun, h.inverse⟩, h.cur,
    h.curNone, h.user⟩
  by_cases hw : w = v
  · subst hw
    simp [guest, copy, owner, hl, hact]
  · have hw' : ¬ v = w := fun h => hw h.symm
    have hval := h.value w r hr
    simpa [VcpuSys.guest, copy, owner, hl, hact, hw, hw'] using hval

theorem VcpuSysInv.tick (cntpct isr : Word) (istatus : Bool) : VcpuSysInv (s.tick cntpct isr istatus) := by
  have hval : ∀ {r : CtxReg cfg.numListRegs}, Tracked r →
      norm cfg r ((s.tick cntpct isr istatus).hw.val r) = norm cfg r (s.hw.val r) := by
    intro r hr
    cases r with
    | reg q =>
      by_cases hq : q = .cntvCTL
      · subst hq
        have hctl := ctl_and_or (s.hw.regs .cntvCTL) (if istatus then 4 else 0)
        have hand : (if istatus then (4 : Word) else 0) &&& 4 = if istatus then 4 else 0 := by
          cases istatus <;> rfl
        rw [hand] at hctl
        simpa [VcpuSys.tick, VcpuHw.val, norm] using hctl
      · simp [VcpuSys.tick, VcpuHw.val, hq, hr.1]
    | _ => rfl
  refine ⟨⟨fun w r hr => ?_, h.loaded, fun hact => ?_, h.inverse⟩, h.cur, h.curNone, h.user⟩
  · rw [← show s.ctx w r = (s.tick cntpct isr istatus).ctx w r from rfl, ← h.value w r hr]
    have hown : (s.tick cntpct isr istatus).owner r = s.owner r := rfl
    rw [copy, copy, hown]
    split_ifs
    · exact hval hr
    · rfl
  · have hn := h.native hact
    exact ⟨hn.hcr, by simpa [VcpuSys.tick] using hn.sctlr, hn.vgic⟩

end

/-! ### `SetTCB` -/

/-- Only bindings differ, and those that are left are as in `B`. -/
structure Rebound (s s' : VcpuSys cfg) (B : Word → Word → Prop) : Prop where
  eq : ∃ f g, s' = { s with tcbVCPU := f, vcpuTCB := g }
  tcb : ∀ t v, s'.tcbVCPU t = some v ↔ B t v
  vcpu : ∀ t v, s'.vcpuTCB v = some t ↔ B t v

variable {B : Word → Word → Prop}

theorem Rebound.congr {B' : Word → Word → Prop} (h : Rebound s s' B) (hB : ∀ t v, B t v ↔ B' t v) :
    Rebound s s' B' :=
  ⟨h.eq, fun t v => (h.tcb t v).trans (hB t v), fun t v => (h.vcpu t v).trans (hB t v)⟩

/-- A thread has one VCPU, and a VCPU one thread. -/
theorem Rebound.left_iff (h : Rebound s s' B) {t' u : Word} (hb : B t v) (hb' : B t' u) : t' = t ↔ u = v := by
  constructor
  · rintro rfl
    have huu : some u = some v := ((h.tcb t' u).mpr hb').symm.trans ((h.tcb t' v).mpr hb)
    exact Option.some.inj huu
  · rintro rfl
    have htt : some t' = some t := ((h.vcpu t' u).mpr hb').symm.trans ((h.vcpu t u).mpr hb)
    exact Option.some.inj htt

/-- A binding of a VCPU that is not loaded is given up. -/
theorem rebound_dissociate (h : Rebound s s B) (hb : B t v) (hl : s.armHSCurVCPU ≠ some v) :
    Rebound s (s.dissociateVCPUTCB v t) fun t' u => B t' u ∧ t' ≠ t ∧ u ≠ v := by
  have heq : s.dissociateVCPUTCB v t =
      { s with tcbVCPU := update s.tcbVCPU t none, vcpuTCB := update s.vcpuTCB v none } := by
    unfold dissociateVCPUTCB
    rw [if_neg hl]
  rw [heq]
  refine ⟨⟨_, _, rfl⟩, fun t' u => ?_, fun t' u => ?_⟩
  · show update s.tcbVCPU t none t' = some u ↔ _
    by_cases ht : t' = t
    · simp [ht]
    · rw [update_of_ne ht, h.tcb]
      exact ⟨fun hb' => ⟨hb', ht, mt (h.left_iff hb hb').mpr ht⟩, And.left⟩
  · show update s.vcpuTCB v none u = some t' ↔ _
    by_cases hu : u = v
    · simp [hu]
    · rw [update_of_ne hu, h.vcpu]
      exact ⟨fun hb' => ⟨hb', mt (h.left_iff hb hb').mp hu, hu⟩, And.left⟩

theorem rebound_dissociateTcb (h : Rebound s s B)
    (hl : ∀ u, s.tcbVCPU t = some u → s.armHSCurVCPU ≠ some u) :
    Rebound s (s.dissociateTcb t) fun t' u => B t' u ∧ t' ≠ t := by
  unfold dissociateTcb
  cases hb : s.tcbVCPU t with
  | none =>
    refine h.congr fun t' u => ⟨fun hb' => ⟨hb', ?_⟩, And.left⟩
    rintro rfl
    exact absurd (hb.symm.trans ((h.tcb t' u).mpr hb')) nofun
  | some w =>
    have hbw := (h.tcb t w).mp hb
    refine (rebound_dissociate h hbw (hl w hb)).congr fun t' u => and_congr_right fun hb' => ?_
    simp [h.left_iff hbw hb']

theorem rebound_dissociateVcpu (h : Rebound s s B) (hl : s.armHSCurVCPU ≠ some v) :
    Rebound s (s.dissociateVcpu v) fun t' u => B t' u ∧ u ≠ v := by
  unfold dissociateVcpu
  cases hb : s.vcpuTCB v with
  | none =>
    refine h.congr fun t' u => ⟨fun hb' => ⟨hb', ?_⟩, And.left⟩
    rintro rfl
    exact absurd (hb.symm.trans ((h.vcpu t' u).mpr hb')) nofun
  | some w =>
    have hbw := (h.vcpu w v).mp hb
    refine (rebound_dissociate h hbw hl).congr fun t' u => and_congr_right fun hb' => ?_
    simp [h.left_iff hbw hb']

/-- `associateVCPUTCB` up to the switch, where nothing that is loaded is concerned. -/
theorem rebound_associate (h : VcpuSysInv s) (hv : s.armHSCurVCPU ≠ some v)
    (hu : ∀ u, s.tcbVCPU t = some u → s.armHSCurVCPU ≠ some u) :
    Rebound s (((s.dissociateTcb t).dissociateVcpu v).bind v t) fun t' u =>
      (t' = t ∧ u = v) ∨ (s.tcbVCPU t' = some u ∧ t' ≠ t ∧ u ≠ v) := by
  have h0 : Rebound s s fun t' u => s.tcbVCPU t' = some u :=
    ⟨⟨_, _, rfl⟩, fun _ _ => .rfl, fun t' u => (h.inverse t' u).symm⟩
  have h1 := rebound_dissociateTcb h0 hu
  obtain ⟨f, g, heq⟩ := h1.eq
  have hl : (s.dissociateTcb t).armHSCurVCPU ≠ some v := by
    rw [heq]
    exact hv
  have h2 := rebound_dissociateVcpu ⟨⟨_, _, rfl⟩, h1.tcb, h1.vcpu⟩ hl
  obtain ⟨f', g', heq'⟩ := h2.eq
  refine ⟨⟨update f' t (some v), update g' v (some t), ?_⟩, fun t' u => ?_, fun t' u => ?_⟩
  · rw [heq', heq]
    rfl
  · show update (((s.dissociateTcb t).dissociateVcpu v).tcbVCPU) t (some v) t' = some u ↔ _
    by_cases ht : t' = t
    · simp [ht, eq_comm]
    · rw [update_of_ne ht, h2.tcb]
      simp [ht]
  · show update (((s.dissociateTcb t).dissociateVcpu v).vcpuTCB) v (some t) u = some t' ↔ _
    by_cases huv : u = v
    · simp [huv, eq_comm]
    · rw [update_of_ne huv, h2.vcpu]
      simp [huv]

/-- **`SetTCB`** where nothing that is loaded is concerned. -/
theorem VcpuSysInv.associate (h : VcpuSysInv s) (hk : s.inKernel = true) (hmust : s.mustSwitch = false)
    (hv : s.armHSCurVCPU ≠ some v) (hu : ∀ u, s.tcbVCPU t = some u → s.armHSCurVCPU ≠ some u) :
    VcpuSysInv (s.associateVCPUTCB v t) := by
  have hr := rebound_associate h hv hu
  obtain ⟨f, g, heq⟩ := hr.eq
  have htcb := hr.tcb
  have hvcpu := hr.vcpu
  unfold associateVCPUTCB
  rw [heq] at htcb hvcpu ⊢
  have hinv : ∀ t v, f t = some v ↔ g v = some t := fun t' u => (htcb t' u).trans (hvcpu t' u).symm
  have hp : Placed { s with tcbVCPU := f, vcpuTCB := g } := ⟨h.value, h.loaded, h.native, hinv⟩
  by_cases hcur : s.ksCurThread = some t
  · have hbind : s.ksCurThread.bind f = some v := by
      rw [hcur]
      exact (htcb t v).mpr (.inl ⟨rfl, rfl⟩)
    rw [if_pos hcur]
    exact hp.switchCurrent hk hbind
  · rw [if_neg hcur]
    refine ⟨hp, fun _ w hw => ?_, fun _ hw => ?_, h.user⟩
    · obtain ⟨c, hc, hcw⟩ := Option.bind_eq_some_iff.mp hw
      rcases (htcb c w).mp hcw with ⟨rfl, -⟩ | ⟨hcw', -, -⟩
      · exact absurd hc hcur
      · exact h.cur hmust w (Option.bind_eq_some_iff.mpr ⟨c, hc, hcw'⟩)
    · cases hb : s.ksCurThread.bind s.tcbVCPU with
      | none => exact h.curNone hmust hb
      | some u =>
        obtain ⟨c, hc, hcu⟩ := Option.bind_eq_some_iff.mp hb
        have hct : c ≠ t := fun hct => hcur (hct ▸ hc)
        have hlu := (h.cur hmust u hb).1
        have huv : u ≠ v := fun huv => hv (huv ▸ hlu)
        have hfc : f c = some u := (htcb c u).mpr (.inr ⟨hcu, hct, huv⟩)
        have hw' : s.ksCurThread.bind f = none := hw
        rw [hc] at hw'
        exact nomatch hfc.symm.trans hw'

/-! ## Runs -/

/-- `SetTCB` is made only for threads whose VCPU, if they have one, is not loaded. -/
def OldNotLoaded (s : VcpuSys cfg) : VcpuSysEvent cfg → Prop
  | .setTCB _ t => ∀ u, s.tcbVCPU t = some u → s.armHSCurVCPU ≠ some u
  | _ => True

instance decidableOldNotLoaded (s : VcpuSys cfg) : (e : VcpuSysEvent cfg) → Decidable (s.OldNotLoaded e)
  | .setTCB _ t =>
    have : Decidable (∀ u ∈ s.tcbVCPU t, s.armHSCurVCPU ≠ some u) := Option.decidableForallMem _
    decidable_of_iff (∀ u ∈ s.tcbVCPU t, s.armHSCurVCPU ≠ some u) Iff.rfl
  | .enter | .exit | .switchToThread _ | .switchToIdleThread | .flush | .flushIfCurrent _
  | .readReg _ _ _ | .writeReg _ _ _ _ | .injectIRQ _ _ _ | .guest _ _ | .tick _ _ _ => .isTrue trivial

/-- One event keeps the invariant. -/
theorem VcpuSysInv.next (h : VcpuSysInv s) {e : VcpuSysEvent cfg} (hold : s.OldNotLoaded e)
    (hs : s.next e = some s') : VcpuSysInv s' := by
  cases e with
  | enter =>
    obtain ⟨-, ⟨⟩⟩ := Option.ite_none_left_eq_some.mp hs
    exact ⟨⟨h.value, h.loaded, h.native, h.inverse⟩, h.cur, h.curNone, by simp⟩
  | exit =>
    obtain ⟨⟨-, hmust⟩, rfl⟩ := Option.ite_some_none_eq_some.mp hs
    exact ⟨⟨h.value, h.loaded, h.native, h.inverse⟩, h.cur, h.curNone, fun _ => hmust⟩
  | switchToThread t =>
    obtain ⟨-, rfl⟩ := Option.ite_some_none_eq_some.mp hs
    exact h.switchTo (some t)
  | switchToIdleThread =>
    obtain ⟨-, rfl⟩ := Option.ite_some_none_eq_some.mp hs
    exact h.switchTo none
  | flush =>
    obtain ⟨hk, rfl⟩ := Option.ite_some_none_eq_some.mp hs
    exact h.flush hk
  | flushIfCurrent t =>
    obtain ⟨hk, rfl⟩ := Option.ite_some_none_eq_some.mp hs
    exact h.flushIfCurrent hk t
  | readReg v length field =>
    obtain ⟨-, rfl⟩ := Option.ite_some_none_eq_some.mp hs
    exact h
  | writeReg v length field value =>
    obtain ⟨-, hs⟩ := Option.ite_none_right_eq_some.mp hs
    cases hd : decodeField 2 length field with
    | ok r =>
      rw [hd] at hs
      obtain rfl := Option.some.inj hs
      exact h.writeReg v r value
    | error x =>
      rw [hd] at hs
      obtain rfl := Option.some.inj hs
      exact h
  | injectIRQ v length mr0 =>
    obtain ⟨-, hs⟩ := Option.ite_none_right_eq_some.mp hs
    cases hd : s.decodeVCPUInjectIRQ v length mr0 with
    | ok p =>
      rw [hd] at hs
      obtain rfl := Option.some.inj hs
      exact h.injectIRQ v p.1 p.2
    | error x =>
      rw [hd] at hs
      obtain rfl := Option.some.inj hs
      exact h
  | setTCB v t =>
    obtain ⟨⟨hk, hmust, hv⟩, rfl⟩ := Option.ite_some_none_eq_some.mp hs
    exact h.associate hk hmust hv hold
  | guest regs vgic =>
    dsimp only [VcpuSys.next] at hs
    cases hb : s.ksCurThread.bind s.tcbVCPU with
    | some v =>
      rw [hb] at hs
      obtain ⟨hk, ⟨⟩⟩ := Option.ite_none_left_eq_some.mp hs
      exact h.guest (Bool.eq_false_iff.mpr hk) hb regs vgic
    | none =>
      rw [hb] at hs
      exact absurd hs (by simp)
  | tick cntpct isr istatus =>
    obtain rfl := Option.some.inj hs
    exact h.tick cntpct isr istatus

theorem vcpuSysInv_boot (hw : VcpuHw cfg) (vcpu : Word → Vcpu cfg) : VcpuSysInv (boot hw vcpu) where
  value v r _ := by
    have hown : (boot hw vcpu).owner r = none := by
      unfold owner
      split_ifs <;> rfl
    rw [copy, hown]
    rfl
  loaded := nofun
  native _ := Machine.native_native hw
  inverse _ _ := ⟨nofun, nofun⟩
  cur := nofun
  curNone _ _ := rfl
  user := nofun

/-- Every state of a run in which `SetTCB` takes no thread away from a loaded VCPU. -/
theorem vcpuSysInv_run {hw : VcpuHw cfg} {vcpu : Word → Vcpu cfg} {tr : List (VcpuSysEvent cfg)}
    (hrun : runFrom next (boot hw vcpu) tr = some s)
    (hold : EveryStep next OldNotLoaded (boot hw vcpu) tr) : VcpuSysInv s := by
  refine runFrom_invariant
    (P := fun tr s => EveryStep next OldNotLoaded (boot hw vcpu) tr → VcpuSysInv s)
    (fun _ => vcpuSysInv_boot hw vcpu) (fun tr s e s' hr ih he hev => ?_) hrun hold
  obtain ⟨hev, hq⟩ := (everyStep_snoc hr e).mp hev
  exact (ih hev).next hq he

/-- **Each virtual machine has its registers to itself.** In every run in which `SetTCB` is made only on
VCPUs that are not loaded, and for threads whose VCPU is not loaded: a thread with a VCPU that runs has
the context of that VCPU in the hardware, `ReadReg` returns the value of the context, and a thread
without a VCPU, or the idle thread, runs with the native settings. -/
theorem vcpu_context_virtualised {hw : VcpuHw cfg} {vcpu : Word → Vcpu cfg}
    {tr : List (VcpuSysEvent cfg)} (hrun : runFrom next (boot hw vcpu) tr = some s)
    (hold : EveryStep next OldNotLoaded (boot hw vcpu) tr) :
    (s.inKernel = false → ∀ t v, s.ksCurThread = some t → s.tcbVCPU t = some v →
      ∀ r, Tracked r → norm cfg r (s.hw.val r) = s.ctx v r) ∧
    (∀ v length field r x, decodeField 1 length field = .ok r →
      Tracked (.reg r : CtxReg cfg.numListRegs) → s.decodeVCPUReadReg v length field = .ok x →
      norm cfg (.reg r) x = s.ctx v (.reg r)) ∧
    (s.inKernel = false → s.ksCurThread.bind s.tcbVCPU = none → Native s.hw) := by
  have hinv := vcpuSysInv_run hrun hold
  refine ⟨fun hk t v ht hv r hr => ?_, fun v length field r x hd hr hx => ?_, fun hk hb => ?_⟩
  · have hb : s.ksCurThread.bind s.tcbVCPU = some v := Option.bind_eq_some_iff.mpr ⟨t, ht, hv⟩
    obtain ⟨hl, hact⟩ := hinv.cur (hinv.user hk) v hb
    have hcopy : s.copy v r = s.hw.val r := by
      simp [copy, owner, hl, hact]
    rw [← hcopy]
    exact hinv.value v r hr
  · have hxr : s.readVCPUReg v r = x := by
      unfold decodeVCPUReadReg at hx
      rw [hd] at hx
      exact Except.ok.inj hx
    rw [← hxr, readVCPUReg_copy]
    exact hinv.value v _ hr
  · exact hinv.native (hinv.curNone (hinv.user hk) hb)

/-! ### Two virtual machines -/

/-- GICv2 with one list register, and the virtual timer in use. -/
def gicV2Config : VcpuConfig where
  numListRegs := 1
  gicV3 := false
  updateVOffset := true
  disableWfiTraps := false
  userCache := false
  vtimerActive := true

/-- Registers that are all zero. -/
def zeroVgic : Vgic gicV2Config.numListRegs := ⟨0, 0, 0, fun _ => 0⟩

/-- A machine with nothing in its registers. -/
def zeroBoot : VcpuSys gicV2Config :=
  boot ⟨zeroVgic, fun _ => 0, 0, 0, false⟩ fun _ => ⟨zeroVgic, fun _ => 0, false, 0⟩

/-- What a virtual machine does that sets `TTBR0` and `SCTLR` and enables its virtual GIC. -/
def setTables : VcpuSysEvent gicV2Config :=
  .guest (fun r => if r = .ttbr0 then 7 else if r = .sctlr then 5 else 0) ⟨1, 0, 0, fun _ => 0⟩

/-- Thread 1 runs with VCPU 16 and sets its registers, then thread 2 runs without one. VCPU 32 is bound
to thread 2, and thread 2 runs with it. -/
def twoVms : List (VcpuSysEvent gicV2Config) :=
  [.setTCB 16 1, .switchToThread 1, .exit, setTables, .enter, .switchToThread 2, .exit, .enter,
    .setTCB 32 2, .exit]

/-- Thread 1, which runs with VCPU 16, is given VCPU 32. -/
def rebindLoaded : List (VcpuSysEvent gicV2Config) :=
  [.setTCB 16 1, .switchToThread 1, .exit, setTables, .enter, .setTCB 32 1]

/-- When thread 2 runs with VCPU 32 it finds nothing that VCPU 16 has left, and `TTBR0` of VCPU 16 is
what its virtual machine set. -/
theorem vcpu_context_virtualised_twoVms :
    (runFrom next zeroBoot twoVms).isSome = true ∧ EveryStep next OldNotLoaded zeroBoot twoVms ∧
    ∀ s, runFrom next zeroBoot twoVms = some s →
      norm gicV2Config (.reg .ttbr0) (s.hw.val (.reg .ttbr0)) = 0 ∧
      norm gicV2Config (.reg .ttbr0) (s.readVCPUReg 16 .ttbr0) = 7 := by
  have hsome : (runFrom next zeroBoot twoVms).isSome = true := by decide +kernel
  have hold : EveryStep next OldNotLoaded zeroBoot twoVms := by decide +kernel
  refine ⟨hsome, hold, fun s hrun => ?_⟩
  have hend : (runFrom next zeroBoot twoVms).map (fun s => (s.inKernel, s.ksCurThread, s.tcbVCPU 2,
      s.ctx 32 (.reg .ttbr0), s.ctx 16 (.reg .ttbr0))) = some (false, some 2, some 32, 0, 7) := by
    decide +kernel
  rw [hrun] at hend
  obtain ⟨hk, hcur, hv, h32, h16⟩ : s.inKernel = false ∧ s.ksCurThread = some 2 ∧
      s.tcbVCPU 2 = some 32 ∧ s.ctx 32 (.reg .ttbr0) = 0 ∧ s.ctx 16 (.reg .ttbr0) = 7 := by
    simpa only [Option.map_some, Option.some.injEq, Prod.mk.injEq] using hend
  obtain ⟨hrun, hread, -⟩ := vcpu_context_virtualised hrun hold
  have hr : Tracked (.reg .ttbr0 : CtxReg gicV2Config.numListRegs) := ⟨nofun, nofun⟩
  exact ⟨(hrun hk 2 32 hcur hv _ hr).trans h32, (hread 16 1 2 .ttbr0 _ rfl hr rfl).trans h16⟩

/-- `SetTCB` on VCPU 32, which is not loaded, for the thread that runs with VCPU 16: `ReadReg` of VCPU 16
no longer returns the `TTBR0` that its virtual machine set. -/
theorem rebound_thread_loses_context : (runFrom next zeroBoot rebindLoaded).map (fun s =>
      (s.decodeVCPUReadReg 16 1 2).toOption.map (norm gicV2Config (.reg .ttbr0))) = some (some 0) ∧
    (runFrom next zeroBoot rebindLoaded).map (fun s => s.ctx 16 (.reg .ttbr0)) = some 7 := by
  decide +kernel

end VcpuSys

end SeL4.Hyp
