import SeL4.CNode.InvokeInv

/-!
# Runs of the kernel

The states that the kernel reaches from boot by invocations on CNodes, untypeds, interrupt control
and interrupt handlers, by capabilities in messages, by thread configuration and by user code
(`Reach`), and what holds in all of them. The step lemmas of the previous files say that each of
these keeps `SysInv`; `Reach.inv` says so for whole runs. An invocation may be preempted, and
restarted or not.

* `untyped_memory_safety`: objects lie in their untyped, are aligned, and do not overlap; the words
  of a retype never wrap.
* `zeroed_memory`: free memory is zero.
* `derivation_list_encodes_tree`: the list encodes the derivation tree, so a revocation leaves
  no descendants.
* `finality_is_global`: what `isFinalCapability` reads off two neighbours holds of all slots.
-/

namespace SeL4.Object

open SeL4.Lib SeL4.CSpace CteHeap KState

variable {cfg : KernelConfig} {s s' : KState}

variable {x y : Word}

/-! ## Boot -/

/-- Capabilities to unrelated objects. -/
def Cap.Unrelated (cfg : KernelConfig) (a b : Cap) : Prop :=
  a.sameRegionAs cfg b = false ∧ b.sameRegionAs cfg a = false ∧
    (a.capIsPhysical = true → b.capIsPhysical = true → Block.Apart (a.region cfg) (b.region cfg))

/-- The boot code makes well-formed capabilities to unrelated objects. -/
structure BootCaps (cfg : KernelConfig) (l : List (Word × Cap)) : Prop extends BootSlots l where
  wf : ∀ e ∈ l, e.2.WF cfg
  unrelated : l.Pairwise fun e f => Cap.Unrelated cfg e.2 f.2

/-- The state after boot. -/
structure Boot (cfg : KernelConfig) (s : KState) : Prop where
  caps : ∃ l, BootCaps cfg l ∧ s.cte = bootHeap l
  cdt : s.cdt = fun _ => none
  handler : ∀ {x i}, (s.cte x).cap = .irqHandler i → s.irqActive i = true
  zeroed : Zeroed s

theorem CteHeap.mem_bootHeap {l : List (Word × Cap)} (hx : (bootHeap l x).cap ≠ .null) :
    (x, (bootHeap l x).cap) ∈ l ∧ (bootHeap l x).flags = (true, true) := by
  induction l with
  | nil => exact absurd rfl hx
  | cons e l ih =>
    have hcap : (bootHeap (e :: l) x).cap = if x = e.1 then e.2 else (bootHeap l x).cap :=
      cap_set (bootHeap l) e.1 x _
    have hfl : (bootHeap (e :: l) x).flags = if x = e.1 then (true, true) else (bootHeap l x).flags :=
      flags_set (bootHeap l) e.1 x _
    rw [hcap] at hx ⊢
    rw [hfl]
    split_ifs at hx ⊢ with he
    · rw [he]
      exact ⟨.head _, rfl⟩
    · obtain ⟨h1, h2⟩ := ih hx
      exact ⟨List.mem_cons_of_mem _ h1, h2⟩

namespace BootCaps

variable {l : List (Word × Cap)} (hb : BootCaps cfg l)
include hb

theorem unrelated_slots (hxy : x ≠ y) (hx : (bootHeap l x).cap ≠ .null)
    (hy : (bootHeap l y).cap ≠ .null) : Cap.Unrelated cfg (bootHeap l x).cap (bootHeap l y).cap := by
  have hsymm : Std.Symm fun e f : Word × Cap => Cap.Unrelated cfg e.2 f.2 :=
    ⟨fun _ _ h => ⟨h.2.1, h.1, fun ha hb => (h.2.2 hb ha).symm⟩⟩
  exact hb.unrelated.forall (mem_bootHeap hx).1 (mem_bootHeap hy).1 fun he => hxy (congrArg Prod.fst he)

theorem not_same (hxy : x ≠ y) : ¬ (bootHeap l).Same cfg x y := by
  intro hs
  have h := (hb.unrelated_slots hxy hs.ne_null_left hs.ne_null_right).1
  rw [Same, h] at hs
  cases hs

omit hb in
theorem not_before : ¬ (bootHeap l).Bef x y := by
  intro h
  have hnext : ∀ a b, ¬ (bootHeap l).links.Next 0 a b := by
    rintro a b ⟨h1, h2⟩
    rw [links_bootHeap] at h1
    exact h2 h1.symm
  obtain ⟨z, hz, -⟩ := Relation.TransGen.head'_iff.mp h
  exact hnext _ _ hz

theorem derivInv : DerivInv cfg (bootHeap l) := by
  refine ⟨⟨_, mdbLists_bootHeap hb.toBootSlots⟩, fun x => ?_,
    ⟨fun h => absurd h not_before, fun h => absurd h not_before,
      fun hab hs => absurd hs (hb.not_same hab)⟩,
    fun h => absurd h not_before, fun hab ha hb' hmeet => ?_⟩
  · by_cases hx : (bootHeap l x).cap = .null
    · rw [hx]
      exact Cap.wf_null
    · exact hb.wf _ (mem_bootHeap hx).1
  · have hne : ∀ {x}, (bootHeap l x).cap.capIsPhysical = true → (bootHeap l x).cap ≠ .null := by
      intro x hx he
      rw [he] at hx
      cases hx
    exact absurd ((hb.unrelated_slots hab (hne ha) (hne hb')).2.2 ha hb') hmeet

end BootCaps

/-- The invariant holds at boot. -/
theorem Boot.inv (hb : Boot cfg s) : SysInv cfg s := by
  obtain ⟨l, hl, hcte⟩ := hb.caps
  have hoccupied : ∀ {x}, (s.cte x).cap ≠ .null → (s.cte x).flags = (true, true) := by
    intro x hx
    rw [hcte] at hx ⊢
    exact (mem_bootHeap hx).2
  refine ⟨hcte ▸ hl.derivInv, ⟨?_, ?_, ?_, hb.handler, ?_⟩, hb.zeroed, ?_⟩
  · intro x w hw _ hfl
    have hne : (s.cte x).cap ≠ .null := by
      intro he
      rw [he] at hw
      cases hw
    rw [hoccupied hne] at hfl
    cases hfl
  · intro x hx
    have hne : (s.cte x).cap ≠ .null := by
      rintro he
      rw [he] at hx
      rcases hx with hx | hx <;> cases hx
    rw [hoccupied hne]
  · intro x y hx hy
    by_contra hxy
    refine hl.not_same hxy ?_
    rw [Same, ← hcte, hx, hy]
    rfl
  · intro a b
    constructor
    · intro h
      obtain ⟨p, hp⟩ := Links.Desc.exists_parent h
      rw [hb.cdt] at hp
      cases hp
    · intro h
      exact absurd h.before (hcte ▸ BootCaps.not_before)
  · intro a b ha hb' _ _ hne
    have hab : a ≠ b := by
      rintro rfl
      exact hne rfl
    have hn : ∀ {x}, (s.cte x).cap.capIsPhysical = true → (s.cte x).cap ≠ .null := by
      intro x hx he
      rw [he] at hx
      cases hx
    have ha' := hn ha
    have hb'' := hn hb'
    rw [hcte] at ha hb' ha' hb'' ⊢
    exact (hl.unrelated_slots hab ha' hb'').2.2 ha hb'

/-! ## Runs -/

/-- No untyped has this byte in its free memory. -/
def HandedOut (s : KState) (a : Word) : Prop :=
  ∀ x i n p, (s.cte x).cap = .untyped i false n p →
    a.toNat < p.toNat + 2 ^ minUntypedBits * i ∨ p.toNat + 2 ^ n ≤ a.toNat

/-- What can happen between two entries to the kernel. -/
inductive Step (cfg : KernelConfig) : KState → KState → Prop
  /-- An invocation on a CNode. -/
  | cnode {s s' : KState} (fuel : Nat) (curThread : Word) (label : KState.CNodeLabel)
      (msg : Message) (slot : Word) (e : Exception) :
      s.decodeCNodeInvocation cfg fuel curThread label msg (s.cap slot) = .ok (e, s') →
      Step cfg s s'
  /-- An invocation on an untyped. -/
  | untyped {s s' : KState} (args : KState.RetypeArgs) (init : Word → Option (BitVec 8))
      (slot : Word) (e : Exception) :
      s.decodeUntypedInvocation cfg args init slot = .ok (e, s') → Step cfg s s'
  /-- An invocation on interrupt control. -/
  | irqControl {s s' : KState} (msg : Message) (slot : Word) (e : Exception) :
      s.cap slot = .irqControl → s.decodeIRQControlInvocation cfg msg slot = .ok (e, s') →
      Step cfg s s'
  /-- An invocation on an interrupt handler. The slots of interrupts are in no CNode, so that no
  capability in a message is in one of them. -/
  | irqHandler {s s' : KState} (label : KState.IRQHandlerLabel) (excap : Option Word)
      (slot irq : Word) (e : Exception) :
      s.cap slot = .irqHandler irq → cteAt cfg.irqNode irq ≠ 0 →
      excap ≠ some (cteAt cfg.irqNode irq) →
      s.decodeIRQHandlerInvocation cfg label excap irq = .ok (e, s') → Step cfg s s'
  /-- Capabilities in a message. -/
  | transfer {s s' : KState} (endpoint : Word) (threadRoot : Cap)
      (receiveBuffer : Option KState.CapTransfer) (excaprefs : List Word)
      (t : KState.Transferred) :
      s.transferCaps cfg endpoint threadRoot receiveBuffer excaprefs = .ok (t, s') → Step cfg s s'
  /-- A derived capability for a slot of a thread, at boot or in its configuration. -/
  | insert {s : KState} (cap : Cap) (src dst : Word) :
      KState.CanInsert cfg s cap src dst → Step cfg s (s.cteInsert cfg cap src dst)
  /-- Deletion from a slot of a thread. -/
  | delete {s s' : KState} (fuel : Nat) (slot : Word) (e : Exception) :
      s.cteDelete cfg fuel slot true = .ok (e, s') → Step cfg s s'
  /-- User code and kernel objects write to memory that has been handed out. -/
  | write {s : KState} (mem : Memory) :
      (∀ a, mem a ≠ s.mem a → HandedOut s a) → Step cfg s { s with mem := mem }
  /-- Threads begin and cease to wait for replies, and interrupts come at other times. -/
  | timing {s : KState} (r : Word → Bool) (p : Nat → Bool) :
      Step cfg s { s with replyBlocked := r, preempted := p }

/-- The states reachable from boot. -/
inductive Reach (cfg : KernelConfig) : KState → Prop
  | boot {s : KState} : Boot cfg s → Reach cfg s
  | step {s s' : KState} : Reach cfg s → Step cfg s s' → Reach cfg s'

theorem Step.inv (hi : SysInv cfg s) (h : Step cfg s s') : SysInv cfg s' := by
  cases h with
  | cnode fuel cur label msg slot e h => exact decodeCNodeInvocation_inv hi h
  | untyped args init slot e h =>
    obtain ⟨e', t, heq, hinv, -⟩ := decodeUntypedInvocation_spec hi args init slot
    rw [heq] at h
    cases h
    exact hinv
  | irqControl msg slot e hc h => exact decodeIRQControlInvocation_inv hi hc h
  | irqHandler label excap slot irq e _ h0 hne h =>
    exact decodeIRQHandlerInvocation_inv hi h0 hne h
  | transfer _ _ _ _ _ h => exact hi.slotMoves (transferCaps_moves hi h)
  | insert cap src dst h => exact hi.cteInsert h
  | delete fuel slot e h => exact (cteDelete_inv hi h).1
  | write mem h =>
    refine ⟨hi.deriv, ⟨hi.tree.badges, hi.tree.revocable, hi.tree.one_control,
      hi.tree.handler_active, hi.tree.encodes⟩, fun x i n p hx a h1 h2 => ?_, hi.objects⟩
    by_contra hne
    have hchanged : mem a ≠ s.mem a := fun he => hne (he.trans (hi.zeroed x i n p hx a h1 h2))
    rcases h a hchanged x i n p hx with h' | h'
    · exact absurd h1 (Nat.not_le_of_lt h')
    · exact absurd h2 (Nat.not_lt_of_le h')
  | timing r p => exact hi.withTiming r p

/-- **The invariant holds in every reachable state.** -/
theorem Reach.inv (hr : Reach cfg s) : SysInv cfg s := by
  induction hr with
  | boot hb => exact hb.inv
  | step _ h ih => exact h.inv ih

/-- A small system: a CNode of 256 slots that holds its own capability, an untyped of 64 KiB and
interrupt control. -/
def sampleBoot : KState where
  cte := bootHeap [(0x10020, .cnode 8 0 0 0x10000), (0x10040, .untyped 0 false 16 0x20000),
    (0x10060, .irqControl)]
  cdt := fun _ => none
  mem := fun _ => 0
  intStateIRQTable := fun _ => .inactive
  replyBlocked := fun _ => false
  preempted := fun _ => false

theorem boot_sampleBoot : Boot benchConfig sampleBoot := by
  have hnode : (Cap.cnode 8 0 0 0x10000).WF benchConfig := by
    refine ⟨fun _ => ⟨8, rfl⟩, fun _ => by decide, nofun, ?_, nofun, nofun⟩
    rintro _ _ _ _ ⟨⟩
    exact ⟨by decide, by decide, by decide, by decide⟩
  have hunt : (Cap.untyped 0 false 16 0x20000).WF benchConfig := by
    refine ⟨fun _ => ⟨2, rfl⟩, fun _ => by decide, ?_, nofun, nofun, nofun⟩
    rintro _ _ _ _ ⟨⟩
    exact ⟨by decide, by decide, fun _ => by decide⟩
  have hctl : Cap.irqControl.WF benchConfig := ⟨nofun, nofun, nofun, nofun, nofun, nofun⟩
  have hcaps : BootCaps benchConfig [(0x10020, .cnode 8 0 0 0x10000),
      (0x10040, .untyped 0 false 16 0x20000), (0x10060, .irqControl)] := by
    refine ⟨⟨by decide, by decide, by decide⟩, ?_, ?_⟩
    · simp only [List.forall_mem_cons]
      exact ⟨hnode, hunt, hctl, fun e he => absurd he List.not_mem_nil⟩
    · refine .cons ?_ (.cons ?_ (.cons ?_ .nil))
      · simp only [List.forall_mem_cons]
        exact ⟨⟨by decide, by decide, fun _ _ => .inl (by decide)⟩,
          ⟨by decide, by decide, nofun⟩, fun e he => absurd he List.not_mem_nil⟩
      · simp only [List.forall_mem_cons]
        exact ⟨⟨by decide, by decide, nofun⟩, fun e he => absurd he List.not_mem_nil⟩
      · exact fun e he => absurd he List.not_mem_nil
  refine ⟨⟨_, hcaps, rfl⟩, rfl, fun {x i} hx => ?_, fun _ _ _ _ _ _ _ _ => rfl⟩
  have hmem := (mem_bootHeap (l := [(0x10020, Cap.cnode 8 0 0 0x10000),
    (0x10040, .untyped 0 false 16 0x20000), (0x10060, .irqControl)])
    (fun he => by rw [show (sampleBoot.cte x).cap = _ from he] at hx; cases hx)).1
  rw [show (bootHeap _ x).cap = _ from hx] at hmem
  simp at hmem

/-! ## Untyped memory -/

/-- The object in slot `d`: its memory is the block `b`, which is aligned and lies inside the
untyped `u`; whatever else meets it is an untyped that contains `u`. -/
structure SafeObject (cfg : KernelConfig) (s : KState) (u : Block) (d : Word) (b : Block) : Prop where
  region : (s.cte d).cap.region cfg = b
  physical : (s.cte d).cap.capIsPhysical = true
  aligned : b.Aligned
  inside : b ≤ u
  apart : ∀ x ≠ d, (s.cte x).cap.capIsPhysical = true →
    Block.Apart ((s.cte x).cap.region cfg) b ∨
      (s.cte x).cap.isUntyped = true ∧ u ≤ (s.cte x).cap.region cfg

/-- **Untyped memory is safe over whole runs.** In every reachable state no two objects share
memory, and what is derived from an untyped is aligned and lies inside it, below the free index.
Every retype that `decodeUntypedInvocation` accepts goes through, up to a preemption of its reset: none
of its words wraps or is cut off, the objects fit after the free pointer has been aligned, and each
is aligned, inside the untyped and apart from everything that is live. -/
theorem untyped_memory_safety (hr : Reach cfg s) : ObjectsApart cfg s.cte ∧
      (∀ u x i dev n p, (s.cte u).cap = .untyped i dev n p → Links.Desc s.cdt u x →
        ((s.cte x).cap.region cfg).Aligned ∧ (s.cte x).cap.region cfg ≤ ⟨p.toNat, n⟩ ∧
          ((s.cte x).cap.region cfg).top ≤ p.toNat + 2 ^ minUntypedBits * i) ∧
      ∀ args init slot req, decodeRetype cfg args slot s = .ok req →
        ∃ i dev n p, (s.cte slot).cap = .untyped i dev n p ∧
          KState.Plan cfg req p n (if s.cte.ensureNoChildren cfg slot then 0 else i) ∧
          ∃ e s', s.decodeUntypedInvocation cfg args init slot = .ok (e, s') ∧
            (e = .preempted ∨ e = .none ∧
              (s'.cte slot).cap = .untyped (retypeFreeIndex cfg req p).toNat dev n p ∧
              ∀ j, j < req.destLength.toNat →
                SafeObject cfg s' ⟨p.toNat, n⟩ (req.dest j) (req.block cfg j)) := by
  have hi := hr.inv
  refine ⟨hi.objects, ?_, ?_⟩
  · intro u x i dev n p hu hd
    have hrun := (hi.tree.encodes u x).mp hd
    have hs : s.cte.Same cfg u x := (par_iff.mp hrun.par_self).2.1
    have hphys : (s.cte u).cap.capIsPhysical = true := by
      rw [hu]
      rfl
    obtain ⟨hx, hle⟩ := Cap.region_le_of_same (hi.deriv.wf u) (hi.deriv.wf x) hs hphys
    rw [hu] at hle
    exact ⟨(hi.deriv.wf x).aligned hx, hle, hi.deriv.below hrun.before hs hu⟩
  · intro args init slot req hreq
    obtain ⟨radix, destCNode, i, dev, n, p, ha⟩ := decodeRetype_ok hreq
    have hplan := (ready ha hi.deriv.wf).toPlan
    rw [ha.reset] at hplan
    refine ⟨i, dev, n, p, ha.cap, hplan, ?_⟩
    obtain ⟨e, s', heq, -, he⟩ := invokeUntypedRetype_spec hi ha init
    refine ⟨e, s', ?_, ?_⟩
    · unfold decodeUntypedInvocation
      rw [hreq]
      exact heq
    · rcases he with ⟨rfl, hret⟩ | rfl
      · refine .inr ⟨rfl, hret.untyped, fun j hj => ?_⟩
        obtain ⟨s₀, hc, -⟩ := hret.created
        have hcap := hc.cap hj
        refine ⟨?_, ?_, hret.ready.aligned j, hret.ready.le hj, fun x hx hp => ?_⟩
        · rw [hcap]
          exact hret.ready.region hj
        · rw [hcap]
          exact ObjectType.physical_createObject
        · have hap := hc.apart hj hx hp
          rw [hret.untyped] at hap
          exact hap
      · exact .inl rfl

/-- The arguments of a retype to four endpoints. -/
def sampleArgs : KState.RetypeArgs where
  invLabel := untypedRetype
  length := 6
  rootSlot := some 0x10020
  newType := 2
  userObjSize := 0
  nodeIndex := 0
  nodeDepth := 0
  nodeOffset := 0x10
  nodeWindow := 4

theorem untyped_memory_safety_sample :
    ∃ req, decodeRetype benchConfig sampleArgs 0x10040 sampleBoot = .ok req ∧
      req.destLength = 4 ∧ ∃ i dev n p, (sampleBoot.cte 0x10040).cap = .untyped i dev n p ∧
        KState.Plan benchConfig req p n
          (if sampleBoot.cte.ensureNoChildren benchConfig 0x10040 then 0 else i) := by
  have hreq : ∃ req, decodeRetype benchConfig sampleArgs 0x10040 sampleBoot = .ok req ∧
      req.destLength = 4 := ⟨_, rfl, rfl⟩
  obtain ⟨req, hreq, hlen⟩ := hreq
  obtain ⟨i, dev, n, p, hc, hplan, -⟩ := (untyped_memory_safety (.boot boot_sampleBoot)).2.2
    sampleArgs (fun _ => none) 0x10040 req hreq
  exact ⟨req, hreq, hlen, i, dev, n, p, hc, hplan⟩

/-- **Every invocation of an untyped returns.** An error changes nothing. A success fills the slots it was
asked for, and besides them no capability but that of the untyped changes. -/
theorem untyped_invocation_frame (hr : Reach cfg s) (args : KState.RetypeArgs) (init : Word → Option (BitVec 8))
    (slot : Word) : ∃ e s', s.decodeUntypedInvocation cfg args init slot = .ok (e, s') ∧
      ((∃ err, e = .syscallError err ∧ s' = s) ∨ e = .preempted ∨ e = .none ∧
        ∃ req, decodeRetype cfg args slot s = .ok req ∧
          (∀ j, j < req.destLength.toNat → (s'.cte (req.dest j)).cap = req.newCap cfg j) ∧
          ∀ x ≠ slot, (∀ j, j < req.destLength.toNat → x ≠ req.dest j) →
            (s'.cte x).cap = (s.cte x).cap) := by
  obtain ⟨e, s', heq, -, he⟩ := decodeUntypedInvocation_spec hr.inv args init slot
  refine ⟨e, s', heq, he.imp_right (.imp_right ?_)⟩
  rintro ⟨hnone, req, i, dev, n, p, -, hreq, hret⟩
  obtain ⟨s₀, hc, hkeep⟩ := hret.created
  exact ⟨hnone, req, hreq, fun j hj => hc.cap hj, fun x hx hj => (hc.keeps hj).trans (hkeep x hx)⟩

theorem untyped_invocation_frame_sample :
    ∃ e s', sampleBoot.decodeUntypedInvocation benchConfig sampleArgs (fun _ => none) 0x10040 = .ok (e, s') := by
  obtain ⟨e, s', h, -⟩ := untyped_invocation_frame (.boot boot_sampleBoot) sampleArgs (fun _ => none) 0x10040
  exact ⟨e, s', h⟩

/-- **Free memory is zero.** In every reachable state every byte of an untyped that is not device
memory is zero at and above the offset of its free index; so what a retype leaves in the memory
of a new object is what its creation has stored there, on memory that was zero throughout. -/
theorem zeroed_memory (hr : Reach cfg s) :
    (∀ x i n p, (s.cte x).cap = .untyped i false n p → ∀ a : Word,
      p.toNat + 2 ^ minUntypedBits * i ≤ a.toNat → a.toNat < p.toNat + 2 ^ n → s.mem a = 0) ∧
      ∀ args init slot s', s.decodeUntypedInvocation cfg args init slot = .ok (.none, s') →
        ∃ req, decodeRetype cfg args slot s = .ok req ∧
          (req.deviceMemory = false → ∀ j, j < req.destLength.toNat → ∀ a : Word,
            (req.block cfg j).base ≤ a.toNat → a.toNat < (req.block cfg j).top →
              s'.mem a = req.newType.initMemory (req.address cfg j) (req.objectBits cfg) init
                (fun _ => 0) a) := by
  have hi := hr.inv
  refine ⟨hi.zeroed, fun args init slot s' h => ?_⟩
  obtain ⟨e, t, heq, -, he⟩ := decodeUntypedInvocation_spec hi args init slot
  rw [heq] at h
  cases h
  rcases he with ⟨err, he, -⟩ | he | ⟨-, req, i, dev, n, p, -, hreq, hret⟩
  · cases he
  · cases he
  · obtain ⟨s₀, hc, -⟩ := hret.created
    exact ⟨req, hreq, fun hdev j hj => hc.content hdev hj⟩

/-- User code has written to memory that is not part of the untyped. -/
theorem zeroed_memory_sample : ∃ s, Reach benchConfig s ∧ s.mem 0x30000 = 1 ∧
      ∀ a : Word, 0x20000 ≤ a.toNat → a.toNat < 0x30000 → s.mem a = 0 := by
  have hstep : Step benchConfig sampleBoot
      { sampleBoot with mem := fun a => if a = 0x30000 then 1 else 0 } := by
    refine .write _ fun a ha x i n p hx => ?_
    have ha' : a = 0x30000 := by
      by_contra hne
      exact ha (if_neg hne)
    have hne : (sampleBoot.cte x).cap ≠ .null := by
      rw [hx]
      exact nofun
    have hmem := (mem_bootHeap hne).1
    rw [show (bootHeap _ x).cap = _ from hx] at hmem
    simp only [List.mem_cons, Prod.mk.injEq, List.not_mem_nil, reduceCtorEq, and_false, or_false,
      false_or, Cap.untyped.injEq] at hmem
    obtain ⟨-, rfl, -, rfl, rfl⟩ := hmem
    rw [ha']
    exact .inr (by decide)
  have hr := Reach.step (.boot boot_sampleBoot) hstep
  refine ⟨_, hr, rfl, fun a h1 h2 => ?_⟩
  exact (zeroed_memory hr).1 0x10040 0 16 0x20000 rfl a h1 h2

/-! ## The derivation tree -/

/-- **The derivation list encodes the derivation tree**: in every reachable state the descendants of a
slot are the run of slots behind it, each the right neighbour of the one before, for which
`isMDBParentOf` holds of the slot. So a revocation that returns leaves no descendants. -/
theorem derivation_list_encodes_tree (hr : Reach cfg s) :
    (∀ a b, Links.Desc s.cdt a b ↔ Links.InRun 0 s.cte.links (s.cte.Par cfg) a b) ∧
      ∀ fuel slot s', s.cteRevoke cfg fuel slot = .ok (.none, s') → ∀ b, ¬ Links.Desc s'.cdt slot b := by
  have hi := hr.inv
  refine ⟨hi.tree.encodes, fun fuel slot s' h b hd => ?_⟩
  obtain ⟨hi', hnone, -⟩ := cteRevoke_inv hi h
  -- a descendant would put the right neighbour into the run
  have hrun := (hi'.tree.encodes slot b).mp hd
  have hhead : ∀ {d}, Links.InRun 0 s'.cte.links (s'.cte.Par cfg) slot d → False := by
    intro d hd
    induction hd with
    | head hn hp => exact hnone rfl _ hn hp
    | tail _ _ _ ih => exact ih
  exact hhead hrun

/-- A copy of the CNode's capability is a descendant of it, and its right neighbour. -/
theorem derivation_list_encodes_tree_sample :
    ∃ s, Reach benchConfig s ∧ Links.Desc s.cdt 0x10020 0x10080 ∧
      Links.InRun 0 s.cte.links (s.cte.Par benchConfig) 0x10020 0x10080 := by
  have hcan : KState.CanInsert benchConfig sampleBoot (.cnode 8 0 0 0x10000) 0x10020 0x10080 :=
    { derived := .refl (boot_sampleBoot.inv.deriv.wf 0x10020)
      src_ne := nofun
      zombie := rfl
      control := nofun
      childless := nofun
      dst_null := rfl
      dst_ne := by decide }
  have hr := Reach.step (.boot boot_sampleBoot) (.insert _ _ _ hcan)
  have hd : Links.Desc (sampleBoot.cteInsert benchConfig (.cnode 8 0 0 0x10000) 0x10020 0x10080).cdt
      0x10020 0x10080 := .single rfl
  exact ⟨_, hr, hd, ((derivation_list_encodes_tree hr).1 _ _).mp hd⟩

/-! ## Finality -/

/-- The capabilities whose finality the kernel asks for: to an endpoint, a notification, a CNode, a
thread, a reply object, a scheduling context or an interrupt. -/
def Cap.hasObject : Cap → Bool
  | endpoint .. | notification .. | cnode .. | thread _ | replyObject .. | schedContext ..
  | irqHandler _ => true
  | _ => false

theorem Cap.isExact_of_hasObject {c : Cap} (h : c.hasObject = true) : c.isExact = true := by
  cases c <;> first | rfl | cases h

/-- **Finality is global**: in every reachable state `isFinalCapability`, which looks at the two
neighbours of a slot, is true iff no other slot holds a capability to the same object. -/
theorem finality_is_global (hr : Reach cfg s) {slot : Word} (hslot : (s.cte slot).cap.hasObject = true) :
    s.cte.isFinalCapability cfg slot = true ↔
      ∀ x ≠ slot, (s.cte slot).cap.sameObjectAs cfg (s.cte x).cap = false ∧
        (s.cte x).cap.sameObjectAs cfg (s.cte slot).cap = false := by
  have he := Cap.isExact_of_hasObject hslot
  rw [hr.inv.deriv.isFinalCapability_iff_key he]
  refine forall₂_congr fun x _ => ?_
  have h1 : (s.cte slot).cap.sameObjectAs cfg (s.cte x).cap = true ↔ _ := Cap.sameObjectAs_exact he _
  have h2 : (s.cte x).cap.sameObjectAs cfg (s.cte slot).cap = true ↔ _ :=
    Cap.sameObjectAs_exact_right he _
  rw [← Bool.not_eq_true, ← Bool.not_eq_true, h1, h2]
  constructor
  · exact fun h => ⟨fun he => h he.symm, h⟩
  · exact fun h => h.2

theorem finality_is_global_sample :
    Reach benchConfig sampleBoot ∧ (sampleBoot.cte 0x10020).cap.hasObject = true ∧
      ∀ x ≠ 0x10020, (sampleBoot.cte 0x10020).cap.sameObjectAs benchConfig
        (sampleBoot.cte x).cap = false :=
  ⟨.boot boot_sampleBoot, rfl, fun x hx =>
    ((finality_is_global (.boot boot_sampleBoot) rfl).mp rfl x hx).1⟩

end SeL4.Object
