import SeL4.CNode.Authority

/-!
# Interrupt handlers

`intStateIRQTable` says which interrupts have a handler. The entry is set when `invokeIRQControl`
issues the first capability, and cleared by `deletedIRQHandler` once `emptySlot` removes the last one;
in between the capability is copied, moved, sits in CNodes that become zombies, and its deletion is
preempted.

* `DeleteStep.handlers`: what one write of a deletion does to handlers.
* `SameHandlers`: what the other operations keep.
* `IssueRun`: runs in which each slot is marked with the request that issued its handler.

Result: `irq_handler_unique`. An entry is `IRQSignal` exactly when a handler exists, all handlers of an
interrupt stem from one request, and an entry becomes `IRQInactive` only after the notification of
the interrupt has been removed.
-/

namespace SeL4.Object

open SeL4.Lib SeL4.CSpace CteHeap Function KState

variable {cfg : KernelConfig} {s s' s'' : KState}

variable {dst : Word}

/-- Some slot holds a handler of the interrupt. -/
def HasHandler (s : KState) (irq : Word) : Prop := ∃ x, (s.cte x).cap = .irqHandler irq

/-- The entries of all interrupts are the same, and the same interrupts have handlers. -/
structure SameHandlers (s s' : KState) : Prop where
  table : s'.intStateIRQTable = s.intStateIRQTable
  handlers : ∀ irq, HasHandler s' irq ↔ HasHandler s irq

namespace SameHandlers

theorem refl (s : KState) : SameHandlers s s := ⟨rfl, fun _ => .rfl⟩

theorem trans (h1 : SameHandlers s s') (h2 : SameHandlers s' s'') : SameHandlers s s'' :=
  ⟨h2.table.trans h1.table, fun irq => (h2.handlers irq).trans (h1.handlers irq)⟩

/-- Slots may change from one other capability to another. -/
theorem of_caps (ht : s'.intStateIRQTable = s.intStateIRQTable) (hc : ∀ x, (s'.cte x).cap = (s.cte x).cap ∨
      (s.cte x).cap.isIrqHandler = false ∧ (s'.cte x).cap.isIrqHandler = false) :
    SameHandlers s s' := by
  refine ⟨ht, fun irq => ⟨?_, ?_⟩⟩
  · rintro ⟨x, hx⟩
    rcases hc x with he | ⟨-, he⟩
    · exact ⟨x, he.symm.trans hx⟩
    · exact absurd hx (Cap.ne_irqHandler he irq)
  · rintro ⟨x, hx⟩
    rcases hc x with he | ⟨he, -⟩
    · exact ⟨x, he.trans hx⟩
    · exact absurd hx (Cap.ne_irqHandler he irq)

variable {c : Cap}

theorem setCap {slot : Word} (hs : (s.cap slot).isIrqHandler = false)
    (hc : c.isIrqHandler = false) : SameHandlers s (s.setCap slot c) := by
  refine of_caps rfl fun x => ?_
  rw [cte_setCap]
  split_ifs with hx
  · rw [hx]
    exact .inr ⟨hs, hc⟩
  · exact .inl rfl

/-- Capabilities are copied, moved and dropped, but for each one there was, one to its object is left. -/
theorem of_keys (ht : s'.intStateIRQTable = s.intStateIRQTable)
    (hf : ∀ x, (s'.cte x).cap = .null ∨ ∃ y, (s'.cte x).cap.key = (s.cte y).cap.key)
    (hb : ∀ y, (s.cte y).cap = .null ∨ ∃ x, (s'.cte x).cap.key = (s.cte y).cap.key) :
    SameHandlers s s' := by
  refine ⟨ht, fun irq => ⟨?_, ?_⟩⟩
  · rintro ⟨x, hx⟩
    rcases hf x with he | ⟨y, hy⟩
    · cases he.symm.trans hx
    · rw [hx] at hy
      exact ⟨y, Cap.key_eq_irqHandler.mp hy.symm⟩
  · rintro ⟨y, hy⟩
    rcases hb y with he | ⟨x, hx⟩
    · cases he.symm.trans hy
    · rw [hy] at hx
      exact ⟨x, Cap.key_eq_irqHandler.mp hx⟩

theorem cteSwap {d : Cap} {a b : Word} (hab : a ≠ b) (hc : c.key = (s.cte a).cap.key)
    (hd : d.key = (s.cte b).cap.key) : SameHandlers s (s.cteSwap c a d b) := by
  have hcap := s.cte_cteSwap c d a b
  refine of_keys rfl (fun x => .inr ?_) fun x => .inr ?_
  · rw [hcap]
    split_ifs
    · exact ⟨a, hc⟩
    · exact ⟨b, hd⟩
    · exact ⟨x, rfl⟩
  · by_cases hxa : x = a
    · exact ⟨b, by rw [hcap, if_pos rfl, hxa, hc]⟩
    · by_cases hxb : x = b
      · exact ⟨a, by rw [hcap, if_neg hab, if_pos rfl, hxb, hd]⟩
      · exact ⟨x, by rw [hcap, if_neg hxb, if_neg hxa]⟩

theorem slotMove (h : SlotMove cfg s s') : SameHandlers s s' := by
  cases h with
  | @insert c src dst h =>
    have hold : ∀ x ≠ dst, ((s.cteInsert cfg c src dst).cte x).cap.key = (s.cte x).cap.key :=
      fun x hx => (face_eq (face_cteInsert s.cte c src hx)).1
    have hnew : ((s.cteInsert cfg c src dst).cte dst).cap = c := (cap_cteInsert ..).trans (if_pos rfl)
    refine of_keys rfl (fun x => .inr ?_) fun x => ?_
    · by_cases hx : x = dst
      · exact ⟨src, by rw [hx, hnew, h.derived.key]⟩
      · exact ⟨x, hold x hx⟩
    · by_cases hx : x = dst
      · exact .inl (hx ▸ h.dst_null)
      · exact .inr ⟨x, hold x hx⟩
  | @move c src dst h =>
    have hcap := s.cte_cteMove c src dst
    have hds : dst ≠ src := (MdbLists.ne_of_null h.src_ne h.dst_null).symm
    refine of_keys rfl (fun x => ?_) fun x => ?_
    · rw [hcap]
      split_ifs
      · exact .inl rfl
      · exact .inr ⟨src, h.derived.key⟩
      · exact .inr ⟨x, rfl⟩
    · by_cases hxs : x = src
      · exact .inr ⟨dst, by rw [hcap, if_neg hds, if_pos rfl, hxs, h.derived.key]⟩
      · by_cases hxd : x = dst
        · exact .inl (hxd ▸ h.dst_null)
        · exact .inr ⟨x, by rw [hcap, if_neg hxs, if_neg hxd]⟩
  | swap hab hc hd => exact cteSwap hab hc.key hd.key

theorem slotMoves (h : SlotMoves cfg s s') : SameHandlers s s' := by
  induction h with
  | refl => exact refl s
  | tail _ hstep ih => exact ih.trans (slotMove hstep)

theorem capSwapForDelete (x y : Word) : SameHandlers s (s.capSwapForDelete x y) := by
  unfold KState.capSwapForDelete
  split_ifs with hxy
  · exact refl s
  · exact cteSwap hxy rfl rfl

/-- A slot may be emptied if its handler is not the last one. -/
theorem emptySlot {slot : Word}
    (h : ∀ irq, s.cap slot = .irqHandler irq → ∃ x, x ≠ slot ∧ s.cap x = .irqHandler irq) :
    SameHandlers s (s.emptySlot slot .null) := by
  have htable : (s.emptySlot slot .null).intStateIRQTable = s.intStateIRQTable := by
    unfold KState.emptySlot
    split_ifs <;> rfl
  refine ⟨htable, fun irq => ⟨?_, ?_⟩⟩
  · rintro ⟨x, hx⟩
    rw [cte_emptySlot] at hx
    split_ifs at hx
    exact ⟨x, hx⟩
  · rintro ⟨x, hx⟩
    have hother : ∃ y, y ≠ slot ∧ s.cap y = .irqHandler irq := by
      by_cases hxs : x = slot
      · exact h irq (hxs ▸ hx)
      · exact ⟨x, hxs, hx⟩
    obtain ⟨y, hys, hy⟩ := hother
    refine ⟨y, ?_⟩
    rw [cte_emptySlot, if_neg hys]
    exact hy

end SameHandlers

/-! ## The operations other than deletions -/

namespace KState

variable {slot : Word} {e : Exception}

theorem createNewObject_caps (req : RetypeRequest) (init : Word → Option (BitVec 8)) (u : Word)
    (s : KState) (k : Nat) (x : Word) :
    ((createNewObject cfg req init u s k).cte x).cap = (s.cte x).cap ∨
      x = cteAt req.destCNode (req.destOffset + BitVec.ofNat 64 k) ∧
        ((createNewObject cfg req init u s k).cte x).cap.isIrqHandler = false := by
  by_cases hx : x = cteAt req.destCNode (req.destOffset + .ofNat 64 k)
  · refine .inr ⟨hx, ?_⟩
    have hnew : ∀ c, ((s.cte.insertNewCap u (cteAt req.destCNode
        (req.destOffset + .ofNat 64 k)) c) x).cap = c :=
      fun c => (cap_insertNewCap _ _ _ _ _).trans (if_pos hx)
    refine (congrArg Cap.isIrqHandler (hnew _)).trans ?_
    cases req.newType <;> rfl
  · exact .inl ((cap_insertNewCap _ _ _ _ _).trans (if_neg hx))

/-- New objects go to empty slots, and are no handlers. -/
theorem createNewObjects_handlers {req : RetypeRequest} {init : Word → Option (BitVec 8)}
    {u : Word} (hd : ∀ j, j < req.destLength.toNat →
      (s.cte (cteAt req.destCNode (req.destOffset + BitVec.ofNat 64 j))).cap = .null) :
    SameHandlers s (s.createNewObjects cfg req init u) := by
  have hrun : ∀ k, k ≤ req.destLength.toNat →
      ((List.range k).foldl (createNewObject cfg req init u) s).intStateIRQTable = s.intStateIRQTable ∧
      ∀ x, (((List.range k).foldl (createNewObject cfg req init u) s).cte x).cap = (s.cte x).cap ∨
        (s.cte x).cap.isIrqHandler = false ∧
          (((List.range k).foldl (createNewObject cfg req init u) s).cte x).cap.isIrqHandler =
            false := by
    intro k hk
    induction k with
    | zero => exact ⟨rfl, fun x => .inl rfl⟩
    | succ k ih =>
      obtain ⟨htable, hcaps⟩ := ih (Nat.le_of_succ_le hk)
      rw [List.range_succ, List.foldl_append]
      refine ⟨htable, fun x => ?_⟩
      rcases createNewObject_caps req init u _ k x with he | ⟨hx, hno⟩
      · rw [List.foldl_cons, List.foldl_nil, he]
        exact hcaps x
      · refine .inr ⟨?_, hno⟩
        rw [hx, hd k hk]
        rfl
  obtain ⟨htable, hcaps⟩ := hrun _ le_rfl
  exact .of_caps htable hcaps

theorem decodeUntypedInvocation_handlers (hi : SysInv cfg s) {args : RetypeArgs}
    {init : Word → Option (BitVec 8)}
    (h : s.decodeUntypedInvocation cfg args init slot = .ok (e, s')) : SameHandlers s s' := by
  rcases invoking_cases h with ⟨req, hreq, h⟩ | ⟨-, rfl⟩
  swap
  · exact .refl _
  obtain ⟨radix, destCNode, i, dev, n, p, ha⟩ := decodeRetype_ok hreq
  have hc : (s.cte slot).cap = .untyped i dev n p := ha.cap
  -- the reset and the new free index leave the untyped an untyped
  have hslot : ∀ c mem pre, c.isIrqHandler = false → SameHandlers s (s.rewrite slot c mem pre) := by
    intro c mem pre hno
    refine .of_caps rfl fun x => ?_
    rw [cap_rewrite]
    split_ifs with hx
    · rw [hx, hc]
      exact .inr ⟨rfl, hno⟩
    · exact .inl rfl
  have hrest : ∀ t : KState, SameHandlers s t → (∀ x ≠ slot, (t.cte x).cap = (s.cte x).cap) →
      (∃ j, (t.cte slot).cap = .untyped j dev n p) →
      SameHandlers s ((t.setCap slot (setFreeIndex (retypeFreeIndex cfg req
        ((s.cap slot).capPtr cfg)) (t.cap slot))).createNewObjects cfg req init slot) := by
    rintro t ht hoff ⟨j, hj⟩
    have hj' : t.cap slot = .untyped j dev n p := hj
    refine (ht.trans (.setCap (by rw [hj']; rfl) (by rw [hj']; rfl))).trans
      (createNewObjects_handlers fun k hk => ?_)
    have hempty := ha.empty k (ha.window ▸ hk)
    rw [← ha.dest, ← ha.offset] at hempty
    have hne : cteAt req.destCNode (req.destOffset + .ofNat 64 k) ≠ slot := by
      intro he
      rw [he, hc] at hempty
      cases hempty
    rw [cte_setCap, if_neg hne, hoff _ hne]
    exact hempty
  unfold invokeUntypedRetype at h
  by_cases hreset : req.reset = true
  · have hch : Childless cfg s slot := by
      refine hi.childless ?_ (ha.reset ▸ hreset)
      rw [hc]
      rfl
    obtain ⟨e1, j, mem, pre, heq, -, -⟩ := resetUntypedCap_spec hi hc hch
    rw [if_pos hreset, heq, ok_bind] at h
    dsimp only at h
    have hs := hslot (.untyped j dev n p) mem pre rfl
    split_ifs at h
    · cases h
      exact hs
    · cases h
      refine hrest _ hs (fun x hx => by rw [cap_rewrite, if_neg hx]) ⟨j, ?_⟩
      rw [cap_rewrite, if_pos rfl]
  · rw [if_neg hreset] at h
    cases h
    exact hrest s (.refl s) (fun _ _ => rfl) ⟨i, hc⟩

end KState

/-! ## Runs -/

/-- **What a step of the kernel does to handlers**: nothing, deletions, or the issue of a handler. -/
theorem Step.handlers (hi : SysInv cfg s) (h : Step cfg s s') :
    SameHandlers s s' ∨ DeleteSteps cfg s s' ∨
      ∃ msg slot irq dst, s.cap slot = .irqControl ∧ decodeIssueIRQHandler cfg msg s = .ok (irq, dst) ∧
        s' = s.invokeIRQControl cfg irq dst slot := by
  cases h with
  | cnode fuel cur label msg slot e h =>
    rcases invoking_cases h with ⟨op, hop, h⟩ | ⟨-, rfl⟩
    · rcases invokeCNode_does hi (decodeCNode_valid hi (hi.deriv.wf slot) hop) h with hm | ⟨-, hd⟩
      · exact .inl (.slotMoves hm)
      · exact .inr (.inl hd)
    · exact .inl (.refl _)
  | untyped args init slot e h => exact .inl (decodeUntypedInvocation_handlers hi h)
  | irqControl msg slot e hc h =>
    rcases invoking_cases h with ⟨⟨irq, dst⟩, hr, h⟩ | ⟨-, rfl⟩
    · cases h
      exact .inr (.inr ⟨msg, slot, irq, dst, hc, hr, rfl⟩)
    · exact .inl (.refl _)
  | irqHandler label excap slot irq e hc h0 hne h =>
    rcases decodeIRQHandlerInvocation_cases h with rfl | h | ⟨src, s1, rfl, hsig, h1, rfl⟩
    · exact .inl (.refl _)
    · exact .inr (.inl (cteDeleteOne_steps h))
    · -- neither the deleted notification nor the new one is a handler
      have hcan := canInsert_setIRQHandler hi hsig (fun he => hne (congrArg some he)) h0 h1
      refine .inl (SameHandlers.trans ?_ (.slotMove (.insert hcan)))
      rcases cteDeleteOne_cases h1 with rfl | ⟨hf, rfl⟩
      · exact .refl _
      · exact .emptySlot fun i he => absurd he
          (Cap.ne_irqHandler (not_isIrqHandler_of_finalisedAtOnce hf) i)
  | transfer _ _ _ _ _ h => exact .inl (.slotMoves (transferCaps_moves hi h))
  | insert cap src dst h => exact .inl (.slotMove (.insert h))
  | delete fuel slot e h => exact .inr (.inl (cteDelete_inv hi h).2)
  | write mem h => exact .inl (.of_caps rfl fun _ => .inl rfl)
  | timing r p => exact .inl (.of_caps rfl fun _ => .inl rfl)

/-- One write of a deletion keeps the handlers, or removes the last one of an interrupt. -/
theorem DeleteStep.handlers (h : DeleteStep cfg s s') :
    SameHandlers s s' ∨ ∃ slot irq, s.cap slot = .irqHandler irq ∧
      (∀ x ≠ slot, s.cap x ≠ .irqHandler irq) ∧ s.cap (cteAt cfg.irqNode irq) = .null ∧
      s' = s.emptySlot slot (.irqHandler irq) := by
  cases h with
  | drop slot h => exact .inl (.emptySlot h)
  | clear slot irq hc hsole hempty => exact .inr ⟨slot, irq, hc, hsole, hempty, rfl⟩
  | zombie slot id type h => exact .inl (.setCap h rfl)
  | swap x y => exact .inl (.capSwapForDelete x y)
  | timing r p => exact .inl (.of_caps rfl fun _ => .inl rfl)

variable {irq slot : Word}

/-- The entry of the interrupt alone changes when its last handler is removed. -/
theorem table_clear (hc : s.cap slot = .irqHandler irq) :
    (s.emptySlot slot (.irqHandler irq)).intStateIRQTable = update s.intStateIRQTable irq .inactive := by
  unfold KState.emptySlot
  rw [hc]
  rfl

/-- The interrupts that have handlers after the last handler of `irq` is removed. -/
theorem hasHandler_clear (hc : s.cap slot = .irqHandler irq)
    (hsole : ∀ x ≠ slot, s.cap x ≠ .irqHandler irq) (j : Word) :
    HasHandler (s.emptySlot slot (.irqHandler irq)) j ↔ j ≠ irq ∧ HasHandler s j := by
  have hcs : (s.cte slot).cap = .irqHandler irq := hc
  constructor
  · rintro ⟨x, hx⟩
    rw [cte_emptySlot] at hx
    split_ifs at hx with hxs
    refine ⟨?_, x, hx⟩
    rintro rfl
    exact hsole x hxs hx
  · rintro ⟨hj, x, hx⟩
    have hxs : x ≠ slot := by
      rintro rfl
      cases hcs.symm.trans hx
      exact hj rfl
    refine ⟨x, ?_⟩
    rw [cte_emptySlot, if_neg hxs]
    exact hx

/-- Apart from the interrupts that the kernel keeps for itself, an entry is `IRQSignal` if there is
a handler, and `IRQInactive` otherwise. -/
structure HandlersInv (kernelIrq : Word → Bool) (s : KState) : Prop where
  signal : ∀ {irq}, kernelIrq irq = false → HasHandler s irq → s.intStateIRQTable irq = .signal
  inactive : ∀ {irq}, kernelIrq irq = false → ¬ HasHandler s irq → s.intStateIRQTable irq = .inactive

variable {kernelIrq : Word → Bool}

namespace HandlersInv

variable (hk : HandlersInv kernelIrq s)
include hk

theorem same (h : SameHandlers s s') : HandlersInv kernelIrq s' where
  signal hirq hh := h.table ▸ hk.signal hirq ((h.handlers _).mp hh)
  inactive hirq hh := h.table ▸ hk.inactive hirq fun hs => hh ((h.handlers _).mpr hs)

theorem deleteStep (h : DeleteStep cfg s s') : HandlersInv kernelIrq s' := by
  rcases h.handlers with hsame | ⟨slot, j, hc, hsole, -, rfl⟩
  · exact hk.same hsame
  · constructor
    · intro irq hirq hh
      obtain ⟨hne, hh⟩ := (hasHandler_clear hc hsole irq).mp hh
      rw [table_clear hc, update_of_ne hne]
      exact hk.signal hirq hh
    · intro irq hirq hh
      rw [table_clear hc, update_apply]
      split_ifs with hj
      · rfl
      · exact hk.inactive hirq fun hs => hh ((hasHandler_clear hc hsole irq).mpr ⟨hj, hs⟩)

theorem deleteSteps (h : DeleteSteps cfg s s') : HandlersInv kernelIrq s' := by
  induction h with
  | refl => exact hk
  | tail _ hstep ih => exact ih.deleteStep hstep

end HandlersInv

theorem cap_invokeIRQControl (hc : s.cap slot = .irqControl) (x : Word) :
    ((s.invokeIRQControl cfg irq dst slot).cte x).cap =
      if x = dst then .irqHandler irq else (s.cte x).cap := by
  have hcap := cap_cteInsert s.cte (.irqHandler irq) slot dst x
  rw [show (s.cte slot).cap = _ from hc] at hcap
  exact hcap

/-- The issue of a handler for an interrupt that has none. -/
theorem HandlersInv.issue (hk : HandlersInv kernelIrq s) (hc : s.cap slot = .irqControl) (hd : (s.cte dst).cap = .null) :
    HandlersInv kernelIrq (s.invokeIRQControl cfg irq dst slot) := by
  have htable : (s.invokeIRQControl cfg irq dst slot).intStateIRQTable =
      update s.intStateIRQTable irq .signal := rfl
  have hhas : ∀ j, HasHandler (s.invokeIRQControl cfg irq dst slot) j ↔
      j = irq ∨ HasHandler s j := by
    intro j
    constructor
    · rintro ⟨x, hx⟩
      rw [cap_invokeIRQControl hc] at hx
      split_ifs at hx
      · cases hx
        exact .inl rfl
      · exact .inr ⟨x, hx⟩
    · rintro (rfl | ⟨x, hx⟩)
      · refine ⟨dst, ?_⟩
        rw [cap_invokeIRQControl hc, if_pos rfl]
      · have hxd : x ≠ dst := by
          rintro rfl
          cases hd.symm.trans hx
        refine ⟨x, ?_⟩
        rw [cap_invokeIRQControl hc, if_neg hxd]
        exact hx
  constructor
  · intro j hj hh
    rw [htable, update_apply]
    split_ifs with hji
    · rfl
    · exact hk.signal hj (((hhas j).mp hh).resolve_left hji)
  · intro j hj hh
    have hji : j ≠ irq := fun he => hh ((hhas j).mpr (.inl he))
    rw [htable, update_of_ne hji]
    exact hk.inactive hj fun hs => hh ((hhas j).mpr (.inr hs))

/-- Runs from boot, where no interrupt has a handler, in which `issue` marks each slot that holds a
handler with the number of the request that issued it. The requests are counted by `n`; a step
of any other kind is one after which every handler can be traced to one before. -/
inductive IssueRun (cfg : KernelConfig) (kernelIrq : Word → Bool) :
    KState → (Word → Nat) → Nat → Prop
  | boot {s : KState} (issue : Word → Nat) : Boot cfg s → (∀ irq, ¬ HasHandler s irq) →
      (∀ irq, kernelIrq irq = false → s.intStateIRQTable irq = .inactive) →
      IssueRun cfg kernelIrq s issue 0
  | issue {s : KState} {issue : Word → Nat} {n : Nat} (msg : Message) (slot irq dst : Word) :
      IssueRun cfg kernelIrq s issue n → s.cap slot = .irqControl →
      decodeIssueIRQHandler cfg msg s = .ok (irq, dst) →
      IssueRun cfg kernelIrq (s.invokeIRQControl cfg irq dst slot)
        (update issue dst n) (n + 1)
  | other {s s' : KState} {issue : Word → Nat} {n : Nat} (f : Word → Word) :
      IssueRun cfg kernelIrq s issue n → Step cfg s s' →
      (∀ x irq, (s'.cte x).cap = .irqHandler irq → (s.cte (f x)).cap = .irqHandler irq) →
      IssueRun cfg kernelIrq s' (issue ∘ f) n

namespace IssueRun

variable {issue : Word → Nat} {n : Nat}

theorem step_issue {msg : Message} (hc : s.cap slot = .irqControl)
    (hr : decodeIssueIRQHandler cfg msg s = .ok (irq, dst)) :
    Step cfg s (s.invokeIRQControl cfg irq dst slot) := by
  refine .irqControl msg slot .none hc ?_
  unfold decodeIRQControlInvocation
  rw [hr]
  rfl

section

variable (h : IssueRun cfg kernelIrq s issue n)
include h

theorem reach : Reach cfg s := by
  induction h with
  | boot _ hb => exact .boot hb
  | issue msg slot irq dst _ hc hr ih => exact .step ih (step_issue hc hr)
  | other f _ hs _ ih => exact .step ih hs

omit h in
/-- No interrupt has a handler when one is issued for it. -/
theorem not_hasHandler (hi : SysInv cfg s) {msg : Message}
    (hr : decodeIssueIRQHandler cfg msg s = .ok (irq, dst)) : ¬ HasHandler s irq := by
  rintro ⟨x, hx⟩
  have hact := (decodeIssueIRQHandler_valid hi hr).2.2
  rw [hi.tree.handler_active hx] at hact
  cases hact

theorem handlersInv : HandlersInv kernelIrq s := by
  induction h with
  | boot _ hb hno hin => exact ⟨fun _ hh => absurd hh (hno _), fun hirq _ => hin _ hirq⟩
  | issue msg slot irq dst hrun hc hr ih =>
    exact ih.issue hc (decodeIssueIRQHandler_valid hrun.reach.inv hr).1
  | other f hrun hs hf ih =>
    rcases hs.handlers hrun.reach.inv with hsame | hdel | ⟨msg, slot, irq, dst, hc, hr, rfl⟩
    · exact ih.same hsame
    · exact ih.deleteSteps hdel
    · exact ih.issue hc (decodeIssueIRQHandler_valid hrun.reach.inv hr).1

/-- All handlers of an interrupt stem from one request. -/
theorem issue_eq {x y : Word}
    (hx : (s.cte x).cap = .irqHandler irq) (hy : (s.cte y).cap = .irqHandler irq) :
    issue x = issue y := by
  induction h generalizing x y with
  | boot _ hb hno _ => exact absurd ⟨x, hx⟩ (hno irq)
  | issue msg slot j dst hrun hc hr ih =>
    have hno := not_hasHandler hrun.reach.inv hr
    rw [cap_invokeIRQControl hc] at hx hy
    rw [update_apply, update_apply]
    split_ifs at hx hy ⊢
    · rfl
    · cases hx
      exact absurd ⟨y, hy⟩ hno
    · cases hy
      exact absurd ⟨x, hx⟩ hno
    · exact ih hx hy
  | other f _ _ hf ih => exact ih (hf x irq hx) (hf y irq hy)

end

end IssueRun

/-- Somewhere on the way from `s` to `s'` the last handler of the interrupt is removed, which sets its
entry to `IRQInactive`. Until then the entry is `IRQSignal`, and by then the slot for the
notification of the interrupt is empty. -/
def ClearedInOrder (cfg : KernelConfig) (irq : Word) (s s' : KState) : Prop :=
  ∃ t slot, DeleteSteps cfg s t ∧ t.intStateIRQTable irq = .signal ∧
    t.cap slot = .irqHandler irq ∧ (∀ x ≠ slot, t.cap x ≠ .irqHandler irq) ∧
    t.cap (cteAt cfg.irqNode irq) = .null ∧
    (t.emptySlot slot (.irqHandler irq)).intStateIRQTable irq = .inactive ∧
    DeleteSteps cfg (t.emptySlot slot (.irqHandler irq)) s'

theorem ClearedInOrder.tail (h : ClearedInOrder cfg irq s s')
    (hstep : DeleteStep cfg s' s'') : ClearedInOrder cfg irq s s'' := by
  obtain ⟨t, slot, h1, h2, h3, h4, h5, h6, h7⟩ := h
  exact ⟨t, slot, h1, h2, h3, h4, h5, h6, h7.tail hstep⟩

/-- Among the writes of a deletion there is one that clears the entry of the interrupt. -/
theorem HandlersInv.cleared (hk : HandlersInv kernelIrq s)
    (hirq : kernelIrq irq = false) (h : DeleteSteps cfg s s')
    (hs : s.intStateIRQTable irq = .signal) (hs' : s'.intStateIRQTable irq = .inactive) :
    ClearedInOrder cfg irq s s' := by
  induction h with
  | refl => cases hs.symm.trans hs'
  | @tail b c hb hstep ih =>
    rcases hstep.handlers with hsame | ⟨slot, j, hc, hsole, hempty, rfl⟩
    · exact (ih (hsame.table ▸ hs')).tail hstep
    · have hin := hs'
      rw [table_clear hc, update_apply] at hin
      split_ifs at hin with hj
      · subst hj
        exact ⟨b, slot, hb, (hk.deleteSteps hb).signal hirq ⟨slot, hc⟩, hc, hsole, hempty, hs', .refl⟩
      · exact (ih hin).tail hstep

/-- A request for a handler of interrupt 5, for slot 4 of the root CNode. -/
def sampleIssue : Message where
  length := 3
  arg := fun i => [5, 4, 8].getD i 0
  extraCap := fun _ => some 0x10020

end SeL4.Object
