import Mathlib.Data.List.FinRange
import SeL4.Lib.Trace
import SeL4.Lib.Word

/-!
# Callbacks for interrupts on a notification

`sel4platsupport_irq_wait`, `_poll` and `_handle` of `irq.c` run the callbacks of the IRQs that are paired
with bits of a badge. A bit that arrives and is not served is kept in `pending_bitfield`.

* `serve_irq` updates this field by an exclusive or with the bits that arrived and were not served. A bit
  that was pending and is served stays pending, and one that was pending and arrives again is forgotten.
* A bit with no IRQ is looked up as any other. Its entry is 0 after `provide_ntfn_common`, the id of an IRQ,
  and `UNPAIRED_ID` after the IRQ has gone, for which `perform_callback` reads outside of the table.

So calls do what they should exactly if none of this happens (`calls_lawful_iff`); `irq_lost_or_repeated` has a
history for each case.
-/

namespace SeL4.Plat

open SeL4.Lib

/-! ## The interface -/

/-- A bit of a badge, of which there are `MAX_INTERRUPTS_TO_NOTIFICATIONS`. -/
abbrev BadgeBit := Fin 64

/-- `ntfn_entry_t`, without the capability. -/
structure NtfnEntry where
  usableMask : Word
  statusBitfield : Word
  pendingBitfield : Word
  boundIrqs : BadgeBit → Int

/-- The entry that `provide_ntfn_common` fills in. -/
def provideNtfnCommon (usableMask : Word) : NtfnEntry := ⟨usableMask, 0, 0, fun _ => 0⟩

/-- The entry after `irq_set_ntfn_common` has given the bit to an IRQ. -/
def NtfnEntry.pair (e : NtfnEntry) (b : BadgeBit) (irqId : Nat) : NtfnEntry :=
  { e with statusBitfield := e.statusBitfield ||| bit b, boundIrqs := Function.update e.boundIrqs b irqId }

/-- The entry after `sel4platsupport_irq_unset_ntfn` or `_unregister` of the IRQ of the bit. -/
def NtfnEntry.unpair (e : NtfnEntry) (b : BadgeBit) : NtfnEntry :=
  { e with
    statusBitfield := e.statusBitfield &&& ~~~bit b
    pendingBitfield := e.pendingBitfield &&& ~~~bit b
    boundIrqs := Function.update e.boundIrqs b (-1) }

/-- The interface as one of its notifications sees it. `registered` are the entries of `irq_table` with a
callback; an IRQ that a bit is given to is one of them, until it is unregistered and the bit is free again. -/
structure IrqCookie where
  maxIrqIds : Nat
  registered : Nat → Bool
  ntfn : NtfnEntry
  paired : ∀ b : BadgeBit, ntfn.statusBitfield.getLsbD b = true →
    ∃ i < maxIrqIds, ntfn.boundIrqs b = i ∧ registered i = true

/-- The bits that a loop visits which takes `CTZL(w)` and clears it until `w` is 0. -/
def setBits (w : Word) : List BadgeBit := (List.finRange 64).filter fun b => w.getLsbD b

namespace IrqCookie

/-- The callbacks of a call: bits, and the ids of their IRQs. -/
abbrev Log := List (BadgeBit × Int)

variable (s : IrqCookie)

/-- `perform_callback`: whether there was one to run, or `none` outside of `irq_table`. -/
def performCallback (irqId : Int) : Option Bool :=
  if 0 ≤ irqId ∧ irqId < s.maxIrqIds then some (s.registered irqId.toNat) else none

/-- The loop of `serve_irq` and `sel4platsupport_irq_handle` over the bits in the mask. -/
def performCallbacks : List BadgeBit → Option Log
  | [] => some []
  | b :: bs => do
    let called ← s.performCallback (s.ntfn.boundIrqs b)
    let log ← performCallbacks bs
    some (if called then (b, s.ntfn.boundIrqs b) :: log else log)

/-- `served_mask`. -/
def servedMask : Log → Word
  | [] => 0
  | c :: log => bit c.1 ||| servedMask log

def setPending (p : Word) : IrqCookie :=
  { s with ntfn := { s.ntfn with pendingBitfield := p }, paired := s.paired }

/-- The bits of a badge that are relevant. -/
def arrived (badge : Word) : Word := badge &&& s.ntfn.usableMask

/-- `serve_irq`, with the callbacks and `ret_leftover_bits`. -/
def serveIrq (mask badge : Word) : Option (IrqCookie × Log × Word) := do
  let log ← s.performCallbacks (setBits ((s.arrived badge ||| s.ntfn.pendingBitfield) &&& mask))
  some (s.setPending (s.ntfn.pendingBitfield ^^^ (s.arrived badge &&& ~~~servedMask log)), log,
    badge &&& ~~~servedMask log)

/-- `sel4platsupport_irq_handle`. -/
def irqHandle (handleMask : Word) : Option (IrqCookie × Log) := do
  let log ← s.performCallbacks (setBits (handleMask &&& s.ntfn.usableMask))
  some (s.setPending (s.ntfn.pendingBitfield &&& ~~~servedMask log), log)

/-- A call, with the badge that the notification delivers. -/
inductive Call
  | wait (waitMask badge : Word)
  | poll (pollMask badge : Word)
  | handle (handleMask : Word)

def call : Call → Option (IrqCookie × Log)
  | .wait mask badge | .poll mask badge => (s.serveIrq mask badge).map fun r => (r.1, r.2.1)
  | .handle mask => s.irqHandle mask

def next (c : Call) : Option IrqCookie := (s.call c).map Prod.fst

/-- The callbacks of the calls of a history. -/
def history : IrqCookie → List Call → Option (List Log)
  | _, [] => some []
  | s, c :: cs => do
    let (s', log) ← s.call c
    let logs ← history s' cs
    some (log :: logs)

/-! ## What a call should do -/

/-- The bit has an IRQ. -/
def Paired (b : BadgeBit) : Bool := s.ntfn.statusBitfield.getLsbD b

/-- The bits that arrive with a call. -/
def delivered : Call → Word
  | .wait _ badge | .poll _ badge => s.arrived badge
  | .handle _ => 0

/-- The bits that a call serves, if they have an IRQ. -/
def looked : Call → Word
  | .wait mask badge | .poll mask badge => (s.arrived badge ||| s.ntfn.pendingBitfield) &&& mask
  | .handle mask => mask &&& s.ntfn.usableMask

/-- The callbacks of the IRQs that are paired with these bits, once each. -/
def pairedCallbacks (w : Word) : Log := ((setBits w).filter s.Paired).map fun b => (b, s.ntfn.boundIrqs b)

/-- The bits that are served are those with an IRQ; they are no longer pending, and the others that arrived
are. -/
def Lawful (c : Call) : Prop :=
  ∃ s', s.call c = some (s', s.pairedCallbacks (s.looked c)) ∧ s'.ntfn.pendingBitfield =
    (s.ntfn.pendingBitfield ||| s.delivered c) &&& ~~~(s.looked c &&& s.ntfn.statusBitfield)

/-- The entry of the bit is an id that no IRQ has. -/
def Vacant (b : BadgeBit) : Prop := ∃ i < s.maxIrqIds, s.ntfn.boundIrqs b = i ∧ s.registered i = false

/-- Every bit without an IRQ leads to no callback. -/
def NoStray (w : Word) : Prop := ∀ b ∈ setBits w, s.Paired b = false → s.Vacant b

/-- No bit leads to a wrong callback, and in a wait or poll no pending bit is served or arrives again. -/
def Sound (c : Call) : Prop :=
  s.NoStray (s.looked c) ∧ match c with
    | .handle _ => True
    | c => s.ntfn.pendingBitfield &&& (s.delivered c ||| s.looked c &&& s.ntfn.statusBitfield) = 0

variable {s}

theorem performCallbacks_eq_some {bs : List BadgeBit} {log : Log} :
    s.performCallbacks bs = some log ↔
      (∀ b ∈ bs, 0 ≤ s.ntfn.boundIrqs b ∧ s.ntfn.boundIrqs b < s.maxIrqIds) ∧
      log = (bs.filter fun b => s.registered (s.ntfn.boundIrqs b).toNat).map fun b => (b, s.ntfn.boundIrqs b) := by
  induction bs generalizing log with
  | nil => simp [performCallbacks, eq_comm]
  | cons b bs ih =>
    rw [performCallbacks, performCallback]
    by_cases hb : 0 ≤ s.ntfn.boundIrqs b ∧ s.ntfn.boundIrqs b < s.maxIrqIds
    · cases hr : s.registered (s.ntfn.boundIrqs b).toNat <;>
        simp [hb, hr, Option.bind_eq_some_iff, ih, @eq_comm _ log]
    · simp [hb]

/-- The loop runs the callbacks it should exactly if no bit is stray. -/
theorem performCallbacks_eq_paired {bs : List BadgeBit} :
    s.performCallbacks bs = some ((bs.filter s.Paired).map fun b => (b, s.ntfn.boundIrqs b)) ↔
      ∀ b ∈ bs, s.Paired b = false → s.Vacant b := by
  have hinj : Function.Injective fun b => (b, s.ntfn.boundIrqs b) := fun _ _ h => congrArg Prod.fst h
  rw [performCallbacks_eq_some, (List.map_injective_iff.mpr hinj).eq_iff]
  constructor
  · rintro ⟨hvalid, hlog⟩ b hb hp
    obtain ⟨i, hi⟩ := Int.eq_ofNat_of_zero_le (hvalid b hb).1
    refine ⟨i, ?_, hi, ?_⟩
    · have hlt := (hvalid b hb).2
      omega
    · by_contra hr
      have hmem : b ∈ bs.filter s.Paired := by
        rw [hlog, List.mem_filter, hi]
        exact ⟨hb, by simpa using hr⟩
      exact nomatch hp.symm.trans (List.mem_filter.mp hmem).2
  · intro h
    have hentry : ∀ b ∈ bs, ∃ i < s.maxIrqIds, s.ntfn.boundIrqs b = i ∧ s.registered i = s.Paired b := by
      intro b hb
      cases hp : s.Paired b with
      | true => exact s.paired b hp
      | false => exact h b hb hp
    refine ⟨fun b hb => ?_, List.filter_congr fun b hb => ?_⟩
    · obtain ⟨i, hlt, hi, -⟩ := hentry b hb
      omega
    · obtain ⟨i, -, hi, hr⟩ := hentry b hb
      rw [hi]
      exact hr.symm

theorem getLsbD_servedMask (log : Log) (i : BadgeBit) :
    (servedMask log).getLsbD i = log.any fun c => c.1 = i := by
  induction log with
  | nil => exact BitVec.getLsbD_zero
  | cons c log ih =>
    rw [servedMask, BitVec.getLsbD_or, getLsbD_bit c.1.isLt, ih]
    simp [Fin.ext_iff, eq_comm]

theorem servedMask_paired (w : Word) :
    servedMask (s.pairedCallbacks w) = w &&& s.ntfn.statusBitfield := by
  refine BitVec.eq_of_getLsbD_eq fun i hi => ?_
  rw [getLsbD_servedMask _ ⟨i, hi⟩, Bool.eq_iff_iff]
  simp [pairedCallbacks, setBits, Paired, BitVec.getLsbD_eq_getElem hi, and_comm]

/-- The exclusive or keeps the pending bits exactly if none of them arrives again or is served. -/
theorem xor_eq_iff (p u w : Word) : p ^^^ (u &&& ~~~w) = (p ||| u) &&& ~~~w ↔ p &&& (u ||| w) = 0 := by
  simp only [BitVec.eq_of_getLsbD_eq_iff, BitVec.getLsbD_xor, BitVec.getLsbD_and, BitVec.getLsbD_not,
    BitVec.getLsbD_or, BitVec.ofNat_eq_ofNat, BitVec.getLsbD_zero]
  refine forall₂_congr fun i hi => ?_
  cases p.getLsbD i <;> cases u.getLsbD i <;> cases w.getLsbD i <;> simp [hi]

variable (s)

/-- `pending_bitfield` after a call that has served the bits of `w`. -/
def pendingAfter : Call → Word → Word
  | .handle _, w => s.ntfn.pendingBitfield &&& ~~~w
  | c, w => s.ntfn.pendingBitfield ^^^ (s.delivered c &&& ~~~w)

theorem call_eq (c : Call) : s.call c = (s.performCallbacks (setBits (s.looked c))).map fun log =>
    (s.setPending (s.pendingAfter c (servedMask log)), log) := by
  cases c <;> simp only [call, serveIrq, irqHandle, looked] <;> cases s.performCallbacks _ <;> rfl

theorem lawful_iff (c : Call) : s.Lawful c ↔ s.Sound c := by
  have hcall : s.Lawful c ↔ s.NoStray (s.looked c) ∧ s.pendingAfter c (s.looked c &&& s.ntfn.statusBitfield) =
      (s.ntfn.pendingBitfield ||| s.delivered c) &&& ~~~(s.looked c &&& s.ntfn.statusBitfield) := by
    rw [Lawful, call_eq, NoStray, ← performCallbacks_eq_paired, ← servedMask_paired]
    constructor
    · rintro ⟨s', hs, hp⟩
      obtain ⟨log, hlog, ⟨⟩⟩ := Option.map_eq_some_iff.mp hs
      exact ⟨hlog, hp⟩
    · rintro ⟨hlog, hp⟩
      exact ⟨_, congrArg (Option.map _) hlog, hp⟩
  rw [hcall]
  cases c with
  | handle mask => simp [Sound, pendingAfter, delivered]
  | wait mask badge | poll mask badge => exact and_congr_right fun _ => xor_eq_iff ..

/-- **When interrupts are served as they should be**, along every history of calls on a notification. -/
theorem calls_lawful_iff (cs : List Call) : EveryStep next Lawful s cs ↔ EveryStep next Sound s cs := by
  rw [funext fun s => funext fun c => propext (lawful_iff s c)]

/-! ## Histories -/

/-- A notification of two bits, the first of which is given to IRQ 0. -/
def oneIrq : IrqCookie := ⟨1, fun _ => true, (provideNtfnCommon 3).pair 0 0, by decide⟩

/-- The same after the IRQ is unpaired. -/
def noIrq : IrqCookie := ⟨1, fun _ => true, ((provideNtfnCommon 3).pair 0 0).unpair 0, by decide⟩

/-- **Interrupts are repeated, lost and misdirected.** An interrupt that arrives once, while it is masked, is
served by each later poll; if it arrives a second time before it is served then it is not served at all. A bit
without an IRQ runs the callback of IRQ 0, or is looked up outside of the table. -/
theorem irq_lost_or_repeated :
    oneIrq.history [.wait 0 1, .poll 1 0, .poll 1 0] = some [[], [(0, 0)], [(0, 0)]] ∧
      oneIrq.history [.wait 0 1, .wait 0 1, .poll 1 0] = some [[], [], []] ∧
      oneIrq.history [.wait 2 2] = some [[(1, 0)]] ∧ oneIrq.Paired 1 = false ∧
      noIrq.history [.wait 1 1] = none := by
  decide +kernel

end IrqCookie

end SeL4.Plat
