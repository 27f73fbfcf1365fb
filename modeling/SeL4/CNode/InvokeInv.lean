import SeL4.CNode.RetypeInv
import SeL4.Object.Invocation

/-!
# Invocations keep the invariants

What the checks of `decodeCNodeInvocation`, `decodeIRQControlInvocation` and `transferCaps` give the
operations on slots that follow. A derived or updated capability is to the same object as the
one it comes from (`Derived`), and every operation is called on slots that fit it (`CNodeOp.Valid`), so
that `SysInv` is kept: `decodeCNodeInvocation_inv`, `decodeIRQControlInvocation_inv`. Apart from
deletions, they only insert, move and exchange capabilities (`SlotMove`): `invokeCNode_does`,
`transferCaps_moves`.
-/

namespace SeL4.Object

open SeL4.Lib SeL4.CSpace CteHeap

variable {cfg : KernelConfig} {s s' : KState}

variable {src cur : Word}

/-! ## Derived capabilities -/

namespace Cap

/-- `c` is a capability to the object of `d`: it has lost nothing of what the derivation list goes by.
A badge is only ever set where there was none. -/
structure Derived (cfg : KernelConfig) (d c : Cap) : Prop where
  key : c.key = d.key
  wf : c.WF cfg
  badge : ∀ w, d.badge = some w → w ≠ 0 → c.badge = some w
  untyped : c.isUntyped = true → c = d

/-- The types whose capabilities have no field that `WF` constrains, apart from their memory. -/
def isPlain : Cap → Bool
  | untyped .. | cnode .. | thread _ | zombie .. => false
  | _ => true

variable {c d : Cap}

theorem WF.of_key (hd : d.WF cfg) (hk : c.key = d.key) (hp : c.isPlain = true) : c.WF cfg := by
  have hno : ∀ {e : Cap}, e.isPlain = false → c ≠ e := by
    rintro e he rfl
    rw [he] at hp
    cases hp
  have hr : c.region cfg = d.region cfg := region_eq_of_key hk
  refine ⟨fun h => ?_, fun h => ?_, fun h => absurd h (hno rfl), fun h => absurd h (hno rfl),
    fun h => absurd h (hno rfl), fun h => absurd h (hno rfl)⟩
  · rw [hr]
    exact hd.aligned (physical_eq_of_key hk ▸ h)
  · have hbits : c.capSizeBits cfg = d.capSizeBits cfg := congrArg Block.bits hr
    rw [hbits]
    exact hd.bits_le (physical_eq_of_key hk ▸ h)

theorem Derived.refl (h : d.WF cfg) : Derived cfg d d := ⟨rfl, h, fun _ hw _ => hw, fun _ => rfl⟩

theorem Derived.trans {a b : Cap} (hab : Derived cfg a b) (hbc : Derived cfg b c) :
    Derived cfg a c where
  key := hbc.key.trans hab.key
  wf := hbc.wf
  badge w hw h0 := hbc.badge w (hab.badge w hw h0) h0
  untyped hu := by
    have hcb := hbc.untyped hu
    rw [hcb] at hu ⊢
    exact hab.untyped hu

theorem derived_maskCapRights (m : CapRights) (h : d.WF cfg) : Derived cfg d (maskCapRights m d) := by
  cases d with
  | endpoint | notification | reply | replyObject | frame =>
    exact ⟨rfl, h.of_key rfl rfl, fun _ hw _ => hw, nofun⟩
  | _ => exact .refl h

theorem derived_updateCapData {preserve : Bool} {data : Word} (h : d.WF cfg)
    (hc : updateCapData preserve data d = c) (hn : c ≠ null) : Derived cfg d c := by
  cases d with
  | endpoint badge | notification badge =>
    unfold updateCapData at hc
    dsimp only at hc
    split_ifs at hc with hb
    · subst hc
      rw [Bool.and_eq_true, beq_iff_eq] at hb
      refine ⟨rfl, h.of_key rfl rfl, fun w hw h0 => ?_, nofun⟩
      cases hw
      exact absurd hb.2 h0
    · exact absurd hc.symm hn
  | cnode radix g gd p =>
    obtain ⟨hr, -, -, hp⟩ := h.cnode rfl
    unfold updateCapData at hc
    dsimp only at hc
    split_ifs at hc with hg
    · exact absurd hc.symm hn
    · subst hc
      refine ⟨rfl, ⟨fun _ => h.aligned rfl, fun _ => h.bits_le rfl, nofun, ?_,
        nofun, nofun⟩, nofun,
        nofun⟩
      rintro _ _ _ _ ⟨⟩
      have hg64 : (cnodeCapData data).2 ≤ 64 := by
        unfold wordBits at hg
        omega
      refine ⟨hr, by omega, ?_, hp⟩
      rw [toNat_and_mask _ hg64]
      exact Nat.mod_lt _ (Nat.two_pow_pos _)
  | _ =>
    subst hc
    exact Derived.refl h

/-- With `preserve` set, the badge does not change. -/
theorem badge_updateCapData {data : Word} (hc : updateCapData true data d = c)
    (hn : c ≠ null) : c.badge = d.badge := by
  subst hc
  cases d with
  | endpoint | notification => exact absurd rfl hn
  | cnode =>
    unfold updateCapData
    dsimp only
    split_ifs <;> rfl
  | _ => rfl

end Cap

variable {c : Cap} {h : CteHeap}

/-- What `deriveCap` lets pass. -/
theorem CteHeap.derived_deriveCap {slot : Word} {d : Cap} (hd : d.WF cfg)
    (hc : h.deriveCap cfg slot d = .ok c) (hn : c ≠ .null) :
    Cap.Derived cfg d c ∧ d ≠ .null ∧ d.isZombie = false ∧ d ≠ .irqControl ∧
      (d.isUntyped = true → h.ensureNoChildren cfg slot = true) := by
  cases d with
  | null | zombie | irqControl | reply =>
    cases hc
    exact absurd rfl hn
  | untyped i dev n p =>
    unfold deriveCap at hc
    split_ifs at hc with hch
    cases hc
    exact ⟨.refl hd, hn, rfl, nofun, fun _ => hch⟩
  | vspace | pageTable =>
    unfold deriveCap at hc
    dsimp only at hc
    split_ifs at hc
    cases hc
    exact ⟨.refl hd, hn, rfl, nofun, nofun⟩
  | frame =>
    cases hc
    exact ⟨⟨rfl, hd.of_key rfl rfl, nofun, nofun⟩, nofun, rfl, nofun, nofun⟩
  | _ =>
    cases hc
    exact ⟨.refl hd, hn, rfl, nofun, nofun⟩

/-! ## Inserting and moving -/

namespace KState

/-- `c` can be inserted behind `src`, into `dst`. -/
structure CanInsert (cfg : KernelConfig) (s : KState) (c : Cap) (src dst : Word) : Prop where
  derived : Cap.Derived cfg (s.cte src).cap c
  src_ne : (s.cte src).cap ≠ .null
  zombie : (s.cte src).cap.isZombie = false
  control : (s.cte src).cap ≠ .irqControl
  childless : (s.cte src).cap.isUntyped = true → s.cte.ensureNoChildren cfg src = true
  dst_null : (s.cte dst).cap = .null
  dst_ne : dst ≠ 0

/-- `c` can take the place of the capability in `src`, in `dst`. -/
structure CanMove (cfg : KernelConfig) (s : KState) (c : Cap) (src dst : Word) : Prop where
  derived : Cap.Derived cfg (s.cte src).cap c
  badge : c.badge = (s.cte src).cap.badge
  src_ne : (s.cte src).cap ≠ .null
  dst_null : (s.cte dst).cap = .null
  dst_ne : dst ≠ 0

end KState

/-- The untypeds after `cteInsert`: the copy has the index of the source, which is full now. -/
theorem CteHeap.untyped_cteInsert {src dst x : Word} {i : Nat} {dev : Bool}
    {n : Nat} {p : Word} (hx : (h.cteInsert c src dst x).cap = .untyped i dev n p) :
    x = dst ∧ c = .untyped i dev n p ∨ (h x).cap = .untyped i dev n p ∨
      i = maxFreeIndex n ∧ ∃ j, (h x).cap = .untyped j dev n p := by
  rw [cap_cteInsert] at hx
  split_ifs at hx with hxd
  · exact .inl ⟨hxd, hx⟩
  · rcases cap_setUntypedCapAsFull h c src x with he | ⟨rfl, j, dev', m, q, hu, he⟩
    · exact .inr (.inl (he.symm.trans hx))
    · rw [he] at hx
      cases hx
      exact .inr (.inr ⟨rfl, j, hu⟩)

/-- Objects after `cteInsert` of a capability that is to the object of the source, or to none. -/
theorem ObjectsApart.cteInsert {src dst : Word} (ho : ObjectsApart cfg h)
    (hc : c.capIsPhysical = false ∨ c.key = (h src).cap.key) :
    ObjectsApart cfg (h.cteInsert c src dst) := by
  refine ho.of_keys fun x => ?_
  by_cases hx : x = dst
  · rw [cap_cteInsert, if_pos hx]
    exact hc.imp_right fun hk => ⟨src, hk⟩
  · exact .inr ⟨x, (face_eq (face_cteInsert h c src hx)).1⟩

namespace SysInv

variable (hi : SysInv cfg s)
include hi

variable {dst : Word}

/-- Free memory after `cteInsert`: a full untyped has none. -/
theorem zeroFrom_cteInsert {x : Word} {i n : Nat} {p : Word} (hu : c.isUntyped = true → c = (s.cte src).cap)
    (hx : (s.cte.cteInsert c src dst x).cap = .untyped i false n p) :
    ZeroFrom s.mem (p.toNat + 2 ^ minUntypedBits * i) (p.toNat + 2 ^ n) := by
  rcases untyped_cteInsert hx with ⟨-, rfl⟩ | hx | ⟨rfl, j, hx⟩
  · exact hi.zeroed src i n p (hu rfl).symm
  · exact hi.zeroed x i n p hx
  · intro a h1 h2
    have hwf : (Cap.untyped j false n p).WF cfg := hx ▸ hi.deriv.wf x
    rw [two_pow_mul_maxFreeIndex (hwf.untyped rfl).1] at h1
    exact absurd h1 (Nat.not_le_of_lt h2)

theorem cteInsert (h : KState.CanInsert cfg s c src dst) : SysInv cfg (s.cteInsert cfg c src dst) := by
  have hch : (s.cte src).cap.isUntyped = true →
      ∀ x, s.cte.links.Next 0 src x → ¬ s.cte.Same cfg src x :=
    fun hu x hx => hi.childless hu (h.childless hu) x hx.before
  exact ⟨hi.deriv.insertCopy h.src_ne h.zombie h.dst_null h.dst_ne h.derived.key h.derived.wf hch,
    hi.tree.insertCopy hi.deriv h.dst_null h.dst_ne h.src_ne h.zombie h.control h.derived.key
      h.derived.badge hch, fun x i n p hx => hi.zeroFrom_cteInsert h.derived.untyped hx,
    hi.objects.cteInsert (.inr h.derived.key)⟩

theorem cteMove (h : KState.CanMove cfg s c src dst) : SysInv cfg (s.cteMove c src dst) := by
  have hcap := s.cte_cteMove c src dst
  refine ⟨hi.deriv.cteMove h.src_ne h.dst_null h.dst_ne h.derived.key h.derived.wf
      h.derived.untyped, hi.tree.cteMove hi.deriv h.src_ne h.dst_null h.dst_ne h.derived.key h.badge,
    hi.zeroed.of_caps rfl fun {x i n p} hx => ?_, hi.objects.of_keys fun x => ?_⟩
  · rw [hcap] at hx
    split_ifs at hx with h1 h2
    · exact ⟨src, by rw [← h.derived.untyped (by rw [hx]; rfl), hx]⟩
    · exact ⟨x, hx⟩
  · rw [hcap]
    split_ifs
    · exact .inl rfl
    · exact .inr ⟨src, h.derived.key⟩
    · exact .inr ⟨x, rfl⟩

theorem insertHandler {irq ctrl : Word} (hc : (s.cte ctrl).cap = .irqControl)
    (hd : (s.cte dst).cap = .null) (hd0 : dst ≠ 0) (hirq : s.irqActive irq = false) :
    SysInv cfg (s.invokeIRQControl cfg irq dst ctrl) := by
  have hno : ∀ x, (s.cte x).cap ≠ .irqHandler irq := by
    intro x hx
    rw [hi.tree.handler_active hx] at hirq
    cases hirq
  exact ⟨hi.deriv.insertHandler hc hd hd0 hno fun x hx => hi.tree.one_control hx hc,
    hi.tree.insertHandler hi.deriv hd hd0 hc hirq,
    fun x i n p hx => hi.zeroFrom_cteInsert (c := .irqHandler irq) nofun hx,
    hi.objects.cteInsert (.inl rfl)⟩

end SysInv

namespace KState

/-- A capability is inserted, moved, or exchanged with another one. -/
inductive SlotMove (cfg : KernelConfig) : KState → KState → Prop
  | insert {s : KState} {c : Cap} {src dst : Word} (h : CanInsert cfg s c src dst) :
      SlotMove cfg s (s.cteInsert cfg c src dst)
  | move {s : KState} {c : Cap} {src dst : Word} (h : CanMove cfg s c src dst) :
      SlotMove cfg s (s.cteMove c src dst)
  | swap {s : KState} {c d : Cap} {a b : Word} (hab : a ≠ b) (hc : Cap.Derived cfg (s.cte a).cap c)
      (hd : Cap.Derived cfg (s.cte b).cap d) (hcb : c.badge = (s.cte a).cap.badge)
      (hdb : d.badge = (s.cte b).cap.badge) (ha : (s.cte a).cap ≠ .null) (hb : (s.cte b).cap ≠ .null) :
      SlotMove cfg s (s.cteSwap c a d b)

/-- A sequence of them. -/
abbrev SlotMoves (cfg : KernelConfig) : KState → KState → Prop := Relation.ReflTransGen (SlotMove cfg)

end KState

theorem SysInv.slotMove (hi : SysInv cfg s) (h : KState.SlotMove cfg s s') : SysInv cfg s' := by
  cases h with
  | insert h => exact hi.cteInsert h
  | move h => exact hi.cteMove h
  | swap hab hc hd hcb hdb ha hb =>
    exact hi.cteSwap hab (hi.slot_ne_zero ha) (hi.slot_ne_zero hb) hc.key hcb hc.wf hc.untyped hd.key hdb
      hd.wf hd.untyped

theorem SysInv.slotMoves (hi : SysInv cfg s) (h : KState.SlotMoves cfg s s') : SysInv cfg s' := by
  induction h with
  | refl => exact hi
  | tail _ hstep ih => exact ih.slotMove hstep

/-! ## CNode invocations -/

namespace KState

/-- The three slots of a rotation fit. -/
structure CanRotate (cfg : KernelConfig) (s : KState) (c₁ c₂ : Cap) (s₁ s₂ s₃ : Word) : Prop where
  derived₁ : Cap.Derived cfg (s.cte s₁).cap c₁
  badge₁ : c₁.badge = (s.cte s₁).cap.badge
  derived₂ : Cap.Derived cfg (s.cte s₂).cap c₂
  badge₂ : c₂.badge = (s.cte s₂).cap.badge
  ne_null₁ : (s.cte s₁).cap ≠ .null
  ne_null₂ : (s.cte s₂).cap ≠ .null
  ne₁ : s₂ ≠ s₁
  ne₃ : s₂ ≠ s₃
  dst_null : s₁ ≠ s₃ → (s.cte s₃).cap = .null
  dst_ne : s₃ ≠ 0

/-- What the decoding has made sure of. -/
def CNodeOp.Valid (cfg : KernelConfig) (s : KState) : CNodeOp → Prop
  | .insert c src dst => CanInsert cfg s c src dst
  | .move c src dst => CanMove cfg s c src dst
  | .rotate c₁ c₂ s₁ s₂ s₃ => CanRotate cfg s c₁ c₂ s₁ s₂ s₃
  | .saveCaller dst => (s.cte dst).cap = .null ∧ dst ≠ 0
  | .revoke _ | .delete _ | .cancelBadgedSends _ => True

variable {α : Type}

theorem of_raising {x : Except SyscallError α} {a : α} (h : raising x = .ok a) : x = .ok a := by
  cases x with
  | error e => cases h
  | ok b =>
    cases h
    rfl

variable {dst : Word}

theorem null_of_ensureEmptySlot (h : ¬ (!s.cte.ensureEmptySlot dst) = true) : (s.cte dst).cap = .null := by
  rw [Bool.not_eq_true', Bool.not_eq_false] at h
  exact Cap.isNull_iff.mp h

theorem ne_null_of_isNull (h : ¬ c.isNull = true) : c ≠ .null := fun he => h (Cap.isNull_iff.mpr he)

variable {label : CNodeLabel} {msg : Message}

section

variable (hi : SysInv cfg s)
include hi

/-- The new capability, for each label. -/
theorem decodeNewCap_valid {isMove : Bool}
    (h : decodeNewCap cfg label msg src s = .ok (c, isMove)) (hn : c ≠ .null)
    (hs : (s.cte src).cap ≠ .null) (hd : (s.cte dst).cap = .null) (hd0 : dst ≠ 0) :
    if isMove then CanMove cfg s c src dst else CanInsert cfg s c src dst := by
  have hwf := hi.deriv.wf src
  -- `Copy` and `Mint` insert what `deriveCap` returns
  have hinsert : ∀ {d : Cap}, Cap.Derived cfg (s.cte src).cap d →
      s.cte.deriveCap cfg src d = .ok c → CanInsert cfg s c src dst := by
    intro d hd' hc
    obtain ⟨hdc, hdn, hz, hctl, hch⟩ := derived_deriveCap hd'.wf hc hn
    have hcd := hd'.trans hdc
    refine ⟨hcd, hs, ?_, ?_, ?_, hd, hd0⟩
    · rw [← Cap.isZombie_key, ← hd'.key, Cap.isZombie_key]
      exact hz
    · intro he
      refine hctl (Cap.key_eq_irqControl.mp ?_)
      rw [hd'.key, he]
      rfl
    · intro hu
      refine hch ?_
      rw [← Cap.isUntyped_key, hd'.key, Cap.isUntyped_key]
      exact hu
  cases label with
  | copy =>
    obtain ⟨-, h⟩ := of_ite_error h
    obtain ⟨c', hc, h⟩ := bind_eq_ok h
    cases h
    exact hinsert (Cap.derived_maskCapRights _ hwf) (of_raising hc)
  | mint =>
    obtain ⟨-, h⟩ := of_ite_error h
    obtain ⟨c', hc, h⟩ := bind_eq_ok h
    cases h
    have hmask := Cap.derived_maskCapRights (rightsFromWord (msg.arg 4)) hwf
    have hc' := of_raising hc
    refine hinsert (hmask.trans (Cap.derived_updateCapData hmask.wf rfl ?_)) hc'
    intro hnull
    have hcap : Cap.maskCapRights (rightsFromWord (msg.arg 4)) (s.cap src) =
        .maskCapRights (rightsFromWord (msg.arg 4)) (s.cte src).cap := rfl
    rw [hcap, hnull] at hc'
    cases hc'
    exact hn rfl
  | move =>
    cases h
    exact ⟨.refl hwf, rfl, hs, hd, hd0⟩
  | mutate =>
    obtain ⟨-, h⟩ := of_ite_error h
    cases h
    exact ⟨Cap.derived_updateCapData hwf rfl hn, Cap.badge_updateCapData rfl hn, hs, hd, hd0⟩
  | _ => cases h

variable {op : CNodeOp}

theorem decodeCopy_valid (hd0 : dst ≠ 0) (h : decodeCopy cfg label msg dst s = .ok op) :
    op.Valid cfg s := by
  obtain ⟨-, h⟩ := of_ite_error h
  split at h
  · cases h
  obtain ⟨hempty, h⟩ := of_ite_error h
  obtain ⟨src, -, h⟩ := bind_eq_ok h
  obtain ⟨hs, h⟩ := of_ite_error h
  obtain ⟨⟨c, isMove⟩, hc, h⟩ := bind_eq_ok h
  obtain ⟨hn, h⟩ := of_ite_error h
  have hvalid := decodeNewCap_valid hi hc (ne_null_of_isNull hn) (ne_null_of_isNull hs)
    (null_of_ensureEmptySlot hempty) hd0
  cases isMove with
  | true =>
    cases h
    exact hvalid
  | false =>
    cases h
    exact hvalid

theorem decodeRotate_valid (hd0 : dst ≠ 0) (h : decodeRotate msg dst s = .ok op) : op.Valid cfg s := by
  obtain ⟨-, h⟩ := of_ite_error h
  split at h
  · obtain ⟨src, -, pivot, -, h⟩ := bind2_eq_ok h
    obtain ⟨hne, h⟩ := of_ite_error h
    obtain ⟨hempty, h⟩ := of_ite_error h
    obtain ⟨hs, h⟩ := of_ite_error h
    obtain ⟨hp, h⟩ := of_ite_error h
    obtain ⟨hn1, h⟩ := of_ite_error h
    obtain ⟨hn2, h⟩ := of_ite_error h
    cases h
    have h1 := ne_null_of_isNull hn1
    have h2 := ne_null_of_isNull hn2
    exact
      { derived₁ := Cap.derived_updateCapData (hi.deriv.wf src) rfl h1
        badge₁ := Cap.badge_updateCapData rfl h1
        derived₂ := Cap.derived_updateCapData (hi.deriv.wf pivot) rfl h2
        badge₂ := Cap.badge_updateCapData rfl h2
        ne_null₁ := ne_null_of_isNull hs
        ne_null₂ := ne_null_of_isNull hp
        ne₁ := fun he => hne (.inl he)
        ne₃ := fun he => hne (.inr he)
        dst_null := fun he => Cap.isNull_iff.mp (Bool.not_eq_false _ ▸ fun hf => hempty ⟨he, hf⟩)
        dst_ne := hd0 }
  · cases h

theorem decodeCNode_valid {cap : Cap} (hcap : cap.WF cfg) (h : decodeCNode cfg label msg cap s = .ok op) :
    op.Valid cfg s := by
  obtain ⟨-, h⟩ := of_ite_error h
  obtain ⟨-, h⟩ := of_ite_error h
  obtain ⟨dst, hdst, h⟩ := bind_eq_ok h
  have hd0 : dst ≠ 0 := lookupSlotForCNodeOp_ne_zero hi.deriv.wf _ hcap hdst
  cases label with
  | copy | mint | move | mutate => exact decodeCopy_valid hi hd0 h
  | revoke | delete =>
    cases h
    trivial
  | saveCaller =>
    obtain ⟨hempty, h⟩ := of_ite_error h
    cases h
    exact ⟨null_of_ensureEmptySlot hempty, hd0⟩
  | cancelBadgedSends =>
    obtain ⟨-, h⟩ := of_ite_error h
    cases h
    trivial
  | rotate => exact decodeRotate_valid hi hd0 h
  | other => cases h

theorem invokeCNodeRotate_moves {c₁ c₂ : Cap} {s₁ s₂ s₃ : Word} (h : CanRotate cfg s c₁ c₂ s₁ s₂ s₃) :
    SlotMoves cfg s (s.invokeCNodeRotate c₁ c₂ s₁ s₂ s₃) := by
  unfold invokeCNodeRotate
  split_ifs with h13
  · exact .single (.swap h.ne₁.symm h.derived₁ h.derived₂ h.badge₁ h.badge₂ h.ne_null₁ h.ne_null₂)
  · have hcap := s.cte_cteMove c₂ s₂ s₃
    have h1 : ((s.cteMove c₂ s₂ s₃).cte s₁).cap = (s.cte s₁).cap := by
      rw [hcap, if_neg h.ne₁.symm, if_neg h13]
    refine (Relation.ReflTransGen.single (.move ⟨h.derived₂, h.badge₂, h.ne_null₂, h.dst_null h13,
      h.dst_ne⟩)).tail (.move ⟨?_, ?_, ?_, ?_, hi.slot_ne_zero h.ne_null₂⟩)
    · rw [h1]
      exact h.derived₁
    · rw [h1]
      exact h.badge₁
    · rw [h1]
      exact h.ne_null₁
    · rw [hcap, if_pos rfl]

variable {e : Exception}

theorem invokeCNodeSaveCaller_moves (hd : (s.cte dst).cap = .null) (hd0 : dst ≠ 0)
    (h : s.invokeCNodeSaveCaller cfg cur dst = .ok (e, s')) : SlotMoves cfg s s' := by
  unfold invokeCNodeSaveCaller at h
  dsimp only at h
  cases hc : s.cap (cteAt (Cap.tcbCTEPtr cfg cur) tcbCaller) with
  | null =>
    rw [hc] at h
    cases h
    exact .refl
  | reply canGrant master tcb =>
    rw [hc] at h
    dsimp only at h
    split_ifs at h
    · cases h
      have hcs : (s.cte (cteAt (Cap.tcbCTEPtr cfg cur) tcbCaller)).cap = .reply canGrant master tcb := hc
      have hwf := hi.deriv.wf (cteAt (Cap.tcbCTEPtr cfg cur) tcbCaller)
      rw [hcs] at hwf
      refine .single (.move ⟨?_, ?_, ?_, hd, hd0⟩)
      · rw [hcs]
        exact Cap.Derived.refl hwf
      · rw [hcs]
      · rw [hcs]
        exact nofun
    · cases h
      exact .refl
  | _ =>
    rw [hc] at h
    cases h

/-- What an operation on CNodes does: it moves capabilities, or deletes some. -/
theorem invokeCNode_does {fuel : Nat}
    (hop : op.Valid cfg s) (h : s.invokeCNode cfg fuel cur op = .ok (e, s')) :
    SlotMoves cfg s s' ∨ SysInv cfg s' ∧ DeleteSteps cfg s s' := by
  cases op with
  | revoke => exact .inr ⟨(cteRevoke_inv hi h).1, (cteRevoke_inv hi h).2.2⟩
  | delete => exact .inr (cteDelete_inv hi h)
  | cancelBadgedSends =>
    cases h
    exact .inl .refl
  | insert =>
    cases h
    exact .inl (.single (.insert hop))
  | move =>
    cases h
    exact .inl (.single (.move hop))
  | rotate =>
    cases h
    exact .inl (invokeCNodeRotate_moves hi hop)
  | saveCaller dst => exact .inl (invokeCNodeSaveCaller_moves hi hop.1 hop.2 h)

end

/-- An invocation that returns has been decoded, or has changed nothing. -/
theorem invoking_cases {decoded : Decode α} {invoke : α → Checked (Exception × KState)}
    (h : s.invoking decoded invoke = .ok (e, s')) :
    (∃ a, decoded = .ok a ∧ invoke a = .ok (e, s')) ∨ (∃ err, e = .syscallError err) ∧ s' = s := by
  cases decoded with
  | ok a => exact .inl ⟨a, rfl, h⟩
  | error err =>
    cases err with
    | syscall err =>
      cases h
      exact .inr ⟨⟨err, rfl⟩, rfl⟩
    | fault => cases h

section

variable (hi : SysInv cfg s)
include hi

/-- An invocation keeps what its second half keeps. -/
theorem invoking_inv {decoded : Decode α} {invoke : α → Checked (Exception × KState)}
    (hok : ∀ a, decoded = .ok a → invoke a = .ok (e, s') → SysInv cfg s')
    (h : s.invoking decoded invoke = .ok (e, s')) : SysInv cfg s' := by
  rcases invoking_cases h with ⟨a, hd, h⟩ | ⟨-, rfl⟩
  · exact hok a hd h
  · exact hi

variable {slot : Word}

/-- **CNode invocations keep the invariant.** -/
theorem decodeCNodeInvocation_inv {fuel : Nat}
    (h : s.decodeCNodeInvocation cfg fuel cur label msg (s.cap slot) = .ok (e, s')) :
    SysInv cfg s' := by
  refine invoking_inv hi (fun _ hop h => ?_) h
  rcases invokeCNode_does hi (decodeCNode_valid hi (hi.deriv.wf slot) hop) h with hm | ⟨hi', -⟩
  · exact hi.slotMoves hm
  · exact hi'

/-! ## Interrupts and messages -/

variable {irq : Word}

/-- A handler is issued for an interrupt that has none, into an empty slot. -/
theorem decodeIssueIRQHandler_valid
    (hr : decodeIssueIRQHandler cfg msg s = .ok (irq, dst)) :
    (s.cte dst).cap = .null ∧ dst ≠ 0 ∧ s.irqActive irq = false := by
  obtain ⟨-, hr⟩ := of_ite_error hr
  split at hr
  · cases hr
  obtain ⟨-, hr⟩ := of_ite_error hr
  obtain ⟨hact, hr⟩ := of_ite_error hr
  obtain ⟨dst, hdst, hr⟩ := bind_eq_ok hr
  obtain ⟨hempty, hr⟩ := of_ite_error hr
  cases hr
  exact ⟨null_of_ensureEmptySlot hempty,
    lookupSlotForCNodeOp_ne_zero hi.deriv.wf _ (hi.deriv.wf _) hdst, Bool.eq_false_iff.mpr hact⟩

/-- **Issuing an interrupt handler keeps the invariant.** -/
theorem decodeIRQControlInvocation_inv (hc : s.cap slot = .irqControl)
    (h : s.decodeIRQControlInvocation cfg msg slot = .ok (e, s')) : SysInv cfg s' := by
  refine invoking_inv hi (fun r hr h => ?_) h
  cases h
  obtain ⟨hd, hd0, hact⟩ := decodeIssueIRQHandler_valid hi hr
  exact hi.insertHandler hc hd hd0 hact

/-- `SetIRQHandler` has deleted the notification in the interrupt's slot, and copies the new one. -/
theorem canInsert_setIRQHandler {irqSlot : Word}
    (hsig : canSignal (s.cap slot) = true) (hne : slot ≠ irqSlot) (h0 : irqSlot ≠ 0)
    (h : s.cteDeleteOne irqSlot = .ok s') : CanInsert cfg s' (s.cap slot) slot irqSlot := by
  have hsame : (s'.cte slot).cap = s.cap slot := cteDeleteOne_off h hne
  have hwf := (cteDeleteOne_inv hi h).1.deriv.wf slot
  cases hc : s.cap slot with
  | notification =>
    rw [hc] at hsame
    rw [hsame] at hwf
    exact
      { derived := by rw [hsame]; exact .refl hwf
        src_ne := by rw [hsame]; exact nofun
        zombie := by rw [hsame]; rfl
        control := by rw [hsame]; exact nofun
        childless := by rw [hsame]; exact nofun
        dst_null := null_of_cteDeleteOne h
        dst_ne := h0 }
  | _ =>
    rw [hc] at hsig
    cases hsig

omit hi in
/-- What an invocation of an interrupt handler does: nothing, empty the interrupt's slot, or also
put a notification there. -/
theorem decodeIRQHandlerInvocation_cases {label : IRQHandlerLabel} {excap : Option Word}
    (h : s.decodeIRQHandlerInvocation cfg label excap irq = .ok (e, s')) :
    s' = s ∨ s.cteDeleteOne (cteAt cfg.irqNode irq) = .ok s' ∨
      ∃ slot s1, excap = some slot ∧ canSignal (s.cap slot) = true ∧
        s.cteDeleteOne (cteAt cfg.irqNode irq) = .ok s1 ∧
        s' = s1.cteInsert cfg (s.cap slot) slot (cteAt cfg.irqNode irq) := by
  rcases invoking_cases h with ⟨op, hop, h⟩ | ⟨-, rfl⟩
  · cases label with
    | ack =>
      cases hop
      cases h
      exact .inl rfl
    | setHandler =>
      cases excap with
      | none => cases hop
      | some slot =>
        obtain ⟨hsig, hop⟩ := of_ite_error hop
        cases hop
        obtain ⟨s2, h2, h⟩ := bind_eq_ok h
        cases h
        obtain ⟨s1, h1, h2⟩ := bind_eq_ok h2
        cases h2
        rw [Bool.not_eq_true', Bool.not_eq_false] at hsig
        exact .inr (.inr ⟨slot, s1, rfl, hsig, h1, rfl⟩)
    | clearHandler =>
      cases hop
      obtain ⟨s1, h1, h⟩ := bind_eq_ok h
      cases h
      exact .inr (.inl h1)
    | other => cases hop
  · exact .inl rfl

/-- **The use of an interrupt handler keeps the invariant.** -/
theorem decodeIRQHandlerInvocation_inv {label : IRQHandlerLabel}
    {excap : Option Word} (h0 : cteAt cfg.irqNode irq ≠ 0) (hne : excap ≠ some (cteAt cfg.irqNode irq))
    (h : s.decodeIRQHandlerInvocation cfg label excap irq = .ok (e, s')) : SysInv cfg s' := by
  rcases decodeIRQHandlerInvocation_cases h with rfl | h | ⟨slot, s1, rfl, hsig, h1, rfl⟩
  · exact hi
  · exact (cteDeleteOne_inv hi h).1
  · exact (cteDeleteOne_inv hi h1).1.cteInsert
      (canInsert_setIRQHandler hi hsig (fun he => hne (congrArg some he)) h0 h1)

/-- The slot for a capability in a message is empty. -/
theorem getReceiveSlots_ok {root : Cap} {buffer : Option CapTransfer}
    (h : s.getReceiveSlots root buffer = .ok (some dst)) : (s.cte dst).cap = .null ∧ dst ≠ 0 := by
  unfold getReceiveSlots at h
  split at h
  · cases h
  split at h
  · cases h
  · cases h
  · split at h
    · cases h
    · cases h
    next slot hslot =>
      split_ifs at h with hn
      · cases h
        exact ⟨Cap.isNull_iff.mp hn, lookupSlotForCNodeOp_ne_zero hi.deriv.wf _ (hi.deriv.wf _) hslot⟩
      · cases h

omit hi in
theorem transferLoop_moves {endpoint : Word} (excaprefs : List Word) :
    ∀ {i : Nat} {dst : Option Word} {t : Transferred} {s : KState}, SysInv cfg s →
      (∀ d, dst = some d → (s.cte d).cap = .null ∧ d ≠ 0) →
      SlotMoves cfg s (transferLoop cfg endpoint excaprefs i dst t s).2 := by
  induction excaprefs with
  | nil => exact fun _ _ => .refl
  | cons slot rest ih =>
    intro i dst t s hi hdst
    unfold transferLoop
    split
    · exact ih hi hdst
    · split
      next d cap hcap =>
        split_ifs with hn
        · exact .refl
        · obtain ⟨hd, hd0⟩ := hdst d rfl
          obtain ⟨hder, hs, hz, hctl, hch⟩ :=
            derived_deriveCap (hi.deriv.wf slot) hcap (ne_null_of_isNull hn)
          have hstep : SlotMove cfg s _ := .insert ⟨hder, hs, hz, hctl, hch, hd, hd0⟩
          exact .head hstep (ih (hi.slotMove hstep) (by simp))
      · exact .refl

/-- Capabilities in messages are inserted into empty slots. -/
theorem transferCaps_moves {endpoint : Word} {root : Cap}
    {buffer : Option CapTransfer} {excaprefs : List Word} {t : Transferred}
    (h : s.transferCaps cfg endpoint root buffer excaprefs = .ok (t, s')) : SlotMoves cfg s s' := by
  unfold transferCaps at h
  split_ifs at h
  · cases h
    exact .refl
  · obtain ⟨dst, hdst, h⟩ := bind_eq_ok h
    have hmoves : SlotMoves cfg s (transferLoop cfg endpoint excaprefs 0 dst ⟨0, 0, []⟩ s).2 := by
      refine transferLoop_moves excaprefs hi ?_
      rintro d rfl
      exact getReceiveSlots_ok hi hdst
    rw [Except.ok.inj h] at hmoves
    exact hmoves

end

end KState

end SeL4.Object
