import SeL4.Object.Untyped
import SeL4.Object.Zombie

/-!
# The arithmetic of a retype

What `decodeUntypedInvocation` accepts, and what its words then compute. An accepted request
(`Accepted`) fits: `plan` says that no addition, shift or field of it wraps or is cut off, and that
the new objects start at the free offset rounded up and end inside the untyped (`Plan`).

The acceptance test compares the free bytes before the alignment. It is enough because the end of the
untyped is itself aligned to every object size that fits, so rounding up the start costs less than one
object (`Block.roundUp_add_le`).
-/

namespace SeL4.Object

open SeL4.Lib SeL4.CSpace CteHeap

variable {f n k : Nat} {p : Word}

/-! ## Words -/

theorem toNat_freeIndexToOffset (hf : f ≤ 2 ^ 43) :
    (freeIndexToOffset f).toNat = 2 ^ minUntypedBits * f := by
  have h1 : f % 2 ^ 64 = f := Nat.mod_eq_of_lt (by omega)
  have h2 : f * 2 ^ 4 % 2 ^ 64 = f * 2 ^ 4 := Nat.mod_eq_of_lt (by omega)
  rw [freeIndexToOffset, BitVec.toNat_shiftLeft, BitVec.toNat_ofNat, h1, Nat.shiftLeft_eq]
  show f * 2 ^ 4 % 2 ^ 64 = 2 ^ 4 * f
  rw [h2, Nat.mul_comm]

theorem maxFreeIndex_le (hn : n ≤ maxUntypedBits) : maxFreeIndex n ≤ 2 ^ 43 :=
  Nat.pow_le_pow_right (by decide) (Nat.sub_le_sub_right hn 4)

/-- A shift that does not lose bits. -/
theorem toNat_shiftLeft_of_lt {w : Word} (h : w.toNat * 2 ^ k < 2 ^ 64) :
    (w <<< k).toNat = w.toNat * 2 ^ k := by
  rw [BitVec.toNat_shiftLeft, Nat.shiftLeft_eq, Nat.mod_eq_of_lt h]

/-- `alignUp` rounds up, if the addition does not wrap. -/
theorem toNat_alignUp {x : Word} (hk : k < 64) (h : x.toNat + (2 ^ k - 1) < 2 ^ 64) :
    (x + (bit k - 1)).toNat = x.toNat + (2 ^ k - 1) ∧ (alignUp x k).toNat = Block.roundUp x.toNat k := by
  have hm : (bit k - 1 : Word).toNat = 2 ^ k - 1 := toNat_mask hk.le
  have hadd : (x + (bit k - 1)).toNat = x.toNat + (2 ^ k - 1) := by
    rw [BitVec.toNat_add, hm, Nat.mod_eq_of_lt h]
  refine ⟨hadd, ?_⟩
  rw [alignUp, toNat_and_not_mask _ hk.le, hadd]
  rfl

/-- The difference of two addresses in one region. -/
theorem toNat_sub_of_region {x : Nat} (hx : p.toNat + k = x)
    (hk : k < 2 ^ 64) : (BitVec.ofNat 64 x - p).toNat = k := by
  rw [BitVec.toNat_sub, BitVec.toNat_ofNat]
  omega

/-! ## Accepted requests -/

/-- What `decodeUntypedInvocation` has checked when it accepts a request, and what it passes on. -/
structure Accepted (cfg : KernelConfig) (args : KState.RetypeArgs) (slot : Word) (s : KState)
    (req : KState.RetypeRequest) (radix : Nat) (destCNode : Word) (i : Nat) (dev : Bool) (n : Nat)
    (p : Word) : Prop where
  node : ∃ x g gd, s.cap x = .cnode radix g gd destCNode
  cap : s.cap slot = .untyped i dev n p
  type_eq : (ObjectType.all cfg)[args.newType.toNat]? = some req.newType
  userSize_lt : args.userObjSize.toNat < wordBits
  size_le : (req.newType.getObjectSize cfg args.userObjSize).toNat ≤ maxUntypedBits
  capTable : req.newType = .capTable → args.userObjSize ≠ 0
  untyped : req.newType = .untyped → minUntypedBits ≤ args.userObjSize.toNat
  schedContext : req.newType = .schedContext → 7 ≤ args.userObjSize.toNat
  window_pos : 1 ≤ args.nodeWindow.toNat
  window_le : args.nodeWindow.toNat ≤ 256
  in_node : ∀ j, j < args.nodeWindow.toNat → radix < 64 → args.nodeOffset.toNat + j < 2 ^ radix
  empty : ∀ j, j < args.nodeWindow.toNat →
    (s.cte (cteAt destCNode (args.nodeOffset + BitVec.ofNat 64 j))).cap = .null
  fit : args.nodeWindow ≤
    (bit n - freeIndexToOffset (if s.cte.ensureNoChildren cfg slot then 0 else i)) >>>
      (req.newType.getObjectSize cfg args.userObjSize).toNat
  device : dev = true → req.newType.isFrameType = true ∨ req.newType = .untyped
  reset : req.reset = s.cte.ensureNoChildren cfg slot
  base : req.retypeBase = alignUp (getFreeRef p (if s.cte.ensureNoChildren cfg slot then 0 else i))
    (req.newType.getObjectSize cfg args.userObjSize).toNat
  userSize : req.userSize = args.userObjSize
  dest : req.destCNode = destCNode
  offset : req.destOffset = args.nodeOffset
  window : req.destLength = args.nodeWindow
  memory : req.deviceMemory = dev

namespace KState

variable {cfg : KernelConfig} {args : RetypeArgs} {slot : Word} {s : KState} {req : RetypeRequest}

/-- A window that passes the two tests lies inside the node. -/
theorem in_window {radix : Nat} {offset window : Word} (hr : radix < 64)
    (hoff : ¬ offset > bit radix - 1) (hover : ¬ window > bit radix - offset) {j : Nat}
    (hj : j < window.toNat) : offset.toNat + j < 2 ^ radix := by
  rw [BitVec.not_lt] at hoff hover
  have h1 : (bit radix - 1 : Word).toNat = 2 ^ radix - 1 := toNat_mask hr.le
  have h2 : offset.toNat ≤ 2 ^ radix - 1 := h1 ▸ hoff
  have hpos := Nat.two_pow_pos radix
  have hle : offset.toNat ≤ (bit radix).toNat := by
    rw [toNat_bit hr]
    omega
  have h3 : window.toNat ≤ (bit radix - offset).toNat := hover
  rw [BitVec.toNat_sub_of_le hle, toNat_bit hr] at h3
  omega

/-- The node is a capability of some slot. -/
theorem decodeNode_ok {rootSlot : Word} {cap : Cap} (h : decodeNode args rootSlot s = .ok cap) :
    ∃ x, s.cap x = cap := by
  unfold decodeNode at h
  split_ifs at h
  · exact ⟨rootSlot, Except.ok.inj h⟩
  · obtain ⟨x, -, h⟩ := bind_eq_ok h
    exact ⟨x, Except.ok.inj h⟩

theorem decodeRetype_ok (h : decodeRetype cfg args slot s = .ok req) :
    ∃ radix destCNode i dev n p, Accepted cfg args slot s req radix destCNode i dev n p := by
  obtain ⟨-, h⟩ := of_ite_error h
  obtain ⟨-, h⟩ := of_ite_error h
  cases hroot : args.rootSlot with
  | none =>
    rw [hroot] at h
    cases h
  | some rootSlot =>
  rw [hroot] at h
  cases ht : (ObjectType.all cfg)[args.newType.toNat]? with
  | none =>
    rw [ht] at h
    cases h
  | some t =>
  rw [ht] at h
  obtain ⟨hsize, h⟩ := of_ite_error h
  obtain ⟨htable, h⟩ := of_ite_error h
  obtain ⟨hunt, h⟩ := of_ite_error h
  obtain ⟨hsc, h⟩ := of_ite_error h
  obtain ⟨nodeCap, hnode, h⟩ := bind_eq_ok h
  obtain ⟨x, hx⟩ := decodeNode_ok hnode
  unfold decodeWindow at h
  cases hn : nodeCap with
  | cnode radix g gd destCNode =>
    cases hc : s.cap slot with
    | untyped i dev n p =>
      rw [hn, hc] at h
      obtain ⟨hoff, h⟩ := of_ite_error h
      obtain ⟨hwin, h⟩ := of_ite_error h
      obtain ⟨hover, h⟩ := of_ite_error h
      obtain ⟨hempty, h⟩ := of_ite_error h
      obtain ⟨hfit, h⟩ := of_ite_error h
      obtain ⟨hdev, h⟩ := of_ite_error h
      cases h
      rw [not_or, BitVec.not_le, BitVec.not_lt] at hsize
      rw [not_or, BitVec.not_lt, BitVec.not_lt] at hwin
      refine ⟨radix, destCNode, i, dev, n, p, ?_⟩
      exact
        { node := ⟨x, g, gd, hx.trans hn⟩
          cap := hc
          type_eq := ht
          userSize_lt := hsize.1
          size_le := hsize.2
          capTable := fun he h0 => htable ⟨he, h0⟩
          untyped := fun he => BitVec.not_lt.mp fun hlt => hunt ⟨he, hlt⟩
          schedContext := fun he => BitVec.not_lt.mp fun hlt => hsc ⟨he, hlt⟩
          window_pos := hwin.1
          window_le := hwin.2
          in_node := fun j hj hr => in_window hr hoff hover hj
          empty := fun j hj => by
            rw [List.any_eq_true] at hempty
            by_contra hne
            refine hempty ⟨j, List.mem_range.mpr hj, ?_⟩
            rw [Bool.not_eq_true', Bool.eq_false_iff]
            exact fun he => hne (Cap.isNull_iff.mp he)
          fit := BitVec.not_lt.mp hfit
          device := fun hd => by
            by_contra hne
            rw [not_or] at hne
            refine hdev ?_
            rw [hd, Bool.eq_false_iff.mpr hne.1]
            simpa using hne.2
          reset := rfl
          base := rfl
          userSize := rfl
          dest := rfl
          offset := rfl
          window := rfl
          memory := rfl }
    | _ =>
      rw [hn, hc] at h
      cases h
  | _ =>
    rw [hn] at h
    cases h

/-- Decoding a retype never faults. -/
theorem decodeRetype_no_fault (hwf : ∀ x, (s.cap x).WF cfg) (f : Fault) :
    decodeRetype cfg args slot s ≠ .error (.fault f) := by
  have hwindow : ∀ t nodeCap, decodeWindow cfg args t nodeCap slot s ≠ .error (.fault f) := by
    intro t nodeCap h
    unfold decodeWindow at h
    split at h
    · unfold decodeFreeSpace at h
      dsimp only at h
      split_ifs at h <;> cases h
    · cases h
  have hsize : ∀ t rootSlot, decodeSize cfg args t rootSlot slot s ≠ .error (.fault f) := by
    intro t rootSlot h
    unfold decodeSize at h
    dsimp only at h
    split_ifs at h
    · cases h
    · cases h
    · cases h
    · cases h
    · cases hn : decodeNode args rootSlot s with
      | ok nodeCap =>
        rw [hn] at h
        exact hwindow t nodeCap h
      | error e =>
        rw [hn] at h
        cases h
        unfold decodeNode at hn
        split_ifs at hn
        cases hl : lookupTargetSlot s.cap (s.cap rootSlot) args.nodeIndex args.nodeDepth with
        | ok x =>
          rw [hl] at hn
          cases hn
        | error e =>
          rw [hl] at hn
          cases hn
          exact lookupSlotForCNodeOp_no_fault hwf _ (hwf rootSlot) false _ f hl
  intro h
  unfold decodeRetype at h
  split_ifs at h
  · cases h
  · cases h
  · split at h
    · cases h
    · split at h
      · cases h
      · exact hsize _ _ h

/-! ## Where the objects go -/

/-- The size of the new objects, in bits. -/
def RetypeRequest.objectBits (cfg : KernelConfig) (req : RetypeRequest) : Nat :=
  (req.newType.getObjectSize cfg req.userSize).toNat

/-- The memory of the `i`-th new object. -/
def RetypeRequest.block (cfg : KernelConfig) (req : RetypeRequest) (i : Nat) : Block :=
  Block.carve req.retypeBase.toNat (req.objectBits cfg) i

/-- **The words of a retype compute what they are meant to**: nothing wraps, and the objects lie
between the free offset `2 ^ 4 * f` of the untyped at `p` and its end. -/
structure Plan (cfg : KernelConfig) (req : RetypeRequest) (p : Word) (n f : Nat) : Prop where
  bits_ge : minUntypedBits ≤ req.objectBits cfg
  bits_le : req.objectBits cfg ≤ n
  freeRef : (getFreeRef p f).toNat = p.toNat + 2 ^ minUntypedBits * f
  sum : (getFreeRef p f + (bit (req.objectBits cfg) - 1)).toNat =
    (getFreeRef p f).toNat + (2 ^ req.objectBits cfg - 1)
  base : req.retypeBase.toNat = Block.roundUp (p.toNat + 2 ^ minUntypedBits * f) (req.objectBits cfg)
  total : (req.destLength <<< req.objectBits cfg).toNat = req.destLength.toNat * 2 ^ req.objectBits cfg
  fits : req.retypeBase.toNat + req.destLength.toNat * 2 ^ req.objectBits cfg ≤ p.toNat + 2 ^ n
  index : p.toNat + 2 ^ minUntypedBits * (retypeFreeIndex cfg req p).toNat =
    req.retypeBase.toNat + req.destLength.toNat * 2 ^ req.objectBits cfg
  index_le : (retypeFreeIndex cfg req p).toNat ≤ maxFreeIndex n

/-- Every object has room for the smallest untyped. -/
theorem minUntypedBits_le_objectSize {t : ObjectType} {u : Word} (hu : u.toNat < wordBits)
    (hunt : t = .untyped → minUntypedBits ≤ u.toNat) (hsc : t = .schedContext → 7 ≤ u.toNat) :
    minUntypedBits ≤ (t.getObjectSize cfg u).toNat := by
  have htcb := cfg.tcbBits_cases
  have hvs := cfg.vspaceBits_cases
  have h4 : minUntypedBits = 4 := rfl
  cases t with
  | tcb =>
    show minUntypedBits ≤ cfg.tcbBits % 2 ^ 64
    omega
  | notification =>
    show minUntypedBits ≤ (if cfg.mcs then 6 else 5) % 2 ^ 64
    split_ifs <;> decide
  | capTable =>
    have hu' : u.toNat < 64 := hu
    show minUntypedBits ≤ (BitVec.ofNat 64 slotBits + u).toNat
    show minUntypedBits ≤ (5 + u.toNat) % 2 ^ 64
    omega
  | untyped => exact hunt rfl
  | schedContext => exact (by decide : minUntypedBits ≤ 7).trans (hsc rfl)
  | vspace =>
    show minUntypedBits ≤ cfg.vspaceBits % 2 ^ 64
    omega
  | endpoint | reply | smallPage | largePage | hugePage | pageTable | vcpu =>
    exact Nat.le_of_ble_eq_true rfl

theorem toNat_freeBytes (hn4 : minUntypedBits ≤ n) (hn47 : n ≤ 47) (hf : f ≤ maxFreeIndex n) :
    (bit n - freeIndexToOffset f).toNat = 2 ^ n - 2 ^ minUntypedBits * f := by
  have hoffset := toNat_freeIndexToOffset (hf.trans (maxFreeIndex_le hn47))
  have hle : (freeIndexToOffset f).toNat ≤ (bit n).toNat := by
    rw [hoffset, toNat_bit (by omega), ← two_pow_mul_maxFreeIndex hn4]
    exact Nat.mul_le_mul_left _ hf
  rw [BitVec.toNat_sub_of_le hle, toNat_bit (by omega), hoffset]

/-- **A request that passes the test on memory fits.** -/
theorem plan_of_fit (hn4 : minUntypedBits ≤ n) (hn47 : n ≤ 47)
    (hdvd : 2 ^ n ∣ p.toNat) (hfmax : f ≤ maxFreeIndex n)
    (hbits4 : minUntypedBits ≤ req.objectBits cfg) (hos : req.objectBits cfg ≤ 47)
    (hbase : req.retypeBase = alignUp (getFreeRef p f) (req.objectBits cfg))
    (hw1 : 1 ≤ req.destLength.toNat)
    (hfit : req.destLength ≤ (bit n - freeIndexToOffset f) >>> req.objectBits cfg) :
    Plan cfg req p n f := by
  have htop : p.toNat + 2 ^ n ≤ 2 ^ 64 := Block.top_le_of_aligned hdvd (by omega)
  have hpow : 2 ^ minUntypedBits * maxFreeIndex n = 2 ^ n := two_pow_mul_maxFreeIndex hn4
  have hf43 : f ≤ 2 ^ 43 := hfmax.trans (maxFreeIndex_le hn47)
  have hoffset := toNat_freeIndexToOffset hf43
  have hn64 : 2 ^ n ≤ 2 ^ 47 := Nat.pow_le_pow_right (by decide) hn47
  set k := req.objectBits cfg
  have hkpos := Nat.two_pow_pos k
  -- the test of the source, as arithmetic
  have hfit' : req.destLength.toNat ≤ (2 ^ n - 2 ^ minUntypedBits * f) / 2 ^ k := by
    have h1 : req.destLength.toNat ≤ ((bit n - freeIndexToOffset f) >>> k).toNat := hfit
    rwa [BitVec.toNat_ushiftRight, toNat_freeBytes hn4 hn47 hfmax, Nat.shiftRight_eq_div_pow] at h1
  have hone : 2 ^ k ≤ 2 ^ n - 2 ^ minUntypedBits * f := by
    have := Nat.mul_le_of_le_div _ _ _ (hw1.trans hfit')
    omega
  have hkn : k ≤ n := (Nat.pow_le_pow_iff_right (by decide)).mp (hone.trans (Nat.sub_le _ _))
  have hfree : (getFreeRef p f).toNat = p.toNat + 2 ^ minUntypedBits * f := by
    rw [getFreeRef, BitVec.toNat_add, hoffset, Nat.mod_eq_of_lt (by omega)]
  obtain ⟨hsum, hround⟩ := toNat_alignUp (k := k) (by omega) (by rw [hfree]; omega)
  rw [← hbase, hfree] at hround
  have hkp : 2 ^ k ∣ p.toNat := (pow_dvd_pow 2 hkn).trans hdvd
  have hend : req.retypeBase.toNat + req.destLength.toNat * 2 ^ k ≤ p.toNat + 2 ^ n := by
    rw [hround]
    refine Block.roundUp_add_le (Nat.dvd_add hkp (pow_dvd_pow 2 hkn)) (by omega) ?_
    rwa [Nat.add_sub_add_left]
  have hstart : p.toNat + 2 ^ minUntypedBits * f ≤ req.retypeBase.toNat := hround ▸ Block.le_roundUp _ _
  have htotal : (req.destLength <<< k).toNat = req.destLength.toNat * 2 ^ k :=
    toNat_shiftLeft_of_lt (by omega)
  have hindex : (retypeFreeIndex cfg req p).toNat =
      (req.retypeBase.toNat + req.destLength.toNat * 2 ^ k - p.toNat) / 2 ^ minUntypedBits := by
    have hsumw : req.retypeBase + req.destLength <<< k =
        BitVec.ofNat 64 (req.retypeBase.toNat + req.destLength.toNat * 2 ^ k) := by
      apply BitVec.eq_of_toNat_eq
      rw [BitVec.toNat_add, htotal, BitVec.toNat_ofNat]
    show (getFreeIndex p (req.retypeBase + req.destLength <<< k)).toNat = _
    rw [getFreeIndex, hsumw, BitVec.toNat_ushiftRight, Nat.shiftRight_eq_div_pow,
      toNat_sub_of_region (Nat.add_sub_of_le (by omega)) (by omega)]
  have hdiv : 2 ^ minUntypedBits ∣
      req.retypeBase.toNat + req.destLength.toNat * 2 ^ k - p.toNat := by
    have h4k : 2 ^ minUntypedBits ∣ 2 ^ k := pow_dvd_pow 2 hbits4
    refine Nat.dvd_sub (Nat.dvd_add ?_ (h4k.trans (Nat.dvd_mul_left _ _))) (h4k.trans hkp)
    rw [hround]
    exact h4k.trans (Block.dvd_roundUp _ _)
  have hexact := Nat.mul_div_cancel' hdiv
  rw [← hindex] at hexact
  refine ⟨hbits4, hkn, hfree, hsum, hround, htotal, hend, ?_, ?_⟩
  · show _ = req.retypeBase.toNat + req.destLength.toNat * 2 ^ k
    omega
  · refine Nat.le_of_mul_le_mul_left ?_ (Nat.two_pow_pos minUntypedBits)
    omega

/-- **An accepted request fits.** -/
theorem plan {radix : Nat} {destCNode : Word} {i : Nat} {dev : Bool}
    (ha : Accepted cfg args slot s req radix destCNode i dev n p)
    (hwf : (Cap.untyped i dev n p).WF cfg) : Plan cfg req p n (if req.reset then 0 else i) := by
  obtain ⟨hn4, hi, -⟩ := hwf.untyped rfl
  have hobj : (req.newType.getObjectSize cfg args.userObjSize).toNat = req.objectBits cfg := by
    rw [RetypeRequest.objectBits, ha.userSize]
  have hfit := ha.fit
  have hbase := ha.base
  rw [← ha.reset, hobj] at hfit hbase
  refine plan_of_fit hn4 (hwf.bits_le rfl) (hwf.aligned rfl) ?_ ?_ (hobj ▸ ha.size_le) hbase
    (ha.window ▸ ha.window_pos) (ha.window ▸ hfit)
  · split_ifs
    · exact Nat.zero_le _
    · exact hi
  · rw [← hobj]
    exact minUntypedBits_le_objectSize ha.userSize_lt ha.untyped ha.schedContext

end KState

/-! ## One object -/

/-- A retype of one object, for an untyped of `2 ^ n` bytes with `used` of them in use: the object goes to
the next multiple of its size. -/
def retypeOne (n used k : Nat) : Option Block :=
  if Block.roundUp used k + 2 ^ k ≤ 2 ^ n then some ⟨Block.roundUp used k, k⟩ else none

/-- **The kernel follows this rule**, in its test on memory, in the place of the object and in the free
index that it stores. -/
theorem retype_rule {cfg : KernelConfig} {req : KState.RetypeRequest}
    (hn4 : minUntypedBits ≤ n) (hn47 : n ≤ 47) (hdvd : 2 ^ n ∣ p.toNat) (hf : f ≤ maxFreeIndex n)
    (hbits4 : minUntypedBits ≤ req.objectBits cfg) (hos : req.objectBits cfg ≤ 47)
    (hbase : req.retypeBase = alignUp (getFreeRef p f) (req.objectBits cfg)) (hone : req.destLength = 1) :
    match retypeOne n (2 ^ minUntypedBits * f) (req.objectBits cfg) with
    | none => (bit n - freeIndexToOffset f) >>> req.objectBits cfg < req.destLength
    | some b => req.destLength ≤ (bit n - freeIndexToOffset f) >>> req.objectBits cfg ∧
        req.retypeBase.toNat = p.toNat + b.base ∧
        2 ^ minUntypedBits * (KState.retypeFreeIndex cfg req p).toNat = b.top := by
  have h1 : req.destLength.toNat = 1 := by rw [hone]; rfl
  have hplan := KState.plan_of_fit hn4 hn47 hdvd hf hbits4 hos hbase h1.ge
  unfold retypeOne
  split_ifs with hfit
  · have hle := Block.le_roundUp (2 ^ minUntypedBits * f) (req.objectBits cfg)
    have hroom : req.destLength ≤ (bit n - freeIndexToOffset f) >>> req.objectBits cfg := by
      show req.destLength.toNat ≤ BitVec.toNat _
      rw [h1, BitVec.toNat_ushiftRight, KState.toNat_freeBytes hn4 hn47 hf, Nat.shiftRight_eq_div_pow]
      exact (Nat.one_le_div_iff (Nat.two_pow_pos _)).mpr (by omega)
    obtain ⟨-, hkn, -, -, hround, -, -, hindex, -⟩ := hplan hroom
    rw [Block.roundUp_add ((pow_dvd_pow 2 hkn).trans hdvd)] at hround
    rw [h1] at hindex
    refine ⟨hroom, hround, ?_⟩
    dsimp only [Block.top]
    omega
  · refine BitVec.not_le.mp fun hroom => hfit ?_
    obtain ⟨-, hkn, -, -, hround, -, hend, -⟩ := hplan hroom
    rw [hround, Block.roundUp_add ((pow_dvd_pow 2 hkn).trans hdvd), h1, Nat.one_mul, Nat.add_assoc] at hend
    exact Nat.le_of_add_le_add_left hend

theorem retype_rule_page :
    ∃ req, 2 ^ minUntypedBits * (KState.retypeFreeIndex benchConfig req 0x20000).toNat = 0x2000 :=
  ⟨_, (@retype_rule 1 16 0x20000 benchConfig ⟨false, 0x21000, .smallPage, 0, 0, 0, 1, false⟩ (by decide)
    (by decide) (by decide) (by decide) (by decide) (by decide) rfl rfl).2.2⟩

/-! ## The capabilities to new objects -/

namespace ObjectType

variable {cfg : KernelConfig} {t : ObjectType} {b u : Word} {dev : Bool}

theorem physical_createObject : (t.createObject cfg b u dev).capIsPhysical = true := by
  cases t <;> rfl

/-- A thread's slots start at the base of its memory. -/
theorem tcbCTEPtr_createObject (hb : 2 ^ cfg.tcbBits ∣ b.toNat) :
    Cap.tcbCTEPtr cfg (b + bit (cfg.tcbBits - 1)) = b := by
  have htcb := cfg.tcbBits_cases
  have hpow : 2 ^ cfg.tcbBits = 2 * 2 ^ (cfg.tcbBits - 1) := by
    rw [← Nat.pow_succ', Nat.succ_eq_add_one, Nat.sub_add_cancel (by omega)]
  have htop : b.toNat + 2 ^ cfg.tcbBits ≤ 2 ^ 64 := Block.top_le_of_aligned hb (by omega)
  have hpos := Nat.two_pow_pos (cfg.tcbBits - 1)
  apply BitVec.eq_of_toNat_eq
  rw [Cap.tcbCTEPtr, toNat_and_not_mask _ (by omega), BitVec.toNat_add, toNat_bit (by omega),
    Nat.mod_eq_of_lt (by omega)]
  obtain ⟨m, hm⟩ := hb
  rw [hm, Nat.mul_add_div (Nat.two_pow_pos _), Nat.div_eq_of_lt (by omega), Nat.add_zero, Nat.mul_comm]

/-- The new capability covers the memory of the new object. -/
theorem region_createObject (hu : u.toNat < wordBits) (hb : 2 ^ (t.getObjectSize cfg u).toNat ∣ b.toNat) :
    (t.createObject cfg b u dev).region cfg = ⟨b.toNat, (t.getObjectSize cfg u).toNat⟩ := by
  have htcb := cfg.tcbBits_cases
  have hvs := cfg.vspaceBits_cases
  have hu' : u.toNat < 64 := hu
  cases t with
  | tcb =>
    have hsize : (getObjectSize cfg tcb u).toNat = cfg.tcbBits :=
      Nat.mod_eq_of_lt (show cfg.tcbBits < 2 ^ 64 by omega)
    rw [hsize] at hb ⊢
    show (⟨(Cap.tcbCTEPtr cfg (b + bit (cfg.tcbBits - 1))).toNat, cfg.tcbBits⟩ : Block) = _
    rw [tcbCTEPtr_createObject hb]
  | notification =>
    show (⟨b.toNat, if cfg.mcs then 6 else 5⟩ : Block) = ⟨b.toNat, (if cfg.mcs then 6 else 5) % 2 ^ 64⟩
    split_ifs <;> rfl
  | capTable =>
    show (⟨b.toNat, u.toNat + 5⟩ : Block) = ⟨b.toNat, (.ofNat 64 5 + u).toNat⟩
    show (⟨b.toNat, u.toNat + 5⟩ : Block) = ⟨b.toNat, (5 + u.toNat) % 2 ^ 64⟩
    rw [Nat.mod_eq_of_lt (by omega), Nat.add_comm]
  | vspace =>
    have hsize : (getObjectSize cfg vspace u).toNat = cfg.vspaceBits :=
      Nat.mod_eq_of_lt (show cfg.vspaceBits < 2 ^ 64 by omega)
    rw [hsize]
    rfl
  | _ => rfl

/-- The new capability is well formed. -/
theorem wf_createObject (hu : u.toNat < wordBits) (hb : 2 ^ (t.getObjectSize cfg u).toNat ∣ b.toNat)
    (hsize : (t.getObjectSize cfg u).toNat ≤ maxUntypedBits)
    (htable : t = .capTable → u ≠ 0) (hunt : t = .untyped → minUntypedBits ≤ u.toNat)
    (hdev : dev = true → t.isFrameType = true ∨ t = .untyped) (hb0 : dev = false → b ≠ 0) :
    (t.createObject cfg b u dev).WF cfg := by
  have hr : (t.createObject cfg b u dev).region cfg = _ := region_createObject hu hb
  have hal : ((t.createObject cfg b u dev).region cfg).Aligned := by
    rw [hr]
    exact hb
  have hbits : (t.createObject cfg b u dev).capSizeBits cfg ≤ maxUntypedBits := by
    have := congrArg Block.bits hr
    exact this.trans_le hsize
  refine ⟨fun _ => hal, fun _ => hbits, ?_, ?_, ?_, ?_⟩
  · intro i d n p he
    cases t with
    | untyped =>
      cases he
      exact ⟨hunt rfl, Nat.zero_le _, hb0⟩
    | _ => cases he
  · intro r g gd p he
    cases t with
    | capTable =>
      cases he
      have hu0 : u.toNat ≠ 0 := fun h => htable rfl (BitVec.eq_of_toNat_eq h)
      refine ⟨Nat.one_le_iff_ne_zero.mpr hu0, Nat.le_of_lt hu, Nat.one_pos, hb0 ?_⟩
      cases dev with
      | false => rfl
      | true => rcases hdev rfl with h | h <;> cases h
    | _ => cases he
  · intro p he
    cases t with
    | tcb =>
      cases he
      have htcb := cfg.tcbBits_cases
      have hsize' : (getObjectSize cfg tcb u).toNat = cfg.tcbBits :=
        Nat.mod_eq_of_lt (show cfg.tcbBits < 2 ^ 64 by omega)
      rw [hsize'] at hb
      rw [tcbCTEPtr_createObject hb]
      refine ⟨rfl, hb0 ?_⟩
      cases dev with
      | false => rfl
      | true => rcases hdev rfl with h | h <;> cases h
    | _ => cases he
  · intro id z he
    cases t <;> cases he

end ObjectType

end SeL4.Object
