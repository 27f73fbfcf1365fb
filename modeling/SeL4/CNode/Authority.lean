import SeL4.CNode.System

/-!
# CNode operations give no authority

`CNodeCopy`, `CNodeMint`, `CNodeMove`, `CNodeMutate` and `CNodeRotate` of `decodeCNodeInvocation`
store capabilities that come out of `maskCapRights`, `updateCapData` and `deriveCap`, in an order
that depends on the request.

* `Cap.NoMore d c`: `c` gives no more authority than `d`. It is to the same object, has no right
  that `d` lacks, keeps a badge that is set, and the guard of a CNode fits. Each of the three
  functions returns null or such a capability.
* `Origins s s' f`: whatever a slot holds after a run came from the slot that `f` names, with no
  more authority, and a capability of a type that must not be copied has no twin. Origins compose, so
  that what holds for one request holds for any sequence of them (`authority_never_grows`).

Nothing is assumed about the state, apart from the guards of the CNodes that it starts with.
-/

namespace SeL4.Object

open SeL4.Lib SeL4.CSpace CteHeap KState

variable {c d : Cap} {src dst : Word} {label : CNodeLabel} {msg : Message} {op : CNodeOp}

/-- What a capability lets its holder do to the object. For a frame, `send` is writing and `receive`
is reading. -/
inductive Right
  | send | receive | grant | grantReply
  deriving DecidableEq, Repr

namespace Cap

/-- The rights bits of a capability. -/
def allows : Cap → Right → Bool
  | endpoint _ canGrantReply canGrant canSend canReceive _, r =>
    match r with
    | .send => canSend
    | .receive => canReceive
    | .grant => canGrant
    | .grantReply => canGrantReply
  | notification _ canReceive canSend _, r =>
    match r with
    | .send => canSend
    | .receive => canReceive
    | .grant | .grantReply => false
  | reply canGrant _ _, r => r == .grant && canGrant
  | replyObject _ canGrant, r => r == .grant && canGrant
  | frame _ _ _ _ rights _, r =>
    match r with
    | .send => rights == .readWrite
    | .receive => rights != .kernelOnly
    | .grant | .grantReply => false
  | _, _ => false

/-- The types of which `deriveCap` makes no copies. -/
def notCopied : Cap → Bool
  | zombie .. | irqControl | reply .. => true
  | _ => false

/-- The guard of a CNode fits its size, and guard and radix fit a word. -/
def GuardFits (c : Cap) : Prop :=
  ∀ {radix guardSize guard p}, c = cnode radix guardSize guard p →
    guardSize + radix ≤ wordBits ∧ guard.toNat < 2 ^ guardSize

/-- `c` gives no more authority than `d`. -/
structure NoMore (d c : Cap) : Prop where
  object : c.key = d.key
  rights : ∀ r, c.allows r = true → d.allows r = true
  badge : ∀ w ≠ 0, d.badge = some w → c.badge = some w
  guard : d.GuardFits → c.GuardFits

theorem NoMore.refl (c : Cap) : NoMore c c := ⟨rfl, fun _ h => h, fun _ _ h => h, fun h => h⟩

theorem NoMore.trans {a b c : Cap} (hab : NoMore a b) (hbc : NoMore b c) : NoMore a c where
  object := hbc.object.trans hab.object
  rights r h := hab.rights r (hbc.rights r h)
  badge w h0 h := hbc.badge w h0 (hab.badge w h0 h)
  guard h := hbc.guard (hab.guard h)

theorem guardFits_of_not_cnode (h : c.isCNode = false) : c.GuardFits := by
  rintro _ _ _ _ rfl
  cases h

theorem notCopied_key (c : Cap) : c.key.notCopied = c.notCopied := by
  cases c <;> rfl

theorem NoMore.notCopied (h : NoMore d c) : d.notCopied = c.notCopied := by
  rw [← notCopied_key d, ← notCopied_key c, h.object]

/-- The key of a CNode has its radix and its pointer. -/
theorem cnode_of_key {r g : Nat} {gd p : Word} (h : c.key = (cnode r g gd p).key) :
    ∃ g' gd', c = .cnode r g' gd' p := by
  cases c with
  | cnode r' g' gd' p' =>
    cases h
    exact ⟨g', gd', rfl⟩
  | _ => cases h

/-! ## The three functions -/

theorem maskVMRights_le (rights : VMRights) (m : CapRights) :
    ((maskVMRights rights m == .readWrite) = true → (rights == .readWrite) = true) ∧
      ((maskVMRights rights m != .kernelOnly) = true → (rights != .kernelOnly) = true) := by
  unfold maskVMRights
  cases rights <;> cases m.capAllowRead <;> simp

theorem noMore_maskCapRights (m : CapRights) (d : Cap) : NoMore d (maskCapRights m d) := by
  have hand : ∀ {a b : Bool}, (a && b) = true → a = true := fun h => (Bool.and_eq_true_iff.mp h).1
  cases d with
  | endpoint =>
    refine ⟨rfl, fun r => ?_, fun _ _ h => h, fun _ => guardFits_of_not_cnode rfl⟩
    cases r <;> exact hand
  | notification =>
    refine ⟨rfl, fun r => ?_, fun _ _ h => h, fun _ => guardFits_of_not_cnode rfl⟩
    cases r with
    | send | receive => exact hand
    | grant | grantReply => exact fun h => h
  | reply | replyObject =>
    refine ⟨rfl, fun r h => ?_, fun _ _ h => h, fun _ => guardFits_of_not_cnode rfl⟩
    obtain ⟨hr, hg⟩ := Bool.and_eq_true_iff.mp h
    exact Bool.and_eq_true_iff.mpr ⟨hr, hand hg⟩
  | frame _ _ _ _ rights _ =>
    refine ⟨rfl, fun r => ?_, fun _ _ h => h, fun _ => guardFits_of_not_cnode rfl⟩
    cases r with
    | send => exact (maskVMRights_le rights m).1
    | receive => exact (maskVMRights_le rights m).2
    | grant | grantReply => exact fun h => h
  | _ => exact .refl _

theorem noMore_updateCapData {preserve : Bool} {data : Word}
    (hn : updateCapData preserve data d ≠ null) : NoMore d (updateCapData preserve data d) := by
  revert hn
  cases d with
  | endpoint badge | notification badge =>
    unfold updateCapData
    dsimp only
    split_ifs with hb
    · intro _
      rw [Bool.and_eq_true, beq_iff_eq] at hb
      refine ⟨rfl, fun _ h => h, fun w h0 hw => ?_, fun _ => guardFits_of_not_cnode rfl⟩
      cases hw
      exact absurd hb.2 h0
    · exact fun hn => absurd rfl hn
  | cnode radix g gd p =>
    unfold updateCapData
    dsimp only
    split_ifs with hg
    · exact fun hn => absurd rfl hn
    · intro _
      refine ⟨rfl, fun _ h => h, fun w _ hw => hw, fun _ => ?_⟩
      rintro _ _ _ _ ⟨⟩
      have hg64 : (cnodeCapData data).2 ≤ 64 := by
        unfold wordBits at hg
        omega
      refine ⟨by omega, ?_⟩
      rw [toNat_and_mask _ hg64]
      exact Nat.mod_lt _ (Nat.two_pow_pos _)
  | _ => exact fun _ => NoMore.refl _

end Cap

theorem CteHeap.noMore_deriveCap {cfg : KernelConfig} {h : CteHeap} {slot : Word}
    (hc : h.deriveCap cfg slot d = .ok c) (hn : c ≠ .null) :
    Cap.NoMore d c ∧ d.notCopied = false ∧ d ≠ .null := by
  cases d with
  | null | zombie | irqControl | reply =>
    cases hc
    exact absurd rfl hn
  | untyped | vspace | pageTable =>
    unfold deriveCap at hc
    dsimp only at hc
    split_ifs at hc
    cases hc
    exact ⟨.refl _, rfl, hn⟩
  | frame =>
    cases hc
    exact ⟨⟨rfl, fun _ h => h, fun _ _ h => h, fun _ => Cap.guardFits_of_not_cnode rfl⟩, rfl, nofun⟩
  | _ =>
    cases hc
    exact ⟨.refl _, rfl, hn⟩

/-! ## Origins -/

/-- Where the capabilities of `s'` come from. -/
structure Origins (s s' : KState) (f : Word → Word) : Prop where
  ne_null : ∀ x, (s'.cte x).cap ≠ .null → (s.cte (f x)).cap ≠ .null
  noMore : ∀ x, (s'.cte x).cap ≠ .null → Cap.NoMore (s.cte (f x)).cap (s'.cte x).cap
  alone : ∀ x y, (s'.cte x).cap.notCopied = true → (s'.cte y).cap ≠ .null → f y = f x → y = x

namespace Origins

variable {s s' s'' : KState} {f g : Word → Word}

theorem refl (s : KState) : Origins s s id := ⟨fun _ h => h, fun _ _ => .refl _, fun _ _ _ _ h => h⟩

theorem trans (h1 : Origins s s' f) (h2 : Origins s' s'' g) : Origins s s'' (f ∘ g) where
  ne_null x hx := h1.ne_null _ (h2.ne_null x hx)
  noMore x hx := (h1.noMore _ (h2.ne_null x hx)).trans (h2.noMore x hx)
  alone x y hx hy hxy := by
    have hxn : (s''.cte x).cap ≠ .null := by
      intro he
      rw [he] at hx
      cases hx
    have hgx : (s'.cte (g x)).cap.notCopied = true := by
      rw [(h2.noMore x hxn).notCopied]
      exact hx
    exact h2.alone x y hx hy (h1.alone (g x) (g y) hgx (h2.ne_null y hy) hxy)

theorem guardFits (h : Origins s s' f) (hs : ∀ x, (s.cte x).cap.GuardFits) (x : Word) :
    (s'.cte x).cap.GuardFits := by
  by_cases hx : (s'.cte x).cap = .null
  · rw [hx]
    exact Cap.guardFits_of_not_cnode rfl
  · exact (h.noMore x hx).guard (hs _)

end Origins

namespace KState

variable {cfg : KernelConfig} {s s' : KState}

theorem origins_cteInsert (hc : Cap.NoMore (s.cte src).cap c)
    (hn : (s.cte src).cap ≠ .null) (hcopy : (s.cte src).cap.notCopied = false) :
    Origins s (s.cteInsert cfg c src dst) fun x => if x = dst then src else x := by
  -- only an untyped changes besides the new capability
  have hcap : ∀ x, ((s.cteInsert cfg c src dst).cte x).cap =
      if x = dst then c else (s.cte.setUntypedCapAsFull (s.cte src).cap c src x).cap :=
    cap_cteInsert s.cte c src dst
  have hold : ∀ x, (s.cte x).cap ≠ .null →
      Cap.NoMore (s.cte x).cap (s.cte.setUntypedCapAsFull (s.cte src).cap c src x).cap := by
    intro x _
    rcases cap_setUntypedCapAsFull s.cte c src x with he | ⟨rfl, i, dev, n, p, hu, he⟩
    · rw [he]
      exact .refl _
    · rw [he, hu]
      exact ⟨rfl, fun _ h => h, fun _ _ h => h, fun _ => Cap.guardFits_of_not_cnode rfl⟩
  have hnull : ∀ x, (s.cte x).cap = .null →
      (s.cte.setUntypedCapAsFull (s.cte src).cap c src x).cap = .null := by
    intro x hx
    rcases cap_setUntypedCapAsFull s.cte c src x with he | ⟨rfl, i, dev, n, p, hu, -⟩
    · rw [he, hx]
    · cases hx.symm.trans hu
  refine ⟨fun x hx => ?_, fun x hx => ?_, fun x y hx hy hxy => ?_⟩
  · split_ifs with hxd
    · exact hn
    · rw [hcap, if_neg hxd] at hx
      exact fun he => hx (hnull x he)
  · rw [hcap] at hx ⊢
    split_ifs at hx ⊢
    · exact hc
    · exact hold x fun he => hx (hnull x he)
  · have hxs : ∀ {z}, ((s.cteInsert cfg c src dst).cte z).cap.notCopied = true → z ≠ dst := by
      rintro z hz rfl
      rw [hcap, if_pos rfl, ← hc.notCopied, hcopy] at hz
      cases hz
    have hxd := hxs hx
    split_ifs at hxy with hyd
    · -- the source is of a type that is copied
      subst hxy
      rw [hcap, if_neg hxd, ← (hold _ hn).notCopied, hcopy] at hx
      cases hx
    · exact hxy

theorem origins_cteMove (hc : Cap.NoMore (s.cte src).cap c) (hn : (s.cte src).cap ≠ .null) :
    Origins s (s.cteMove c src dst) fun x => if x = dst then src else x := by
  have hcap := s.cte_cteMove c src dst
  have hsrc : ∀ {x}, ((s.cteMove c src dst).cte x).cap ≠ .null → x ≠ src := by
    rintro x hx rfl
    rw [hcap, if_pos rfl] at hx
    exact hx rfl
  refine ⟨fun x hx => ?_, fun x hx => ?_, fun x y hx hy hxy => ?_⟩
  · have hxs := hsrc hx
    rw [hcap] at hx
    split_ifs at hx ⊢
    · exact hn
    · exact hx
  · rw [hcap, if_neg (hsrc hx)]
    split_ifs
    · exact hc
    · exact .refl _
  · have hxn : x ≠ src := by
      rintro rfl
      rw [hcap, if_pos rfl] at hx
      cases hx
    have hyn := hsrc hy
    split_ifs at hxy with hyd hxd hxd
    · rw [hyd, hxd]
    · exact absurd hxy.symm hxn
    · exact absurd hxy hyn
    · exact hxy

theorem origins_cteSwap {a b : Word} (hab : a ≠ b) (hc : Cap.NoMore (s.cte a).cap c)
    (hd : Cap.NoMore (s.cte b).cap d) (ha : (s.cte a).cap ≠ .null) (hb : (s.cte b).cap ≠ .null) :
    Origins s (s.cteSwap c a d b) (Equiv.swap a b) := by
  have hcap := s.cte_cteSwap c d a b
  refine ⟨fun x hx => ?_, fun x hx => ?_, fun x y _ _ hxy => (Equiv.swap a b).injective hxy⟩
  · rw [hcap] at hx
    rw [Equiv.swap_apply_def]
    split_ifs with hxa hxb
    · exact hb
    · exact ha
    · rwa [if_neg hxb, if_neg hxa] at hx
  · rw [hcap, Equiv.swap_apply_def]
    split_ifs with hxa hxb hxb
    · exact absurd (hxa.symm.trans hxb) hab
    · exact hd
    · exact hc
    · exact .refl _

/-! ## Requests -/

/-- The requests that copy or move capabilities between slots. -/
def CNodeLabel.copiesOrMoves : CNodeLabel → Bool
  | .copy | .mint | .move | .mutate | .rotate => true
  | _ => false

/-- What the decoding of such a request ends in. -/
def CNodeOp.Harmless (s : KState) : CNodeOp → Prop
  | .insert c src _ => Cap.NoMore (s.cte src).cap c ∧ (s.cte src).cap ≠ .null ∧
      (s.cte src).cap.notCopied = false
  | .move c src _ => Cap.NoMore (s.cte src).cap c ∧ (s.cte src).cap ≠ .null
  | .rotate c₁ c₂ s₁ s₂ _ => Cap.NoMore (s.cte s₁).cap c₁ ∧ Cap.NoMore (s.cte s₂).cap c₂ ∧
      (s.cte s₁).cap ≠ .null ∧ (s.cte s₂).cap ≠ .null ∧ s₂ ≠ s₁
  | _ => False

/-- `Copy` and `Mint` derive, `Move` and `Mutate` do not. -/
theorem decodeNewCap_noMore
    {isMove : Bool} (h : decodeNewCap cfg label msg src s = .ok (c, isMove)) (hn : c ≠ .null) :
    Cap.NoMore (s.cte src).cap c ∧ (isMove = false → (s.cte src).cap.notCopied = false) := by
  have hmask := Cap.noMore_maskCapRights (rightsFromWord (msg.arg 4)) (s.cte src).cap
  cases label with
  | copy =>
    obtain ⟨-, h⟩ := of_ite_error h
    obtain ⟨c', hc, h⟩ := bind_eq_ok h
    cases h
    obtain ⟨hno, hcopy, -⟩ := noMore_deriveCap (of_raising hc) hn
    exact ⟨hmask.trans hno, fun _ => hmask.notCopied.trans hcopy⟩
  | mint =>
    obtain ⟨-, h⟩ := of_ite_error h
    obtain ⟨c', hc, h⟩ := bind_eq_ok h
    cases h
    obtain ⟨hno, hcopy, hne⟩ := noMore_deriveCap (of_raising hc) hn
    have hdata := hmask.trans (Cap.noMore_updateCapData hne)
    exact ⟨hdata.trans hno, fun _ => hdata.notCopied.trans hcopy⟩
  | move =>
    cases h
    exact ⟨.refl _, nofun⟩
  | mutate =>
    obtain ⟨-, h⟩ := of_ite_error h
    cases h
    exact ⟨Cap.noMore_updateCapData hn, nofun⟩
  | _ => cases h

theorem decodeCopy_harmless (h : decodeCopy cfg label msg dst s = .ok op) : op.Harmless s := by
  obtain ⟨-, h⟩ := of_ite_error h
  split at h
  · cases h
  obtain ⟨-, h⟩ := of_ite_error h
  obtain ⟨src, -, h⟩ := bind_eq_ok h
  obtain ⟨hs, h⟩ := of_ite_error h
  obtain ⟨⟨c, isMove⟩, hc, h⟩ := bind_eq_ok h
  obtain ⟨hn, h⟩ := of_ite_error h
  obtain ⟨hno, hcopy⟩ := decodeNewCap_noMore hc (ne_null_of_isNull hn)
  cases isMove with
  | true =>
    cases h
    exact ⟨hno, ne_null_of_isNull hs⟩
  | false =>
    cases h
    exact ⟨hno, ne_null_of_isNull hs, hcopy rfl⟩

theorem decodeRotate_harmless (h : decodeRotate msg dst s = .ok op) : op.Harmless s := by
  obtain ⟨-, h⟩ := of_ite_error h
  split at h
  · obtain ⟨src, -, pivot, -, h⟩ := bind2_eq_ok h
    obtain ⟨hne, h⟩ := of_ite_error h
    obtain ⟨-, h⟩ := of_ite_error h
    obtain ⟨hs, h⟩ := of_ite_error h
    obtain ⟨hp, h⟩ := of_ite_error h
    obtain ⟨hn1, h⟩ := of_ite_error h
    obtain ⟨hn2, h⟩ := of_ite_error h
    cases h
    exact ⟨Cap.noMore_updateCapData (ne_null_of_isNull hn1),
      Cap.noMore_updateCapData (ne_null_of_isNull hn2), ne_null_of_isNull hs, ne_null_of_isNull hp,
      fun he => hne (.inl he)⟩
  · cases h

theorem decodeCNode_harmless {cap : Cap}
    (hl : label.copiesOrMoves = true) (h : decodeCNode cfg label msg cap s = .ok op) :
    op.Harmless s := by
  obtain ⟨-, h⟩ := of_ite_error h
  obtain ⟨-, h⟩ := of_ite_error h
  obtain ⟨dst, -, h⟩ := bind_eq_ok h
  cases label with
  | copy | mint | move | mutate => exact decodeCopy_harmless h
  | rotate => exact decodeRotate_harmless h
  | _ => cases hl

theorem invokeCNodeRotate_origins {c₁ c₂ : Cap} {s₁ s₂ s3 : Word}
    (h : (CNodeOp.rotate c₁ c₂ s₁ s₂ s3).Harmless s) :
    ∃ f, Origins s (s.invokeCNodeRotate c₁ c₂ s₁ s₂ s3) f := by
  obtain ⟨h1, h2, hn1, hn2, h21⟩ := h
  unfold invokeCNodeRotate
  split_ifs with h13
  · exact ⟨_, origins_cteSwap h21.symm h1 h2 hn1 hn2⟩
  · have hfirst : Origins s (s.cteMove c₂ s₂ s3) _ := origins_cteMove h2 hn2
    have hcap := s.cte_cteMove c₂ s₂ s3
    have hs1 : ((s.cteMove c₂ s₂ s3).cte s₁).cap = (s.cte s₁).cap := by
      rw [hcap, if_neg h21.symm, if_neg h13]
    refine ⟨_, hfirst.trans (origins_cteMove ?_ ?_)⟩
    · rw [hs1]
      exact h1
    · rw [hs1]
      exact hn1

/-- One request: an error changes nothing, and otherwise every capability has an origin. -/
theorem decodeCNodeInvocation_origins {fuel : Nat} {cur : Word}
    {cap : Cap} {e : Exception} (hl : label.copiesOrMoves = true)
    (h : s.decodeCNodeInvocation cfg fuel cur label msg cap = .ok (e, s')) :
    (∃ f, Origins s s' f) ∧ (e ≠ .none → s' = s) := by
  rcases invoking_cases h with ⟨op, hdec, h⟩ | ⟨-, rfl⟩
  · have hharm := decodeCNode_harmless hl hdec
    cases op with
    | insert c src dst =>
      cases h
      obtain ⟨hno, hn, hcopy⟩ := hharm
      exact ⟨⟨_, origins_cteInsert hno hn hcopy⟩, fun he => absurd rfl he⟩
    | move c src dst =>
      cases h
      obtain ⟨hno, hn⟩ := hharm
      exact ⟨⟨_, origins_cteMove hno hn⟩, fun he => absurd rfl he⟩
    | rotate c₁ c₂ s₁ s₂ s3 =>
      cases h
      exact ⟨invokeCNodeRotate_origins hharm, fun he => absurd rfl he⟩
    | _ => exact hharm.elim
  · exact ⟨⟨id, .refl _⟩, fun _ => rfl⟩

/-- A request to a CNode. -/
structure CNodeRequest where
  label : CNodeLabel
  msg : Message
  cap : Cap

/-- A sequence of requests, whatever each of them returns. -/
def runCNodeRequests (cfg : KernelConfig) (fuel : Nat) (cur : Word) :
    List CNodeRequest → KState → Checked KState
  | [], s => .ok s
  | r :: rs, s => do
    let (_, s) ← s.decodeCNodeInvocation cfg fuel cur r.label r.msg r.cap
    runCNodeRequests cfg fuel cur rs s

theorem runCNodeRequests_origins {fuel : Nat} {cur : Word} :
    ∀ {rs : List CNodeRequest} {s : KState}, (∀ r ∈ rs, r.label.copiesOrMoves = true) →
      runCNodeRequests cfg fuel cur rs s = .ok s' → ∃ f, Origins s s' f
  | [], s, _, h => by
    cases h
    exact ⟨id, .refl _⟩
  | r :: rs, s, hl, h => by
    obtain ⟨⟨e, s1⟩, h1, h⟩ := bind_eq_ok h
    obtain ⟨⟨f, hf⟩, -⟩ := decodeCNodeInvocation_origins (hl r (.head _)) h1
    obtain ⟨g, hg⟩ := runCNodeRequests_origins (fun r hr => hl r (.tail _ hr)) h
    exact ⟨f ∘ g, hf.trans hg⟩

end KState

/-- **Authority never grows.** After any sequence of requests to copy, mint, move, mutate or rotate,
every capability comes from one that was there before: to the same object, with no further rights,
with the badge if there was one; a CNode keeps its radix and its pointer, and its guard fits.
Zombies, interrupt control and reply capabilities have no twins. A request that returns an error
has changed nothing. -/
theorem authority_never_grows (cfg : KernelConfig) (fuel : Nat) (cur : Word) :
    (∀ (rs : List KState.CNodeRequest) (s s' : KState), (∀ r ∈ rs, r.label.copiesOrMoves = true) →
      runCNodeRequests cfg fuel cur rs s = .ok s' →
      ∃ f, Origins s s' f ∧ ((∀ x, (s.cte x).cap.GuardFits) →
        ∀ x r g gd p, (s'.cte x).cap = .cnode r g gd p →
          (∃ g₀ gd₀, (s.cte (f x)).cap = .cnode r g₀ gd₀ p) ∧ gd.toNat < 2 ^ g ∧ g + r ≤ wordBits)) ∧
    ∀ (r : KState.CNodeRequest) (s s' : KState) (e : SyscallError), r.label.copiesOrMoves = true →
      s.decodeCNodeInvocation cfg fuel cur r.label r.msg r.cap = .ok (.syscallError e, s') →
      s' = s := by
  constructor
  · intro rs s s' hl h
    obtain ⟨f, hf⟩ := runCNodeRequests_origins hl h
    refine ⟨f, hf, fun hfit x r g gd p hx => ?_⟩
    have hn : (s'.cte x).cap ≠ .null := by
      rw [hx]
      exact nofun
    have hobj := (hf.noMore x hn).object
    rw [hx] at hobj
    obtain ⟨hsize, hguard⟩ := hf.guardFits hfit x hx
    exact ⟨Cap.cnode_of_key hobj.symm, hguard, hsize⟩
  · intro r s s' e hl h
    exact (decodeCNodeInvocation_origins hl h).2 nofun

/-- A mint of the root CNode with a guard of four bits. -/
def sampleMint : KState.CNodeRequest where
  label := .mint
  msg := { length := 6
           arg := fun i => [4, 8, 1, 8, 15, 0xc4].getD i 0
           extraCap := fun _ => some 0x10020 }
  cap := .cnode 8 0 0 0x10000

/-- A look-up that ends at the root CNode. -/
theorem lookupTargetSlot_sampleBoot :
    lookupTargetSlot sampleBoot.cap (.cnode 8 0 0 0x10000) 4 8 = .ok 0x10080 := by
  unfold lookupTargetSlot lookupSlotForCNodeOp resolveAddressBits
  dsimp only
  rw [resolveLoop]
  rfl

theorem authority_never_grows_sample :
    ∃ s', runCNodeRequests benchConfig 0 0 [sampleMint] sampleBoot = .ok s' ∧
      (s'.cte 0x10080).cap = .cnode 8 4 3 0x10000 ∧ ∃ f, Origins sampleBoot s' f := by
  have hsrc : lookupSourceSlot sampleBoot.cap (.cnode 8 0 0 0x10000) 1 8 = .ok 0x10020 := by
    unfold lookupSourceSlot lookupSlotForCNodeOp resolveAddressBits
    dsimp only
    rw [resolveLoop]
    rfl
  have hop : decodeCNode benchConfig .mint sampleMint.msg sampleMint.cap sampleBoot =
      .ok (.insert (.cnode 8 4 3 0x10000) 0x10020 0x10080) := by
    change (lookupTargetSlot sampleBoot.cap (.cnode 8 0 0 0x10000) 4 8 >>= _) = _
    rw [lookupTargetSlot_sampleBoot]
    change (lookupSourceSlot sampleBoot.cap (.cnode 8 0 0 0x10000) 1 8 >>= _) = _
    rw [hsrc]
    rfl
  have hrun : ∃ s', runCNodeRequests benchConfig 0 0 [sampleMint] sampleBoot = .ok s' ∧
      (s'.cte 0x10080).cap = .cnode 8 4 3 0x10000 := by
    refine ⟨sampleBoot.cteInsert benchConfig (.cnode 8 4 3 0x10000) 0x10020 0x10080, ?_, rfl⟩
    unfold runCNodeRequests decodeCNodeInvocation
    rw [show sampleMint.label = .mint from rfl, hop]
    rfl
  obtain ⟨s', h, hc⟩ := hrun
  obtain ⟨f, hf, -⟩ := (authority_never_grows benchConfig 0 0).1 [sampleMint] sampleBoot s'
    (fun r hr => by rw [List.mem_singleton.mp hr]; rfl) h
  exact ⟨s', h, hc, f, hf⟩

end SeL4.Object
