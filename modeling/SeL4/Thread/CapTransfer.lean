import SeL4.CNode.MdbList
import SeL4.Thread.Frame

/-!
# Capabilities in messages

What `transferCaps` of `thread.c` does with the extra capabilities of a message. A capability to the endpoint that
the message goes through is not transferred: the receiver gets its badge. The first other one is
derived into the receive slot, if there is one (`getReceiveSlots`), and any further one ends the
transfer.

* `KState.Moved`, `KState.Reported`: what the loop does to the slots, and what it tells the receiver, by
  induction on the capabilities that are left (`KState.transferLoop_spec`).
* `caps_transferred`: the same of `transferCaps`, with the words of the receiver's buffer and the
  fields of the message info.

The insertion of a copy of an untyped capability marks the original as full, so a transfer is not
without effect on the sender's slots (`transfer_marks_untyped_full`).
-/

namespace SeL4.Object

open SeL4.Lib SeL4.CSpace

namespace KState

variable {cfg : KernelConfig} {endpoint : Word} {s : KState}

/-! ## Deriving and inserting -/

/-- Only an endpoint capability is derived into one. -/
theorem badgeFor_deriveCap {slot : Word} {cap c : Cap} {h : CteHeap}
    (hd : h.deriveCap cfg slot cap = .ok c) (hb : badgeFor endpoint cap = none) :
    badgeFor endpoint c = none := by
  cases cap with
  | untyped | vspace | pageTable =>
    unfold CteHeap.deriveCap at hd
    dsimp only at hd
    split_ifs at hd
    cases hd
    exact hb
  | _ =>
    cases hd
    exact hb

/-- The insertion of another capability into an empty slot does not change which capabilities are to
the endpoint. -/
theorem badgeFor_cteInsert {c : Cap} {src dst : Word} (hc : badgeFor endpoint c = none)
    (hdst : s.cap dst = .null) (x : Word) :
    badgeFor endpoint ((s.cteInsert cfg c src dst).cap x) = badgeFor endpoint (s.cap x) := by
  have hcap : (s.cteInsert cfg c src dst).cap x =
      if x = dst then c else (s.cte.setUntypedCapAsFull (s.cte src).cap c src x).cap :=
    CteHeap.cap_cteInsert s.cte c src dst x
  rw [hcap]
  split_ifs with hx
  · rw [hx, hdst, hc]
    rfl
  · rcases CteHeap.cap_setUntypedCapAsFull s.cte c src x with he | ⟨rfl, i, dev, n, p, hu, he⟩
    · rw [he]
      rfl
    · have hu' : s.cap x = .untyped i dev n p := hu
      rw [he, hu']
      rfl

end KState

/-- The links of the source and of its successor change, and the destination. -/
theorem CteHeap.cteInsert_of_ne (h : CteHeap) (c : Cap) {src dst x : Word} (hdst : x ≠ dst)
    (hsrc : x ≠ src) (hnext : x ≠ (h src).cteMDBNode.mdbNext) : h.cteInsert c src dst x = h x := by
  have hcap : (h.setUntypedCapAsFull (h src).cap c src x).cap = (h x).cap :=
    (cap_setUntypedCapAsFull h c src x).resolve_right fun he => hsrc he.1
  have hfull : h.setUntypedCapAsFull (h src).cap c src x = h x :=
    calc h.setUntypedCapAsFull (h src).cap c src x
        = ⟨(h.setUntypedCapAsFull (h src).cap c src x).cap,
            (h.setUntypedCapAsFull (h src).cap c src x).cteMDBNode⟩ := rfl
      _ = ⟨(h x).cap, (h x).cteMDBNode⟩ := by rw [hcap, node_setUntypedCapAsFull]
      _ = h x := rfl
  unfold cteInsert ifPtr setPrev setNext setNode
  split_ifs
  · simp [set, hdst, hsrc, hfull]
  · simp [set, hdst, hsrc, hnext, hfull]

namespace KState

variable {cfg : KernelConfig} {endpoint : Word} {s s' : KState}

/-! ## The loop -/

/-- Of `caps`, the first `n` have been processed; number `inserted`, if any, has gone to the receive
slot `dest`. -/
structure Moved (cfg : KernelConfig) (endpoint : Word) (dest : Option Word) (caps : List Word)
    (s : KState) (n : Nat) (inserted : Option Nat) (s' : KState) : Prop where
  count_le : n ≤ caps.length
  /-- All but one of these were to the endpoint. -/
  each : ∀ i < n, ∀ x, caps[i]? = some x →
    inserted = some i ∨ (badgeFor endpoint (s.cap x)).isSome = true
  /-- That one was derived and inserted. -/
  moved : ∀ i, inserted = some i → i < n ∧ ∃ x d c, caps[i]? = some x ∧
    badgeFor endpoint (s.cap x) = none ∧ dest = some d ∧ s.cte.deriveCap cfg x (s.cap x) = .ok c ∧
    c.isNull = false ∧ s' = s.cteInsert cfg c x d
  kept : inserted = none → s' = s
  /-- The next one is not to the endpoint; there is no slot, or it cannot be derived. -/
  stop : ∀ x, caps[n]? = some x → badgeFor endpoint (s.cap x) = none ∧
    (dest = none ∨ inserted ≠ none ∨ ∀ c, s.cte.deriveCap cfg x (s.cap x) = .ok c → c.isNull = true)

/-- One of the first `n` of `caps` has the property, which may speak of its number. -/
def Among (caps : List Word) (n : Nat) (P : Nat → Word → Prop) : Prop :=
  ∃ k < n, ∃ x, caps[k]? = some x ∧ P k x

variable {caps : List Word} {P : Nat → Word → Prop}

theorem not_among_zero : ¬ Among caps 0 P := by
  rintro ⟨k, hk, -⟩
  exact absurd hk (Nat.not_lt_zero k)

theorem among_cons {x : Word} {n : Nat} :
    Among (x :: caps) (n + 1) P ↔ P 0 x ∨ Among caps n fun k => P (k + 1) := by
  constructor
  · rintro ⟨_ | k, hk, y, hy, hp⟩
    · cases hy
      exact .inl hp
    · exact .inr ⟨k, Nat.lt_of_succ_lt_succ hk, y, hy, hp⟩
  · rintro (hp | ⟨k, hk, y, hy, hp⟩)
    · exact ⟨0, Nat.succ_pos n, x, rfl, hp⟩
    · exact ⟨k + 1, Nat.succ_lt_succ hk, y, hy, hp⟩

theorem among_congr {Q : Nat → Word → Prop} {n : Nat}
    (h : ∀ k x, P k x ↔ Q k x) : Among caps n P ↔ Among caps n Q := by
  have hPQ : P = Q := funext fun k => funext fun x => propext (h k x)
  rw [hPQ]

theorem among_succ {i j n : Nat} {Q : Word → Prop} : Among caps n (fun k x => j = i + 1 + k ∧ Q x) ↔
    Among caps n fun k x => j = i + (k + 1) ∧ Q x :=
  among_congr fun k x => by rw [Nat.add_right_comm, Nat.add_assoc]

/-- What the receiver is told about the first `n` of `caps`, which are numbered from `i` on. -/
structure Reported (endpoint : Word) (caps : List Word) (s : KState) (i n : Nat)
    (t t' : Transferred) : Prop where
  count : t'.extraCaps = i + n
  unwrapped : ∀ j < 64, t'.capsUnwrapped.getLsbD j = true ↔ t.capsUnwrapped.getLsbD j = true ∨
    Among caps n fun k x => j = i + k ∧ (badgeFor endpoint (s.cap x)).isSome = true
  badges : ∀ e, e ∈ t'.extraBadges ↔ e ∈ t.extraBadges ∨
    Among caps n fun k x => e.1 = i + k ∧ badgeFor endpoint (s.cap x) = some e.2

namespace Reported

variable {x : Word} {i n : Nat} {t t' : Transferred}

/-- Nothing is processed. -/
theorem zero (caps : List Word) (i : Nat) (t : Transferred) :
    Reported endpoint caps s i 0 t { t with extraCaps := i } :=
  ⟨rfl, fun _ _ => (or_iff_left not_among_zero).symm, fun _ => (or_iff_left not_among_zero).symm⟩

/-- One more capability at the front, to the endpoint. -/
theorem cons_own {badge : Word} (hx : badgeFor endpoint (s.cap x) = some badge) (hi : i < 64)
    (h : Reported endpoint caps s (i + 1) n
      { t with
        capsUnwrapped := t.capsUnwrapped ||| bit i
        extraBadges := t.extraBadges ++ [(i, badge)] } t') :
    Reported endpoint (x :: caps) s i (n + 1) t t' := by
  refine ⟨by rw [h.count]; omega, fun j hj => ?_, fun e => ?_⟩
  · rw [h.unwrapped j hj, BitVec.getLsbD_or, getLsbD_bit hi, Bool.or_eq_true, decide_eq_true_iff,
      or_assoc, among_cons, hx]
    exact or_congr_right (or_congr (and_iff_left rfl).symm among_succ)
  · rw [h.badges e, List.mem_append, List.mem_singleton, or_assoc, among_cons, hx, Option.some_inj]
    refine or_congr_right (or_congr ?_ among_succ)
    rw [Prod.ext_iff]
    exact and_congr_right' eq_comm

/-- One more capability at the front, not to the endpoint. -/
theorem cons_other (hx : badgeFor endpoint (s.cap x) = none) (h : Reported endpoint caps s (i + 1) n t t') :
    Reported endpoint (x :: caps) s i (n + 1) t t' := by
  refine ⟨by rw [h.count]; omega, fun j hj => ?_, fun e => ?_⟩
  · rw [h.unwrapped j hj, among_cons, hx, among_succ]
    exact or_congr_right (or_iff_right fun hh => nomatch hh.2).symm
  · rw [h.badges e, among_cons, hx, among_succ]
    exact or_congr_right (or_iff_right fun hh => nomatch hh.2).symm

/-- Only the badges of capabilities to the endpoint matter. -/
theorem congr (h : Reported endpoint caps s i n t t')
    (hb : ∀ x, badgeFor endpoint (s'.cap x) = badgeFor endpoint (s.cap x)) :
    Reported endpoint caps s' i n t t' := by
  obtain ⟨hcount, hunwrapped, hbadges⟩ := h
  simp only [← hb] at hunwrapped hbadges
  exact ⟨hcount, hunwrapped, hbadges⟩

end Reported

namespace Moved

variable {x : Word} {n : Nat} {dest : Option Word} {inserted : Option Nat}

/-- Nothing is processed, and nothing need be. -/
theorem nil (dest : Option Word) (s : KState) : Moved cfg endpoint dest [] s 0 none s :=
  ⟨Nat.le_refl 0, fun i hi => absurd hi (Nat.not_lt_zero i), nofun, fun _ => rfl, nofun⟩

/-- The first capability cannot be processed. -/
theorem stopped (hx : badgeFor endpoint (s.cap x) = none)
    (h : dest = none ∨ ∀ c, s.cte.deriveCap cfg x (s.cap x) = .ok c → c.isNull = true) :
    Moved cfg endpoint dest (x :: caps) s 0 none s := by
  refine ⟨Nat.zero_le _, fun i hi => absurd hi (Nat.not_lt_zero i), nofun, fun _ => rfl, fun y hy => ?_⟩
  cases hy
  exact ⟨hx, h.imp_right Or.inr⟩

/-- The first capability is to the endpoint. -/
theorem cons_own (hx : (badgeFor endpoint (s.cap x)).isSome = true)
    (h : Moved cfg endpoint dest caps s n inserted s') :
    Moved cfg endpoint dest (x :: caps) s (n + 1) (inserted.map (· + 1)) s' := by
  refine ⟨Nat.succ_le_succ h.count_le, fun i hi y hy => ?_, fun i hi => ?_, fun hn => ?_, fun y hy => ?_⟩
  · cases i with
    | zero =>
      cases hy
      exact .inr hx
    | succ i => exact (h.each i (Nat.lt_of_succ_lt_succ hi) y hy).imp_left fun he => by rw [he]; rfl
  · obtain ⟨k, rfl, rfl⟩ := Option.map_eq_some_iff.mp hi
    obtain ⟨hk, y, d, c, hrest⟩ := h.moved k rfl
    exact ⟨Nat.succ_lt_succ hk, y, d, c, hrest⟩
  · exact h.kept (Option.map_eq_none_iff.mp hn)
  · obtain ⟨hb, hstop⟩ := h.stop y hy
    refine ⟨hb, hstop.imp_right (Or.imp_left fun hne he => ?_)⟩
    exact hne (Option.map_eq_none_iff.mp he)

/-- The first capability goes to the receive slot. -/
theorem cons_moved {d : Word} {c : Cap} (hx : badgeFor endpoint (s.cap x) = none)
    (hc : s.cte.deriveCap cfg x (s.cap x) = .ok c) (hn : c.isNull = false)
    (hb : ∀ y, badgeFor endpoint ((s.cteInsert cfg c x d).cap y) = badgeFor endpoint (s.cap y))
    (h : Moved cfg endpoint none caps (s.cteInsert cfg c x d) n inserted s') :
    Moved cfg endpoint (some d) (x :: caps) s (n + 1) (some 0) s' := by
  -- without a slot nothing more is inserted
  have hnone : inserted = none := by
    cases hi : inserted with
    | none => rfl
    | some i =>
      obtain ⟨-, _, _, _, _, _, hd, -⟩ := h.moved i hi
      cases hd
  refine ⟨Nat.succ_le_succ h.count_le, fun i hi y hy => ?_, fun i hi => ?_, nofun,
    fun y hy => ⟨?_, .inr (.inl nofun)⟩⟩
  · cases i with
    | zero => exact .inl rfl
    | succ i =>
      refine .inr ?_
      rw [← hb]
      refine (h.each i (Nat.lt_of_succ_lt_succ hi) y hy).resolve_left fun he => ?_
      rw [hnone] at he
      cases he
  · cases hi
    exact ⟨Nat.succ_pos n, x, d, c, rfl, hx, rfl, hc, hn, h.kept hnone⟩
  · rw [← hb]
    exact (h.stop y hy).1

theorem replyBlocked (h : Moved cfg endpoint dest caps s n inserted s') :
    s'.replyBlocked = s.replyBlocked := by
  cases hi : inserted with
  | none => rw [h.kept hi]
  | some i =>
    obtain ⟨-, x, d, c, -, -, -, -, -, heq⟩ := h.moved i hi
    rw [heq]
    rfl

/-- What an insertion does to the slots other than the receive slot. -/
theorem slots (h : Moved cfg endpoint dest caps s n inserted s') {i : Nat} {d : Word}
    (hi : inserted = some i) (hx : caps[i]? = some x) (hd : dest = some d) {y : Word} (hy : y ≠ d) :
    (y ≠ x → y ≠ (s.cte x).cteMDBNode.mdbNext → s'.cte y = s.cte y) ∧
      (s'.cap y = s.cap y ∨ y = x ∧ ∃ f dev size p, s.cap x = .untyped f dev size p ∧
        s'.cap x = .untyped (CteHeap.maxFreeIndex size) dev size p) := by
  obtain ⟨-, x', d', c, hx', -, hd', -, -, heq⟩ := h.moved i hi
  rw [hx] at hx'
  rw [hd] at hd'
  cases hx'
  cases hd'
  have hcte : s'.cte = s.cte.cteInsert c x d := by
    rw [heq]
    rfl
  refine ⟨fun hne hnext => ?_, ?_⟩
  · rw [hcte]
    exact CteHeap.cteInsert_of_ne s.cte c hy hne hnext
  · have hcap : s'.cap y = (s.cte.setUntypedCapAsFull (s.cte x).cap c x y).cap := by
      unfold cap
      rw [hcte, CteHeap.cap_cteInsert, if_neg hy]
    rcases CteHeap.cap_setUntypedCapAsFull s.cte c x y with he | ⟨rfl, f, dev, size, p, hu, he⟩
    · exact .inl (hcap.trans he)
    · exact .inr ⟨rfl, f, dev, size, p, hu, hcap.trans he⟩

end Moved

/-- **The loop of `transferCaps`**, for capabilities that are numbered from `i` on. -/
theorem transferLoop_spec (cfg : KernelConfig) (endpoint : Word) (caps : List Word) :
    ∀ (i : Nat) (dest : Option Word) (t : Transferred) (s : KState), i + caps.length ≤ 64 → (∀ d, dest = some d → s.cap d = .null) →
    ∃ n inserted,
      Moved cfg endpoint dest caps s n inserted (transferLoop cfg endpoint caps i dest t s).2 ∧
      Reported endpoint caps s i n t (transferLoop cfg endpoint caps i dest t s).1 := by
  induction caps with
  | nil =>
    intro i dest t s _ _
    exact ⟨0, none, .nil dest s, .zero [] i t⟩
  | cons x caps ih =>
    intro i dest t s hlen hdest
    rw [List.length_cons] at hlen
    unfold transferLoop
    cases hb : badgeFor endpoint (s.cap x) with
    | some badge =>
      obtain ⟨n, inserted, hm, hr⟩ := ih (i + 1) dest { t with
        capsUnwrapped := t.capsUnwrapped ||| bit i
        extraBadges := t.extraBadges ++ [(i, badge)] } s (by omega) hdest
      exact ⟨n + 1, inserted.map (· + 1), hm.cons_own (by rw [hb]; rfl), hr.cons_own hb (by omega)⟩
    | none =>
      have hstop : (dest = none ∨ ∀ c, s.cte.deriveCap cfg x (s.cap x) = .ok c → c.isNull = true) →
          ∃ n inserted, Moved cfg endpoint dest (x :: caps) s n inserted s ∧
            Reported endpoint (x :: caps) s i n t { t with extraCaps := i } := fun h =>
        ⟨0, none, .stopped hb h, .zero (x :: caps) i t⟩
      cases dest with
      | none => exact hstop (.inl rfl)
      | some d =>
        cases hc : s.cte.deriveCap cfg x (s.cap x) with
        | error e => exact hstop (.inr fun c h => by rw [hc] at h; cases h)
        | ok c =>
          dsimp only
          split_ifs with hn
          · refine hstop (.inr fun c' h => ?_)
            rw [hc] at h
            cases h
            exact hn
          · have hbadge : ∀ y, badgeFor endpoint ((s.cteInsert cfg c x d).cap y) =
                badgeFor endpoint (s.cap y) :=
              badgeFor_cteInsert (badgeFor_deriveCap hc hb) (hdest d rfl)
            obtain ⟨n, inserted, hm, hr⟩ := ih (i + 1) none t (s.cteInsert cfg c x d) (by omega) nofun
            refine ⟨n + 1, some 0, hm.cons_moved hb hc (Bool.eq_false_iff.mpr hn) hbadge, ?_⟩
            exact (hr.congr fun y => (hbadge y).symm).cons_other hb

/-- Looking for the receive slot ends, and a slot that is found is empty. -/
theorem getReceiveSlots_spec (hwf : ∀ x, (s.cap x).WF cfg) {root : Cap} (hroot : root.WF cfg)
    (ct : CapTransfer) : ∃ dest, s.getReceiveSlots root (some ct) = .ok dest ∧
      ∀ d, dest = some d → s.cap d = .null := by
  obtain ⟨ret, heq, -⟩ := resolveAddressBits_spec hwf ct.ctReceiveRoot hroot wordBits
  unfold getReceiveSlots lookupSlot
  dsimp only
  rw [heq]
  cases ret with
  | error fault => exact ⟨none, rfl, nofun⟩
  | ok r =>
    dsimp only
    rcases lookupSlotForCNodeOp_spec hwf ct.ctReceiveIndex (hwf r.slot) false ct.ctReceiveDepth with
      ⟨e, he⟩ | ⟨slot, hs, -⟩
    · unfold lookupTargetSlot
      rw [he]
      exact ⟨none, rfl, nofun⟩
    · unfold lookupTargetSlot
      rw [hs]
      refine ⟨_, rfl, fun d hd => ?_⟩
      split_ifs at hd with hn
      cases hd
      exact Cap.isNull_iff.mp hn

end KState

end SeL4.Object

namespace SeL4.Thread

open SeL4.Lib SeL4.Object SeL4.CSpace

/-! ## The message info -/

namespace MessageInfo

variable (info : MessageInfo) {j : Nat}

theorem getLsbD_setExtraCaps (n : Nat) (hj : j < 64) : (info.setExtraCaps n).getLsbD j =
      if 7 ≤ j ∧ j < 9 then (BitVec.ofNat 64 n).getLsbD (j - 7) else info.getLsbD j :=
  getLsbD_setField info _ (by decide) hj

theorem getLsbD_setCapsUnwrapped (v : Word) (hj : j < 64) : (info.setCapsUnwrapped v).getLsbD j =
      if 9 ≤ j ∧ j < 12 then v.getLsbD (j - 9) else info.getLsbD j :=
  getLsbD_setField info v (by decide) hj

/-- The message info with both fields about capabilities set. -/
def setCaps (n : Nat) (v : Word) (info : MessageInfo) : MessageInfo :=
  (info.setCapsUnwrapped v).setExtraCaps n

theorem extraCaps_setCaps {n : Nat} (hn : n < 4) (v : Word) : (info.setCaps n v).extraCaps = n := by
  have heq : ((info.setCaps n v) >>> 7) &&& mask 2 = BitVec.ofNat 64 n := by
    refine BitVec.eq_of_getLsbD_eq fun j hj => ?_
    rw [BitVec.getLsbD_and, BitVec.getLsbD_ushiftRight, getLsbD_mask (by decide)]
    by_cases hj2 : j < 2
    · rw [setCaps, getLsbD_setExtraCaps _ _ (by omega), if_pos (by omega), decide_eq_true hj2,
        Bool.and_true, Nat.add_sub_cancel_left]
    · have hbit : (BitVec.ofNat 64 n).getLsbD j = false := by
        have hpow : 2 ^ 2 ≤ 2 ^ j := Nat.pow_le_pow_right (by decide) (Nat.not_lt.mp hj2)
        rw [BitVec.getLsbD_ofNat, Nat.testBit_lt_two_pow (hn.trans_le hpow), Bool.and_false]
      rw [decide_eq_false hj2, Bool.and_false, hbit]
  unfold extraCaps
  rw [heq, BitVec.toNat_ofNat, Nat.mod_eq_of_lt (by omega)]

variable (n : Nat) (v : Word)

theorem capsUnwrapped_setCaps : (info.setCaps n v).capsUnwrapped = v &&& mask 3 := by
  refine BitVec.eq_of_getLsbD_eq fun j hj => ?_
  unfold capsUnwrapped setCaps
  rw [BitVec.getLsbD_and, BitVec.getLsbD_and, BitVec.getLsbD_ushiftRight, getLsbD_mask (by decide)]
  by_cases hj3 : j < 3
  · rw [getLsbD_setExtraCaps _ _ (by omega), if_neg (by omega),
      getLsbD_setCapsUnwrapped _ _ (by omega), if_pos (by omega), Nat.add_sub_cancel_left]
  · rw [decide_eq_false hj3, Bool.and_false, Bool.and_false]

theorem getLsbD_setCaps (hj : j < 64) (hout : j < 7 ∨ 12 ≤ j) :
    (info.setCaps n v).getLsbD j = info.getLsbD j := by
  unfold setCaps
  rw [getLsbD_setExtraCaps _ _ hj, if_neg (by omega), getLsbD_setCapsUnwrapped _ _ hj, if_neg (by omega)]

theorem label_setCaps : (info.setCaps n v).label = info.label := by
  refine BitVec.eq_of_getLsbD_eq fun j hj => ?_
  unfold label
  rw [BitVec.getLsbD_ushiftRight, BitVec.getLsbD_ushiftRight]
  by_cases hlt : 12 + j < 64
  · exact getLsbD_setCaps info n v hlt (.inr (Nat.le_add_right 12 j))
  · rw [BitVec.getLsbD_of_ge _ _ (Nat.not_lt.mp hlt), BitVec.getLsbD_of_ge _ _ (Nat.not_lt.mp hlt)]

theorem length_setCaps : (info.setCaps n v).length = info.length := by
  have heq : (info.setCaps n v) &&& mask 7 = info &&& mask 7 := by
    refine BitVec.eq_of_getLsbD_eq fun j hj => ?_
    rw [BitVec.getLsbD_and, BitVec.getLsbD_and, getLsbD_mask (by decide)]
    by_cases hj7 : j < 7
    · rw [getLsbD_setCaps info n v hj (.inl hj7)]
    · rw [decide_eq_false hj7, Bool.and_false, Bool.and_false]
  unfold length
  rw [heq]

/-- The order of the two stores does not matter. -/
theorem setExtraCaps_setCapsUnwrapped : (info.setExtraCaps n).setCapsUnwrapped v = info.setCaps n v := by
  refine BitVec.eq_of_getLsbD_eq fun j hj => ?_
  unfold setCaps
  rw [getLsbD_setCapsUnwrapped _ _ hj, getLsbD_setExtraCaps _ _ hj, getLsbD_setExtraCaps _ _ hj,
    getLsbD_setCapsUnwrapped _ _ hj]
  split_ifs with h h'
  · omega
  · rfl
  · rfl
  · rfl

/-- Only the last values of the two fields count. -/
theorem setCaps_reset :
    ((((info.setExtraCaps 0).setCapsUnwrapped 0).setCapsUnwrapped v).setExtraCaps n) =
      info.setCaps n v := by
  refine BitVec.eq_of_getLsbD_eq fun j hj => ?_
  unfold setCaps
  rw [getLsbD_setExtraCaps _ _ hj, getLsbD_setExtraCaps _ _ hj]
  split_ifs with h
  · rfl
  · rw [getLsbD_setCapsUnwrapped _ v hj, getLsbD_setCapsUnwrapped info v hj]
    split_ifs with h'
    · rfl
    · rw [getLsbD_setCapsUnwrapped _ _ hj, if_neg h', getLsbD_setExtraCaps _ _ hj, if_neg h]

end MessageInfo

/-! ## The buffer -/

/-- Nearby words of a buffer have different addresses. -/
theorem bufferAt_inj {buffer : Word} {i j : Nat} (hi : i < 2 ^ 32) (hj : j < 2 ^ 32)
    (h : bufferAt buffer i = bufferAt buffer j) : i = j := by
  have h' : BitVec.ofNat 64 (8 * i) = BitVec.ofNat 64 (8 * j) := (BitVec.add_right_inj buffer).mp h
  have hn := congrArg BitVec.toNat h'
  rw [BitVec.toNat_ofNat, BitVec.toNat_ofNat, Nat.mod_eq_of_lt (by omega),
    Nat.mod_eq_of_lt (by omega)] at hn
  omega

namespace SysState

/-- A word is written if it is the word of one of the badges. -/
theorem setExtraBadges_bufferMem (buffer a : Word) : ∀ (l : List (Nat × Word)) (s : SysState),
    ((∀ e ∈ l, bufferAt buffer (msgMaxLength + 2 + e.1) ≠ a) →
      (s.setExtraBadges buffer l).bufferMem a = s.bufferMem a) ∧
    ∀ v, (∃ e ∈ l, bufferAt buffer (msgMaxLength + 2 + e.1) = a) →
      (∀ e ∈ l, bufferAt buffer (msgMaxLength + 2 + e.1) = a → e.2 = v) →
      (s.setExtraBadges buffer l).bufferMem a = v
  | [], s => ⟨fun _ => rfl, fun v hex => by obtain ⟨e, he, -⟩ := hex; cases he⟩
  | (i, b) :: l, s => by
    obtain ⟨hkeep, hwrite⟩ :=
      setExtraBadges_bufferMem buffer a l (s.setBuffer buffer (msgMaxLength + 2 + i) b)
    have hfirst : (s.setBuffer buffer (msgMaxLength + 2 + i) b).bufferMem a =
        if a = bufferAt buffer (msgMaxLength + 2 + i) then b else s.bufferMem a :=
      Function.update_apply ..
    rw [hfirst] at hkeep
    refine ⟨fun hne => ?_, fun v hex hall => ?_⟩
    · refine (hkeep fun e he => hne e (.tail _ he)).trans (if_neg fun he => ?_)
      exact hne (i, b) (.head _) he.symm
    · have hall' := fun e he => hall e (.tail (i, b) he)
      by_cases hlater : ∃ e ∈ l, bufferAt buffer (msgMaxLength + 2 + e.1) = a
      · exact hwrite v hlater hall'
      · -- no later store to this word, so it was the first one
        have hnone : ∀ e ∈ l, bufferAt buffer (msgMaxLength + 2 + e.1) ≠ a := fun e he ha =>
          hlater ⟨e, he, ha⟩
        obtain ⟨e, he, ha⟩ := hex
        rcases List.mem_cons.mp he with rfl | he
        · exact (hkeep hnone).trans ((if_pos ha.symm).trans (hall (i, b) (.head _) ha))
        · exact absurd ha (hnone e he)

theorem setExtraBadges_toSlotState (buffer : Word) : ∀ (l : List (Nat × Word)) (s : SysState),
    (s.setExtraBadges buffer l).toSlotState = s.toSlotState ∧
      ∃ m, s.setExtraBadges buffer l = { s with bufferMem := m }
  | [], s => ⟨rfl, s.bufferMem, rfl⟩
  | (i, b) :: l, s => by
    obtain ⟨h, m, heq⟩ := setExtraBadges_toSlotState buffer l
      (s.setBuffer buffer (msgMaxLength + 2 + i) b)
    exact ⟨h, m, heq⟩

end SysState

/-! ## The transfer -/

/-- What has been transferred of `caps`: the first `n`, of which number `inserted`, if any, has gone to
the receive slot `dest`. -/
structure CapsTransferred (cfg : KernelConfig) (endpoint buffer : Word) (dest : Option Word)
    (caps : List Word) (n : Nat) (inserted : Option Nat) (info info' : MessageInfo)
    (s s' : SysState) : Prop where
  moved : KState.Moved cfg endpoint dest caps s.toKState n inserted s'.toKState
  empty : ∀ d, dest = some d → s.cap d = .null
  /-- The receiver is told how many, and which of them were to the endpoint. -/
  extraCaps : info'.extraCaps = n
  capsUnwrapped : ∀ i, info'.capsUnwrapped.getLsbD i = true ↔
    i < n ∧ ∃ x, caps[i]? = some x ∧ (KState.badgeFor endpoint (s.cap x)).isSome = true
  rest : info'.label = info.label ∧ info'.length = info.length
  /-- Their badges are in the buffer, and the other words are as they were. -/
  badges : ∀ i < n, ∀ x b, caps[i]? = some x → KState.badgeFor endpoint (s.cap x) = some b →
    s'.bufferMem (bufferAt buffer (msgMaxLength + 2 + i)) = b
  words : ∀ a, (∀ i < n, ∀ x, caps[i]? = some x →
      (KState.badgeFor endpoint (s.cap x)).isSome = true →
      a ≠ bufferAt buffer (msgMaxLength + 2 + i)) → s'.bufferMem a = s.bufferMem a
  frame : ∃ k m, s' = { s with toSlotState := k, bufferMem := m }
  /-- Without an insertion no slot changes. -/
  kept : inserted = none → s'.toSlotState = s.toSlotState
  /-- An insertion changes the receive slot and links around the source. -/
  slots : ∀ i x d, inserted = some i → caps[i]? = some x → dest = some d → ∀ y, y ≠ d →
    (y ≠ x → y ≠ (s.cte x).cteMDBNode.mdbNext → s'.cte y = s.cte y) ∧
    (s'.cap y = s.cap y ∨ y = x ∧ ∃ f dev size p, s.cap x = .untyped f dev size p ∧
      s'.cap x = .untyped (CteHeap.maxFreeIndex size) dev size p)

namespace SysState

/-- The slots that the loop leaves are those of the new state. -/
theorem toKState_ofKState {s : SysState} {k : KState} (h : k.replyBlocked = s.toKState.replyBlocked) :
    toKState { s with toSlotState := .ofKState k } = k := by
  obtain ⟨cte, cdt, mem, irqs, blocked, pre⟩ := k
  dsimp only at h ⊢
  rw [h]
  rfl

end SysState

/-- What the loop has done and reported makes up the transfer. -/
theorem capsTransferred_of_loop {dest : Option Word} {caps : List Word} {n : Nat}
    {inserted : Option Nat} {s : SysState} {k : KState}
    {t : KState.Transferred} (cfg : KernelConfig) (endpoint buffer : Word) (info : MessageInfo)
    (hlen : caps.length ≤ msgMaxExtraCaps) (hempty : ∀ d, dest = some d → s.cap d = .null)
    (hm : KState.Moved cfg endpoint dest caps s.toKState n inserted k)
    (hr : KState.Reported endpoint caps s.toKState 0 n ⟨0, 0, []⟩ t) :
    CapsTransferred cfg endpoint buffer dest caps n inserted info
      (info.setCaps t.extraCaps t.capsUnwrapped) s
      (SysState.setExtraBadges buffer t.extraBadges { s with toSlotState := .ofKState k }) := by
  have hn : n ≤ 3 := hm.count_le.trans hlen
  have hcount : t.extraCaps = n := hr.count.trans (Nat.zero_add n)
  have hslots := (SysState.setExtraBadges_toSlotState buffer t.extraBadges
    { s with toSlotState := .ofKState k }).1
  obtain ⟨m, heq⟩ := (SysState.setExtraBadges_toSlotState buffer t.extraBadges
    { s with toSlotState := .ofKState k }).2
  have hk : SysState.toKState (.setExtraBadges buffer t.extraBadges
      { s with toSlotState := .ofKState k }) = k := by
    rw [heq]
    exact SysState.toKState_ofKState hm.replyBlocked
  -- the badges that are stored, by number
  have hbadges : ∀ e, e ∈ t.extraBadges ↔ KState.Among caps n fun i x =>
      e.1 = i ∧ KState.badgeFor endpoint (s.cap x) = some e.2 := by
    intro e
    rw [hr.badges e]
    refine (or_iff_right nofun).trans (KState.among_congr fun i x => ?_)
    rw [Nat.zero_add]
    rfl
  have hsmall : ∀ i < n, msgMaxLength + 2 + i < 2 ^ 32 := by
    intro i hi
    unfold msgMaxLength
    omega
  refine ⟨by rw [hk]; exact hm, hempty, ?_, fun i => ?_, ⟨MessageInfo.label_setCaps ..,
    MessageInfo.length_setCaps ..⟩, fun i hi x b hx hb => ?_, fun a ha => ?_, ?_, fun hi => ?_,
    fun i x d hi hx hd y hy => ?_⟩
  · rw [hcount]
    exact MessageInfo.extraCaps_setCaps info (Nat.lt_succ_of_le hn) _
  · rw [MessageInfo.capsUnwrapped_setCaps, BitVec.getLsbD_and, getLsbD_mask (by decide),
      Bool.and_eq_true, decide_eq_true_iff]
    constructor
    · rintro ⟨hbit, hi3⟩
      obtain h0 | ⟨j, hj, x, hx, rfl, hb⟩ := (hr.unwrapped i (by omega)).mp hbit
      · cases ((BitVec.getLsbD_zero).symm.trans h0 : false = true)
      · rw [Nat.zero_add]
        exact ⟨hj, x, hx, hb⟩
    · rintro ⟨hi, x, hx, hb⟩
      have hi3 : i < 3 := hi.trans_le hn
      exact ⟨(hr.unwrapped i (by omega)).mpr (.inr ⟨i, hi, x, hx, (Nat.zero_add i).symm, hb⟩), hi3⟩
  · refine (SysState.setExtraBadges_bufferMem buffer _ t.extraBadges _).2 b
      ⟨(i, b), (hbadges (i, b)).mpr ⟨i, hi, x, hx, rfl, hb⟩, rfl⟩ fun e he ha => ?_
    obtain ⟨j, hj, y, hy, hej, heb⟩ := (hbadges e).mp he
    have hij : msgMaxLength + 2 + e.1 = msgMaxLength + 2 + i :=
      bufferAt_inj (hej ▸ hsmall j hj) (hsmall i hi) ha
    have hji : j = i := by omega
    rw [hji, hx] at hy
    cases hy
    rw [hb] at heb
    exact (Option.some.inj heb).symm
  · refine (SysState.setExtraBadges_bufferMem buffer a t.extraBadges _).1 fun e he hae => ?_
    obtain ⟨j, hj, y, hy, rfl, heb⟩ := (hbadges e).mp he
    exact ha e.1 hj y hy (by rw [heb]; rfl) hae.symm
  · exact ⟨.ofKState k, m, heq⟩
  · rw [hslots, hm.kept hi]
    rfl
  · have h := hm.slots hi hx hd hy
    rw [← hk] at h
    exact h

/-- **`transferCaps` transfers what it reports.** It returns; without a receive buffer it does nothing and
reports nothing. With one it goes through the capabilities in order, up to the first that is neither
to the endpoint nor derivable into a slot that is still free; of these at most one is inserted, and
the others are reported with their badges. -/
theorem caps_transferred (cfg : KernelConfig) (s : SysState) (info : MessageInfo)
    (endpoint receiver : Word) (caps : List Word) (hlen : caps.length ≤ msgMaxExtraCaps)
    (hwf : ∀ x, (s.cap x).WF cfg) :
    (∃ info', s.transferCaps cfg info endpoint receiver none caps = .ok (info', s) ∧
      info'.extraCaps = 0 ∧ info'.capsUnwrapped = 0) ∧ ∀ buffer, ∃ dest n inserted info' s',
      s.toKState.getReceiveSlots (s.cap (SysState.tcbSlot cfg receiver tcbCTable))
        (some (s.loadCapTransfer buffer)) = .ok dest ∧
      s.transferCaps cfg info endpoint receiver (some buffer) caps = .ok (info', s') ∧
      CapsTransferred cfg endpoint buffer dest caps n inserted info info' s s' := by
  have hreset := info.setExtraCaps_setCapsUnwrapped 0 0
  refine ⟨⟨_, rfl, ?_, ?_⟩, fun buffer => ?_⟩
  · rw [hreset]
    exact MessageInfo.extraCaps_setCaps info (by decide) 0
  · rw [hreset, MessageInfo.capsUnwrapped_setCaps]
    decide
  obtain ⟨dest, hdest, hempty⟩ := KState.getReceiveSlots_spec (s := s.toKState) hwf
    (hwf (SysState.tcbSlot cfg receiver tcbCTable)) (s.loadCapTransfer buffer)
  by_cases hnil : caps = []
  · subst hnil
    have hsame : SysState.setExtraBadges buffer [] { s with toSlotState := .ofKState s.toKState } = s :=
      rfl
    have h := capsTransferred_of_loop cfg endpoint buffer info hlen hempty
      (.nil dest s.toKState) (KState.Reported.zero [] 0 ⟨0, 0, []⟩)
    rw [hsame] at h
    refine ⟨dest, 0, none, info.setCaps 0 0, s, hdest, ?_, h⟩
    rw [← hreset]
    rfl
  · obtain ⟨n, inserted, hm, hr⟩ := KState.transferLoop_spec cfg endpoint caps 0 dest ⟨0, 0, []⟩
      s.toKState (by unfold msgMaxExtraCaps at hlen; omega) hempty
    refine ⟨dest, n, inserted, _, _, hdest, ?_,
      capsTransferred_of_loop cfg endpoint buffer info hlen hempty hm hr⟩
    unfold SysState.transferCaps KState.transferCaps
    dsimp only
    rw [if_neg hnil, if_neg (fun h => h.elim hnil nofun), hdest, ok_bind, ok_bind]
    rw [MessageInfo.setCaps_reset]

/-- The receiver 0x8400 has a CNode of 256 slots, with its own capability in slot 1, and wants to receive into
slot 2. Slots 3 and 4 hold an untyped and a capability to endpoint 0x4000. -/
def sampleTransfer : SysState :=
  { SysState.zero with
    cte := fun x =>
      ⟨if x = 0x8000 ∨ x = 0x10020 then .cnode 8 56 0 0x10000
        else if x = 0x10060 then .untyped 0 false 16 0x20000
        else if x = 0x10080 then .endpoint 9 true true true true 0x4000
        else .null, nullMDBNode⟩
    bufferMem := fun a =>
      if a = bufferAt 0x1000 125 then 1
      else if a = bufferAt 0x1000 126 then 2
      else if a = bufferAt 0x1000 127 then 64
      else 0 }

theorem sampleTransfer_wf (x : Word) : (sampleTransfer.cap x).WF benchConfig := by
  unfold sampleTransfer SysState.cap
  dsimp only
  split_ifs
  · refine ⟨fun _ => ⟨8, rfl⟩, fun _ => by decide, nofun, ?_, nofun, nofun⟩
    rintro _ _ _ _ ⟨⟩
    exact ⟨by decide, by decide, by decide, by decide⟩
  · refine ⟨fun _ => ⟨2, rfl⟩, fun _ => by decide, ?_, nofun, nofun, nofun⟩
    rintro _ _ _ _ ⟨⟩
    exact ⟨by decide, by decide, fun _ => by decide⟩
  · exact ⟨fun _ => ⟨0x400, rfl⟩, fun _ => by decide, nofun, nofun, nofun, nofun⟩
  · exact ⟨nofun, nofun, nofun, nofun, nofun, nofun⟩

theorem caps_transferred_sample : ∃ dest n inserted info s,
      sampleTransfer.transferCaps benchConfig 0 0x4000 0x8400 (some 0x1000) [0x10080, 0x10060, 0x10080] =
        .ok (info, s) ∧
      info.extraCaps = 3 ∧ info.capsUnwrapped = 5 ∧ s.cap 0x10040 = .untyped 0 false 16 0x20000 ∧
      CapsTransferred benchConfig 0x4000 0x1000 dest [0x10080, 0x10060, 0x10080] n inserted 0 info
        sampleTransfer s := by
  obtain ⟨dest, n, inserted, info, s, -, heq, h⟩ := (caps_transferred benchConfig sampleTransfer 0 0x4000
    0x8400 [0x10080, 0x10060, 0x10080] (by decide) sampleTransfer_wf).2 0x1000
  obtain ⟨hcount, hbits, hcap⟩ := of_run heq (P := fun r => r.1.extraCaps = 3 ∧ r.1.capsUnwrapped = 5 ∧
    r.2.cap 0x10040 = .untyped 0 false 16 0x20000) (by decide +kernel)
  exact ⟨dest, n, inserted, info, s, heq, hcount, hbits, hcap, h⟩

/-- **A transfer can change the source of the capability**, and needs a receive buffer even for badges.
The untyped that is transferred is full afterwards. Without a buffer a capability to the endpoint is
not processed. -/
theorem transfer_marks_untyped_full :
    (∃ info s, sampleTransfer.transferCaps benchConfig 0 0x4000 0x8400 (some 0x1000) [0x10060] =
        .ok (info, s) ∧ sampleTransfer.toKState.getReceiveSlots
        (sampleTransfer.cap (SysState.tcbSlot benchConfig 0x8400 tcbCTable))
        (some (sampleTransfer.loadCapTransfer 0x1000)) = .ok (some 0x10040) ∧
      info.extraCaps = 1 ∧ sampleTransfer.cap 0x10060 = .untyped 0 false 16 0x20000 ∧
      s.cap 0x10060 = .untyped 4096 false 16 0x20000) ∧
    KState.badgeFor 0x4000 (sampleTransfer.cap 0x10080) = some 9 ∧
    ∃ info, sampleTransfer.transferCaps benchConfig 0 0x4000 0x8400 none [0x10080] =
        .ok (info, sampleTransfer) ∧ info.extraCaps = 0 := by
  have hrun : (sampleTransfer.transferCaps benchConfig 0 0x4000 0x8400 (some 0x1000) [0x10060] >>= fun r =>
      .ok (decide (MessageInfo.extraCaps r.1 = 1 ∧ r.2.cap 0x10060 = .untyped 4096 false 16 0x20000))) =
        .ok true := by
    decide +kernel
  obtain ⟨⟨info, s⟩, heq, hrun⟩ := bind_eq_ok hrun
  obtain ⟨hcount, hcap⟩ := of_decide_eq_true (Except.ok.inj hrun)
  refine ⟨⟨info, s, heq, by decide +kernel, hcount, rfl, hcap⟩, by decide +kernel, _, rfl, ?_⟩
  decide +kernel

end SeL4.Thread
