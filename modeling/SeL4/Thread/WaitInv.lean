import SeL4.Thread.WaitQueue

/-!
# Threads wait where their state says

`WaitInv i X R l`: the lists `l` are what the queues of endpoints and notifications hold, each is
sorted by `R`, a thread is in the list of the object that its state names, and the state of an object
says whether its list is empty and on which side the threads of an endpoint wait. Operations write
thread states and queues one after the other; the threads in between, in no list whatever their
state says, are `X`.

The first part is about queues and thread states (`WaitLists`), the second about the writes that the
operations are made of: `WaitInv.epDequeue`, `epAppend`, `ntfnDequeue`, `ntfnAppend`, `epReset`, `ntfnReset`
and `setTsType`.
-/

namespace SeL4.Thread

open SeL4.Lib SeL4.Object Links Function SysState IpcState

/-! ## Who waits for what -/

/-- The objects that threads wait for in a queue. -/
inductive WaitObj
  | ep (p : Word)
  | ntfn (p : Word)
  deriving DecidableEq

/-- The thread is in a queue. -/
def ThreadState.queued : ThreadState → Bool
  | blockedOnSend | blockedOnReceive | blockedOnNotification => true
  | _ => false

/-- The state of the threads that wait for an endpoint in the given state. -/
def EPState.blocked : EPState → Option ThreadState
  | idle => none
  | send => some .blockedOnSend
  | recv => some .blockedOnReceive

namespace IpcState

/-- The queue of an object. -/
def queue (i : IpcState) : WaitObj → TcbQueue
  | .ep p => i.epQueue p
  | .ntfn p => i.ntfnQueue p

/-- The object that a thread waits for, by its state. -/
def waitsFor (i : IpcState) (t : Word) : Option WaitObj :=
  match i.tsType t with
  | .blockedOnSend | .blockedOnReceive => some (.ep (i.blockingObject t))
  | .blockedOnNotification => some (.ntfn (i.blockingObject t))
  | _ => none

variable {i i' : IpcState} {t p : Word}

theorem waitsFor_congr (hs : i'.tsType t = i.tsType t)
    (ho : i'.blockingObject t = i.blockingObject t) : i'.waitsFor t = i.waitsFor t := by
  unfold waitsFor
  rw [hs, ho]

theorem waitsFor_eq_none : i.waitsFor t = none ↔ (i.tsType t).queued = false := by
  unfold waitsFor ThreadState.queued
  cases i.tsType t <;> simp only [reduceCtorEq]

theorem waitsFor_eq_ep : i.waitsFor t = some (.ep p) ↔
    (i.tsType t = .blockedOnSend ∨ i.tsType t = .blockedOnReceive) ∧ i.blockingObject t = p := by
  unfold waitsFor
  cases i.tsType t <;> simp

theorem waitsFor_eq_ntfn : i.waitsFor t = some (.ntfn p) ↔
    i.tsType t = .blockedOnNotification ∧ i.blockingObject t = p := by
  unfold waitsFor
  cases i.tsType t <;> simp

end IpcState

/-! ## Lists -/

/-- The lists that the queues hold, for threads `t` that wait for `w t`. -/
structure WaitLists (L : Links Word) (Q : WaitObj → TcbQueue) (w : Word → Option WaitObj)
    (X : List Word) (R : Word → Word → Prop) (l : WaitObj → List Word) : Prop where
  queues : Queues 0 L Q l
  waits : ∀ t, t ∉ X → ∀ o, t ∈ l o ↔ w t = some o
  apart : ∀ t ∈ X, ∀ o, t ∉ l o
  sorted : ∀ o, (l o).Pairwise R

namespace WaitLists

variable {L M : Links Word} {Q Q' : WaitObj → TcbQueue} {w w' : Word → Option WaitObj}
  {X : List Word} {R R' : Word → Word → Prop} {l : WaitObj → List Word} {t : Word} {o : WaitObj}
  {A B : List Word}

section

variable (h : WaitLists L Q w X R l)
include h

theorem notMem (ht : w t = none) (o : WaitObj) : t ∉ l o := by
  intro hm
  by_cases hX : t ∈ X
  · exact h.apart t hX o hm
  · exact absurd ((h.waits t hX o).mp hm) (by rw [ht]; exact nofun)

/-- States of threads that are in no queue do not matter. -/
theorem congr (hw : ∀ t, t ∉ X → w' t = w t) : WaitLists L Q w' X R l :=
  ⟨h.queues, fun t ht o => by rw [hw t ht]; exact h.waits t ht o, h.apart, h.sorted⟩

theorem exempt (ht : w t = none) : WaitLists L Q w (t :: X) R l := by
  refine ⟨h.queues, fun u hu => h.waits u (List.not_mem_of_not_mem_cons hu), fun u hu o => ?_, h.sorted⟩
  rcases List.mem_cons.mp hu with rfl | hu
  · exact h.notMem ht o
  · exact h.apart u hu o

omit h in
theorem settle (h : WaitLists L Q w (t :: X) R l) (ht : w t = none) : WaitLists L Q w X R l := by
  refine ⟨h.queues, fun u hu o => ?_, fun u hu => h.apart u (.tail t hu), h.sorted⟩
  by_cases hut : u = t
  · subst hut
    rw [ht]
    exact ⟨fun hm => absurd hm (h.apart u (.head _) o), nofun⟩
  · exact h.waits u (List.not_mem_cons_of_ne_of_not_mem hut hu) o

/-- A change of the order at a thread that is in no queue. -/
theorem reorder
    (hR : ∀ o, ∀ a ∈ l o, ∀ b ∈ l o, R a b → R' a b) : WaitLists L Q w X R' l :=
  ⟨h.queues, h.waits, h.apart, fun o => (h.sorted o).imp_of_mem fun ha hb => hR o _ ha _ hb⟩

/-- A thread leaves its queue. -/
theorem remove (hl : l o = A ++ t :: B)
    (hQ : Queues 0 M Q' (update l o (A ++ B))) : WaitLists M Q' w (t :: X) R (update l o (A ++ B)) := by
  have hsub : (A ++ B).Sublist (l o) := by
    rw [hl]
    exact List.Sublist.append_left (List.sublist_cons_self t B) A
  obtain ⟨htA, htB⟩ := h.queues.notMem_sides hl
  have hto : t ∈ l o := hl ▸ List.mem_append_cons_self
  refine ⟨hQ, fun u hu o' => ?_, fun u hu o' => ?_, fun o' => ?_⟩
  · have hut : u ≠ t := List.ne_of_not_mem_cons hu
    rw [← h.waits u (List.not_mem_of_not_mem_cons hu) o', update_apply]
    split_ifs with ho
    · rw [ho, hl, mem_append_cons_of_ne hut]
    · rfl
  · rw [update_apply]
    split_ifs with ho
    · rcases List.mem_cons.mp hu with rfl | hu
      · exact fun hm => (List.mem_append.mp hm).elim htA htB
      · exact fun hm => h.apart u hu o (hsub.subset hm)
    · rcases List.mem_cons.mp hu with rfl | hu
      · exact fun hm => ho (h.queues.disjoint o' o u hm hto)
      · exact h.apart u hu o'
  · rw [update_apply]
    split_ifs with ho
    · exact (h.sorted o).sublist hsub
    · exact h.sorted o'

end

/-- A thread joins the queue of the object that it waits for. -/
theorem insert (h : WaitLists L Q w (t :: X) R l) (ht : t ∉ X) (hw : w t = some o)
    (hl : l o = A ++ B) (hA : ∀ a ∈ A, R a t) (hB : ∀ b ∈ B, R t b)
    (hQ : Queues 0 M Q' (update l o (A ++ t :: B))) :
    WaitLists M Q' w X R (update l o (A ++ t :: B)) := by
  refine ⟨hQ, fun u hu o' => ?_, fun u hu o' => ?_, fun o' => ?_⟩
  · by_cases hut : u = t
    · subst hut
      rw [hw, update_apply]
      split_ifs with ho
      · rw [ho]
        exact ⟨fun _ => rfl, fun _ => List.mem_append_right A List.mem_cons_self⟩
      · refine ⟨fun hm => absurd hm (h.apart u List.mem_cons_self o'), fun he => ?_⟩
        exact absurd (Option.some.inj he).symm ho
    · rw [← h.waits u (List.not_mem_cons_of_ne_of_not_mem hut hu) o', update_apply]
      split_ifs with ho
      · rw [ho, hl, mem_append_cons_of_ne hut]
      · rfl
  · have hut : u ≠ t := fun he => ht (he ▸ hu)
    rw [update_apply]
    split_ifs with ho
    · intro hm
      rw [mem_append_cons_of_ne hut, ← hl] at hm
      exact h.apart u (.tail t hu) o hm
    · exact h.apart u (.tail t hu) o'
  · rw [update_apply]
    split_ifs with ho
    · have hs := h.sorted o
      rw [hl] at hs
      obtain ⟨hsA, hsB, hAB⟩ := List.pairwise_append.mp hs
      refine List.pairwise_append.mpr ⟨hsA, List.pairwise_cons.mpr ⟨hB, hsB⟩, fun a ha b hb => ?_⟩
      rcases List.mem_cons.mp hb with rfl | hb
      · exact hA a ha
      · exact hAB a ha b hb
    · exact h.sorted o'

/-- All threads leave a queue at once. -/
theorem clear (h : WaitLists L Q w [] R l) (hQ : Q' = update Q o ⟨0, 0⟩) :
    WaitLists L Q' w (l o) R (update l o []) := by
  refine ⟨⟨fun o' => ?_, fun o' => ?_, fun o1 o2 x h1 h2 => ?_, fun o' x hx => ?_⟩, fun u hu o' => ?_,
    fun u hu o' => ?_, fun o' => ?_⟩
  · rw [hQ]
    by_cases ho : o' = o
    · rw [ho, update_self, update_self]
      exact ⟨trivial, rfl, rfl⟩
    · rw [update_of_ne ho, update_of_ne ho]
      exact h.queues.isQueue o'
  · rw [update_apply]
    split_ifs with ho
    · exact List.nodup_nil
    · exact h.queues.nodup o'
  · rw [update_apply] at h1 h2
    split_ifs at h1 h2
    · exact (nomatch h1)
    · exact (nomatch h1)
    · exact (nomatch h2)
    · exact h.queues.disjoint o1 o2 x h1 h2
  · rw [update_apply] at hx
    split_ifs at hx
    · exact (nomatch hx)
    · exact h.queues.ne_null o' x hx
  · rw [← h.waits u List.not_mem_nil o', update_apply]
    split_ifs with ho
    · rw [ho]
      exact ⟨nofun, fun hm => absurd hm hu⟩
    · rfl
  · rw [update_apply]
    split_ifs with ho
    · exact List.not_mem_nil
    · exact fun hm => ho (h.queues.disjoint o' o u hm hu)
  · rw [update_apply]
    split_ifs with ho
    · exact List.Pairwise.nil
    · exact h.sorted o'

end WaitLists

/-! ## The invariant -/

/-- Queues, thread states and the states of endpoints and notifications agree. -/
structure WaitInv (i : IpcState) (X : List Word) (R : Word → Word → Prop)
    (l : WaitObj → List Word) : Prop extends WaitLists i.tcbEP i.queue i.waitsFor X R l where
  ep_idle : ∀ p, i.epState p = .idle ↔ l (.ep p) = []
  kind : ∀ p, ∀ t ∈ l (.ep p), (i.epState p).blocked = some (i.tsType t)
  ntfn_waiting : ∀ p, i.ntfnState p = .waiting ↔ l (.ntfn p) ≠ []

theorem IpcState.queue_setEp (i : IpcState) (L : Links Word) (st : Word → EPState) (p : Word)
    (Q : TcbQueue) :
    queue { i with tcbEP := L, epState := st, epQueue := update i.epQueue p Q } =
      update i.queue (.ep p) Q := by
  funext o
  cases o with
  | ep p' =>
    dsimp only [queue]
    rw [update_apply, update_apply]
    simp only [WaitObj.ep.injEq, queue]
  | ntfn p' => rfl

theorem IpcState.queue_setNtfn (i : IpcState) (L : Links Word) (st : Word → NtfnState) (p : Word)
    (Q : TcbQueue) :
    queue { i with
      tcbEP := L, ntfnState := st, ntfnQueue := update i.ntfnQueue p Q } =
      update i.queue (.ntfn p) Q := by
  funext o
  cases o with
  | ep p' => rfl
  | ntfn p' =>
    dsimp only [queue]
    rw [update_apply, update_apply]
    simp only [WaitObj.ntfn.injEq, queue]

/-- `t` can be put behind `A` and before `B`. -/
def WaitInv.Fits (R : Word → Word → Prop) (t : Word) (A B : List Word) : Prop :=
  (∀ a ∈ A, R a t) ∧ ∀ b ∈ B, R t b

/-- Wherever `tcbEPAppend` puts `t` in a sorted list, the list stays sorted. -/
def Admits (cfg : SysConfig) (prio : Word → Nat) (R : Word → Word → Prop) (t : Word) : Prop :=
  ∀ A B, (A ++ B).Pairwise R → t ∉ A ++ B → Placed cfg.mcs prio t A B → WaitInv.Fits R t A B

/-- In `s'` the waiting threads are sorted by `R`, and threads have the parameters of `s`. -/
abbrev KeepsWaiting (R : Word → Word → Prop) (s s' : SysState) : Prop :=
  ∃ l, WaitInv s'.toIpcState [] R l ∧ s'.toThreadParams = s.toThreadParams

namespace WaitInv

variable {cfg : SysConfig} {i i' : IpcState} {s s' : SysState} {X : List Word}
  {R R' : Word → Word → Prop} {l : WaitObj → List Word} {t p : Word} {ts : ThreadState}

/-! ### Thread states -/

section

variable (h : WaitInv i X R l)
include h

/-- The state of a thread may change if it is in `X`, or if it is in no queue before and after. -/
theorem congr (hL : i'.tcbEP = i.tcbEP) (hq : i'.queue = i.queue)
    (he : i'.epState = i.epState) (hn : ∀ p, i'.ntfnState p = .waiting ↔ i.ntfnState p = .waiting)
    (hs : ∀ t, t ∉ X → i'.tsType t = i.tsType t ∧ i'.blockingObject t = i.blockingObject t ∨
      i.waitsFor t = none ∧ i'.waitsFor t = none) : WaitInv i' X R l := by
  have hlists : WaitLists i.tcbEP i.queue i'.waitsFor X R l := h.toWaitLists.congr fun t ht => by
    rcases hs t ht with ⟨hst, hob⟩ | ⟨hnone, hnone'⟩
    · exact waitsFor_congr hst hob
    · rw [hnone, hnone']
  refine ⟨hL ▸ hq ▸ hlists, fun p => by rw [he]; exact h.ep_idle p, fun p t ht => ?_,
    fun p => (hn p).trans (h.ntfn_waiting p)⟩
  have htX : t ∉ X := fun hX => h.apart t hX _ ht
  rcases hs t htX with ⟨hst, -⟩ | ⟨hnone, -⟩
  · rw [he, hst]
    exact h.kind p t ht
  · exact absurd ht (h.notMem hnone _)

theorem reorder (hR : ∀ o, ∀ a ∈ l o, ∀ b ∈ l o, R a b → R' a b) : WaitInv i X R' l :=
  ⟨h.toWaitLists.reorder hR, h.ep_idle, h.kind, h.ntfn_waiting⟩

theorem exempt (ht : i.waitsFor t = none) : WaitInv i (t :: X) R l :=
  ⟨h.toWaitLists.exempt ht, h.ep_idle, h.kind, h.ntfn_waiting⟩

omit h in
theorem settle (h : WaitInv i (t :: X) R l) (ht : i.waitsFor t = none) : WaitInv i X R l :=
  ⟨h.toWaitLists.settle ht, h.ep_idle, h.kind, h.ntfn_waiting⟩

omit h in
/-- A thread in no queue gets another state. -/
theorem exemptTsType (h : WaitInv s.toIpcState X R l) (ht : t ∈ X) :
    WaitInv (s.setTsType t ts).toIpcState X R l :=
  h.congr rfl rfl rfl (fun _ => .rfl) fun u hu => .inl
    ⟨(setTsType_tsType t u ts s).trans (if_neg fun he : u = t => hu (he ▸ ht)), rfl⟩

omit h in
theorem waitsFor_setTsType (s : SysState) (t : Word) (hts : ts.queued = false) :
    (s.setTsType t ts).waitsFor t = none := by
  rw [waitsFor_eq_none, setTsType_tsType, if_pos rfl]
  exact hts

omit h in
/-- A thread that left its queue is given a state in which it is in none. -/
theorem release (h : WaitInv s.toIpcState (t :: X) R l) (ts : ThreadState) (hts : ts.queued = false) :
    WaitInv (s.setTsType t ts).toIpcState X R l :=
  (h.exemptTsType (.head _)).settle (waitsFor_setTsType s t hts)

omit h in
/-- A thread that is in no queue stays in none. -/
theorem setTsType (h : WaitInv s.toIpcState X R l) (ht : s.waitsFor t = none) (ts : ThreadState)
    (hts : ts.queued = false) : WaitInv (s.setTsType t ts).toIpcState X R l :=
  (h.exempt ht).release ts hts

/-! ### Queues -/

/-- The queue of an endpoint changes, with its state. -/
theorem setEp {L : Links Word} {Q : TcbQueue} {Y m : List Word} (st : EPState)
    (hl : WaitLists L (update i.queue (.ep p) Q) i.waitsFor Y R (update l (.ep p) m))
    (hidle : st = .idle ↔ m = []) (hkind : ∀ u ∈ m, st.blocked = some (i.tsType u)) :
    WaitInv { i with
      tcbEP := L, epState := update i.epState p st, epQueue := update i.epQueue p Q } Y R
      (update l (.ep p) m) := by
  rw [← queue_setEp i L (update i.epState p st) p Q] at hl
  refine ⟨hl, fun p' => ?_, fun p' u hu => ?_, fun p' => ?_⟩
  · dsimp only
    rw [update_apply, update_apply]
    simp only [WaitObj.ep.injEq]
    split_ifs
    · exact hidle
    · exact h.ep_idle p'
  · dsimp only
    rw [update_apply] at hu ⊢
    simp only [WaitObj.ep.injEq] at hu
    split_ifs at hu ⊢
    · exact hkind u hu
    · exact h.kind p' u hu
  · exact h.ntfn_waiting p'

/-- The same for a notification. -/
theorem setNtfn {L : Links Word} {Q : TcbQueue} {Y m : List Word} (st : NtfnState)
    (hl : WaitLists L (update i.queue (.ntfn p) Q) i.waitsFor Y R (update l (.ntfn p) m))
    (hwait : st = .waiting ↔ m ≠ []) :
    WaitInv { i with
      tcbEP := L, ntfnState := update i.ntfnState p st, ntfnQueue := update i.ntfnQueue p Q } Y R
      (update l (.ntfn p) m) := by
  rw [← queue_setNtfn i L (update i.ntfnState p st) p Q] at hl
  refine ⟨hl, fun p' => ?_, fun p' u hu => ?_, fun p' => ?_⟩
  · exact h.ep_idle p'
  · exact h.kind p' u hu
  · dsimp only
    rw [update_apply, update_apply]
    simp only [WaitObj.ntfn.injEq]
    split_ifs
    · exact hwait
    · exact h.ntfn_waiting p'

/-- The links and queues after a thread left the queue of `o`. -/
theorem dequeueLists {o : WaitObj} (ht : t ∈ l o) :
    WaitLists (tcbEPDequeue t (i.queue o) i.tcbEP).2
        (update i.queue o (tcbEPDequeue t (i.queue o) i.tcbEP).1) i.waitsFor (t :: X) R
        (update l o ((l o).erase t)) ∧
      ((tcbEPDequeue t (i.queue o) i.tcbEP).1.head = 0 ↔ (l o).erase t = []) := by
  obtain ⟨A, B, hl, herase⟩ := h.queues.erase_split ht
  rw [herase]
  have hqueues := tcbEPDequeue_queues h.queues hl
  refine ⟨h.remove hl hqueues, ?_⟩
  have hhead := hqueues.head_eq_null_iff o
  rwa [update_self, update_self] at hhead

end

theorem epState_epDequeue (s : SysState) (p t : Word) : (s.epDequeue p t).epState = update s.epState p
    (if (tcbEPDequeue t (s.epQueue p) s.tcbEP).1.head = 0 then .idle else s.epState p) := by
  dsimp only [epDequeue]
  split_ifs
  · rfl
  · exact (update_eq_self ..).symm

theorem ntfnState_ntfnDequeue (s : SysState) (p t : Word) :
    (s.ntfnDequeue p t).ntfnState = update s.ntfnState p
      (if (tcbEPDequeue t (s.ntfnQueue p) s.tcbEP).1.head = 0 then .idle else s.ntfnState p) := by
  dsimp only [ntfnDequeue]
  split_ifs
  · rfl
  · exact (update_eq_self ..).symm

/-- **A thread leaves the queue of an endpoint.** -/
theorem epDequeue (h : WaitInv s.toIpcState X R l) (ht : t ∈ l (.ep p)) :
    WaitInv (s.epDequeue p t).toIpcState (t :: X) R
      (update l (.ep p) ((l (.ep p)).erase t)) := by
  obtain ⟨hlists, hhead⟩ := h.dequeueLists ht
  have hne : s.epState p ≠ .idle := fun hi => List.ne_nil_of_mem ht ((h.ep_idle p).mp hi)
  have hset := h.setEp (if (tcbEPDequeue t (s.epQueue p) s.tcbEP).1.head = 0 then .idle
    else s.epState p) hlists ?_ ?_
  · rw [← epState_epDequeue] at hset
    exact hset
  · refine Iff.trans ?_ hhead
    exact ⟨fun hi => by_contra fun hn => hne ((if_neg hn).symm.trans hi), fun hn => if_pos hn⟩
  · intro u hu
    have hn : ¬ (tcbEPDequeue t (s.epQueue p) s.tcbEP).1.head = 0 :=
      fun hn => List.ne_nil_of_mem hu (hhead.mp hn)
    rw [if_neg hn]
    exact h.kind p u (List.mem_of_mem_erase hu)

/-- **A thread leaves the queue of a notification.** -/
theorem ntfnDequeue (h : WaitInv s.toIpcState X R l) (ht : t ∈ l (.ntfn p)) :
    WaitInv (s.ntfnDequeue p t).toIpcState (t :: X) R
      (update l (.ntfn p) ((l (.ntfn p)).erase t)) := by
  obtain ⟨hlists, hhead⟩ := h.dequeueLists ht
  have hwait : s.ntfnState p = .waiting := (h.ntfn_waiting p).mpr (List.ne_nil_of_mem ht)
  have hset := h.setNtfn (if (tcbEPDequeue t (s.ntfnQueue p) s.tcbEP).1.head = 0 then .idle
    else s.ntfnState p) hlists ?_
  · rw [← ntfnState_ntfnDequeue] at hset
    exact hset
  · refine Iff.trans ?_ (not_congr hhead)
    rw [hwait]
    split_ifs with hn
    · exact iff_of_false nofun (not_not_intro hn)
    · exact iff_of_true rfl hn

section

variable (h : WaitInv s.toIpcState [t] R l) (ht0 : t ≠ 0)
include h ht0

/-- The links and queues after a thread joined the queue of `o`. -/
theorem appendLists {o : WaitObj}
    (hw : s.waitsFor t = some o) (hR : Admits cfg s.tcbPriority R t) :
    ∃ A B Q M, l o = A ++ B ∧
      tcbEPAppend cfg.mcs s.tcbPriority t (s.toIpcState.queue o) s.tcbEP = .ok (Q, M) ∧
      WaitLists M (update s.toIpcState.queue o Q) s.waitsFor [] R (update l o (A ++ t :: B)) := by
  have hmem := h.apart t (.head _)
  obtain ⟨A, B, Q, M, hl, hp, happ, hq⟩ := tcbEPAppend_queues cfg.mcs s.tcbPriority o h.queues hmem ht0
  obtain ⟨hA, hB⟩ := hR A B (hl ▸ h.sorted o) (hl ▸ hmem o) hp
  exact ⟨A, B, Q, M, hl, happ, h.insert List.not_mem_nil hw hl hA hB hq⟩

/-- **A thread joins the queue of an endpoint.** -/
theorem epAppend {st : EPState}
    (hw : s.waitsFor t = some (.ep p)) (hst : st.blocked = some (s.tsType t))
    (hep : s.epState p = .idle ∨ s.epState p = st) (hR : Admits cfg s.tcbPriority R t)
    (hs : s.epAppend cfg p t st = .ok s') :
    ∃ m, WaitInv s'.toIpcState [] R (update l (.ep p) m) ∧ s'.toThreadParams = s.toThreadParams := by
  obtain ⟨A, B, Q, M, hl, happ, hlists⟩ := h.appendLists ht0 hw hR
  dsimp only [IpcState.queue] at happ
  rw [SysState.epAppend, happ] at hs
  cases hs
  refine ⟨_, h.setEp _ hlists ?_ fun u hu => ?_, rfl⟩
  · refine iff_of_false (fun hi => ?_) (List.append_ne_nil_of_right_ne_nil A (List.cons_ne_nil t B))
    rw [hi] at hst
    exact nomatch hst
  · by_cases hut : u = t
    · exact hut ▸ hst
    · rw [mem_append_cons_of_ne hut, ← hl] at hu
      rcases hep with hep | hep
      · exact absurd ((h.ep_idle p).mp hep) (List.ne_nil_of_mem hu)
      · exact hep ▸ h.kind p u hu

/-- **A thread joins the queue of a notification.** -/
theorem ntfnAppend     (hw : s.waitsFor t = some (.ntfn p)) (hR : Admits cfg s.tcbPriority R t)
    (hs : s.ntfnAppend cfg p t = .ok s') :
    ∃ m, WaitInv s'.toIpcState [] R (update l (.ntfn p) m) ∧ s'.toThreadParams = s.toThreadParams := by
  obtain ⟨A, B, Q, M, hl, happ, hlists⟩ := h.appendLists ht0 hw hR
  dsimp only [IpcState.queue] at happ
  rw [SysState.ntfnAppend, happ] at hs
  cases hs
  exact ⟨_, h.setNtfn _ hlists (iff_of_true rfl
    (List.append_ne_nil_of_right_ne_nil A (List.cons_ne_nil t B))), rfl⟩

end

/-- **All threads leave the queue of an endpoint.** -/
theorem epReset (h : WaitInv s.toIpcState [] R l) (p : Word) :
    WaitInv (s.epReset p).toIpcState (l (.ep p)) R (update l (.ep p) []) :=
  h.setEp _ (h.clear rfl) (iff_of_true rfl rfl) nofun

/-- **All threads leave the queue of a notification.** -/
theorem ntfnReset (h : WaitInv s.toIpcState [] R l) (p : Word) :
    WaitInv (s.ntfnReset p).toIpcState (l (.ntfn p)) R (update l (.ntfn p) []) :=
  h.setNtfn _ (h.clear rfl) (iff_of_false nofun fun hn => hn rfl)

end WaitInv

end SeL4.Thread
