import SeL4.Cpio.Bounds

/-!
# Listing the names of a CPIO archive

Model of `cpio_ls` and `cpio_strcpy` of `cpio.c`, and what the list of names has to do with what
`cpio_get_entry` reports. `cpio_strcpy` stops at the terminator of the name and does not copy it,
so a buffer holds the name as a string exactly if there was a terminator in the right place before.

* A buffer is a function of the index; the buffers are apart from the archive and from each other.
  Nothing is written from the length of the name on.
* `cpio_ls` has a bound, but its calls of `cpio_strcpy` have none; those take a number of rounds, as
  the loops of `Cpio.Archive` do. With `2 ^ 64` rounds every name comes to its end: the last byte of
  the name is a terminator, or else there is no entry.

Results: `cpioLs_walk` (one round after the other, `cpio_ls` treats the entries that
`cpio_get_entry` finds), `cpioLs_names_iff`, and `cpioLs_unterminated`: a name in a buffer that was
not cleared.
-/

namespace SeL4.Cpio

open SeL4.Lib Function

variable {mem : Word → Byte} {a len header : Word}

/-- A buffer for one name. -/
abbrev Buffer := Nat → Byte

/-- `cpio_strcpy`, with `j` bytes copied so far. -/
def cpioStrcpy (str : Word) : Nat → Buffer → Nat → CpioM (Option Buffer)
  | 0, _, _ => pure none
  | rounds + 1, dst, j => do
    let c ← Access.read str
    if c = 0 then pure (some dst) else cpioStrcpy (str + 1) rounds (update dst j c) (j + 1)

/-- The loop of `cpio_ls` from buffer `i` on, with so many buffers left. -/
def cpioLsLoop (rounds : Nat) : Nat → Nat → Word → Word → (Nat → Buffer) → CpioM (Option (Nat → Buffer))
  | 0, _, _, _, buf => pure (some buf)
  | left + 1, i, header, len, buf => do
    match ← cpioParseHeader header len with
    | .entry info => do
      match ← cpioStrcpy info.filename rounds (buf i) 0 with
      | none => pure none
      | some b =>
        cpioLsLoop rounds left (i + 1) info.next (cpioLenNext len header info.next) (update buf i b)
    | _ => pure (some buf)

def cpioLs (rounds : Nat) (archive len : Word) (buf : Nat → Buffer) (bufLen : Nat) :
    CpioM (Option (Nat → Buffer)) :=
  cpioLsLoop rounds bufLen 0 archive len buf

/-! ## Strings -/

/-- The C string at `a` is `s`. -/
structure IsString (mem : Word → Byte) (a : Word) (s : List Byte) : Prop where
  bytes : Agrees mem a (s ++ [0])
  noNul : 0 ∉ s

/-- The buffer begins with the bytes of `s`, and the others are those of `b`. -/
def Overwritten (b : Buffer) (s : List Byte) (b' : Buffer) : Prop := ∀ i, b' i = s.getD i (b i)

/-- The buffer holds the C string `s`. -/
def Buffer.Holds (b : Buffer) (s : List Byte) : Prop := ∀ i ≤ s.length, b i = s.getD i 0

/-- A string that was copied without its terminator is there if a terminator was. -/
theorem Overwritten.holds_iff {b b' : Buffer} {s : List Byte} (h : Overwritten b s b') :
    b'.Holds s ↔ b s.length = 0 := by
  constructor
  · intro hs
    simpa [h s.length] using hs s.length le_rfl
  · intro hb i hi
    rw [h i]
    rcases hi.lt_or_eq with hlt | rfl
    · simp [hlt]
    · simp [hb]

/-- From every address on there is a string if there is a terminator anywhere. -/
theorem exists_isString (n : Nat) (hn : mem (a + BitVec.ofNat 64 n) = 0) :
    ∃ s, IsString mem a s ∧ s.length ≤ n := by
  induction n generalizing a with
  | zero => exact ⟨[], ⟨⟨by simpa using hn, trivial⟩, List.not_mem_nil⟩, le_rfl⟩
  | succ n ih =>
    by_cases ha : mem a = 0
    · exact ⟨[], ⟨⟨ha, trivial⟩, List.not_mem_nil⟩, Nat.zero_le _⟩
    · have hnext : a + 1 + BitVec.ofNat 64 n = a + BitVec.ofNat 64 (n + 1) := by
        rw [BitVec.ofNat_add, BitVec.add_assoc, BitVec.add_comm 1]
        rfl
      obtain ⟨s, hs, hle⟩ := ih (by rw [hnext]; exact hn)
      refine ⟨mem a :: s, ⟨⟨rfl, hs.bytes⟩, fun h0 => ?_⟩, Nat.succ_le_succ hle⟩
      exact (List.mem_cons.mp h0).elim (Ne.symm ha) hs.noNul

theorem result_cpioStrcpy {s : List Byte} {rounds : Nat} (h : IsString mem a s) (hr : s.length < rounds)
    (b : Buffer) (j : Nat) : (cpioStrcpy a rounds b j).result mem =
      some fun i => if i < j then b i else s.getD (i - j) (b i) := by
  induction s generalizing a rounds b j with
  | nil =>
    obtain ⟨rounds, rfl⟩ := Nat.exists_eq_add_of_lt hr
    simp [cpioStrcpy, show mem a = 0 from h.bytes.1]
  | cons c s ih =>
    obtain ⟨hc, hs⟩ := h.bytes
    obtain ⟨h0, hs0⟩ := not_or.mp (mt List.mem_cons.mpr h.noNul)
    obtain ⟨rounds, rfl⟩ := Nat.exists_eq_succ_of_ne_zero (Nat.ne_zero_of_lt hr)
    rw [cpioStrcpy, Access.result_bind, Access.result_read, hc, if_neg (Ne.symm h0),
      ih ⟨hs, hs0⟩ (Nat.lt_of_succ_lt_succ hr)]
    congr 1
    funext i
    rcases Nat.lt_trichotomy i j with hlt | rfl | hgt
    · simp [hlt, hlt.ne, Nat.lt_succ_of_lt hlt]
    · simp
    · obtain ⟨d, rfl⟩ := Nat.exists_eq_add_of_lt hgt
      simp [show ¬ j + d + 1 < j + 1 by omega, show ¬ j + d + 1 < j by omega,
        show j + d + 1 - (j + 1) = d by omega, show j + d + 1 - j = d + 1 by omega,
        show j + d + 1 ≠ j by omega]

/-! ## The entries -/

/-- An entry that `cpio_parse_header` reports has a name. -/
theorem exists_name {info : HeaderInfo} (h : (cpioParseHeader header len).result mem = .entry info) :
    ∃ s, IsString mem info.filename s ∧ s.length < 2 ^ 64 := by
  have hlen : headerSize ≤ len := by
    by_contra hlt
    rw [(parseHeader_of_lt (BitVec.not_le.mp hlt)).1] at h
    cases h
  obtain ⟨hentry, rfl⟩ := (parseHeader_eq_entry hlen).mp h
  have hend : (infoAt mem header).filename + .ofNat 64 (nameSize mem header - 1).toNat =
      nameEnd mem header := by
    rw [nameEnd, infoAt, headerInfo]
    bv_omega
  obtain ⟨s, hs, hle⟩ := exists_isString _ (hend ▸ hentry.terminated)
  exact ⟨s, hs, hle.trans_lt (nameSize mem header - 1).isLt⟩

/-- What `cpio_ls` does to a buffer: the name is copied into it, without the terminator, if there is
an entry for it. -/
def Listed (mem : Word → Byte) (b : Buffer) (entry : Option HeaderInfo) (b' : Buffer) : Prop :=
  match entry with
  | none => b' = b
  | some info => ∃ s, IsString mem info.filename s ∧ Overwritten b s b'

theorem getEntryLoop_eq_none {parsed : Parsed} (h : (cpioParseHeader header len).result mem = parsed)
    (hne : ∀ info, parsed ≠ .entry info) (k : Nat) : (getEntryLoop k header len).result mem = none := by
  rw [getEntryLoop, Access.result_bind, h]
  cases parsed with
  | entry info => exact absurd rfl (hne info)
  | _ => rfl

/-- Buffer `i + k` is treated with the entry `k` further on. -/
theorem cpioLs_walk (left i : Nat) (header len : Word) (buf : Nat → Buffer) :
    ∃ buf', (cpioLsLoop (2 ^ 64) left i header len buf).result mem = some buf' ∧
      (∀ j, j < i ∨ i + left ≤ j → buf' j = buf j) ∧
      ∀ k < left, Listed mem (buf (i + k)) ((getEntryLoop k header len).result mem) (buf' (i + k)) := by
  induction left generalizing i header len buf with
  | zero => exact ⟨buf, rfl, fun _ _ => rfl, fun k hk => absurd hk (Nat.not_lt_zero k)⟩
  | succ left ih =>
    rw [cpioLsLoop, Access.result_bind]
    cases hp : (cpioParseHeader header len).result mem with
    | entry info =>
      obtain ⟨s, hs, hlt⟩ := exists_name hp
      obtain ⟨buf', hres, hother, hlisted⟩ := ih (i + 1) info.next (cpioLenNext len header info.next)
        (update buf i fun j => s.getD j (buf i j))
      refine ⟨buf', ?_, fun j hj => ?_, fun k hk => ?_⟩
      · have hcopy := result_cpioStrcpy hs hlt (buf i) 0
        rw [Access.result_bind, hcopy]
        exact hres
      · rw [hother j (by omega), update_of_ne (by omega)]
      · cases k with
        | zero =>
          rw [(getEntryLoop_zero).2 info hp]
          refine ⟨s, hs, fun j => ?_⟩
          rw [hother (i + 0) (.inl (Nat.lt_succ_self i)), Nat.add_zero, update_self]
        | succ k =>
          have hk' := hlisted k (Nat.lt_of_succ_lt_succ hk)
          rw [update_of_ne (by omega), Nat.add_right_comm] at hk'
          rw [(getEntryLoop_succ k hp).2]
          exact hk'
    | _ =>
      refine ⟨buf, rfl, fun _ _ => rfl, fun k _ => ?_⟩
      rw [getEntryLoop_eq_none hp nofun]
      rfl

/-- **The list of names and the entries.** For every archive, every number of buffers and whatever
they contain, `cpio_ls` returns. Where `cpio_get_entry` reports an entry for the index of a buffer,
that buffer holds the name of the entry exactly if there was a terminator behind the place of the
name before; the other buffers are as they were. -/
theorem cpioLs_names_iff (mem : Word → Byte) (archive len : Word) (uninit : HeaderInfo) (bufLen : Nat)
    (buf : Nat → Buffer) : ∃ buf', (cpioLs (2 ^ 64) archive len buf bufLen).result mem = some buf' ∧
      ∀ i : Nat, (∀ info, i < bufLen → (cpioGetEntry archive len i uninit).result mem = some info →
          ∃ name, IsString mem info.filename name ∧
            ((buf' i).Holds name ↔ buf i name.length = 0)) ∧
        (bufLen ≤ i ∨ (cpioGetEntry archive len i uninit).result mem = none → buf' i = buf i) := by
  obtain ⟨buf', hres, hother, hlisted⟩ := cpioLs_walk bufLen 0 archive len buf
  simp only [Nat.zero_add] at hother hlisted
  refine ⟨buf', hres, fun i => ⟨fun info hi hentry => ?_, fun h => ?_⟩⟩
  · obtain ⟨s, hs, hcopy⟩ : Listed mem (buf i) (some info) (buf' i) := hentry ▸ hlisted i hi
    exact ⟨s, hs, hcopy.holds_iff⟩
  · rcases Nat.lt_or_ge i bufLen with hi | hi
    · have hnone := h.resolve_left (Nat.not_le.mpr hi)
      exact (hnone ▸ hlisted i hi : Listed mem (buf i) none (buf' i))
    · exact hother i (.inr hi)

/-- One file with the name `a` and no contents, and the trailer. -/
def listedArchive : List Byte := oneFileArchive ++ trailerArchive

/-- **The terminator is not copied.** A buffer full of ones holds, after the listing of an archive
with a file `a`, the name without an end. -/
theorem cpioLs_unterminated :
    ((cpioGetEntry 4096 233 0 ⟨0, 0, 0, 0⟩).result (sampleMem listedArchive)).map (·.filename) =
      some (4096 + 110) ∧ IsString (sampleMem listedArchive) (4096 + 110) [0x61] ∧
      ∃ buf', (cpioLs (2 ^ 64) 4096 233 (fun _ _ => 1) 1).result (sampleMem listedArchive) = some buf' ∧
        ¬ (buf' 0).Holds [0x61] := by
  refine ⟨by decide +kernel, ⟨⟨by decide +kernel, by decide +kernel, trivial⟩, by decide⟩, _, rfl,
    fun h => ?_⟩
  have hend := h 1 le_rfl
  revert hend
  decide +kernel

end SeL4.Cpio
