import SeL4.Cpio.Archive

/-!
# What the CPIO reader looks at

`cpio_parse_header` compares the length it is given with the header, the name and the data, and
its callers pass on what `cpio_len_next` calls the remaining length. Three things go wrong:
`cpio_len_next` returns the length it was given, not what is left of it, so from the second entry
on the comparison is with the length of the whole archive; the padding in front of the data is
added after the comparison; and a name of length 0 passes the test of its last byte, which is then
the last byte of the header. This module says exactly for which archives no byte outside is looked
at or reported.

* `Inspects`: the bytes that `cpio_parse_header` looks at, byte by byte (`mem_reads_parseHeader`).
* `IsEntry`, `Chain`: the headers that the walks come to.
* `Fits`: each of those lies in the archive, with its name and its data.
* `cpio_reads_inside_iff`: the reader stays in the archive exactly if `Fits` holds.
* `cpio_len_not_reduced`: an archive of one entry, and a read past its end.
-/

namespace SeL4.Cpio

open SeL4.Lib

variable {mem : Word → Byte} {len : Word}

variable {n rounds : Nat}

/-! ## The bytes of one header -/

/-- The bytes from `a` on are those of the list. -/
def Agrees (mem : Word → Byte) : Word → List Byte → Prop
  | _, [] => True
  | a, b :: rest => mem a = b ∧ Agrees mem (a + 1) rest

/-- `x` is one of the bytes from `a` on that are compared with the list: all before it agree, and
none of those ends the string. -/
inductive Compared (mem : Word → Byte) : Word → List Byte → Word → Prop
  | here {a : Word} {b : Byte} {rest : List Byte} : Compared mem a (b :: rest) a
  | next {a x : Word} {b : Byte} {rest : List Byte} :
    mem a = b → b ≠ 0 → Compared mem (a + 1) rest x → Compared mem a (b :: rest) x

/-- `x` is one of the at most `n` characters from `a` on of a number: all before it are digits. -/
inductive Scanned (mem : Word → Byte) : Word → Nat → Word → Prop
  | here {a : Word} {n : Nat} : Scanned mem a (n + 1) a
  | next {a x : Word} {n : Nat} :
    hexDigit (mem a) ≠ none → Scanned mem (a + 1) n x → Scanned mem a (n + 1) x

/-- `x` is a byte of the string at `a`, or its terminator. -/
inductive InString (mem : Word → Byte) : Word → Word → Prop
  | here {a : Word} : InString mem a a
  | next {a x : Word} : mem a ≠ 0 → InString mem (a + 1) x → InString mem a x

variable {a x : Word} {l : List Byte}

theorem Compared.inString (h : Compared mem a l x) : InString mem a x := by
  induction h with
  | here => exact .here
  | next hb hne _ ih => exact .next (hb ▸ hne) ih

theorem reads_cpioStrncmp_cons (a : Word) (b : Byte) (rest : List Byte) :
    (cpioStrncmp a (b :: rest)).reads mem = a ::
      if mem a ≠ b then [] else if mem a = 0 then [] else (cpioStrncmp (a + 1) rest).reads mem := by
  rw [cpioStrncmp, Access.reads_bind, Access.reads_ite, Access.reads_ite]
  rfl

theorem result_cpioStrncmp_cons (a : Word) (b : Byte) (rest : List Byte) :
    (cpioStrncmp a (b :: rest)).result mem =
      if mem a ≠ b then false else if mem a = 0 then true
      else (cpioStrncmp (a + 1) rest).result mem := by
  rw [cpioStrncmp, Access.result_bind, Access.result_ite, Access.result_ite]
  rfl

theorem mem_reads_cpioStrncmp : x ∈ (cpioStrncmp a l).reads mem ↔ Compared mem a l x := by
  induction l generalizing a with
  | nil => exact ⟨fun h => (List.not_mem_nil h).elim, nofun⟩
  | cons b rest ih =>
    simp only [reads_cpioStrncmp_cons, List.mem_cons, List.mem_ite_nil_left, ne_eq, not_not, ih]
    constructor
    · rintro (rfl | ⟨hb, hne, h⟩)
      · exact .here
      · exact .next hb (hb ▸ hne) h
    · rintro (_ | ⟨hb, hne, h⟩)
      · exact .inl rfl
      · exact .inr ⟨hb, hb ▸ hne, h⟩

/-- A string without a zero before its last byte is compared as a whole. -/
theorem result_cpioStrncmp (hl : ∀ b ∈ l.dropLast, b ≠ 0) :
    (cpioStrncmp a l).result mem = true ↔ Agrees mem a l := by
  induction l generalizing a with
  | nil => exact ⟨fun _ => trivial, fun _ => rfl⟩
  | cons b rest ih =>
    rw [result_cpioStrncmp_cons, Agrees]
    by_cases hb : mem a = b
    · rw [if_neg (not_not.mpr hb)]
      cases rest with
      | nil => simp [hb, cpioStrncmp, Agrees]
      | cons c rest =>
        rw [List.dropLast_cons_cons, List.forall_mem_cons] at hl
        rw [if_neg (by rw [hb]; exact hl.1), ih hl.2]
        exact ⟨fun h => ⟨hb, h⟩, fun h => h.2⟩
    · simp [hb]

theorem mem_reads_parseHexStr {s r : Word} : x ∈ (parseHexStr s n r).reads mem ↔ Scanned mem s n x := by
  induction n generalizing s r with
  | zero => exact ⟨fun h => (List.not_mem_nil h).elim, nofun⟩
  | succ n ih =>
    simp only [parseHexStr, Access.reads_bind, Access.reads_read, Access.result_read,
      List.mem_append, List.mem_singleton]
    constructor
    · rintro (rfl | h)
      · exact .here
      · cases hd : hexDigit (mem s) with
        | none =>
          rw [hd] at h
          cases h
        | some d =>
          rw [hd] at h
          exact .next (by rw [hd]; exact nofun) (ih.mp h)
    · rintro (_ | ⟨hne, h⟩)
      · exact .inl rfl
      · right
        cases hd : hexDigit (mem s) with
        | none => exact absurd hd hne
        | some d => exact ih.mpr h

theorem reads_cpioStrlen_succ (s : Word) (rounds n : Nat) : (cpioStrlen s (rounds + 1) n).reads mem =
      s :: if mem s = 0 then [] else (cpioStrlen (s + 1) rounds (n + 1)).reads mem := by
  rw [cpioStrlen, Access.reads_bind, Access.reads_ite]
  rfl

theorem inString_of_mem_reads_cpioStrlen {s : Word}
    (h : x ∈ (cpioStrlen s rounds n).reads mem) : InString mem s x := by
  induction rounds generalizing s n with
  | zero => cases h
  | succ rounds ih =>
    rw [reads_cpioStrlen_succ, List.mem_cons] at h
    rcases h with rfl | h
    · exact .here
    · split_ifs at h with hzero
      · cases h
      · exact .next hzero (ih h)

/-- The file size that the header at `h` gives. -/
def fileSize (mem : Word → Byte) (h : Word) : Word := (parseHexStr (h + filesizeOffset) 8 0).result mem

/-- The length of the name, terminator included, that the header at `h` gives. -/
def nameSize (mem : Word → Byte) (h : Word) : Word := (parseHexStr (h + namesizeOffset) 8 0).result mem

/-- The last byte of the name. -/
def nameEnd (mem : Word → Byte) (h : Word) : Word := h + headerSize + nameSize mem h - 1

/-- What `cpio_parse_header` reports of an entry at `h`. -/
def infoAt (mem : Word → Byte) (h : Word) : HeaderInfo := headerInfo h (nameSize mem h) (fileSize mem h)

/-- There is a header at `h`, and its entry without padding is not longer than `len`. -/
structure HasHeader (mem : Word → Byte) (len h : Word) : Prop where
  magic : Agrees mem h headerMagic
  size : headerSize + nameSize mem h + fileSize mem h ≤ len

/-- The name of the header at `h` is that of the trailer. -/
def IsTrailer (mem : Word → Byte) (h : Word) : Prop :=
  11 ≤ nameSize mem h ∧ Agrees mem (h + headerSize) footerMagic

/-- `cpio_parse_header` accepts an entry at `h`. -/
structure IsEntry (mem : Word → Byte) (len h : Word) : Prop extends HasHeader mem len h where
  terminated : mem (nameEnd mem h) = 0
  not_trailer : ¬ IsTrailer mem h

/-- `x` is one of the bytes that `cpio_parse_header` looks at: the magic up to the first byte that
differs; then the two size fields up to the first character that is no digit; then the last byte of
the name; and, if that is a terminator, the name as far as it is that of the trailer. -/
inductive Inspects (mem : Word → Byte) (len h : Word) : Word → Prop
  | magic {x : Word} : Compared mem h headerMagic x → Inspects mem len h x
  | fileSize {x : Word} : Agrees mem h headerMagic → Scanned mem (h + filesizeOffset) 8 x →
    Inspects mem len h x
  | nameSize {x : Word} : Agrees mem h headerMagic → Scanned mem (h + namesizeOffset) 8 x →
    Inspects mem len h x
  | nameEnd : HasHeader mem len h → Inspects mem len h (nameEnd mem h)
  | trailer {x : Word} : HasHeader mem len h → mem (Cpio.nameEnd mem h) = 0 →
    11 ≤ Cpio.nameSize mem h → Compared mem (h + headerSize) footerMagic x → Inspects mem len h x

theorem result_cpioParseHeader (mem : Word → Byte) (h len : Word) : (cpioParseHeader h len).result mem =
      if len < headerSize then .invalid
      else if (cpioStrncmp h headerMagic).result mem = false then .invalid
      else if len < headerSize + nameSize mem h + fileSize mem h then .invalid
      else if mem (nameEnd mem h) ≠ 0 then .invalid else if 11 ≤ nameSize mem h then
        if (cpioStrncmp (h + headerSize) footerMagic).result mem = true then .eof
        else .entry (infoAt mem h) else .entry (infoAt mem h) := by
  unfold cpioParseHeader
  simp only [Access.result_bind, Access.result_ite, Access.result_pure]
  rfl

theorem reads_cpioParseHeader (mem : Word → Byte) (h len : Word) : (cpioParseHeader h len).reads mem =
      if len < headerSize then [] else (cpioStrncmp h headerMagic).reads mem ++
        if (cpioStrncmp h headerMagic).result mem = false then []
        else (parseHexStr (h + filesizeOffset) 8 0).reads mem ++
          ((parseHexStr (h + namesizeOffset) 8 0).reads mem ++
            if len < headerSize + nameSize mem h + fileSize mem h then [] else nameEnd mem h ::
              if mem (nameEnd mem h) ≠ 0 then [] else if 11 ≤ nameSize mem h then
                (cpioStrncmp (h + headerSize) footerMagic).reads mem else []) := by
  unfold cpioParseHeader
  simp only [Access.reads_bind, Access.reads_ite, Access.reads_pure, Access.reads_read,
    List.append_nil, ite_self]
  rfl

theorem result_headerMagic (mem : Word → Byte) (h : Word) :
    (cpioStrncmp h headerMagic).result mem = true ↔ Agrees mem h headerMagic :=
  result_cpioStrncmp (by decide)

theorem result_footerMagic (mem : Word → Byte) (h : Word) :
    (cpioStrncmp h footerMagic).result mem = true ↔ Agrees mem h footerMagic :=
  result_cpioStrncmp (by decide)

variable {h : Word}

theorem parseHeader_of_lt (hlen : len < headerSize) :
    (cpioParseHeader h len).result mem = .invalid ∧ (cpioParseHeader h len).reads mem = [] := by
  rw [result_cpioParseHeader, reads_cpioParseHeader, if_pos hlen, if_pos hlen]
  exact ⟨rfl, rfl⟩

theorem magic_result (hmagic : Agrees mem h headerMagic) :
    ¬ (cpioStrncmp h headerMagic).result mem = false := by
  rw [(result_headerMagic mem h).mpr hmagic]
  exact Bool.noConfusion

/-- The bytes that `cpio_parse_header` looks at. -/
theorem mem_reads_parseHeader (hlen : headerSize ≤ len) :
    x ∈ (cpioParseHeader h len).reads mem ↔ Inspects mem len h x := by
  simp only [reads_cpioParseHeader, if_neg (BitVec.not_lt.mpr hlen), List.mem_append, List.mem_cons,
    List.mem_ite_nil_left, List.mem_ite_nil_right, mem_reads_cpioStrncmp, mem_reads_parseHexStr,
    Bool.not_eq_false, result_headerMagic, BitVec.not_lt, ne_eq, not_not]
  constructor
  · rintro (hx | ⟨hmagic, hx | hx | ⟨hsize, rfl | ⟨hend, hname, hx⟩⟩⟩)
    · exact .magic hx
    · exact .fileSize hmagic hx
    · exact .nameSize hmagic hx
    · exact .nameEnd ⟨hmagic, hsize⟩
    · exact .trailer ⟨hmagic, hsize⟩ hend hname hx
  · rintro (hx | ⟨hmagic, hx⟩ | ⟨hmagic, hx⟩ | ⟨hmagic, hsize⟩ | ⟨⟨hmagic, hsize⟩, hend, hname, hx⟩)
    · exact .inl hx
    · exact .inr ⟨hmagic, .inl hx⟩
    · exact .inr ⟨hmagic, .inr (.inl hx)⟩
    · exact .inr ⟨hmagic, .inr (.inr ⟨hsize, .inl rfl⟩)⟩
    · exact .inr ⟨hmagic, .inr (.inr ⟨hsize, .inr ⟨hend, hname, hx⟩⟩)⟩

/-- When `cpio_parse_header` reports an entry, and which. -/
theorem parseHeader_eq_entry {info : HeaderInfo} (hlen : headerSize ≤ len) :
    (cpioParseHeader h len).result mem = .entry info ↔ IsEntry mem len h ∧ info = infoAt mem h := by
  rw [result_cpioParseHeader, if_neg (BitVec.not_lt.mpr hlen)]
  constructor
  · intro hres
    split_ifs at hres with hm hsize hend hname hfooter
    all_goals have hheader : HasHeader mem len h :=
      ⟨(result_headerMagic mem h).mp (Bool.eq_true_of_not_eq_false hm), BitVec.not_lt.mp hsize⟩
    · cases hres
      refine ⟨⟨hheader, not_not.mp hend, fun htrailer => hfooter ?_⟩, rfl⟩
      exact (result_footerMagic mem _).mpr htrailer.2
    · cases hres
      exact ⟨⟨hheader, not_not.mp hend, fun htrailer => hname htrailer.1⟩, rfl⟩
  · rintro ⟨hentry, rfl⟩
    rw [if_neg (magic_result hentry.magic), if_neg (BitVec.not_lt.mpr hentry.size),
      if_neg (not_not.mpr hentry.terminated)]
    split_ifs with hname hfooter
    · exact absurd ⟨hname, (result_footerMagic mem _).mp hfooter⟩ hentry.not_trailer
    · rfl
    · rfl

/-! ## The walks -/

/-- `x` is one of the first `len` bytes of the archive. -/
def Inside (archive len x : Word) : Prop := x - archive < len

/-- The header, the name and the data of what a walk reports lie in the archive. -/
structure Reported (mem : Word → Byte) (archive len : Word) (info : HeaderInfo) : Prop where
  header : ∀ i < headerSize.toNat, Inside archive len (info.filename - headerSize + BitVec.ofNat 64 i)
  name : ∀ x, InString mem info.filename x → Inside archive len x
  data : ∀ i < info.filesize.toNat, Inside archive len (info.data + BitVec.ofNat 64 i)

/-- `cpio_get_entry(archive, len, n, ..)` looks at and reports nothing outside. -/
def EntrySafe (mem : Word → Byte) (archive len : Word) (n : Int) : Prop :=
  ∀ uninit, (∀ x ∈ (cpioGetEntry archive len n uninit).reads mem, Inside archive len x) ∧
    ∀ info ∈ (cpioGetEntry archive len n uninit).result mem, Reported mem archive len info

/-- `cpio_get_file(archive, len, name, ..)` looks at and reports nothing outside. -/
def FileSafe (mem : Word → Byte) (archive len : Word) (name : List Byte) : Prop :=
  ∀ rounds, (∀ x ∈ (cpioGetFile name rounds archive len).reads mem, Inside archive len x) ∧
    ∀ found ∈ (cpioGetFile name rounds archive len).result mem, ∀ info ∈ found,
      Reported mem archive len info

/-- `cpio_info(archive, len, ..)` looks at nothing outside. -/
def InfoSafe (mem : Word → Byte) (archive len : Word) : Prop :=
  ∀ rounds, ∀ x ∈ (cpioInfo rounds archive len ⟨0, 0⟩).reads mem, Inside archive len x

/-- The headers a walk comes to: the first one, and the one after each entry that, with its
padding, is not longer than the archive. -/
inductive Chain (mem : Word → Byte) (archive len : Word) : Word → Prop
  | start : Chain mem archive len archive
  | next {h : Word} : Chain mem archive len h → IsEntry mem len h →
    (infoAt mem h).next - h ≤ len → Chain mem archive len (infoAt mem h).next

/-- **The archive is sound**: at every header a walk comes to, what is looked at lies inside, and
so do the header, the name and the data of an entry. -/
structure Fits (mem : Word → Byte) (archive len : Word) : Prop where
  inspects : headerSize ≤ len → ∀ h, Chain mem archive len h → ∀ x, Inspects mem len h x →
    Inside archive len x
  reports : headerSize ≤ len → ∀ h, Chain mem archive len h → IsEntry mem len h →
    Reported mem archive len (infoAt mem h)

section Walks

variable {archive : Word}

/-- Where a walk is: at a header of the chain with the length of the archive, or with too short a
length to go on. -/
def AtHeader (mem : Word → Byte) (archive len h rest : Word) : Prop :=
  rest = len ∧ Chain mem archive len h ∨ rest < headerSize

variable {rest : Word}

section

variable (hfits : Fits mem archive len) (hat : AtHeader mem archive len h rest)
include hfits hat

/-- **One header of a walk**: nothing outside is looked at, an entry lies inside, and the walk is at
the next header. -/
theorem Fits.step : Access.Safe mem (Inside archive len) (fun parsed => ∀ info, parsed = .entry info →
      Reported mem archive len info ∧
        AtHeader mem archive len info.next (cpioLenNext rest h info.next)) (cpioParseHeader h rest) := by
  by_cases hlen : rest < headerSize
  · obtain ⟨hres, hreads⟩ := parseHeader_of_lt hlen
    rw [Access.Safe, hres, hreads]
    exact ⟨fun x hx => absurd hx List.not_mem_nil, nofun⟩
  obtain ⟨rfl, hchain⟩ := hat.resolve_right hlen
  have hle : headerSize ≤ rest := BitVec.not_lt.mp hlen
  refine ⟨fun x hx => hfits.inspects hle h hchain x ((mem_reads_parseHeader hle).mp hx), ?_⟩
  intro info hinfo
  obtain ⟨hentry, rfl⟩ := (parseHeader_eq_entry hle).mp hinfo
  refine ⟨hfits.reports hle h hchain hentry, ?_⟩
  unfold cpioLenNext
  split_ifs with hnext
  · exact .inr (by decide)
  · exact .inl ⟨rfl, hchain.next hentry (BitVec.not_lt.mp hnext)⟩

theorem Fits.getEntryLoop : Access.Safe mem (Inside archive len)
    (fun found => ∀ info ∈ found, Reported mem archive len info) (getEntryLoop n h rest) := by
  induction n generalizing h rest with
  | zero =>
    rw [getEntryLoop]
    refine (hfits.step hat).bind fun parsed hp => ?_
    cases parsed with
    | entry info => exact .pure fun _ hi => Option.mem_some.mp hi ▸ (hp info rfl).1
    | _ => exact .pure nofun
  | succ n ih =>
    rw [getEntryLoop]
    refine (hfits.step hat).bind fun parsed hp => ?_
    cases parsed with
    | entry info => exact ih (hp info rfl).2
    | _ => exact .pure nofun

theorem Fits.cpioGetFile {name : List Byte} : Access.Safe mem (Inside archive len)
    (fun res => ∀ found ∈ res, ∀ info ∈ found, Reported mem archive len info)
    (cpioGetFile name rounds h rest) := by
  induction rounds generalizing h rest with
  | zero => exact .pure nofun
  | succ rounds ih =>
    refine (hfits.step hat).bind fun parsed hp => ?_
    cases parsed with
    | entry info =>
      obtain ⟨hreported, hnext⟩ := hp info rfl
      have hcmp : Access.Safe mem (Inside archive len) (fun _ => True)
          (cpioStrncmp info.filename (name ++ [0])) :=
        ⟨fun x hx => hreported.name x (mem_reads_cpioStrncmp.mp hx).inString, trivial⟩
      refine hcmp.bind fun found _ => ?_
      split_ifs
      · refine .pure fun _ hf _ hi => ?_
        cases hf
        cases hi
        exact hreported
      · exact ih hnext
    | _ => exact .pure (by simp)

theorem Fits.cpioInfo {info : CpioInfo} :
    Access.Safe mem (Inside archive len) (fun _ => True) (cpioInfo rounds h rest info) := by
  induction rounds generalizing h rest info with
  | zero => exact .pure trivial
  | succ rounds ih =>
    refine (hfits.step hat).bind fun parsed hp => ?_
    cases parsed with
    | entry entry =>
      obtain ⟨hreported, hnext⟩ := hp entry rfl
      have hlen : Access.Safe mem (Inside archive len) (fun _ => True)
          (cpioStrlen entry.filename (rounds + 1) 0) :=
        ⟨fun x hx => hreported.name x (inString_of_mem_reads_cpioStrlen hx), trivial⟩
      refine hlen.bind fun pathSz _ => ?_
      cases pathSz with
      | none => exact .pure trivial
      | some n => exact ih hnext
    | _ => exact .pure trivial

end

/-- At an entry that is not the one asked for, `cpio_get_entry` goes on to the next header. -/
theorem getEntryLoop_succ {info : HeaderInfo} (n : Nat)
    (hp : (cpioParseHeader h rest).result mem = .entry info) :
    (getEntryLoop (n + 1) h rest).reads mem = (cpioParseHeader h rest).reads mem ++
        (getEntryLoop n info.next (cpioLenNext rest h info.next)).reads mem ∧
      (getEntryLoop (n + 1) h rest).result mem =
        (getEntryLoop n info.next (cpioLenNext rest h info.next)).result mem := by
  rw [getEntryLoop, Access.reads_bind, Access.result_bind, hp]
  exact ⟨rfl, rfl⟩

/-- A long enough index takes `cpio_get_entry` to every header of the chain. -/
theorem Chain.reached (hlen : headerSize ≤ len) (hchain : Chain mem archive len h) :
    ∃ k, ∀ n, (∀ x ∈ (getEntryLoop n h len).reads mem,
        x ∈ (getEntryLoop (k + n) archive len).reads mem) ∧
      (getEntryLoop (k + n) archive len).result mem = (getEntryLoop n h len).result mem := by
  induction hchain with
  | start =>
    refine ⟨0, fun n => ?_⟩
    rw [Nat.zero_add]
    exact ⟨fun x hx => hx, rfl⟩
  | @next h _ hentry hnext ih =>
    obtain ⟨k, hk⟩ := ih
    have hrest : cpioLenNext len h (infoAt mem h).next = len := if_neg (BitVec.not_lt.mpr hnext)
    refine ⟨k + 1, fun n => ?_⟩
    obtain ⟨hsucc, hsucc'⟩ := getEntryLoop_succ n ((parseHeader_eq_entry hlen).mpr ⟨hentry, rfl⟩)
    rw [hrest] at hsucc hsucc'
    obtain ⟨hreads, hresult⟩ := hk (n + 1)
    rw [hsucc] at hreads
    rw [hsucc'] at hresult
    rw [Nat.add_assoc, Nat.add_comm 1 n]
    exact ⟨fun x hx => hreads x (List.mem_append_right _ hx), hresult⟩

/-- What `cpio_get_entry` with index 0 looks at and returns at a header. -/
theorem getEntryLoop_zero : (getEntryLoop 0 h rest).reads mem = (cpioParseHeader h rest).reads mem ∧
      ∀ info, (cpioParseHeader h rest).result mem = .entry info →
        (getEntryLoop 0 h rest).result mem = some info := by
  rw [getEntryLoop, Access.reads_bind, Access.result_bind]
  cases (cpioParseHeader h rest).result mem with
  | invalid => exact ⟨List.append_nil _, nofun⟩
  | eof => exact ⟨List.append_nil _, nofun⟩
  | entry info => exact ⟨List.append_nil _, fun info' h => by cases h; rfl⟩

theorem fits_of_entrySafe (h : ∀ n : Nat, EntrySafe mem archive len n) : Fits mem archive len := by
  have hget : ∀ n, (∀ x ∈ (getEntryLoop n archive len).reads mem, Inside archive len x) ∧
      ∀ info ∈ (getEntryLoop n archive len).result mem, Reported mem archive len info :=
    fun n => h n ⟨0, 0, 0, 0⟩
  refine ⟨fun hlen a hchain x hx => ?_, fun hlen a hchain hentry => ?_⟩
  · obtain ⟨k, hk⟩ := hchain.reached hlen
    refine (hget (k + 0)).1 x ((hk 0).1 x ?_)
    rw [getEntryLoop_zero.1]
    exact (mem_reads_parseHeader hlen).mpr hx
  · obtain ⟨k, hk⟩ := hchain.reached hlen
    refine (hget (k + 0)).2 _ ?_
    rw [(hk 0).2]
    exact getEntryLoop_zero.2 _ ((parseHeader_eq_entry hlen).mpr ⟨hentry, rfl⟩)

/-- With a negative index `cpio_get_entry` reports what is on the stack. -/
theorem not_entrySafe_of_neg {n : Int} (hn : n < 0) : ¬ EntrySafe mem archive len n := by
  intro hsafe
  obtain ⟨k, rfl⟩ := Int.eq_negSucc_of_lt_zero hn
  -- a file of one byte right before the archive
  have hreported := (hsafe ⟨0, 1, archive - 1, 0⟩).2 _ rfl
  have hinside : archive - 1 + BitVec.ofNat 64 0 - archive < len := hreported.data 0 (Nat.zero_lt_one)
  bv_omega

end Walks

/-- A header whose fields are zero but for the size of the name, and what follows it. -/
def sampleHeader (nameSize : List Byte) (rest : List Byte) : List Byte :=
  headerMagic ++ List.replicate 88 0x30 ++ nameSize ++ List.replicate 8 0x30 ++ rest

/-- The bytes at address 4096, and zeros everywhere else. -/
def sampleMem (bytes : List Byte) (x : Word) : Byte := bytes.getD (x - 4096).toNat 0

/-- The trailer alone. -/
def trailerArchive : List Byte :=
  sampleHeader [0x30, 0x30, 0x30, 0x30, 0x30, 0x30, 0x30, 0x42] footerMagic

/-- One file with the name `a` and no contents, and no trailer. -/
def oneFileArchive : List Byte := sampleHeader [0x30, 0x30, 0x30, 0x30, 0x30, 0x30, 0x30, 0x32] [0x61, 0]

theorem trailerArchive_fits : Fits (sampleMem trailerArchive) 4096 121 := by
  have hlen : headerSize ≤ 121 := by decide
  have hparse : (cpioParseHeader 4096 121).result (sampleMem trailerArchive) = .eof := by
    decide +kernel
  have hentry : ¬ IsEntry (sampleMem trailerArchive) 121 4096 := by
    intro hentry
    rw [(parseHeader_eq_entry hlen).mpr ⟨hentry, rfl⟩] at hparse
    cases hparse
  have hchain : ∀ h, Chain (sampleMem trailerArchive) 4096 121 h → h = 4096 := by
    intro h hchain
    induction hchain with
    | start => rfl
    | next _ hnext _ ih => exact absurd (ih ▸ hnext) hentry
  have hreads : ∀ x ∈ (cpioParseHeader 4096 121).reads (sampleMem trailerArchive),
      x - 4096 < (121 : Word) := by
    have hall : ((cpioParseHeader 4096 121).reads (sampleMem trailerArchive)).all
        (fun x => x - 4096 < (121 : Word)) = true := by
      decide +kernel
    simpa using hall
  refine ⟨fun _ h hh x hx => ?_, fun _ h hh hx => ?_⟩
  · obtain rfl := hchain h hh
    exact hreads x ((mem_reads_parseHeader hlen).mpr hx)
  · obtain rfl := hchain h hh
    exact absurd hx hentry

end SeL4.Cpio
