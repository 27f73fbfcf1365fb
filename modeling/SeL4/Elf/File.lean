import SeL4.Lib.Word

/-!
# The ELF reader

Model of `elf.c`, `elf64.c` and `elf64.h` of `libelf` for 64-bit files: `elf_newFile`, the accessors of
sections and segments, and `elf_loadFile`.

* A file is its bytes by offset, and its size. A pointer into the file is an offset, which wraps as
  `size_t` does; what is read from `elfSize` on is whatever follows the file in memory.
* `elf_checkFile` tries `elf32_checkFile` first, which refuses every file of class `ELFCLASS64`. The 32-bit
  branches are left out, and so are the fields that none of these functions reads.

Two functions do not test what the others do. `elf_getSectionName` lets pass the offset that is the size
of the string table, where the table has no byte left; `elf_loadFile` copies a segment without the test of
`elf_getProgramSegment`.

Results: `elf_inside_iff` says for which files nothing else can happen, and
`elf_name_and_segment_outside` has a file for which both do.
-/

namespace SeL4.Elf

open SeL4.Lib

/-- `elf_t`, of class `ELFCLASS64`. -/
structure ElfFile where
  byte : Word → BitVec 8
  elfSize : Word

/-- What `elf_getSectionName` returns: `"<corrupted>"`, or a pointer into the file. -/
inductive SectionName
  | corrupted
  | at (off : Word)
  deriving DecidableEq, Repr

/-- What `elf_loadFile` does for one segment: a `memcpy` and a `memset` behind it. -/
structure SegmentCopy where
  dest : Word
  src : Word
  len : Word
  zeros : Word
  deriving DecidableEq, Repr

namespace ElfFile

variable (e : ElfFile)

/-- The number in the `n` bytes at an offset, with the lowest byte first. -/
def read : Nat → Word → Word
  | 0, _ => 0
  | n + 1, off => (e.byte off).setWidth 64 + 256 * read n (off + 1)

/-! ## The header -/

/-- `e_phoff`. -/
def phoff : Word := e.read 8 32

/-- `e_shoff`. -/
def shoff : Word := e.read 8 40

/-- `elf64_getNumProgramHeaders`. -/
def phnum : Word := e.read 2 56

/-- `elf64_getNumSections`. -/
def shnum : Word := e.read 2 60

/-- `elf64_getSectionStringTableIndex`. -/
def shstrndx : Word := e.read 2 62

/-- `elf_check_magic`. -/
def checkMagic : Bool := [e.byte 0, e.byte 1, e.byte 2, e.byte 3] = [0x7f, 0x45, 0x4c, 0x46]

/-- `elf64_checkFile`: the size of `Elf64_Ehdr`, the magic, `ELFCLASS64`, and `e_phentsize`, `e_shentsize`
and `e_shstrndx`. -/
def elf64CheckFile : Bool :=
  ¬ e.elfSize < 64 ∧ e.checkMagic ∧ e.byte 4 = 2 ∧ e.read 2 54 = 56 ∧ e.read 2 58 = 64 ∧
    ¬ e.shstrndx ≥ e.shnum

/-- `elf64_checkProgramHeaderTable` and `elf64_checkSectionTable`. -/
def checkTable (off entsize num : Word) : Bool :=
  ¬ (e.elfSize < off + entsize * num ∨ off + entsize * num < off)

def elfNewFile : Bool :=
  e.elf64CheckFile ∧ e.checkTable e.phoff (e.read 2 54) e.phnum ∧
    e.checkTable e.shoff (e.read 2 58) e.shnum

/-! ## Sections -/

/-- `elf64_getSectionTable(elf)[i]`. -/
def sectionHeader (i : Word) : Word := e.shoff + 64 * i

/-- `elf_getSectionNameOffset`. -/
def sectionNameOffset (i : Word) : Word := e.read 4 (e.sectionHeader i)

/-- `elf_getSectionType`. -/
def sectionType (i : Word) : Word := e.read 4 (e.sectionHeader i + 4)

/-- `elf_getSectionOffset`. -/
def sectionOffset (i : Word) : Word := e.read 8 (e.sectionHeader i + 24)

/-- `elf_getSectionSize`. -/
def sectionSize (i : Word) : Word := e.read 8 (e.sectionHeader i + 32)

/-- `elf_getSection`. -/
def getSection (i : Word) : Option Word :=
  let sectionEnd := e.sectionOffset i + e.sectionSize i
  if i = 0 ∨ i ≥ e.shnum then none
  else if e.sectionSize i = 0 then none
  else if sectionEnd > e.elfSize ∨ sectionEnd < e.sectionOffset i then none
  else some (e.sectionOffset i)

/-- `elf_getStringTable`; 3 is `SHT_STRTAB`. -/
def getStringTable (i : Word) : Option Word :=
  (e.getSection i).bind fun table =>
    if e.sectionType i ≠ 3 then none
    else if e.byte (table + (e.sectionSize i - 1)) ≠ 0 then none
    else some table

/-- `elf_getSectionName`. -/
def getSectionName (i : Word) : SectionName :=
  match e.getStringTable e.shstrndx with
  | none => .corrupted
  | some table =>
    if e.sectionNameOffset i > e.sectionSize e.shstrndx then .corrupted
    else .at (table + e.sectionNameOffset i)

/-- The names of all sections, which `elf_getSectionNamed` compares one after the other. -/
def sectionNames : List SectionName :=
  (List.range e.shnum.toNat).map fun i => e.getSectionName (BitVec.ofNat 64 i)

/-- Byte `k` of a name. -/
def nameByte (k : Nat) : SectionName → BitVec 8
  | .corrupted => [0x3c, 0x63, 0x6f, 0x72, 0x72, 0x75, 0x70, 0x74, 0x65, 0x64, 0x3e].getD k 0
  | .at off => e.byte (off + BitVec.ofNat 64 k)

/-- `elf_getSectionNamed`, for a string of the given bytes without the terminator. -/
def getSectionNamed (str : List (BitVec 8)) : Option (Nat × Option Word) :=
  let equal (name : SectionName) := (str ++ [0]).zipIdx.all fun (b, k) => e.nameByte k name = b
  (e.sectionNames.findIdx? equal).map fun i => (i, e.getSection (BitVec.ofNat 64 i))

/-! ## Segments -/

/-- `elf64_getProgramHeaderTable(elf)[ph]`. -/
def programHeader (ph : Word) : Word := e.phoff + 56 * ph

/-- `elf_getProgramHeaderOffset`. -/
def programHeaderOffset (ph : Word) : Word := e.read 8 (e.programHeader ph + 8)

/-- `elf_getProgramHeaderVaddr`. -/
def programHeaderVaddr (ph : Word) : Word := e.read 8 (e.programHeader ph + 16)

/-- `elf_getProgramHeaderPaddr`. -/
def programHeaderPaddr (ph : Word) : Word := e.read 8 (e.programHeader ph + 24)

/-- `elf_getProgramHeaderFileSize`. -/
def programHeaderFileSize (ph : Word) : Word := e.read 8 (e.programHeader ph + 32)

/-- `elf_getProgramHeaderMemorySize`. -/
def programHeaderMemorySize (ph : Word) : Word := e.read 8 (e.programHeader ph + 40)

/-- `elf_getProgramSegment`. -/
def getProgramSegment (ph : Word) : Option Word :=
  let segmentEnd := e.programHeaderOffset ph + e.programHeaderFileSize ph
  if e.elfSize < segmentEnd ∨ segmentEnd < e.programHeaderOffset ph then none
  else some (e.programHeaderOffset ph)

/-- One round of `elf_loadFile`. -/
def loadSegment (physical : Bool) (ph : Word) : SegmentCopy :=
  { dest := if physical then e.programHeaderPaddr ph else e.programHeaderVaddr ph
    src := e.programHeaderOffset ph
    len := e.programHeaderFileSize ph
    zeros := e.programHeaderMemorySize ph - e.programHeaderFileSize ph }

/-- `elf_loadFile`. -/
def loadFile (physical : Bool) : List SegmentCopy :=
  (List.range e.phnum.toNat).map fun i => e.loadSegment physical (BitVec.ofNat 64 i)

/-! ## Inside the file -/

/-- The `len` bytes at `off` are bytes of the file. -/
def Within (off len : Word) : Prop := off.toNat + len.toNat ≤ e.elfSize.toNat

/-- There is a string at `off` that ends inside the file. -/
def StringWithin (off : Word) : Prop :=
  ∃ k, off.toNat + k < e.elfSize.toNat ∧ e.byte (off + BitVec.ofNat 64 k) = 0

/-- What is found by the accessors, compared or copied lies in the file. -/
structure Inside : Prop where
  headers : e.Within e.phoff (56 * e.phnum) ∧ e.Within e.shoff (64 * e.shnum)
  sections : ∀ i < e.shnum, ∀ p, e.getSection i = some p → e.Within p (e.sectionSize i)
  table : ∀ i < e.shnum, ∀ p, e.getStringTable i = some p → e.Within p (e.sectionSize i)
  segment : ∀ ph < e.phnum, ∀ p, e.getProgramSegment ph = some p →
    e.Within p (e.programHeaderFileSize ph)
  name : ∀ off, .at off ∈ e.sectionNames → e.StringWithin off
  copy : ∀ physical, ∀ c ∈ e.loadFile physical, ∀ k < c.len.toNat, c.src + BitVec.ofNat 64 k < e.elfSize

/-- A section whose name is at the very end of the string table has a name there that ends in the file, and
a segment that is not empty is one of the file. -/
structure Careful : Prop where
  name : ∀ i < e.shnum, ∀ table, e.getStringTable e.shstrndx = some table →
    e.sectionNameOffset i = e.sectionSize e.shstrndx → e.StringWithin (table + e.sectionNameOffset i)
  segment : ∀ ph < e.phnum, e.programHeaderFileSize ph = 0 ∨
    e.Within (e.programHeaderOffset ph) (e.programHeaderFileSize ph)

variable {e} {i off len table : Word}

/-- The test that all but `elf_loadFile` make, with the sum that may wrap. -/
theorem within_of_test (h : ¬ (e.elfSize < off + len ∨ off + len < off)) : e.Within off len := by
  unfold Within
  bv_omega

theorem getSection_within (h : e.getSection i = some off) :
    e.Within off (e.sectionSize i) ∧ e.sectionSize i ≠ 0 := by
  unfold getSection at h
  dsimp only at h
  split_ifs at h with hi hempty htest
  obtain rfl := Option.some.inj h
  exact ⟨within_of_test htest, hempty⟩

theorem getStringTable_spec (h : e.getStringTable i = some table) :
    e.getSection i = some table ∧ e.byte (table + (e.sectionSize i - 1)) = 0 := by
  obtain ⟨off, hsection, h⟩ := Option.bind_eq_some_iff.mp h
  split_ifs at h with htype hlast
  cases h
  exact ⟨hsection, not_not.mp hlast⟩

/-- An offset inside the string table is followed by the terminator of the table. -/
theorem string_of_lt (h : e.getStringTable i = some table) (hoff : off < e.sectionSize i) :
    e.StringWithin (table + off) := by
  obtain ⟨hsection, hlast⟩ := getStringTable_spec h
  obtain ⟨hwithin, -⟩ := getSection_within hsection
  unfold Within at hwithin
  refine ⟨(e.sectionSize i).toNat - 1 - off.toNat, by bv_omega, ?_⟩
  have hpos : table + off + .ofNat 64 ((e.sectionSize i).toNat - 1 - off.toNat) =
      table + (e.sectionSize i - 1) := by bv_omega
  rw [hpos, hlast]

theorem name_within_iff : (∀ off, e.getSectionName i = .at off → e.StringWithin off) ↔
      ∀ table, e.getStringTable e.shstrndx = some table →
        e.sectionNameOffset i = e.sectionSize e.shstrndx →
        e.StringWithin (table + e.sectionNameOffset i) := by
  unfold getSectionName
  cases htable : e.getStringTable e.shstrndx with
  | none => simp
  | some table =>
    rcases BitVec.lt_trichotomy (e.sectionNameOffset i) (e.sectionSize e.shstrndx) with hlt | heq | hgt
    · simpa [BitVec.not_lt.mpr (BitVec.le_of_lt hlt), BitVec.ne_of_lt hlt] using string_of_lt htable hlt
    · simp [heq]
    · simp [hgt, (BitVec.ne_of_lt hgt).symm]

/-- Every byte of a copy is one of the file exactly if the copy is empty or lies in the file: behind the
last word the source would wrap, and that is no byte of a file. -/
theorem copy_within_iff : (∀ k < len.toNat, off + BitVec.ofNat 64 k < e.elfSize) ↔
    len = 0 ∨ e.Within off len := by
  unfold Within
  constructor
  · intro h
    by_cases hlen : len = 0
    · exact .inl hlen
    · have hlast := h (len.toNat - 1) (by bv_omega)
      have htop := h (2 ^ 64 - 1 - off.toNat)
      right
      bv_omega
  · rintro (rfl | h) k hk
    · exact absurd hk (Nat.not_lt_zero k)
    · bv_omega

theorem forall_lt_iff {n : Word} {p : Word → Prop} :
    (∀ k < n.toNat, p (BitVec.ofNat 64 k)) ↔ ∀ i < n, p i := by
  refine ⟨fun h i hi => ?_, fun h k hk => h _ ?_⟩
  · simpa using h i.toNat hi
  · bv_omega

/-- **For which files `libelf` stays inside**: for an accepted file, everything that the accessors find,
compare or copy lies in the file exactly if `Careful` holds. -/
theorem elf_inside_iff (h : e.elfNewFile = true) : e.Inside ↔ e.Careful := by
  have hnames : (∀ off, .at off ∈ e.sectionNames → e.StringWithin off) ↔
      ∀ i < e.shnum, ∀ off, e.getSectionName i = .at off → e.StringWithin off := by
    rw [← forall_lt_iff]
    simp only [sectionNames, List.mem_map, List.mem_range]
    exact ⟨fun h k hk off hoff => h off ⟨k, hk, hoff⟩, fun h off ⟨k, hk, hoff⟩ => h k hk off hoff⟩
  have hcopies : (∀ physical, ∀ c ∈ e.loadFile physical, ∀ k < c.len.toNat,
      c.src + .ofNat 64 k < e.elfSize) ↔ ∀ ph < e.phnum, e.programHeaderFileSize ph = 0 ∨
        e.Within (e.programHeaderOffset ph) (e.programHeaderFileSize ph) := by
    simp only [loadFile, List.forall_mem_map, List.mem_range, loadSegment, copy_within_iff]
    rw [forall_const]
    exact forall_lt_iff (p := fun ph => e.programHeaderFileSize ph = 0 ∨
      e.Within (e.programHeaderOffset ph) (e.programHeaderFileSize ph))
  constructor
  · intro hi
    exact ⟨fun i hlt => name_within_iff.mp (hnames.mp hi.name i hlt), hcopies.mp hi.copy⟩
  · intro hc
    simp only [elfNewFile, elf64CheckFile, checkTable, decide_eq_true_eq] at h
    obtain ⟨⟨-, -, -, hph, hsh, -⟩, hphdr, hshdr⟩ := h
    rw [hph] at hphdr
    rw [hsh] at hshdr
    refine ⟨⟨within_of_test hphdr, within_of_test hshdr⟩, fun i _ p hp => (getSection_within hp).1,
      fun i _ p hp => (getSection_within (getStringTable_spec hp).1).1, fun ph _ p hp => ?_,
      hnames.mpr fun i hi => name_within_iff.mpr (hc.name i hi), hcopies.mpr hc.segment⟩
    unfold getProgramSegment at hp
    dsimp only at hp
    split_ifs at hp with htest
    obtain rfl := Option.some.inj hp
    exact within_of_test htest

/-! ## Two files -/

/-- A file of 249 bytes with one segment, of `256 * filesz` bytes from the start of the file on, and two
sections. The name of the first is at `name` of the string table, which is the last byte of the file. -/
def sampleFile (name filesz : BitVec 8) : ElfFile :=
  ⟨fun x => ([(0, 0x7f), (1, 0x45), (2, 0x4c), (3, 0x46), (4, 2), (32, 64), (40, 120), (54, 56), (56, 1),
    (58, 64), (60, 2), (62, 1), (97, filesz), (120, name), (188, 3), (208, 248), (216, 1)].lookup x).getD 0,
    249⟩

theorem sampleFile_careful : (sampleFile 0 0).Careful := by
  have hname : ∀ i < (sampleFile 0 0).shnum, (sampleFile 0 0).sectionNameOffset i ≠
      (sampleFile 0 0).sectionSize (sampleFile 0 0).shstrndx := forall_lt_iff.mp (by decide +kernel)
  have hsegment : ∀ ph < (sampleFile 0 0).phnum, (sampleFile 0 0).programHeaderFileSize ph = 0 :=
    forall_lt_iff.mp (by decide +kernel)
  exact ⟨fun i hi table _ he => absurd he (hname i hi), fun ph hph => .inl (hsegment ph hph)⟩

theorem sampleFile_inside : (sampleFile 0 0).elfNewFile = true ∧ (sampleFile 0 0).Inside :=
  ⟨by decide +kernel, (elf_inside_iff (by decide +kernel)).mpr sampleFile_careful⟩

/-- **Both tests are missed by one file**: its first section has a name at offset 249, where it ends, and
256 bytes of it are copied. -/
theorem elf_name_and_segment_outside :
    (sampleFile 1 1).elfNewFile = true ∧ (sampleFile 1 1).elfSize = 249 ∧
      .at 249 ∈ (sampleFile 1 1).sectionNames ∧ ⟨0, 0, 256, 0 - 256⟩ ∈ (sampleFile 1 1).loadFile true ∧
      ¬ (sampleFile 1 1).Inside := by
  have hname : .at 249 ∈ (sampleFile 1 1).sectionNames := by decide +kernel
  refine ⟨by decide +kernel, rfl, hname, by decide +kernel, fun hinside => ?_⟩
  obtain ⟨k, hk, -⟩ := hinside.name 249 hname
  exact absurd hk (Nat.not_lt_of_le (Nat.le_add_right 249 k))

end ElfFile

end SeL4.Elf
