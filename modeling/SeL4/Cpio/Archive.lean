import SeL4.Lib.Access
import SeL4.Lib.Word

/-!
# The CPIO reader

Model of `cpio.c` of `libcpio`: `align_up`, `parse_hex_str`, `cpio_strncmp`, `cpio_strlen`,
`cpio_len_next`, `cpio_parse_header` and the three walks over an archive, `cpio_get_entry`,
`cpio_get_file` and `cpio_info`.

An archive is an address and a length in a memory of bytes; addresses are words and wrap as
`unsigned long` does. Every byte that is looked at is noted (`Access`).

* `cpio_strncmp` is only ever tested against 0, so the model returns whether the strings agree. Its
  second argument and its bound are one list: the first `n` bytes of the string.
* `cpio_parse_header` returns -1, 1 or 0, which are the three cases of `Parsed`.
* The `while (1)` loops and `cpio_strlen` have no bound, as past the end of the archive anything
  may follow. They take a number of rounds, and return `none` if they have not returned by then.
* `cpio_get_entry` with a negative index returns what its local variable happens to hold; that is
  a parameter here.
-/

namespace SeL4.Cpio

open SeL4.Lib

/-- `char`. -/
abbrev Byte := BitVec 8

/-- A computation that reads the archive. -/
abbrev CpioM := Access Word Byte

/-- `sizeof(struct cpio_header)`. -/
def headerSize : Word := 110

/-- The offset of `c_filesize` in the header. -/
def filesizeOffset : Word := 54

/-- The offset of `c_namesize` in the header. -/
def namesizeOffset : Word := 94

/-- `CPIO_HEADER_MAGIC`, without the terminator: `sizeof(archive->c_magic)` bytes. -/
def headerMagic : List Byte := [0x30, 0x37, 0x30, 0x37, 0x30, 0x31]

/-- `CPIO_FOOTER_MAGIC`, with the terminator. -/
def footerMagic : List Byte := [0x54, 0x52, 0x41, 0x49, 0x4c, 0x45, 0x52, 0x21, 0x21, 0x21, 0]

def alignUp (n align : Word) : Word := (n + align - 1) &&& ~~~(align - 1)

def cpioAlignment : Word := 4

/-- The value of a hexadecimal digit. -/
def hexDigit (c : Byte) : Option Word :=
  if 0x30 ≤ c ∧ c ≤ 0x39 then some ((c - 0x30).setWidth 64)
  else if 0x61 ≤ c ∧ c ≤ 0x66 then some ((c - 0x61).setWidth 64 + 10)
  else if 0x41 ≤ c ∧ c ≤ 0x46 then some ((c - 0x41).setWidth 64 + 10)
  else none

/-- `parse_hex_str` from `s` on with `n` characters left; a character that is not a digit ends the
number after `r` has been shifted. -/
def parseHexStr (s : Word) : Nat → Word → CpioM Word
  | 0, r => pure r
  | n + 1, r => do
    let c ← Access.read s
    match hexDigit c with
    | some d => parseHexStr (s + 1) n (r * 16 + d)
    | none => pure (r * 16)

/-- `cpio_strncmp(a, b, n) == 0`, for the first `n` bytes of `b`. -/
def cpioStrncmp (a : Word) : List Byte → CpioM Bool
  | [] => pure true
  | b :: rest => do
    let c ← Access.read a
    if c ≠ b then pure false
    else if c = 0 then pure true
    else cpioStrncmp (a + 1) rest

def cpioStrlen (str : Word) : Nat → Nat → CpioM (Option Nat)
  | 0, _ => pure none
  | rounds + 1, n => do
    let c ← Access.read str
    if c = 0 then pure (some (n % 2 ^ 32)) else cpioStrlen (str + 1) rounds (n + 1)

def cpioLenNext (len prev next : Word) : Word := if len < next - prev then 0 else len

/-- `struct cpio_header_info`. -/
structure HeaderInfo where
  filename : Word
  filesize : Word
  data : Word
  next : Word
  deriving DecidableEq, Repr

/-- What `cpio_parse_header` returns: -1, 1, or 0 and the header's contents. -/
inductive Parsed
  | invalid
  | eof
  | entry (info : HeaderInfo)
  deriving DecidableEq, Repr

/-- The contents of a header at `archive` whose name and data have the given sizes. -/
def headerInfo (archive filenameLength filesize : Word) : HeaderInfo :=
  let data := alignUp (archive + headerSize + filenameLength) cpioAlignment
  { filename := archive + headerSize
    filesize := filesize
    data := data
    next := alignUp (data + filesize) cpioAlignment }

def cpioParseHeader (archive len : Word) : CpioM Parsed :=
  if len < headerSize then pure .invalid
  else do
    let magic ← cpioStrncmp archive headerMagic
    if magic = false then pure .invalid
    else do
      let filesize ← parseHexStr (archive + filesizeOffset) 8 0
      let filenameLength ← parseHexStr (archive + namesizeOffset) 8 0
      if len < headerSize + filenameLength + filesize then pure .invalid
      else do
        let filename := archive + headerSize
        let last ← Access.read (filename + filenameLength - 1)
        if last ≠ 0 then pure .invalid
        else if 11 ≤ filenameLength then do
          let footer ← cpioStrncmp filename footerMagic
          if footer = true then pure .eof
          else pure (.entry (headerInfo archive filenameLength filesize))
        else pure (.entry (headerInfo archive filenameLength filesize))

/-- The loop of `cpio_get_entry` with `n` entries to skip. -/
def getEntryLoop : Nat → Word → Word → CpioM (Option HeaderInfo)
  | n, header, len => do
    match ← cpioParseHeader header len with
    | .entry info =>
      match n with
      | 0 => pure (some info)
      | n + 1 => getEntryLoop n info.next (cpioLenNext len header info.next)
    | _ => pure none

/-- `cpio_get_entry`; `uninit` is what `header_info` holds before the loop. -/
def cpioGetEntry (archive len : Word) (n : Int) (uninit : HeaderInfo) : CpioM (Option HeaderInfo) :=
  match n with
  | .ofNat n => getEntryLoop n archive len
  | .negSucc _ => pure (some uninit)

def cpioGetFile (name : List Byte) : Nat → Word → Word → CpioM (Option (Option HeaderInfo))
  | 0, _, _ => pure none
  | rounds + 1, header, len => do
    match ← cpioParseHeader header len with
    | .entry info => do
      let found ← cpioStrncmp info.filename (name ++ [0])
      if found = true then pure (some (some info))
      else cpioGetFile name rounds info.next (cpioLenNext len header info.next)
    | _ => pure (some none)

/-- `struct cpio_info`. -/
structure CpioInfo where
  fileCount : Nat
  maxPathSz : Nat
  deriving DecidableEq, Repr

/-- The loop of `cpio_info`; `none` inside stands for the error -1. -/
def cpioInfo : Nat → Word → Word → CpioInfo → CpioM (Option (Option CpioInfo))
  | 0, _, _, _ => pure none
  | rounds + 1, header, len, info => do
    match ← cpioParseHeader header len with
    | .invalid => pure (some none)
    | .eof => pure (some (some info))
    | .entry entry => do
      match ← cpioStrlen entry.filename (rounds + 1) 0 with
      | none => pure none
      | some pathSz =>
        cpioInfo rounds entry.next (cpioLenNext len header entry.next)
          ⟨(info.fileCount + 1) % 2 ^ 32, max info.maxPathSz pathSz⟩

end SeL4.Cpio
