import Mathlib.Data.UInt

/-!
# CBOR strings in chunks

The calls of `cbor64.h` for strings, as the bytes that they put into the stream, and what a decoder of RFC 8949
reads. A string in chunks begins with an item of 31, where arrays and maps put 31 into the initial byte: a decoder
reads 31 bytes and never sees the chunks (`readString_chunked`).
-/

namespace SeL4.Utils.Cbor

/-- `cbor64_initial_byte`. -/
def initialByte (type data : UInt8) : List UInt8 := [type <<< 5 ||| data &&& 31]

def sendBreak : List UInt8 := initialByte 7 31

/-- The loop of `cbor64_send_item`: the low bytes of `number`, the highest first. -/
def putNumber (number : Nat) : Nat → List UInt8
  | 0 => []
  | size + 1 => UInt8.ofNat (number >>> (8 * size)) :: putNumber number size

def sendItem (type : UInt8) (number : Nat) : List UInt8 :=
  if number < 24 then initialByte type (UInt8.ofNat number)
  else if number < 2 ^ 8 then initialByte type 24 ++ putNumber number 1
  else if number < 2 ^ 16 then initialByte type 25 ++ putNumber number 2
  else if number < 2 ^ 32 then initialByte type 26 ++ putNumber number 4
  else initialByte type 27 ++ putNumber number 8

def sendTypedBytes (type : UInt8) (buffer : List UInt8) : List UInt8 := sendItem type buffer.length ++ buffer

inductive Kind
  | byte
  | string
  | utf8

/-- The `cbor64_mt_t` of a kind of string. -/
def Kind.type : Kind → UInt8
  | .byte | .string => 2
  | .utf8 => 3

/-- `cbor64_byte_chunks_start` and its two variants. -/
def chunksStart (k : Kind) : List UInt8 := sendItem k.type 31

/-- A call for each chunk, and the end. -/
def chunksRest (k : Kind) (chunks : List (List UInt8)) : List UInt8 :=
  chunks.flatMap (sendTypedBytes k.type) ++ sendBreak

/-! ## The decoder -/

inductive Item
  | definite (type : UInt8) (bytes : List UInt8)
  | indefinite (type : UInt8) (chunks : List (List UInt8))

def takeBytes (n : Nat) (l : List UInt8) : Option (List UInt8 × List UInt8) :=
  if n ≤ l.length then some (l.take n, l.drop n) else none

/-- The type and the bytes of a string of definite length, and what follows. -/
def readDefinite : List UInt8 → Option (UInt8 × List UInt8 × List UInt8)
  | [] => none
  | b :: l => do
    let info := (b &&& 31).toNat
    let (length, l) ← if info < 24 then some ([b &&& 31], l)
      else if info < 28 then takeBytes (2 ^ (info - 24)) l else none
    let (bytes, l) ← takeBytes (length.foldl (fun n c => 256 * n + c.toNat) 0) l
    some (b >>> 5, bytes, l)

/-- Strings of one type up to the break. -/
def readChunks (type : UInt8) : Nat → List UInt8 → Option (List (List UInt8) × List UInt8)
  | 0, _ => none
  | fuel + 1, l =>
    if l.head? = some 255 then some ([], l.tail)
    else do
      let (t, c, l) ← readDefinite l
      let (cs, l) ← if t = type then readChunks type fuel l else none
      some (c :: cs, l)

/-- The string at the front, and what follows. -/
def readString (l : List UInt8) : Option (Item × List UInt8) := do
  let b ← l.head?
  let type := b >>> 5
  if type ≠ 2 ∧ type ≠ 3 then none
  else if b &&& 31 = 31 then (readChunks type l.length l.tail).map fun (cs, l) => (.indefinite type cs, l)
  else (readDefinite l).map fun (t, c, l) => (.definite t c, l)

-- what a start like `cbor64_array_start` would give
example : readString (initialByte 2 31 ++ chunksRest .byte [[1], []] ++ [0]) =
    some (.indefinite 2 [[1], []], [0]) := rfl

/-- **No string in chunks is read as one**: the 31 bytes after the start are taken for a string. -/
theorem readString_chunked (k : Kind) (chunks : List (List UInt8)) (following : List UInt8) :
    readString (chunksStart k ++ chunksRest k chunks ++ following) =
      (takeBytes 31 (chunksRest k chunks ++ following)).map fun (c, l) => (.definite k.type c, l) := by
  rw [List.append_assoc]
  generalize chunksRest k chunks ++ following = l
  -- the initial byte announces a length of one byte, and this is 31
  have hstart : readString (chunksStart k ++ l) =
      (takeBytes 31 l >>= fun (c, l) => some (k.type, c, l)).map fun (t, c, l) => (.definite t c, l) := by
    cases k <;> rfl
  rw [hstart]
  cases takeBytes 31 l <;> rfl

theorem readString_hi : readString (chunksStart .utf8 ++ chunksRest .utf8 [[72, 105], [33]]) = none := rfl

end SeL4.Utils.Cbor
