import AsabruEngine.Library.Base128
import AsabruEngine.Wire.Packets

/-! # `ClickReadProtoBuffer`

The read cursor over a received buffer. Every read copies first and compares the cursor with the
length afterwards, so reads can leave the block: the memory around the block is part of the model,
and `accessed` records each offset a read touches.

* `ClickReadProtoBuffer` has the reads `readByte`, `readBuffer`, `readVarint64` and `readString`
  under their names in the source. The cursor moves as a 32-bit counter does.
* `remaining` is what is left before the cursor, and `advance` the reader moved on by a number of
  bytes; `advance_advance` and `remaining_advance` compute with them.
* `InRange` says that the cursor is in the block or at its end, and `AccessedInside` that every
  offset recorded lies in the block. -/

namespace AsabruEngine

/-- `ClickReadProtoBuffer`: the block `m_buffer` (with the memory around it), the `int` cursor
`m_index` and the block's length `m_len`; `accessed` lists the offsets read so far. -/
structure ClickReadProtoBuffer where
  mBuffer : Memory
  mIndex : ℤ
  mLen : ℤ
  accessed : List ℤ
  mLen_nonneg : 0 ≤ mLen
  mLen_le : mLen ≤ int32Max

namespace ClickReadProtoBuffer

/-- The constructor: `len` bytes are copied into a block allocated in `heap`. -/
def new (heap : Memory) (buffer : CharArray) : ClickReadProtoBuffer where
  mBuffer := heap.store 0 buffer.bytes
  mIndex := 0
  mLen := buffer.bytes.length
  accessed := []
  mLen_nonneg := buffer.length_nonneg
  mLen_le := buffer.length_le

/-- `ReadByte`: the byte is fetched and the cursor advanced before the comparison. -/
def readByte (r : ClickReadProtoBuffer) : (Bool × UInt8) × ClickReadProtoBuffer :=
  -- `*byte = m_buffer[m_index++]`, whether or not the cursor is in the block
  let byte := r.mBuffer r.mIndex
  let r' := { r with
    mIndex := toInt32 (r.mIndex + 1), accessed := r.accessed ++ [r.mIndex] }
  -- `return m_index < m_len`
  ((decide (r'.mIndex < r'.mLen), byte), r')

/-- `ReadBuffer`: `memcpy` takes the `int` size as a `size_t`. -/
def readBuffer (size : ℤ) (r : ClickReadProtoBuffer) : (Bool × Bytes) × ClickReadProtoBuffer :=
  -- `memcpy(buff, &m_buffer[m_index], size)`
  let count := (size % 2 ^ 64).toNat
  let buff := r.mBuffer.slice r.mIndex count
  let r' := { r with
    mIndex := toInt32 (r.mIndex + size),
    accessed := r.accessed ++ Memory.offsets r.mIndex count }
  ((decide (r'.mIndex < r'.mLen), buff), r')

/-- The loop of `ReadVarint64`: iteration `i`, with `left` iterations to go before
`MAX_VARINT_BYTES` is reached. -/
def readVarint64Loop :
    (left i : ℕ) → (value : UInt64) → ClickReadProtoBuffer → (Bool × UInt64) × ClickReadProtoBuffer
  -- `MAX_VARINT_BYTES` groups without an end
  | 0, _, value, r => ((false, value), r)
  | left + 1, i, value, r =>
      let byte := r.readByte
      -- the byte that ends the block was fetched, and is not added
      if !byte.1.1 then ((false, value), byte.2)
      else
        let value := value ||| ((byte.1.2 &&& 0x7F).toUInt64 <<< UInt64.ofNat (7 * i))
        if byte.1.2 &&& 0x80 = 0 then ((true, value), byte.2)
        else readVarint64Loop left (i + 1) value byte.2

/-- `ReadVarint64`: the returned flag and what `*value` holds then. -/
def readVarint64 (r : ClickReadProtoBuffer) : (Bool × UInt64) × ClickReadProtoBuffer :=
  readVarint64Loop maxVarintBytes 0 0 r

/-- `ReadAll`: the `size_t` length is narrowed to the `int` parameter of `ReadBuffer`. -/
def readAll (len : ℕ) (r : ClickReadProtoBuffer) : (Bool × Bytes) × ClickReadProtoBuffer :=
  r.readBuffer (toInt32 len)

/-- `ReadString`: the returned flag and what `*value`, holding `value` before, holds then. -/
def readString (value : Bytes) (r : ClickReadProtoBuffer) :
    (Bool × Bytes) × ClickReadProtoBuffer :=
  let len := r.readVarint64
  if len.1.1 then
    -- `*value` is resized only after this test
    if len.1.2 > maxStringBytes then ((false, value), len.2)
    else len.2.readAll len.1.2.toNat
  else ((false, value), len.2)

/-! ## The cursor inside the block -/

/-- The bytes from the cursor to the end of the block. -/
def remaining (r : ClickReadProtoBuffer) : Bytes :=
  r.mBuffer.slice r.mIndex (r.mLen - r.mIndex).toNat

/-- The cursor moved over `n` bytes, all of them read. -/
def advance (r : ClickReadProtoBuffer) (n : ℕ) : ClickReadProtoBuffer :=
  { r with mIndex := r.mIndex + n, accessed := r.accessed ++ Memory.offsets r.mIndex n }

/-- Every offset read so far lies in the block. -/
def AccessedInside (r : ClickReadProtoBuffer) : Prop := ∀ i ∈ r.accessed, 0 ≤ i ∧ i < r.mLen

/-- The cursor is in the block or at its end, and no read has left the block. -/
structure InRange (r : ClickReadProtoBuffer) : Prop where
  index_nonneg : 0 ≤ r.mIndex
  index_le : r.mIndex ≤ r.mLen
  inside : r.AccessedInside

/-- A fresh reader is in range. -/
theorem inRange_new (heap : Memory) (buffer : CharArray) : (new heap buffer).InRange :=
  ⟨le_rfl, buffer.length_nonneg, fun _ h => absurd h List.not_mem_nil⟩

/-- A fresh reader has the whole buffer before it. -/
@[simp] theorem remaining_new (heap : Memory) (buffer : CharArray) :
    (new heap buffer).remaining = buffer.bytes := by
  rw [remaining, new, sub_zero, Int.toNat_natCast]
  exact Memory.slice_store heap 0 buffer.bytes

@[simp] theorem length_remaining (r : ClickReadProtoBuffer) :
    r.remaining.length = (r.mLen - r.mIndex).toNat := Memory.length_slice _ _ _

/-- In range the cursor and the bytes left add up to the length. -/
theorem InRange.index_add_length {r : ClickReadProtoBuffer} (h : r.InRange) :
    r.mIndex + r.remaining.length = r.mLen := by
  have := h.index_le
  rw [length_remaining]
  omega

theorem advance_advance (r : ClickReadProtoBuffer) (k l : ℕ) :
    (r.advance k).advance l = r.advance (k + l) := by
  simp only [advance, Memory.offsets_add, List.append_assoc, Nat.cast_add, add_assoc]

@[simp] theorem advance_zero (r : ClickReadProtoBuffer) : r.advance 0 = r := by
  simp [advance, Memory.offsets]

@[simp] theorem advance_mLen (r : ClickReadProtoBuffer) (n : ℕ) : (r.advance n).mLen = r.mLen :=
  rfl

@[simp] theorem advance_mIndex (r : ClickReadProtoBuffer) (n : ℕ) :
    (r.advance n).mIndex = r.mIndex + n := rfl

/-- Advancing drops the bytes read. -/
theorem remaining_advance {r : ClickReadProtoBuffer} {n : ℕ} (hn : n ≤ r.remaining.length) :
    (r.advance n).remaining = r.remaining.drop n := by
  rw [length_remaining] at hn
  rw [remaining, remaining, Memory.drop_slice _ _ hn, advance_mIndex, advance_mLen]
  congr 1
  omega

/-- What the bytes before the cursor start with is no longer than they are. -/
theorem length_le_remaining {r : ClickReadProtoBuffer} {bytes rest : Bytes}
    (hrem : r.remaining = bytes ++ rest) : bytes.length ≤ r.remaining.length := by
  rw [hrem, List.length_append]
  omega

/-- Advancing over what the bytes before the cursor start with leaves the rest. -/
theorem remaining_advance_append {r : ClickReadProtoBuffer} {bytes rest : Bytes}
    (hrem : r.remaining = bytes ++ rest) : (r.advance bytes.length).remaining = rest := by
  rw [remaining_advance (length_le_remaining hrem), hrem, List.drop_left]

/-- Advancing over bytes of the block stays in range. -/
theorem InRange.advance {r : ClickReadProtoBuffer} (h : r.InRange) {n : ℕ}
    (hn : n ≤ r.remaining.length) : (r.advance n).InRange := by
  have hlo := h.index_nonneg
  have hlen := h.index_add_length
  refine ⟨?_, ?_, ?_⟩
  · rw [advance_mIndex]
    omega
  · rw [advance_mIndex, advance_mLen]
    omega
  · intro i hi
    rw [ClickReadProtoBuffer.advance, List.mem_append, Memory.mem_offsets] at hi
    rw [advance_mLen]
    rcases hi with hi | hi
    · exact h.inside i hi
    · omega

end ClickReadProtoBuffer

end AsabruEngine
