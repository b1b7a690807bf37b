import AsabruEngine.Library.Base128
import AsabruEngine.Wire.Packets

/-! # `ClickWriteProtoBuffer`

The write cursor over a block of fixed capacity. No write compares the cursor with the capacity, so
writes can leave the block; `written` records each offset a write touches. The second half states
what the writes do as long as they fit: each of them appends its encoded form.

* `ClickWriteProtoBuffer` has `writeBuffer`, `writeVarint64`, `writeUInt64` and `writeString`; a
  `WriteCall` is one call of them, and `performAll` makes a list of calls.
* `varintBytesLoop_eq_encode` identifies what `WriteVarint64` writes with the base-128 groups.
* `WriteCall.encoded` is what a call writes where it fits, and `append` the writer behind that;
  `performAll_of_fits` and `getBuffer_performAll_new` carry this from one call to a list. -/

namespace AsabruEngine

/-- `ClickWriteProtoBuffer`: the block `m_buffer` (with the memory around it), the `int` cursor
`m_index` and the capacity `m_len`; `written` lists the offsets written so far. -/
structure ClickWriteProtoBuffer where
  mBuffer : Memory
  mIndex : ℤ
  mLen : ℤ
  written : List ℤ
  mLen_nonneg : 0 ≤ mLen
  mLen_le : mLen ≤ int32Max

namespace ClickWriteProtoBuffer

/-- The constructor: the initial contents are copied into a block allocated in `heap`. -/
def new (heap : Memory) (buffer : CharArray) : ClickWriteProtoBuffer where
  mBuffer := heap.store 0 buffer.bytes
  mIndex := 0
  mLen := buffer.bytes.length
  written := []
  mLen_nonneg := buffer.length_nonneg
  mLen_le := buffer.length_le

/-- `GetBuffer`: the bytes copied out and the length stored in `*len`. -/
def getBuffer (w : ClickWriteProtoBuffer) : Bytes × ℤ :=
  (w.mBuffer.slice 0 (w.mIndex % 2 ^ 64).toNat, w.mIndex)

/-- `WriteBuffer`: `memcpy` takes the `int` length as a `size_t`. A length beyond the bytes of
`buff` makes it copy memory that is not `buff`'s: the offsets are recorded, the bytes are not. -/
def writeBuffer (buff : Bytes) (len : ℤ) (w : ClickWriteProtoBuffer) : ClickWriteProtoBuffer :=
  let count := (len % 2 ^ 64).toNat
  { w with
    mBuffer := w.mBuffer.store w.mIndex (buff.take count)
    mIndex := toInt32 (w.mIndex + len)
    written := w.written ++ Memory.offsets w.mIndex count }

/-- `WriteAll`: the `size_t` length is narrowed to the `int` parameter of `WriteBuffer`. -/
def writeAll (buf : Bytes) (w : ClickWriteProtoBuffer) : ClickWriteProtoBuffer :=
  w.writeBuffer buf (toInt32 buf.length)

/-- The loop of `WriteVarint64`: the bytes stored by the `left` iterations still allowed. -/
def varintBytesLoop : (left : ℕ) → (value : UInt64) → Bytes
  | 0, _ => []
  | left + 1, value =>
      let byte := (value &&& 0x7F).toUInt8
      -- the value before the shift decides the top bit, the value after it whether to go on
      let byte := if value > 0x7F then byte ||| 0x80 else byte
      let value := value >>> 7
      if value = 0 then [byte] else byte :: varintBytesLoop left value

/-- `WriteVarint64`. -/
def writeVarint64 (value : UInt64) (w : ClickWriteProtoBuffer) : ClickWriteProtoBuffer :=
  w.writeAll (varintBytesLoop maxVarintBytes value)

/-- `WriteUInt64`. -/
def writeUInt64 (value : UInt64) (w : ClickWriteProtoBuffer) : ClickWriteProtoBuffer :=
  w.writeVarint64 value

/-- `WriteString`: the size as a varint, then the bytes. -/
def writeString (value : Bytes) (w : ClickWriteProtoBuffer) : ClickWriteProtoBuffer :=
  (w.writeVarint64 (UInt64.ofNat value.length)).writeAll value

end ClickWriteProtoBuffer

/-- One of the three calls a client of `ClickWriteProtoBuffer` writes fields with. -/
inductive WriteCall where
  /-- `WriteVarint64(value)`. -/
  | writeVarint64 (value : UInt64)
  /-- `WriteUInt64(value)`. -/
  | writeUInt64 (value : UInt64)
  /-- `WriteString(value)`. -/
  | writeString (value : Bytes)
  deriving DecidableEq, Repr

/-- Which of the calls it is. -/
inductive WriteKind where
  | writeVarint64
  | writeUInt64
  | writeString
  deriving DecidableEq, Repr

namespace WriteCall

/-- The call without its value. -/
def kind : WriteCall → WriteKind
  | writeVarint64 _ => .writeVarint64
  | writeUInt64 _ => .writeUInt64
  | writeString _ => .writeString

/-- Perform a call. -/
def perform (w : ClickWriteProtoBuffer) : WriteCall → ClickWriteProtoBuffer
  | writeVarint64 value => w.writeVarint64 value
  | writeUInt64 value => w.writeUInt64 value
  | writeString value => w.writeString value

/-- Perform calls in order. -/
def performAll (w : ClickWriteProtoBuffer) (calls : List WriteCall) : ClickWriteProtoBuffer :=
  calls.foldl perform w

/-- The wire form of a call: a base-128 number, or a length and the bytes. -/
def encoded : WriteCall → Bytes
  | writeVarint64 value => Base128.encode value.toNat
  | writeUInt64 value => Base128.encode value.toNat
  | writeString value => Base128.encode value.length ++ value

end WriteCall

namespace ClickWriteProtoBuffer

open Base128

/-! ## The bytes of a varint -/

/-- A shift by one group divides by `128`. -/
theorem toNat_shiftRight_seven (v : UInt64) : (v >>> 7).toNat = v.toNat / 128 := by
  rw [UInt64.toNat_shiftRight]
  exact Nat.shiftRight_eq_div_pow v.toNat 7

/-- The payload bits of the low group. -/
theorem toNat_and_payload (v : UInt64) : ((v &&& 0x7F).toUInt8).toNat = v.toNat % 128 := by
  have hand : (v &&& 0x7F).toNat = v.toNat % 128 := by
    rw [UInt64.toNat_and]
    exact Nat.and_two_pow_sub_one_eq_mod v.toNat 7
  rw [UInt64.toNat_toUInt8, hand]
  omega

/-- Setting the top bit of a payload adds `128`. -/
theorem toNat_or_continuation {b : UInt8} (h : b.toNat < 128) :
    (b ||| 0x80).toNat = b.toNat + 128 := by
  have hor := Nat.two_pow_add_eq_or_of_lt (i := 7) h 1
  rw [UInt8.toNat_or, Nat.or_comm]
  exact (hor.symm.trans (by omega))

/-- The loop writes the shortest encoding as long as its bound leaves room for it. -/
theorem varintBytesLoop_eq_encode (left : ℕ) {v : UInt64} (h : v.toNat < 128 ^ (left + 1)) :
    varintBytesLoop (left + 1) v = encode v.toNat := by
  have hshift := toNat_shiftRight_seven v
  have hpayload := toNat_and_payload v
  -- each iteration is one division by 128, which the bound on the value survives with `left` less
  induction left generalizing v with
  | zero =>
      have hlt : v.toNat < 128 := by simpa using h
      have hzero : v >>> 7 = 0 := UInt64.toNat_inj.mp (by rw [hshift]; exact Nat.div_eq_of_lt hlt)
      have hle : ¬ v > 0x7F := fun hgt => by
        have := UInt64.lt_iff_toNat_lt.mp hgt
        rw [show (0x7F : UInt64).toNat = 127 from rfl] at this
        omega
      rw [varintBytesLoop, if_pos hzero, if_neg hle, encode_of_lt hlt, List.singleton_inj]
      apply UInt8.toNat_inj.mp
      rw [hpayload, toNat_ofNat_of_lt (by omega), Nat.mod_eq_of_lt hlt]
  | succ left ih =>
      have hle_iff : v > 0x7F ↔ 128 ≤ v.toNat := by
        rw [gt_iff_lt, UInt64.lt_iff_toNat_lt]
        exact Iff.rfl
      have hzero_iff : v >>> 7 = 0 ↔ v.toNat < 128 := by
        rw [← UInt64.toNat_inj, hshift]
        exact ⟨fun h0 => by
          rw [UInt64.toNat_zero] at h0
          omega, fun hlt => Nat.div_eq_of_lt hlt⟩
      by_cases hlt : v.toNat < 128
      · rw [varintBytesLoop, if_pos (hzero_iff.mpr hlt), if_neg (by rw [hle_iff]; omega),
          encode_of_lt hlt, List.singleton_inj]
        apply UInt8.toNat_inj.mp
        rw [hpayload, toNat_ofNat_of_lt (by omega), Nat.mod_eq_of_lt hlt]
      · have hrest : (v >>> 7).toNat < 128 ^ (left + 1) := by
          rw [hshift, Nat.div_lt_iff_lt_mul (by decide), ← Nat.pow_succ]
          exact h
        rw [varintBytesLoop, if_neg (by rw [hzero_iff]; exact hlt),
          if_pos (by rw [hle_iff]; omega), encode_of_le (by omega), ← hshift,
          ih hrest (toNat_shiftRight_seven _) (toNat_and_payload _), List.cons.injEq]
        refine ⟨UInt8.toNat_inj.mp ?_, rfl⟩
        rw [toNat_or_continuation (by rw [hpayload]; omega), hpayload,
          toNat_ofNat_of_lt (by omega)]

/-- Ten iterations are enough for every 64-bit value. -/
theorem varintBytesLoop_max (v : UInt64) :
    varintBytesLoop maxVarintBytes v = encode v.toNat :=
  varintBytesLoop_eq_encode 9 (lt_of_lt_of_le v.toNat_lt (by decide))

/-! ## Writes that fit -/

/-- The bytes written so far. -/
def output (w : ClickWriteProtoBuffer) : Bytes := w.mBuffer.slice 0 w.mIndex.toNat

/-- Bytes stored at the cursor and the cursor moved after them. -/
def append (w : ClickWriteProtoBuffer) (bytes : Bytes) : ClickWriteProtoBuffer :=
  { w with
    mBuffer := w.mBuffer.store w.mIndex bytes
    mIndex := w.mIndex + bytes.length
    written := w.written ++ Memory.offsets w.mIndex bytes.length }

/-- The cursor is in the block or at its end, and every write lies between the start of the block
and the cursor. -/
structure InRange (w : ClickWriteProtoBuffer) : Prop where
  index_nonneg : 0 ≤ w.mIndex
  index_le : w.mIndex ≤ w.mLen
  written : ∀ i ∈ w.written, 0 ≤ i ∧ i < w.mIndex

/-- The bytes fit between the cursor and the end of the block. -/
def Fits (w : ClickWriteProtoBuffer) (bytes : Bytes) : Prop := w.mIndex + bytes.length ≤ w.mLen

theorem inRange_new (heap : Memory) (buffer : CharArray) : (new heap buffer).InRange :=
  ⟨le_rfl, buffer.length_nonneg, fun _ h => absurd h List.not_mem_nil⟩

@[simp] theorem output_new (heap : Memory) (buffer : CharArray) : (new heap buffer).output = [] :=
  rfl

@[simp] theorem append_mLen (w : ClickWriteProtoBuffer) (bytes : Bytes) :
    (w.append bytes).mLen = w.mLen := rfl

@[simp] theorem append_mIndex (w : ClickWriteProtoBuffer) (bytes : Bytes) :
    (w.append bytes).mIndex = w.mIndex + bytes.length := rfl

/-- Two appends are one. -/
theorem append_append (w : ClickWriteProtoBuffer) (xs ys : Bytes) :
    (w.append xs).append ys = w.append (xs ++ ys) := by
  simp only [append, Memory.store_store, Memory.offsets_add, List.length_append, Nat.cast_add,
    List.append_assoc, add_assoc]

/-- An append leaves every byte before the cursor as it was. -/
theorem slice_append_of_le {w : ClickWriteProtoBuffer} {start : ℤ} {count : ℕ} (bytes : Bytes)
    (h : start + count ≤ w.mIndex) :
    (w.append bytes).mBuffer.slice start count = w.mBuffer.slice start count :=
  Memory.slice_store_of_le bytes h

/-- An append extends the output. -/
theorem InRange.output_append {w : ClickWriteProtoBuffer} (h : w.InRange) (bytes : Bytes) :
    (w.append bytes).output = w.output ++ bytes := by
  have hlo := h.index_nonneg
  have hindex : (w.mIndex + bytes.length).toNat = w.mIndex.toNat + bytes.length := by omega
  have hstart : (0 : ℤ) + (w.mIndex.toNat : ℤ) = w.mIndex := by omega
  rw [output, append_mIndex, hindex, Memory.slice_add, slice_append_of_le bytes (by omega), hstart]
  exact congrArg (fun out => w.output ++ out) (Memory.slice_store w.mBuffer w.mIndex bytes)

/-- Appending bytes that fit stays in range. -/
theorem InRange.append {w : ClickWriteProtoBuffer} (h : w.InRange) {bytes : Bytes}
    (hfits : w.Fits bytes) : (w.append bytes).InRange := by
  have hlo := h.index_nonneg
  refine ⟨by rw [append_mIndex]; omega, hfits, ?_⟩
  intro i hi
  rw [ClickWriteProtoBuffer.append, List.mem_append, Memory.mem_offsets] at hi
  rw [append_mIndex]
  rcases hi with hi | hi
  · have := h.written i hi
    omega
  · omega

/-- **Exactness of `GetBuffer`**: in range it copies the output and reports its length. -/
theorem InRange.getBuffer_eq {w : ClickWriteProtoBuffer} (h : w.InRange) :
    w.getBuffer = (w.output, (w.output.length : ℤ)) := by
  have hlo := h.index_nonneg
  have hhi := h.index_le
  have hmax := w.mLen_le
  rw [int32Max] at hmax
  rw [getBuffer, output, Memory.length_slice, Int.emod_eq_of_lt hlo (by omega),
    Int.toNat_of_nonneg hlo]

/-- `WriteAll` of a short run stores it at the cursor and moves the cursor behind it. -/
theorem writeAll_of_short (w : ClickWriteProtoBuffer) {bytes : Bytes}
    (hshort : (bytes.length : ℤ) ≤ int32Max) :
    w.writeAll bytes = { w with
      mBuffer := w.mBuffer.store w.mIndex bytes
      mIndex := toInt32 (w.mIndex + bytes.length)
      written := w.written ++ Memory.offsets w.mIndex bytes.length } := by
  have hnarrow : toInt32 bytes.length = bytes.length :=
    toInt32_of_fits (Int.natCast_nonneg _) hshort
  rw [int32Max] at hshort
  have hcount : ((bytes.length : ℤ) % 2 ^ 64).toNat = bytes.length := by
    rw [Int.emod_eq_of_lt (by omega) (by omega), Int.toNat_natCast]
  unfold writeAll writeBuffer
  simp only [hnarrow, hcount, List.take_length]

/-- `WriteAll` of bytes that fit appends them. -/
theorem writeAll_of_fits {w : ClickWriteProtoBuffer} (h : w.InRange) {bytes : Bytes}
    (hfits : w.Fits bytes) : w.writeAll bytes = w.append bytes := by
  have hlo := h.index_nonneg
  have hmax := w.mLen_le
  rw [Fits] at hfits
  rw [int32Max] at hmax
  have hint : (bytes.length : ℤ) ≤ int32Max := by
    rw [int32Max]
    omega
  have hwrap : toInt32 (w.mIndex + bytes.length) = w.mIndex + bytes.length :=
    toInt32_of_fits (by omega) (by rw [int32Max]; omega)
  rw [writeAll_of_short w hint, hwrap]
  rfl

theorem writeVarint64_of_fits {w : ClickWriteProtoBuffer} (h : w.InRange) {v : UInt64}
    (hfits : w.Fits (encode v.toNat)) : w.writeVarint64 v = w.append (encode v.toNat) := by
  rw [writeVarint64, varintBytesLoop_max]
  exact writeAll_of_fits h hfits

theorem writeString_of_fits {w : ClickWriteProtoBuffer} (h : w.InRange) {value : Bytes}
    (hfits : w.Fits (encode value.length ++ value)) :
    w.writeString value = w.append (encode value.length ++ value) := by
  have hlo := h.index_nonneg
  have hmax := w.mLen_le
  have hfits' := hfits
  rw [Fits, List.length_append, Nat.cast_add] at hfits'
  rw [int32Max] at hmax
  have hsize : (UInt64.ofNat value.length).toNat = value.length := by
    rw [UInt64.toNat_ofNat']
    omega
  have hprefix : w.Fits (encode (UInt64.ofNat value.length).toNat) := by
    rw [hsize, Fits]
    omega
  -- the length is appended first, then the bytes behind it
  rw [writeString, writeVarint64_of_fits h hprefix]
  rw [writeAll_of_fits (h.append hprefix), append_append, hsize]
  rw [Fits, append_mIndex, append_mLen, hsize]
  omega

end ClickWriteProtoBuffer

namespace WriteCall

open ClickWriteProtoBuffer

/-- **Every call appends its wire form**, as long as that fits. -/
theorem perform_of_fits {w : ClickWriteProtoBuffer} (h : w.InRange) {call : WriteCall}
    (hfits : w.Fits call.encoded) : perform w call = w.append call.encoded := by
  cases call with
  | writeVarint64 value => exact writeVarint64_of_fits h hfits
  | writeUInt64 value => exact writeVarint64_of_fits h hfits
  | writeString value => exact writeString_of_fits h hfits

/-- Calls in order append the concatenation of their wire forms, as long as that fits. -/
theorem performAll_of_fits {w : ClickWriteProtoBuffer} (h : w.InRange) {calls : List WriteCall}
    (hfits : w.Fits (calls.flatMap encoded)) :
    performAll w calls = w.append (calls.flatMap encoded) := by
  induction calls generalizing w with
  | nil => simp [performAll, ClickWriteProtoBuffer.append, Memory.offsets]
  | cons call calls ih =>
      rw [List.flatMap_cons, Fits, List.length_append, Nat.cast_add] at hfits
      have hcall : w.Fits call.encoded := by
        rw [Fits]
        omega
      have hrest : (w.append call.encoded).Fits (calls.flatMap encoded) := by
        rw [Fits, append_mIndex, append_mLen]
        omega
      -- the first call appends its part, and the others fit behind it
      rw [performAll, List.foldl_cons, perform_of_fits h hcall]
      refine (ih (h.append hcall) hrest).trans ?_
      rw [append_append, List.flatMap_cons]

/-- A fresh writer with room for the calls ends with their wire forms as its output. -/
theorem getBuffer_performAll_new (heap : Memory) {buffer : CharArray} {calls : List WriteCall}
    (hfits : (calls.flatMap encoded).length ≤ buffer.bytes.length) :
    (performAll (new heap buffer) calls).getBuffer =
      (calls.flatMap encoded, ((calls.flatMap encoded).length : ℤ)) := by
  have hnew := ClickWriteProtoBuffer.inRange_new heap buffer
  have hfits' : (new heap buffer).Fits (calls.flatMap encoded) := by
    show (0 : ℤ) + _ ≤ (buffer.bytes.length : ℤ)
    omega
  rw [performAll_of_fits hnew hfits', (hnew.append hfits').getBuffer_eq, hnew.output_append,
    output_new, List.nil_append]

end WriteCall

end AsabruEngine
