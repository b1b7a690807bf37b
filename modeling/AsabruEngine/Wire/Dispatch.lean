import AsabruEngine.Wire.ServerHello

/-! # Writes outside the writer's buffers

The writer compares its cursor with nothing, and `DispatchBufferForSocket` copies what was written
into a local buffer of fixed size. Each call moves the cursor by a width that its arguments
determine, so the sum of the widths says which sequences of calls stay inside both buffers.

* A `Dispatch` is what `dispatchBufferForSocket` does with its local buffer of `dispatchBytes`.
* `WriteCall.width` is by how much a call moves the cursor, whether it fits or not. `Keeps` and
  `Writes` compare the writer before and after: it stays inside if the width fits, and otherwise the
  first byte behind the block has been written.
* `writes_perform` and `writes_performAll` show this for a call and for a list of calls, and
  `writer_staysInside_iff` counts both buffers. -/

namespace AsabruEngine

open Base128 ClickWriteProtoBuffer

/-! ## `DispatchBufferForSocket` -/

/-- The size of the local buffer of `DispatchBufferForSocket`. -/
def dispatchBytes : ℕ := 32000

/-- What `DispatchBufferForSocket` does: the local buffer with the stack around it, the offsets of
it that the copy writes, and the bytes it sends and prints from it. -/
structure Dispatch where
  bufferPtr : Memory
  copied : List ℤ
  sent : Bytes
  printed : Bytes

namespace CProtocolPacketEncoder

/-- `DispatchBufferForSocket` with its local buffer in `stack`. What `send` returns is ignored. -/
def dispatchBufferForSocket (stack : Memory) (e : CProtocolPacketEncoder) : Bool × Dispatch :=
  let contents := e.getBuffer
  let bufferPtr := stack.store 0 contents.1
  (true,
    { bufferPtr := bufferPtr
      copied := Memory.offsets 0 contents.1.length
      -- `send` takes the `int` count as a `size_t`, the loop that prints compares it as an `int`
      sent := bufferPtr.slice 0 (contents.2 % 2 ^ 64).toNat
      printed := bufferPtr.slice 0 contents.2.toNat })

end CProtocolPacketEncoder

/-! ## The width of a call -/

/-- The number of bytes `WriteAll` copies of a run of `n`: the size narrowed to an `int`, and taken
as a `size_t` by the copy. -/
def narrowed (n : ℕ) : ℕ := (toInt32 n % 2 ^ 64).toNat

/-- The number of bytes a call copies. -/
def WriteCall.width : WriteCall → ℕ
  | writeVarint64 value => (encode value.toNat).length
  | writeUInt64 value => (encode value.toNat).length
  | writeString value =>
      (encode (UInt64.ofNat value.length).toNat).length + narrowed value.length

theorem narrowed_of_short {n : ℕ} (h : (n : ℤ) ≤ int32Max) : narrowed n = n := by
  unfold narrowed
  rw [toInt32_of_fits (Int.natCast_nonneg n) h]
  rw [int32Max] at h
  omega

/-- A string is written with at least one byte before it. -/
theorem WriteCall.lt_width_writeString {value : Bytes} (h : (value.length : ℤ) ≤ int32Max) :
    value.length < (writeString value).width := by
  have hpos := List.length_pos_iff_ne_nil.mpr (encode_ne_nil (UInt64.ofNat value.length).toNat)
  rw [width, narrowed_of_short h]
  omega

/-- A narrowed size that could fit a block is the size itself as an `int`. -/
theorem toInt32_of_narrowed_le {n : ℕ} (h : (narrowed n : ℤ) ≤ int32Max) :
    toInt32 n = narrowed n := by
  have hlo : -(((2 ^ 32 : ℕ) : ℤ) / 2) ≤ toInt32 n := Int.le_bmod (by decide)
  have hhi : toInt32 n < (((2 ^ 32 : ℕ) : ℤ) + 1) / 2 := Int.bmod_lt (by decide)
  rw [int32Max] at h
  unfold narrowed at h ⊢
  -- a negative size would be a copy of more than `2 ^ 63` bytes
  omega

namespace ClickWriteProtoBuffer

/-! ## What a write of a given width does -/

/-- What any write keeps: the capacity, and the record of the offsets written before. -/
structure Keeps (w w' : ClickWriteProtoBuffer) : Prop where
  mLen_eq : w'.mLen = w.mLen
  written_subset : w.written ⊆ w'.written

theorem Keeps.refl (w : ClickWriteProtoBuffer) : Keeps w w := ⟨rfl, List.Subset.refl _⟩

theorem Keeps.trans {u v w : ClickWriteProtoBuffer} (huv : Keeps u v) (hvw : Keeps v w) :
    Keeps u w :=
  ⟨hvw.mLen_eq.trans huv.mLen_eq, List.Subset.trans huv.written_subset hvw.written_subset⟩

/-- A write of `n` bytes at the cursor: it stays in range where these fit, and writes the byte after
the block where they do not. -/
structure Writes (n : ℕ) (w w' : ClickWriteProtoBuffer) : Prop where
  stays : w.mIndex + n ≤ w.mLen → w'.InRange ∧ w'.mIndex = w.mIndex + n
  leaves : w.mLen < w.mIndex + n → w.mLen ∈ w'.written

/-- Two writes are one of the sum of their widths. -/
theorem Writes.trans {m n : ℕ} {u v w : ClickWriteProtoBuffer} (huv : Writes m u v)
    (hkeep : Keeps u v) (hvw : v.InRange → Writes n v w) (hkeep' : Keeps v w) :
    Writes (m + n) u w := by
  by_cases hfits : u.mIndex + m ≤ u.mLen
  · obtain ⟨hrange, hindex⟩ := huv.stays hfits
    have hnext := hvw hrange
    constructor
    · intro hall
      obtain ⟨hrange', hindex'⟩ := hnext.stays (by rw [hindex, hkeep.mLen_eq]; omega)
      exact ⟨hrange', by rw [hindex', hindex]; omega⟩
    · intro hover
      rw [← hkeep.mLen_eq]
      exact hnext.leaves (by rw [hindex, hkeep.mLen_eq]; omega)
  · constructor
    · intro hall
      omega
    · -- the first write left the block, and the second one keeps the record of that
      intro _
      exact hkeep'.written_subset (huv.leaves (by omega))

theorem keeps_writeAll (buf : Bytes) (w : ClickWriteProtoBuffer) : Keeps w (w.writeAll buf) :=
  ⟨rfl, List.subset_append_left _ _⟩

theorem writes_writeAll (buf : Bytes) {w : ClickWriteProtoBuffer} (h : w.InRange) :
    Writes (narrowed buf.length) w (w.writeAll buf) := by
  have hlo := h.index_nonneg
  have hhi := h.index_le
  have hmax := w.mLen_le
  have hwritten : (w.writeAll buf).written =
      w.written ++ Memory.offsets w.mIndex (narrowed buf.length) := rfl
  constructor
  · intro hfits
    have hindex : (w.writeAll buf).mIndex = w.mIndex + narrowed buf.length := by
      show toInt32 (w.mIndex + toInt32 buf.length) = w.mIndex + narrowed buf.length
      rw [toInt32_of_narrowed_le (by omega)]
      exact toInt32_of_fits (by omega) (by omega)
    refine ⟨⟨?_, ?_, ?_⟩, hindex⟩
    · rw [hindex]
      omega
    · rw [hindex]
      exact hfits
    · intro i hi
      rw [hwritten, List.mem_append, Memory.mem_offsets] at hi
      rw [hindex]
      rcases hi with hi | hi
      · have := h.written i hi
        omega
      · omega
  · intro hover
    rw [hwritten, List.mem_append, Memory.mem_offsets]
    exact .inr ⟨hhi, hover⟩

theorem keeps_writeVarint64 (v : UInt64) (w : ClickWriteProtoBuffer) :
    Keeps w (w.writeVarint64 v) := keeps_writeAll _ w

theorem writes_writeVarint64 (v : UInt64) {w : ClickWriteProtoBuffer} (h : w.InRange) :
    Writes (encode v.toNat).length w (w.writeVarint64 v) := by
  have hshort : (encode v.toNat).length ≤ 10 :=
    length_encode_le 9 (lt_of_lt_of_le v.toNat_lt (by decide))
  have hwrites := writes_writeAll (varintBytesLoop maxVarintBytes v) h
  rw [varintBytesLoop_max, narrowed_of_short (by rw [int32Max]; omega)] at hwrites
  rw [writeVarint64, varintBytesLoop_max]
  exact hwrites

end ClickWriteProtoBuffer

namespace WriteCall

theorem keeps_perform (w : ClickWriteProtoBuffer) (call : WriteCall) :
    Keeps w (perform w call) := by
  cases call with
  | writeVarint64 v => exact keeps_writeVarint64 v w
  | writeUInt64 v => exact keeps_writeVarint64 v w
  | writeString s => exact (keeps_writeVarint64 _ w).trans (keeps_writeAll s _)

/-- **Every call writes its width.** -/
theorem writes_perform {w : ClickWriteProtoBuffer} (h : w.InRange) (call : WriteCall) :
    Writes call.width w (perform w call) := by
  cases call with
  | writeVarint64 v => exact writes_writeVarint64 v h
  | writeUInt64 v => exact writes_writeVarint64 v h
  | writeString s =>
      exact (writes_writeVarint64 _ h).trans (keeps_writeVarint64 _ w) (writes_writeAll s)
        (keeps_writeAll s _)

theorem keeps_performAll (w : ClickWriteProtoBuffer) (calls : List WriteCall) :
    Keeps w (performAll w calls) := by
  induction calls generalizing w with
  | nil => exact Keeps.refl w
  | cons call calls ih => exact (keeps_perform w call).trans (ih _)

/-- Calls in order write the sum of their widths. -/
theorem writes_performAll {w : ClickWriteProtoBuffer} (h : w.InRange) (calls : List WriteCall) :
    Writes (calls.map width).sum w (performAll w calls) := by
  induction calls generalizing w with
  | nil =>
      simp only [List.map_nil, List.sum_nil, performAll, List.foldl_nil]
      exact ⟨fun _ => ⟨h, by simp⟩, fun hover => absurd h.index_le (by simpa using hover)⟩
  | cons call calls ih =>
      rw [List.map_cons, List.sum_cons]
      exact (writes_perform h call).trans (keeps_perform w call) ih (keeps_performAll _ calls)

end WriteCall

/-! ## Both buffers -/

/-- The calls on a fresh writer and a dispatch after them stay inside: every offset written lies in
the block, the cursor is at most at its end, and the dispatch copies no more than its local buffer
holds. -/
def StaysInside (heap stack : Memory) (buffer : CharArray) (calls : List WriteCall) : Prop :=
  let e := WriteCall.performAll (new heap buffer) calls
  (∀ i ∈ e.written, 0 ≤ i ∧ i < buffer.bytes.length) ∧ e.mIndex ≤ buffer.bytes.length ∧
    (CProtocolPacketEncoder.dispatchBufferForSocket stack e).2.copied.length ≤ dispatchBytes

/-- In range a dispatch copies as many bytes as the cursor says. -/
theorem length_copied_of_inRange (stack : Memory) {e : CProtocolPacketEncoder} (h : e.InRange) :
    ((CProtocolPacketEncoder.dispatchBufferForSocket stack e).2.copied.length : ℤ) = e.mIndex := by
  have hlo := h.index_nonneg
  have hhi := h.index_le
  have hmax := e.mLen_le
  rw [int32Max] at hmax
  simp only [CProtocolPacketEncoder.dispatchBufferForSocket, getBuffer, Memory.offsets,
    Memory.length_slice, List.length_map, List.length_range]
  omega

theorem staysInside_iff (heap stack : Memory) (buffer : CharArray) (calls : List WriteCall) :
    StaysInside heap stack buffer calls ↔
      (calls.map WriteCall.width).sum ≤ min buffer.bytes.length dispatchBytes := by
  have hnew := inRange_new heap buffer
  have hlen : (new heap buffer).mLen = buffer.bytes.length := rfl
  have hstart : (new heap buffer).mIndex = 0 := rfl
  obtain ⟨hstays, hleaves⟩ := WriteCall.writes_performAll hnew calls
  have hkeep := WriteCall.keeps_performAll (new heap buffer) calls
  rw [hlen, hstart, zero_add] at hstays hleaves
  rw [le_min_iff]
  constructor
  · rintro ⟨hinside, -, hcopy⟩
    -- the byte after the block is not among the offsets written
    have hfits : (calls.map WriteCall.width).sum ≤ buffer.bytes.length := by
      by_contra hover
      have hlast := hinside _ (hleaves (by omega))
      omega
    obtain ⟨hrange, hindex⟩ := hstays (by omega)
    have hcopied := length_copied_of_inRange stack hrange
    exact ⟨hfits, by omega⟩
  · rintro ⟨hfits, hdispatch⟩
    obtain ⟨hrange, hindex⟩ := hstays (by omega)
    have hcopied := length_copied_of_inRange stack hrange
    refine ⟨fun i hi => ?_, by omega, by omega⟩
    have hwritten := hrange.written i hi
    omega

/-- **When the writer stays in its buffers.** For every capacity and every sequence of write calls:
at every point of the sequence all bytes written lie in the block, the cursor is at most at its end,
and a dispatch copies at most 32000 bytes, exactly if the widths of the calls add up to no more than
the capacity and no more than 32000. -/
theorem writer_staysInside_iff (heap stack : Memory) (buffer : CharArray)
    (calls : List WriteCall) :
    (∀ done, done <+: calls → StaysInside heap stack buffer done) ↔
      (calls.map WriteCall.width).sum ≤ min buffer.bytes.length dispatchBytes := by
  constructor
  · intro hall
    exact (staysInside_iff heap stack buffer calls).mp (hall calls (List.prefix_refl calls))
  · rintro hfits done ⟨rest, rfl⟩
    rw [List.map_append, List.sum_append] at hfits
    exact (staysInside_iff heap stack buffer done).mpr (by omega)

/-- A string as long as the block leaves it, and a string of 32000 bytes in a block that is large
enough leaves the local buffer of the dispatch. -/
theorem not_staysInside_strings :
    ¬ StaysInside (fun _ => 0) (fun _ => 0) ⟨List.replicate 3 0, by decide⟩
        [.writeString [1, 2, 3]] ∧
      ¬ StaysInside (fun _ => 0) (fun _ => 0)
        ⟨List.replicate 40000 0, by rw [List.length_replicate]; decide⟩
        [.writeString (List.replicate 32000 1)] := by
  have hlong : ((List.replicate 32000 (1 : UInt8)).length : ℤ) ≤ int32Max := by
    rw [List.length_replicate]
    decide
  have hwidth := WriteCall.lt_width_writeString hlong
  rw [List.length_replicate] at hwidth
  constructor
  · rw [staysInside_iff]
    decide +kernel
  · rw [staysInside_iff, List.map_singleton, List.sum_singleton, dispatchBytes]
    omega

/-- `EncodeHelloPacket` stays inside exactly if the block has room for its 52 bytes. -/
theorem encodeHelloPacket_staysInside_iff (heap stack : Memory) (buffer : CharArray) :
    StaysInside heap stack buffer (CProtocolPacketEncoder.helloInfo.packet.map Field.call) ↔
      52 ≤ buffer.bytes.length := by
  have hsum : ((CProtocolPacketEncoder.helloInfo.packet.map Field.call).map
      WriteCall.width).sum = 52 := by
    decide +kernel
  rw [staysInside_iff, hsum, dispatchBytes]
  omega

end AsabruEngine
