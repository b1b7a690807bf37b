import AsabruEngine.Wire.ReadSpec
import AsabruEngine.Wire.WriteBuffer

/-! # `ReadVarint64` and `WriteVarint64` on any cursor

The two varint calls told from the buffer alone, for a reader or a writer in any state: which bytes
they touch, which number those bytes denote, and where the number no longer fits 64 bits. What was
read or written before a call plays no part in it, so the lemmas about a fresh record carry over.

* `readVarint64_recorded` sets aside what was accessed before, and `readVarint64_cases` lists what a
  call can do.
* `readVarint64_specification` and `writeVarint64_specification` describe the two calls.
* `TenthOverflows` is the one way for a number to lose bits: a tenth group above one.
  `readVarint64_untruncated_iff` says that there is no other. -/

namespace AsabruEngine

open Base128

namespace ClickReadProtoBuffer

/-! ## The record of earlier reads -/

/-- The reader with `earlier` put before its record. -/
def recorded (earlier : List ℤ) (r : ClickReadProtoBuffer) : ClickReadProtoBuffer :=
  { r with accessed := earlier ++ r.accessed }

/-- The reader with an empty record. -/
def unrecorded (r : ClickReadProtoBuffer) : ClickReadProtoBuffer := { r with accessed := [] }

theorem unrecorded_recorded (r : ClickReadProtoBuffer) : r.unrecorded.recorded r.accessed = r := by
  simp [recorded, unrecorded]

theorem readByte_recorded (earlier : List ℤ) (r : ClickReadProtoBuffer) :
    (r.recorded earlier).readByte = (r.readByte.1, r.readByte.2.recorded earlier) := by
  simp only [readByte, recorded, List.append_assoc]
  rfl

/-- The loop only adds to the record. -/
theorem readVarint64Loop_recorded (earlier : List ℤ) (left i : ℕ) (value : UInt64)
    (r : ClickReadProtoBuffer) :
    readVarint64Loop left i value (r.recorded earlier) =
      ((readVarint64Loop left i value r).1,
        (readVarint64Loop left i value r).2.recorded earlier) := by
  induction left generalizing i value r with
  | zero => rfl
  | succ left ih =>
      unfold readVarint64Loop
      simp only [readByte_recorded, ih]
      split
      · rfl
      · split <;> rfl

theorem readVarint64_recorded (earlier : List ℤ) (r : ClickReadProtoBuffer) :
    (r.recorded earlier).readVarint64 = (r.readVarint64.1, r.readVarint64.2.recorded earlier) :=
  readVarint64Loop_recorded earlier _ _ _ r

/-- A cursor in the block is in range once the record is empty. -/
theorem inRange_unrecorded {r : ClickReadProtoBuffer} (hlo : 0 ≤ r.mIndex)
    (hhi : r.mIndex < r.mLen) : r.unrecorded.InRange :=
  ⟨hlo, hhi.le, fun _ h => absurd h List.not_mem_nil⟩

theorem advance_unrecorded (r : ClickReadProtoBuffer) (n : ℕ) :
    (r.unrecorded.advance n).recorded r.accessed = r.advance n := by
  simp [recorded, unrecorded, advance]

/-! ## The three outcomes of `ReadVarint64` -/

/-- **`ReadVarint64` at any cursor in the block** reads a complete number and reports true, or runs
into the last byte, or gives up after ten continuing groups. -/
theorem readVarint64_cases {r : ClickReadProtoBuffer} (hlo : 0 ≤ r.mIndex)
    (hhi : r.mIndex < r.mLen) :
    (∃ groups rest, r.remaining = groups ++ rest ∧ Terminated groups ∧
      groups.length ≤ maxVarintBytes ∧ rest ≠ [] ∧
      r.readVarint64 = ((true, UInt64.ofNat (value groups)), r.advance groups.length)) ∨
    (∃ groups last, r.remaining = groups ++ [last] ∧ Continuing groups ∧
      groups.length < maxVarintBytes ∧
      r.readVarint64 = ((false, UInt64.ofNat (value groups)), r.advance (groups.length + 1))) ∨
    (∃ groups rest, r.remaining = groups ++ rest ∧ Continuing groups ∧
      groups.length = maxVarintBytes ∧ rest ≠ [] ∧
      r.readVarint64 = ((false, UInt64.ofNat (value groups)), r.advance groups.length)) := by
  have hrange := inRange_unrecorded hlo hhi
  -- the record before the call is put back after it
  have hread : r.readVarint64 =
      (r.unrecorded.readVarint64.1, r.unrecorded.readVarint64.2.recorded r.accessed) := by
    rw [← readVarint64_recorded, unrecorded_recorded]
  have hrem : r.unrecorded.remaining = r.remaining := rfl
  have hne : r.remaining ≠ [] := by
    apply List.ne_nil_of_length_pos
    rw [length_remaining]
    omega
  generalize r.remaining = stream at hrem hne
  cases scan maxVarintBytes hne with
  | terminated groups rest complete short more =>
      rw [readVarint64_terminated hrange complete short more hrem, advance_unrecorded] at hread
      exact .inl ⟨groups, rest, rfl, complete, short, more, hread⟩
  | cutOff groups last continuing short =>
      rw [readVarint64_cutOff hrange continuing short hrem, advance_unrecorded] at hread
      exact .inr (.inl ⟨groups, last, rfl, continuing, short, hread⟩)
  | overlong groups rest continuing full more =>
      rw [readVarint64_overlong hrange continuing full more hrem, advance_unrecorded] at hread
      exact .inr (.inr ⟨groups, rest, rfl, continuing, full, more, hread⟩)

/-! ## The groups in memory -/

/-- What the bytes left start with lies at the cursor. -/
theorem slice_of_remaining {r : ClickReadProtoBuffer} {bytes rest : Bytes}
    (hrem : r.remaining = bytes ++ rest) : r.mBuffer.slice r.mIndex bytes.length = bytes := by
  have hle := length_le_remaining hrem
  rw [length_remaining] at hle
  have htake : r.remaining.take bytes.length = r.mBuffer.slice r.mIndex bytes.length :=
    Memory.take_slice r.mBuffer r.mIndex hle
  rw [← htake, hrem, List.take_left]

end ClickReadProtoBuffer

theorem continuing_slice (m : Memory) (start : ℤ) (n : ℕ) :
    Continuing (m.slice start n) ↔ ∀ k < n, Continues (m (start + (k : ℕ))) := by
  simp [Continuing, Memory.slice]

/-- A complete number in memory: continuing bytes, and one that is not. -/
theorem terminated_slice {m : Memory} {start : ℤ} {n : ℕ} (h : Terminated (m.slice start n)) :
    ∃ i, n = i + 1 ∧ (∀ k < i, Continues (m (start + (k : ℕ)))) ∧
      ¬ Continues (m (start + (i : ℕ))) := by
  obtain ⟨init, last, heq, hinit, hlast⟩ := h.exists_init_last
  have hlength := congrArg List.length heq
  rw [Memory.length_slice, List.length_append, List.length_singleton] at hlength
  subst hlength
  rw [Memory.slice_add] at heq
  obtain ⟨hslice, hbyte⟩ := List.append_inj heq (Memory.length_slice _ _ _)
  have hlast' : m (start + (init.length : ℕ)) = last := by simpa [Memory.slice] using hbyte
  refine ⟨init.length, rfl, ?_, ?_⟩
  · rw [← continuing_slice, hslice]
    exact hinit
  · rw [hlast']
    exact hlast

/-- The number at an address, as the sum of its masked bytes at their weights. -/
theorem value_slice (m : Memory) (start : ℤ) (n : ℕ) :
    value (m.slice start n) =
      ∑ i ∈ Finset.range n, (m (start + (i : ℕ)) &&& 0x7F).toNat * 128 ^ i := by
  rw [value_eq_sum, Memory.length_slice]
  refine Finset.sum_congr rfl fun i hi => ?_
  have hi' := Finset.mem_range.mp hi
  rw [← payload_eq_and]
  simp [Memory.slice, hi']

/-! ## Reading -/

namespace ClickReadProtoBuffer

/-- **`ReadVarint64`, specified.** With the cursor in the block only bytes of the block are
accessed. Where the result is true, one to ten bytes were consumed, all but the last of them with
the top bit, the value is that of their payload bits modulo `2 ^ 64`, and the cursor has advanced
over them and is before the end. Where it is false, the cursor is at the end, or ten bytes with the
top bit were consumed. -/
theorem readVarint64_specification (r : ClickReadProtoBuffer) (hlo : 0 ≤ r.mIndex)
    (hhi : r.mIndex < r.mLen) :
    (∃ touched, r.readVarint64.2.accessed = r.accessed ++ touched ∧
      ∀ i ∈ touched, 0 ≤ i ∧ i < r.mLen) ∧
    (r.readVarint64.1.1 = true → ∃ j : ℕ, 1 ≤ j ∧ j ≤ 10 ∧
      (∀ k : ℕ, k + 1 < j → Continues (r.mBuffer (r.mIndex + k))) ∧
      ¬ Continues (r.mBuffer (r.mIndex + j - 1)) ∧
      r.readVarint64.1.2.toNat =
        (∑ i ∈ Finset.range j, (r.mBuffer (r.mIndex + (i : ℕ)) &&& 0x7F).toNat * 128 ^ i)
          % 2 ^ 64 ∧
      r.readVarint64.2.accessed = r.accessed ++ Memory.offsets r.mIndex j ∧
      r.readVarint64.2.mIndex = r.mIndex + j ∧ r.readVarint64.2.mIndex < r.mLen) ∧
    (r.readVarint64.1.1 = false → r.readVarint64.2.mIndex = r.mLen ∨
      (r.readVarint64.2.mIndex = r.mIndex + 10 ∧
        r.readVarint64.2.accessed = r.accessed ++ Memory.offsets r.mIndex 10 ∧
        ∀ k : ℕ, k < 10 → Continues (r.mBuffer (r.mIndex + k)))) := by
  have hlength := length_remaining r
  -- an advance over bytes that are left touches bytes of the block
  have htouched : ∀ n : ℕ, n ≤ r.remaining.length →
      ∃ touched, (r.advance n).accessed = r.accessed ++ touched ∧
        ∀ i ∈ touched, 0 ≤ i ∧ i < r.mLen := by
    intro n hn
    refine ⟨Memory.offsets r.mIndex n, rfl, fun i hi => ?_⟩
    rw [Memory.mem_offsets] at hi
    omega
  rcases readVarint64_cases hlo hhi with ⟨groups, rest, hrem, complete, short, more, hread⟩ |
    ⟨groups, last, hrem, continuing, short, hread⟩ |
    ⟨groups, rest, hrem, continuing, full, more, hread⟩
  · have hslice := slice_of_remaining hrem
    have hrest := List.length_pos_iff_ne_nil.mpr more
    obtain ⟨i, hi, hinit, hlast⟩ := terminated_slice (hslice.symm ▸ complete)
    rw [maxVarintBytes] at short
    rw [hrem, List.length_append] at hlength htouched
    rw [hread]
    refine ⟨htouched _ (by omega), fun _ => ⟨groups.length, by omega, short, ?_, ?_, ?_, rfl, rfl,
      ?_⟩, fun hfalse => absurd hfalse (by simp)⟩
    · intro k hk
      exact hinit k (by omega)
    · rw [hi, Nat.cast_succ, ← add_assoc, add_sub_cancel_right]
      exact hlast
    · rw [← value_slice, hslice, UInt64.toNat_ofNat']
    · rw [advance_mIndex]
      omega
  · rw [hrem, List.length_append, List.length_singleton] at hlength htouched
    rw [hread]
    refine ⟨htouched _ le_rfl, fun htrue => absurd htrue (by simp), fun _ => .inl ?_⟩
    rw [advance_mIndex]
    omega
  · have hslice := slice_of_remaining hrem
    rw [hrem, List.length_append] at hlength htouched
    rw [hread]
    refine ⟨htouched _ (by omega), fun htrue => absurd htrue (by simp), fun _ => .inr ?_⟩
    rw [maxVarintBytes] at full
    rw [full] at hslice ⊢
    refine ⟨rfl, rfl, ?_⟩
    rw [← continuing_slice, hslice]
    exact continuing

/-- A two-byte number at the second byte of a four-byte buffer. -/
theorem readVarint64_specification_two_bytes :
    let r : ClickReadProtoBuffer := { new (fun _ => 0) ⟨[5, 0xAC, 0x02, 7], by decide⟩ with
      mIndex := 1 }
    (∃ touched, r.readVarint64.2.accessed = r.accessed ++ touched ∧
      ∀ i ∈ touched, 0 ≤ i ∧ i < r.mLen) ∧
    r.readVarint64.1 = (true, 300) ∧ ∃ j : ℕ, 1 ≤ j ∧ j ≤ 10 ∧
      (∀ k : ℕ, k + 1 < j → Continues (r.mBuffer (r.mIndex + k))) ∧
      ¬ Continues (r.mBuffer (r.mIndex + j - 1)) ∧
      r.readVarint64.1.2.toNat =
        (∑ i ∈ Finset.range j, (r.mBuffer (r.mIndex + (i : ℕ)) &&& 0x7F).toNat * 128 ^ i)
          % 2 ^ 64 ∧
      r.readVarint64.2.accessed = r.accessed ++ Memory.offsets r.mIndex j ∧
      r.readVarint64.2.mIndex = r.mIndex + j ∧ r.readVarint64.2.mIndex < r.mLen := by
  intro r
  have hread : r.readVarint64.1 = (true, 300) := by decide +kernel
  obtain ⟨htouched, htrue, -⟩ := readVarint64_specification r (by decide) (by decide)
  exact ⟨htouched, hread, htrue (congrArg Prod.fst hread)⟩

/-! ## Overflow -/

/-- The nine bytes from the cursor have the top bit, a byte follows the tenth, and the tenth holds
more than the one bit left and ends the number. -/
def TenthOverflows (r : ClickReadProtoBuffer) : Prop :=
  (∀ k : ℕ, k < 9 → Continues (r.mBuffer (r.mIndex + k))) ∧ r.mIndex + 10 < r.mLen ∧
    2 ≤ (r.mBuffer (r.mIndex + 9)).toNat ∧ (r.mBuffer (r.mIndex + 9)).toNat < 128

/-- A complete number of at most ten groups is beyond 64 bits exactly if it has ten groups and the
last of them is at least `2`. -/
theorem two_pow_le_value_iff {m : Memory} {start : ℤ} {i : ℕ} (hi : i < maxVarintBytes)
    (hlast : ¬ Continues (m (start + (i : ℕ)))) :
    2 ^ 64 ≤ value (m.slice start (i + 1)) ↔ i = 9 ∧ 2 ≤ (m (start + (i : ℕ))).toNat := by
  rw [maxVarintBytes] at hi
  rw [Continues, not_le] at hlast
  have hinit := value_lt (m.slice start i)
  have hpayload : payload (m (start + (i : ℕ))) = (m (start + (i : ℕ))).toNat :=
    Nat.mod_eq_of_lt hlast
  have hvalue : value (m.slice start (i + 1)) =
      value (m.slice start i) + 128 ^ i * (m (start + (i : ℕ))).toNat := by
    have hone : m.slice (start + (i : ℕ)) 1 = [m (start + (i : ℕ))] := by simp [Memory.slice]
    rw [Memory.slice_add, hone, value_append_singleton, Memory.length_slice, hpayload]
  rw [Memory.length_slice] at hinit
  by_cases hnine : i = 9
  · -- the groups before the tenth fill 63 bits
    subst hnine
    rw [hvalue]
    constructor
    · intro hle
      refine ⟨rfl, ?_⟩
      by_contra hsmall
      have : 128 ^ 9 * (m (start + (9 : ℕ))).toNat ≤ 128 ^ 9 * 1 :=
        Nat.mul_le_mul_left _ (by omega)
      omega
    · rintro ⟨-, htwo⟩
      have := Nat.mul_le_mul_left (128 ^ 9) htwo
      omega
  · refine iff_of_false (not_le.mpr ?_) fun h => hnine h.1
    have hlt := value_lt (m.slice start (i + 1))
    rw [Memory.length_slice] at hlt
    have hpow : 128 ^ (i + 1) ≤ 128 ^ 9 := Nat.pow_le_pow_right (by decide) (by omega)
    omega

/-- **When no integer is truncated on read.** With the cursor in the block, a true `ReadVarint64`
has consumed bytes that denote a natural number below `2 ^ 64`, exactly if the tenth byte does not
overflow. -/
theorem readVarint64_untruncated_iff (r : ClickReadProtoBuffer) (hlo : 0 ≤ r.mIndex)
    (hhi : r.mIndex < r.mLen) :
    (r.readVarint64.1.1 = true → ∀ j : ℕ, r.readVarint64.2.mIndex = r.mIndex + j →
      ∑ i ∈ Finset.range j, (r.mBuffer (r.mIndex + (i : ℕ)) &&& 0x7F).toNat * 128 ^ i < 2 ^ 64) ↔
      ¬ r.TenthOverflows := by
  have hlength := length_remaining r
  rcases readVarint64_cases hlo hhi with ⟨groups, rest, hrem, complete, short, more, hread⟩ |
    ⟨groups, last, hrem, continuing, short, hread⟩ |
    ⟨groups, rest, hrem, continuing, full, more, hread⟩
  · have hslice := slice_of_remaining hrem
    have hrest := List.length_pos_iff_ne_nil.mpr more
    rw [hrem, List.length_append] at hlength
    generalize groups.length = n at hslice hread hlength short
    rw [← hslice] at complete
    obtain ⟨i, rfl, hinit, hlast⟩ := terminated_slice complete
    have hoverflow := two_pow_le_value_iff short hlast
    -- the statement is about the one `j` the cursor advanced by
    have hvalue : (r.readVarint64.1.1 = true → ∀ j : ℕ, r.readVarint64.2.mIndex = r.mIndex + j →
        ∑ k ∈ Finset.range j, (r.mBuffer (r.mIndex + (k : ℕ)) &&& 0x7F).toNat * 128 ^ k < 2 ^ 64) ↔
        value (r.mBuffer.slice r.mIndex (i + 1)) < 2 ^ 64 := by
      rw [hread, value_slice]
      refine ⟨fun h => h rfl (i + 1) (advance_mIndex r (i + 1)), fun h _ j hj => ?_⟩
      rw [advance_mIndex] at hj
      have : j = i + 1 := by omega
      rw [this]
      exact h
    rw [hvalue, ← not_le, hoverflow, not_iff_not]
    constructor
    · rintro ⟨rfl, htwo⟩
      exact ⟨hinit, by omega, htwo, not_le.mp hlast⟩
    · rintro ⟨hnine, -, htwo, hend⟩
      -- the number ends at the tenth byte, as the nine bytes before it go on
      have hi : i = 9 := by
        by_contra hne
        rw [maxVarintBytes] at short
        exact hlast (hnine i (by omega))
      subst hi
      exact ⟨rfl, htwo⟩
  · rw [hrem, List.length_append, List.length_singleton] at hlength
    rw [maxVarintBytes] at short
    refine iff_of_true (fun htrue => absurd htrue (by simp [hread])) ?_
    rintro ⟨-, hmore, -⟩
    omega
  · have hslice := slice_of_remaining hrem
    rw [full, maxVarintBytes] at hslice
    refine iff_of_true (fun htrue => absurd htrue (by simp [hread])) ?_
    rintro ⟨-, -, -, hend⟩
    rw [← hslice, continuing_slice] at continuing
    exact absurd (continuing 9 (by decide)) (not_le.mpr hend)

/-- A number that fills ten bytes and fits. -/
theorem readVarint64_untruncated_largest :
    let r := new (fun _ => 0) ⟨List.replicate 9 0xFF ++ [1, 0], by decide⟩
    r.readVarint64.1.1 = true → ∀ j : ℕ, r.readVarint64.2.mIndex = r.mIndex + j →
      ∑ i ∈ Finset.range j, (r.mBuffer (r.mIndex + (i : ℕ)) &&& 0x7F).toNat * 128 ^ i < 2 ^ 64 :=
  (readVarint64_untruncated_iff (new (fun _ => 0) ⟨List.replicate 9 0xFF ++ [1, 0], by decide⟩)
    (by decide) (by decide)).mpr fun h => absurd h.2.2.1 (by decide)

/-- The ten-byte encoding of `2 ^ 64`, a byte after it, is read as `0`, with true. -/
theorem readVarint64_aliases_zero :
    let r := new (fun _ => 0) ⟨List.replicate 9 0x80 ++ [2, 0], by decide⟩
    r.readVarint64.1 = (true, 0) ∧ r.readVarint64.2.mIndex = r.mIndex + (10 : ℕ) ∧
      ¬ ∑ i ∈ Finset.range 10,
        (r.mBuffer (r.mIndex + (i : ℕ)) &&& 0x7F).toNat * 128 ^ i < 2 ^ 64 := by
  decide +kernel

end ClickReadProtoBuffer

/-! ## Writing -/

namespace ClickWriteProtoBuffer

/-- **`WriteVarint64`, specified.** On any writer it stores at the cursor the least number of bytes,
and at least one, whose seven-bit groups can hold the value; all of them but the last have the top
bit, the last one has not and is not zero unless the value is, and their payload bits denote the
value. -/
theorem writeVarint64_specification (v : UInt64) (w : ClickWriteProtoBuffer) :
    ∃ bytes init last, bytes = init ++ [last] ∧
      (w.writeVarint64 v).mBuffer = w.mBuffer.store w.mIndex bytes ∧
      (w.writeVarint64 v).mIndex = toInt32 (w.mIndex + bytes.length) ∧
      (w.writeVarint64 v).written = w.written ++ Memory.offsets w.mIndex bytes.length ∧
      IsLeast {n | 1 ≤ n ∧ v.toNat < 128 ^ n} bytes.length ∧ bytes.length ≤ 10 ∧
      (∀ b ∈ init, Continues b) ∧ ¬ Continues last ∧ (v ≠ 0 → last ≠ 0) ∧
      ∑ i ∈ Finset.range bytes.length, (bytes.getD i 0 &&& 0x7F).toNat * 128 ^ i = v.toNat := by
  have hshort : (encode v.toNat).length ≤ 10 :=
    length_encode_le 9 (lt_of_lt_of_le v.toNat_lt (by decide))
  obtain ⟨init, last, heq, hinit, hlast⟩ := (terminated_encode v.toNat).exists_init_last
  have hint : ((encode v.toNat).length : ℤ) ≤ int32Max := by
    rw [int32Max]
    omega
  rw [writeVarint64, varintBytesLoop_max, writeAll_of_short w hint]
  refine ⟨encode v.toNat, init, last, heq, rfl, rfl, rfl, isLeast_length_encode v.toNat, hshort,
    hinit, hlast, ?_, ?_⟩
  · rintro hv rfl
    have hpos : 0 < v.toNat := by
      apply Nat.pos_of_ne_zero
      exact fun hzero => hv (UInt64.toNat_inj.mp hzero)
    exact absurd (payload_last_encode_pos hpos heq) (by decide)
  · have hvalue := value_eq_sum (encode v.toNat)
    rw [value_encode] at hvalue
    refine (Finset.sum_congr rfl fun i _ => ?_).trans hvalue.symm
    rw [payload_eq_and]

end ClickWriteProtoBuffer

end AsabruEngine
