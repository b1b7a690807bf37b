import AsabruEngine.Wire.ReadBuffer

/-! # What each read of `ClickReadProtoBuffer` does

One lemma for each way a read can go, stated on the bytes left before the cursor: a read that stays
inside the block is `advance` by the bytes it consumed, and its flag says whether bytes are left
after it. `ReadVarint64` has three such ways (`Base128.Scan`), `ReadString` those of its length and
then the body, which may be longer than what is left.

* `readVarint64_terminated`, `readVarint64_cutOff` and `readVarint64_overlong` are the three ways of
  a varint, `readString_refused`, `readString_legal` and `readString_accepted` those of a string.
* `Extends` compares a reader with a later one: the block is the same, and what was accessed stays
  accessed. So a read that leaves the block shows in every later state.
* `readVarint64_overrun`, `readString_overrun` and `readString_body_overrun` are the reads that
  leave it. -/

namespace AsabruEngine.ClickReadProtoBuffer

open Base128

/-! ## Bytes and byte runs -/

/-- `ReadByte` inside the block reports whether a byte is left after the one it read. -/
theorem readByte_of_remaining {r : ClickReadProtoBuffer} (h : r.InRange) {b : UInt8}
    {rest : Bytes} (hrem : r.remaining = b :: rest) :
    r.readByte = ((decide (rest ≠ []), b), r.advance 1) := by
  have hlo := h.index_nonneg
  have hmax := r.mLen_le
  have hlen := h.index_add_length
  rw [hrem, List.length_cons] at hlen
  have hwrap : toInt32 (r.mIndex + 1) = r.mIndex + 1 := toInt32_of_fits (by omega) (by omega)
  have hbyte : r.mBuffer r.mIndex = b := by
    have hcount : (r.mLen - r.mIndex).toNat = rest.length + 1 := by omega
    rw [remaining, hcount, Memory.slice_succ, List.cons.injEq] at hrem
    exact hrem.1
  have hflag : (r.mIndex + 1 < r.mLen) ↔ rest ≠ [] := by
    rw [← List.length_pos_iff_ne_nil]
    omega
  simp only [readByte, hwrap, hbyte, hflag, advance, Memory.offsets, List.range_one, List.map_cons,
    List.map_nil, Nat.cast_zero, add_zero, Nat.cast_one]

/-- `ReadBuffer` of at most the bytes left returns them and reports whether more are left. -/
theorem readBuffer_of_le {r : ClickReadProtoBuffer} (h : r.InRange) {n : ℕ}
    (hn : n ≤ r.remaining.length) :
    r.readBuffer n = ((decide (n < r.remaining.length), r.remaining.take n), r.advance n) := by
  have hlo := h.index_nonneg
  have hmax := r.mLen_le
  have hlen := h.index_add_length
  rw [int32Max] at hmax
  have hwrap : toInt32 (r.mIndex + n) = r.mIndex + n :=
    toInt32_of_fits (by omega) (by rw [int32Max]; omega)
  have hcount : ((n : ℤ) % 2 ^ 64).toNat = n := by
    rw [Int.emod_eq_of_lt (by omega) (by omega), Int.toNat_natCast]
  have hflag : (r.mIndex + n < r.mLen) ↔ n < r.remaining.length := by omega
  have htake : r.remaining.take n = r.mBuffer.slice r.mIndex n := by
    rw [length_remaining] at hn
    exact Memory.take_slice _ _ hn
  simp only [readBuffer, hwrap, hcount, htake, hflag, advance]

/-! ## The varint loop -/

/-- The or of iteration `i` adds the group at its weight, modulo `2 ^ 64`: the bits below are the
groups before it. -/
theorem or_group {V i : ℕ} (hV : V < 128 ^ i) (hi : i < maxVarintBytes) (b : UInt8) :
    UInt64.ofNat V ||| ((b &&& 0x7F).toUInt64 <<< UInt64.ofNat (7 * i)) =
      UInt64.ofNat (V + 128 ^ i * payload b) := by
  rw [maxVarintBytes] at hi
  have hpow : (128 : ℕ) ^ i = 2 ^ (7 * i) := by
    rw [pow_mul]
    rfl
  rw [hpow] at hV ⊢
  have hsplit : (2 : ℕ) ^ 64 = 2 ^ (7 * i) * 2 ^ (64 - 7 * i) := by
    rw [← pow_add]
    congr 1
    omega
  have hVlt : V < 2 ^ 64 := lt_of_lt_of_le hV (Nat.pow_le_pow_right (by decide) (by omega))
  have hshift : (UInt64.ofNat (7 * i)).toNat % 64 = 7 * i := by
    rw [UInt64.toNat_ofNat']
    omega
  apply UInt64.toNat_inj.mp
  rw [UInt64.toNat_or, UInt64.toNat_shiftLeft, UInt8.toNat_toUInt64, hshift,
    ← payload_eq_and, Nat.shiftLeft_eq, mul_comm (payload b), UInt64.toNat_ofNat',
    UInt64.toNat_ofNat', Nat.mod_eq_of_lt hVlt]
  -- both sides are `V` below bit `7 * i` and the group modulo `2 ^ (64 - 7 * i)` from there on
  rw [hsplit, Nat.mul_mod_mul_left, Nat.mod_mul, Nat.add_mul_mod_self_left, Nat.mod_eq_of_lt hV,
    Nat.add_mul_div_left _ _ (Nat.two_pow_pos _), Nat.div_eq_of_lt hV, zero_add, Nat.or_comm,
    ← Nat.two_pow_add_eq_or_of_lt hV, add_comm]

/-- The test of the continuation bit. -/
theorem and_continuation_eq_zero_iff (b : UInt8) : b &&& 0x80 = 0 ↔ ¬ Continues b := by
  have hall : ∀ i : Fin 256, i.val &&& 128 = 0 ↔ ¬ 128 ≤ i.val := by decide +kernel
  rw [← UInt8.toNat_inj, UInt8.toNat_and, Continues]
  exact hall ⟨b.toNat, b.toNat_lt⟩

/-- The value after one more group. -/
theorem value_append_singleton (consumed : Bytes) (b : UInt8) :
    value (consumed ++ [b]) = value consumed + 128 ^ consumed.length * payload b := by
  rw [value_append, value_cons, value_nil, mul_zero, add_zero]

/-- One iteration on a continuing group that is not the last byte. -/
theorem readVarint64Loop_continues {r : ClickReadProtoBuffer} (h : r.InRange)
    {consumed rest : Bytes} {b : UInt8} {left : ℕ} (hrem : r.remaining = b :: rest)
    (hrest : rest ≠ []) (hb : Continues b)
    (hleft : consumed.length + (left + 1) = maxVarintBytes) :
    readVarint64Loop (left + 1) consumed.length (UInt64.ofNat (value consumed)) r =
      readVarint64Loop left (consumed ++ [b]).length
        (UInt64.ofNat (value (consumed ++ [b]))) (r.advance 1) := by
  have hbit : ¬ b &&& 0x80 = 0 := by
    rw [and_continuation_eq_zero_iff]
    exact not_not.mpr hb
  rw [readVarint64Loop, readByte_of_remaining h hrem]
  simp only [hrest, ne_eq, not_false_eq_true, decide_true, Bool.not_true, Bool.false_eq_true,
    if_false, if_neg hbit, List.length_append, List.length_singleton]
  rw [or_group (value_lt consumed) (by omega), value_append_singleton]

/-- The loop passes over continuing groups with bytes after them. -/
theorem readVarint64Loop_continuing {groups rest : Bytes} (hgroups : Continuing groups)
    (hrest : rest ≠ []) {r : ClickReadProtoBuffer} (h : r.InRange) (consumed : Bytes) (left : ℕ)
    (hrem : r.remaining = groups ++ rest)
    (hleft : consumed.length + (left + groups.length) = maxVarintBytes) :
    readVarint64Loop (left + groups.length) consumed.length (UInt64.ofNat (value consumed)) r =
      readVarint64Loop left (consumed ++ groups).length
        (UInt64.ofNat (value (consumed ++ groups))) (r.advance groups.length) := by
  -- on the groups ahead; those behind the cursor are what the value has been built from
  induction groups generalizing r consumed with
  | nil => simp
  | cons b bs ih =>
      rw [continuing_cons] at hgroups
      rw [List.length_cons] at hleft
      have hne : bs ++ rest ≠ [] := List.append_ne_nil_of_right_ne_nil _ hrest
      have hfirst : r.remaining = [b] ++ (bs ++ rest) := hrem
      have hone : 1 ≤ r.remaining.length := length_le_remaining hfirst
      have hrem' : (r.advance 1).remaining = bs ++ rest := remaining_advance_append hfirst
      rw [List.length_cons, ← Nat.add_assoc,
        readVarint64Loop_continues h hrem hne hgroups.1 (by omega),
        ih hgroups.2 (h.advance hone) (consumed ++ [b]) hrem'
          (by rw [List.length_append, List.length_singleton]; omega),
        advance_advance, List.append_assoc, List.singleton_append, Nat.add_comm 1]

/-- The loop run from the start over continuing groups. -/
theorem readVarint64_continuing {r : ClickReadProtoBuffer} (h : r.InRange) {groups rest : Bytes}
    (hgroups : Continuing groups) (hshort : groups.length ≤ maxVarintBytes) (hrest : rest ≠ [])
    (hrem : r.remaining = groups ++ rest) :
    r.readVarint64 = readVarint64Loop (maxVarintBytes - groups.length) groups.length
      (UInt64.ofNat (value groups)) (r.advance groups.length) := by
  have hloop := readVarint64Loop_continuing hgroups hrest h [] (maxVarintBytes - groups.length)
    hrem (by rw [List.length_nil]; omega)
  rw [Nat.sub_add_cancel hshort] at hloop
  exact hloop

/-- **`ReadVarint64` on a complete number** of at most ten groups with bytes after it: true, the
number modulo `2 ^ 64`, and the cursor right after the number. -/
theorem readVarint64_terminated {r : ClickReadProtoBuffer} (h : r.InRange) {groups rest : Bytes}
    (hgroups : Terminated groups) (hshort : groups.length ≤ maxVarintBytes) (hrest : rest ≠ [])
    (hrem : r.remaining = groups ++ rest) :
    r.readVarint64 = ((true, UInt64.ofNat (value groups)), r.advance groups.length) := by
  obtain ⟨init, last, rfl, hinit, hlast⟩ := hgroups.exists_init_last
  rw [List.length_append, List.length_singleton] at hshort ⊢
  rw [List.append_assoc, List.singleton_append] at hrem
  have hrem' := remaining_advance_append hrem
  have hbit : last &&& 0x80 = 0 := (and_continuation_eq_zero_iff last).mpr hlast
  -- the continuing groups leave at least the iteration that reads the last one
  obtain ⟨left, hleft⟩ : ∃ left, maxVarintBytes - init.length = left + 1 :=
    ⟨maxVarintBytes - init.length - 1, by omega⟩
  rw [readVarint64_continuing h hinit (by omega) (List.cons_ne_nil _ _) hrem, hleft,
    readVarint64Loop, readByte_of_remaining (h.advance (length_le_remaining hrem)) hrem']
  simp only [hrest, ne_eq, not_false_eq_true, decide_true, Bool.not_true, Bool.false_eq_true,
    if_false, if_pos hbit]
  rw [or_group (value_lt init) (by omega), value_append_singleton, advance_advance]

/-- **`ReadVarint64` cut off by the end of the block**: false, the last byte consumed but not added,
and the cursor at the end. -/
theorem readVarint64_cutOff {r : ClickReadProtoBuffer} (h : r.InRange) {groups : Bytes}
    {last : UInt8} (hgroups : Continuing groups) (hshort : groups.length < maxVarintBytes)
    (hrem : r.remaining = groups ++ [last]) :
    r.readVarint64 =
      ((false, UInt64.ofNat (value groups)), r.advance (groups.length + 1)) := by
  have hrem' := remaining_advance_append hrem
  obtain ⟨left, hleft⟩ : ∃ left, maxVarintBytes - groups.length = left + 1 :=
    ⟨maxVarintBytes - groups.length - 1, by omega⟩
  rw [readVarint64_continuing h hgroups hshort.le (List.cons_ne_nil _ _) hrem, hleft,
    readVarint64Loop, readByte_of_remaining (h.advance (length_le_remaining hrem)) hrem']
  simp only [ne_eq, not_true_eq_false, decide_false, Bool.not_false, if_true, advance_advance]

/-- **`ReadVarint64` on ten continuing groups** with bytes after them: false, with the cursor after
the ten groups. -/
theorem readVarint64_overlong {r : ClickReadProtoBuffer} (h : r.InRange) {groups rest : Bytes}
    (hgroups : Continuing groups) (hfull : groups.length = maxVarintBytes) (hrest : rest ≠ [])
    (hrem : r.remaining = groups ++ rest) :
    r.readVarint64 = ((false, UInt64.ofNat (value groups)), r.advance groups.length) := by
  rw [readVarint64_continuing h hgroups hfull.le hrest hrem, hfull, Nat.sub_self,
    readVarint64Loop]

/-! ## Strings -/

/-- The string length a complete number announces: the number modulo `2 ^ 64`. -/
def announced (groups : Bytes) : UInt64 := UInt64.ofNat (value groups)

/-- A legal string length survives the narrowing to `int`. -/
theorem toInt32_of_le_maxStringBytes {len : UInt64} (h : len ≤ maxStringBytes) :
    toInt32 len.toNat = len.toNat := by
  have hlen : len.toNat ≤ 0x00FFFFFF := UInt64.le_iff_toNat_le.mp h
  exact toInt32_of_fits (by omega) (by rw [int32Max]; omega)

/-- `ReadString` gives up, with `*value` untouched, where the length read fails. -/
theorem readString_of_readVarint64_false {r r' : ClickReadProtoBuffer} {v : UInt64}
    (value : Bytes) (h : r.readVarint64 = ((false, v), r')) :
    r.readString value = ((false, value), r') := by
  rw [readString, h]
  rfl

/-- **`ReadString` on an illegal length**: false, `*value` untouched, and the cursor after the
length. -/
theorem readString_refused {r : ClickReadProtoBuffer} (h : r.InRange) {groups rest : Bytes}
    (value : Bytes) (hgroups : Terminated groups) (hshort : groups.length ≤ maxVarintBytes)
    (hrest : rest ≠ []) (hrem : r.remaining = groups ++ rest)
    (hlen : maxStringBytes < announced groups) :
    r.readString value = ((false, value), r.advance groups.length) := by
  rw [readString, readVarint64_terminated h hgroups hshort hrest hrem]
  exact if_pos hlen

/-- `ReadString` on a legal length is `ReadBuffer` after the length. -/
theorem readString_legal {r : ClickReadProtoBuffer} (h : r.InRange) {groups rest : Bytes}
    (value : Bytes) (hgroups : Terminated groups) (hshort : groups.length ≤ maxVarintBytes)
    (hrest : rest ≠ []) (hrem : r.remaining = groups ++ rest)
    (hlen : announced groups ≤ maxStringBytes) :
    r.readString value =
      (r.advance groups.length).readBuffer (announced groups).toNat := by
  rw [readString, readVarint64_terminated h hgroups hshort hrest hrem]
  refine (if_neg (UInt64.not_lt.mpr hlen)).trans ?_
  exact congrArg (fun size => (r.advance groups.length).readBuffer size)
    (toInt32_of_le_maxStringBytes hlen)

/-- **`ReadString` on a legal length within the block**: the body, the cursor after it, and true
where bytes are left. -/
theorem readString_accepted {r : ClickReadProtoBuffer} (h : r.InRange) {groups rest : Bytes}
    (value : Bytes) (hgroups : Terminated groups) (hshort : groups.length ≤ maxVarintBytes)
    (hrest : rest ≠ []) (hrem : r.remaining = groups ++ rest)
    (hlen : announced groups ≤ maxStringBytes)
    (hbody : (announced groups).toNat ≤ rest.length) :
    r.readString value =
      ((decide ((announced groups).toNat < rest.length), rest.take (announced groups).toNat),
        r.advance (groups.length + (announced groups).toNat)) := by
  have hrem' := remaining_advance_append hrem
  rw [readString_legal h value hgroups hshort hrest hrem hlen,
    readBuffer_of_le (h.advance (length_le_remaining hrem)) (by rw [hrem']; exact hbody), hrem',
    advance_advance]

/-! ## Reads beside the block -/

/-- What any read keeps: the length, and the record of the offsets read before. -/
structure Extends (r r' : ClickReadProtoBuffer) : Prop where
  mLen_eq : r'.mLen = r.mLen
  accessed_subset : r.accessed ⊆ r'.accessed

theorem Extends.refl (r : ClickReadProtoBuffer) : Extends r r := ⟨rfl, List.Subset.refl _⟩

theorem Extends.trans {r s t : ClickReadProtoBuffer} (hrs : Extends r s) (hst : Extends s t) :
    Extends r t :=
  ⟨hst.mLen_eq.trans hrs.mLen_eq, List.Subset.trans hrs.accessed_subset hst.accessed_subset⟩

/-- A reader all of whose accesses are inside had only such accesses before. -/
theorem Extends.inside {r r' : ClickReadProtoBuffer} (h : Extends r r') (hr' : r'.AccessedInside) :
    r.AccessedInside := by
  intro i hi
  rw [← h.mLen_eq]
  exact hr' i (h.accessed_subset hi)

theorem extends_readByte (r : ClickReadProtoBuffer) : Extends r r.readByte.2 :=
  ⟨rfl, List.subset_append_left _ _⟩

theorem extends_readBuffer (size : ℤ) (r : ClickReadProtoBuffer) :
    Extends r (r.readBuffer size).2 :=
  ⟨rfl, List.subset_append_left _ _⟩

/-- The loop keeps what each iteration keeps. -/
theorem extends_readVarint64Loop (left i : ℕ) (value : UInt64) (r : ClickReadProtoBuffer) :
    Extends r (readVarint64Loop left i value r).2 := by
  induction left generalizing i value r with
  | zero => exact Extends.refl r
  | succ left ih =>
      rw [readVarint64Loop]
      have hbyte := extends_readByte r
      split
      · exact hbyte
      · split
        · exact hbyte
        · exact hbyte.trans (ih _ _ _)

theorem extends_readVarint64 (r : ClickReadProtoBuffer) : Extends r r.readVarint64.2 :=
  extends_readVarint64Loop _ _ _ r

theorem extends_readString_length (value : Bytes) (r : ClickReadProtoBuffer) :
    Extends r.readVarint64.2 (r.readString value).2 := by
  rw [readString]
  split
  · split
    · exact Extends.refl _
    · exact extends_readBuffer _ _
  · exact Extends.refl _

theorem extends_readString (value : Bytes) (r : ClickReadProtoBuffer) :
    Extends r (r.readString value).2 :=
  (extends_readVarint64 r).trans (extends_readString_length value r)

/-- The first iteration of `ReadVarint64` reads the byte at the cursor, whatever the cursor is. -/
theorem mIndex_mem_accessed_readVarint64 (r : ClickReadProtoBuffer) :
    r.mIndex ∈ r.readVarint64.2.accessed := by
  have hbyte : r.mIndex ∈ r.readByte.2.accessed :=
    List.mem_append_right _ (List.mem_singleton_self _)
  rw [readVarint64, maxVarintBytes, readVarint64Loop]
  split
  · exact hbyte
  · split
    · exact hbyte
    · exact (extends_readVarint64Loop _ _ _ _).accessed_subset hbyte

/-- `ReadVarint64` at the end of the block reads beside it. -/
theorem readVarint64_overrun {r : ClickReadProtoBuffer} (h : r.InRange)
    (hrem : r.remaining = []) : ¬ r.readVarint64.2.AccessedInside := by
  intro hinside
  have hend := h.index_add_length
  rw [hrem, List.length_nil] at hend
  have hlt := (hinside _ (mIndex_mem_accessed_readVarint64 r)).2
  rw [(extends_readVarint64 r).mLen_eq] at hlt
  omega

/-- `ReadString` at the end of the block reads beside it. -/
theorem readString_overrun {r : ClickReadProtoBuffer} (h : r.InRange) (value : Bytes)
    (hrem : r.remaining = []) : ¬ (r.readString value).2.AccessedInside := fun hinside =>
  readVarint64_overrun h hrem ((extends_readString_length value r).inside hinside)

/-- `ReadString` with a legal length larger than what is left reads beside the block. -/
theorem readString_body_overrun {r : ClickReadProtoBuffer} (h : r.InRange)
    {groups rest : Bytes} (value : Bytes) (hgroups : Terminated groups)
    (hshort : groups.length ≤ maxVarintBytes) (hrest : rest ≠ [])
    (hrem : r.remaining = groups ++ rest) (hlen : announced groups ≤ maxStringBytes)
    (hbody : rest.length < (announced groups).toNat) :
    ¬ (r.readString value).2.AccessedInside := by
  intro hinside
  -- a legal length is not changed by the narrowing to `int`
  have hmax : (announced groups).toNat ≤ 0x00FFFFFF := UInt64.le_iff_toNat_le.mp hlen
  have hend := h.index_add_length
  rw [hrem, List.length_append] at hend
  rw [readString_legal h value hgroups hshort hrest hrem hlen] at hinside
  have hcount : (((announced groups).toNat : ℤ) % 2 ^ 64).toNat = (announced groups).toNat := by
    rw [Int.emod_eq_of_lt (by omega) (by omega), Int.toNat_natCast]
  -- the body covers the offset right after the block
  have hmem : r.mLen ∈ ((r.advance groups.length).readBuffer (announced groups).toNat).2.accessed :=
    List.mem_append_right _ (Memory.mem_offsets.mpr
      ⟨by rw [advance_mIndex]; omega, by rw [advance_mIndex, hcount]; omega⟩)
  have hlt := (hinside _ hmem).2
  rw [(extends_readBuffer _ _).mLen_eq, advance_mLen] at hlt
  omega

end AsabruEngine.ClickReadProtoBuffer
