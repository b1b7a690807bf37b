import Mathlib.Data.Int.Basic
import Mathlib.Data.List.Range
import Mathlib.Tactic.Ring

/-! # Byte memory around a block, and a 32-bit cursor

A block of bytes is addressed by integer offsets from its first byte, so that an access beside the
block has an offset too. `slice` reads a run of bytes, `store` overwrites one, `offsets` lists the
addresses of a run, and `toInt32` is the value a 32-bit signed counter holds after an addition.

`slice_store` and `slice_store_of_le` say what a run holds after a store, on it and beside it. A
`cString` is what C reads from an address, up to the first zero byte of the mapped memory;
`cString_eq_some_iff` tells it from the bytes. -/

namespace AsabruEngine

/-! ## 32-bit signed values -/

/-- The largest value of a 32-bit signed integer. -/
def int32Max : ℤ := 2147483647

/-- Two's complement wrap-around to 32 bits. -/
def toInt32 (x : ℤ) : ℤ := Int.bmod x (2 ^ 32)

/-- A value in the 32-bit range is not changed by wrapping. -/
theorem toInt32_of_fits {x : ℤ} (hlo : 0 ≤ x) (hhi : x ≤ int32Max) : toInt32 x = x := by
  rw [int32Max] at hhi
  rw [toInt32, Int.bmod_def]
  have hmod : x % ((2 ^ 32 : ℕ) : ℤ) = x := Int.emod_eq_of_lt hlo (by push_cast; omega)
  rw [hmod, if_pos (by push_cast; omega)]

/-! ## Byte memory -/

/-- A run of bytes. -/
abbrev Bytes := List UInt8

/-- Bytes at every offset from the first byte of a block. -/
abbrev Memory := ℤ → UInt8

namespace Memory

/-- The `count` bytes from offset `start` on. -/
def slice (m : Memory) (start : ℤ) (count : ℕ) : List UInt8 :=
  (List.range count).map fun k : ℕ => m (start + k)

/-- Overwrite the bytes from offset `start` on. -/
def store (m : Memory) (start : ℤ) (bytes : List UInt8) : Memory := fun i =>
  -- before the run and beyond its last byte the old byte stays
  if start ≤ i then (bytes[(i - start).toNat]?).getD (m i) else m i

/-- The offsets of a run of `count` bytes. -/
def offsets (start : ℤ) (count : ℕ) : List ℤ := (List.range count).map fun k : ℕ => start + k

@[simp] theorem length_slice (m : Memory) (start : ℤ) (count : ℕ) :
    (m.slice start count).length = count := by
  simp [slice]

/-- A run of bytes is its first byte and the run after it. -/
theorem slice_succ (m : Memory) (start : ℤ) (count : ℕ) :
    m.slice start (count + 1) = m start :: m.slice (start + 1) count := by
  simp only [slice, List.range_succ_eq_map, List.map_cons, List.map_map, Nat.cast_zero, add_zero,
    List.cons.injEq, true_and]
  refine List.map_congr_left fun k _ => ?_
  simp only [Function.comp_apply, Nat.succ_eq_add_one, Nat.cast_add, Nat.cast_one]
  rw [add_assoc, add_comm (1 : ℤ)]

/-- Adjacent runs join. -/
theorem slice_add (m : Memory) (start : ℤ) (k l : ℕ) :
    m.slice start (k + l) = m.slice start k ++ m.slice (start + k) l := by
  simp only [slice, List.range_add, List.map_append, List.map_map]
  congr 1
  refine List.map_congr_left fun i _ => ?_
  simp only [Function.comp_apply, Nat.cast_add]
  rw [add_assoc]

/-- Dropping bytes of a run advances its start. -/
theorem drop_slice (m : Memory) (start : ℤ) {k count : ℕ} (h : k ≤ count) :
    (m.slice start count).drop k = m.slice (start + k) (count - k) := by
  obtain ⟨l, rfl⟩ := Nat.exists_eq_add_of_le h
  rw [slice_add, List.drop_left' (length_slice m start k), Nat.add_sub_cancel_left]

/-- The first bytes of a run are the shorter run. -/
theorem take_slice (m : Memory) (start : ℤ) {k count : ℕ} (h : k ≤ count) :
    (m.slice start count).take k = m.slice start k := by
  obtain ⟨l, rfl⟩ := Nat.exists_eq_add_of_le h
  rw [slice_add, List.take_left' (length_slice m start k)]

/-- Runs at the same offsets of two memories agree when the memories agree there. -/
theorem slice_congr {m m' : Memory} {start : ℤ} {count : ℕ}
    (h : ∀ i, start ≤ i → i < start + count → m i = m' i) :
    m.slice start count = m'.slice start count := by
  refine List.map_congr_left fun k hk => h _ (by omega) ?_
  have := List.mem_range.mp hk
  omega

theorem store_of_lt {m : Memory} {start i : ℤ} (bytes : List UInt8) (h : i < start) :
    m.store start bytes i = m i := by
  rw [store, if_neg (not_le.mpr h)]

theorem store_of_le {m : Memory} {start i : ℤ} {bytes : List UInt8} (h : start + bytes.length ≤ i) :
    m.store start bytes i = m i := by
  unfold store
  split
  · rw [List.getElem?_eq_none (by omega), Option.getD_none]
  · rfl

/-- A store leaves the run before it as it was. -/
theorem slice_store_of_le {m : Memory} {start pos : ℤ} {count : ℕ} (bytes : List UInt8)
    (h : start + count ≤ pos) : (m.store pos bytes).slice start count = m.slice start count :=
  slice_congr fun _ _ hi => store_of_lt bytes (lt_of_lt_of_le hi h)

/-- A store is read back. -/
theorem slice_store (m : Memory) (start : ℤ) (bytes : List UInt8) :
    (m.store start bytes).slice start bytes.length = bytes := by
  refine List.ext_getElem (length_slice _ _ _) fun k hk hk' => ?_
  simp only [slice, List.getElem_map, List.getElem_range, store]
  rw [if_pos (by omega), show (start + (k : ℤ) - start).toNat = k by omega,
    List.getElem?_eq_getElem hk', Option.getD_some]

@[simp] theorem store_nil (m : Memory) (start : ℤ) : m.store start [] = m := by
  funext i
  simp [store]

/-- Two stores side by side are one store. -/
theorem store_store (m : Memory) (start : ℤ) (xs ys : List UInt8) :
    (m.store start xs).store (start + xs.length) ys = m.store start (xs ++ ys) := by
  funext i
  -- the offset lies before both runs, in the first one, or from the second one on
  by_cases hi : start ≤ i
  · by_cases hxs : start + xs.length ≤ i
    · have hidx : (i - start).toNat - xs.length = (i - (start + xs.length)).toNat := by omega
      have hnone : xs[(i - start).toNat]? = none := List.getElem?_eq_none (by omega)
      rw [store, store, store, if_pos hxs, if_pos hi, if_pos hi,
        List.getElem?_append_right (by omega), hidx, hnone, Option.getD_none]
    · rw [store_of_lt ys (not_le.mp hxs), store, store, if_pos hi, if_pos hi,
        List.getElem?_append_left (by omega)]
  · have hlt := not_le.mp hi
    rw [store_of_lt ys (by omega), store_of_lt xs hlt, store_of_lt (xs ++ ys) hlt]

theorem offsets_add (start : ℤ) (k l : ℕ) :
    offsets start (k + l) = offsets start k ++ offsets (start + k) l := by
  simp only [offsets, List.range_add, List.map_append, List.map_map]
  congr 1
  refine List.map_congr_left fun i _ => ?_
  simp only [Function.comp_apply, Nat.cast_add]
  rw [add_assoc]

@[simp] theorem mem_offsets {i start : ℤ} {count : ℕ} :
    i ∈ offsets start count ↔ start ≤ i ∧ i < start + count := by
  simp only [offsets, List.mem_map, List.mem_range]
  constructor
  · rintro ⟨k, hk, rfl⟩
    omega
  · rintro ⟨hlo, hhi⟩
    exact ⟨(i - start).toNat, by omega, by omega⟩

/-! ## Zero-terminated strings -/

/-- The bytes from offset `start` up to the first zero byte, if there is one among the next
`mapped` bytes. -/
def cString (m : Memory) : (mapped : ℕ) → (start : ℤ) → Option (List UInt8)
  | 0, _ => none
  | mapped + 1, start =>
      if m start = 0 then some [] else (m.cString mapped (start + 1)).map (m start :: ·)

/-- **A zero-terminated string** is the run of bytes without a zero that a zero byte ends. -/
theorem cString_eq_some_iff {m : Memory} {mapped : ℕ} {start : ℤ} {bytes : List UInt8} :
    m.cString mapped start = some bytes ↔
      bytes.length < mapped ∧ m.slice start bytes.length = bytes ∧ 0 ∉ bytes ∧
        m (start + bytes.length) = 0 := by
  induction mapped generalizing start bytes with
  | zero => simp [cString]
  | succ mapped ih =>
      unfold cString
      by_cases hzero : m start = 0
      · rw [if_pos hzero, Option.some.injEq]
        constructor
        · rintro rfl
          simp [slice, hzero]
        · rintro ⟨-, hslice, hnone, -⟩
          cases bytes with
          | nil => rfl
          | cons b bs =>
              -- the first byte would be the zero
              rw [List.length_cons, slice_succ, List.cons.injEq] at hslice
              exact absurd (hslice.1.symm.trans hzero ▸ List.mem_cons_self) hnone
      · rw [if_neg hzero, Option.map_eq_some_iff]
        constructor
        · rintro ⟨bs, hbs, rfl⟩
          obtain ⟨hlt, hslice, hnone, hend⟩ := ih.mp hbs
          refine ⟨Nat.succ_lt_succ hlt, ?_, ?_, ?_⟩
          · rw [List.length_cons, slice_succ, hslice]
          · rw [List.mem_cons, not_or]
            exact ⟨fun heq => hzero heq.symm, hnone⟩
          · rw [List.length_cons, Nat.cast_succ, add_comm (bs.length : ℤ), ← add_assoc]
            exact hend
        · rintro ⟨hlt, hslice, hnone, hend⟩
          cases bytes with
          | nil =>
              rw [List.length_nil, Nat.cast_zero, add_zero] at hend
              exact absurd hend hzero
          | cons b bs =>
              rw [List.length_cons, slice_succ, List.cons.injEq] at hslice
              obtain ⟨rfl, hslice⟩ := hslice
              rw [List.length_cons] at hlt
              rw [List.length_cons, Nat.cast_succ, add_comm (bs.length : ℤ), ← add_assoc] at hend
              exact ⟨bs, ih.mpr ⟨Nat.lt_of_succ_lt_succ hlt, hslice,
                fun hmem => hnone (List.mem_cons_of_mem _ hmem), hend⟩, rfl⟩

end Memory

end AsabruEngine
