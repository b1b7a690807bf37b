import AsabruEngine.Library.Framing
import AsabruEngine.Wire.WriteBuffer
import Mathlib.Algebra.BigOperators.Ring.Finset

/-! # The written form

What a sequence of write calls leaves in the buffer: the calls' own outputs one after the other, and
a byte string that no other sequence of the same kinds starts with.

`prefixFree_encoded` says that what the calls of one kind write is a prefix-free code, so unique
decoding is the library's. `inRange_performAll_new` and `perform_mBuffer_of_written` keep a fresh
writer in range and what it has written in place, call by call;
`writtenForm_append_only_and_decodable` puts the two together. -/

namespace AsabruEngine

open Base128 ClickWriteProtoBuffer

namespace WriteCall

/-- The wire forms are a prefix code for each kind of call. -/
theorem prefixFree_encoded : PrefixFree kind encoded := by
  intro f g x y hkind heq
  -- calls of one kind only: numbers are self-delimiting, strings are sent after their length
  cases f with
  | writeVarint64 v =>
      cases g with
      | writeVarint64 v' =>
          rw [UInt64.toNat_inj.mp (encode_append_inj _ _ _ _ heq).1]
      | writeUInt64 v' => cases hkind
      | writeString s' => cases hkind
  | writeUInt64 v =>
      cases g with
      | writeVarint64 v' => cases hkind
      | writeUInt64 v' =>
          rw [UInt64.toNat_inj.mp (encode_append_inj _ _ _ _ heq).1]
      | writeString s' => cases hkind
  | writeString s =>
      cases g with
      | writeVarint64 v' => cases hkind
      | writeUInt64 v' => cases hkind
      | writeString s' => rw [lengthPrefixed_inj encode_append_inj heq]

/-- A call that fits leaves every byte written before as it was. -/
theorem perform_mBuffer_of_written {w : ClickWriteProtoBuffer} (h : w.InRange) {call : WriteCall}
    (hfits : w.Fits call.encoded) {i : ℤ} (hi : i ∈ w.written) :
    (perform w call).mBuffer i = w.mBuffer i := by
  rw [perform_of_fits h hfits]
  exact Memory.store_of_lt _ (h.written i hi).2

/-- After calls that fit, a further call that fits finds the writer in range and room left. -/
theorem inRange_performAll_new (heap : Memory) {buffer : CharArray} {done rest : List WriteCall}
    {call : WriteCall}
    (hfits : ((done ++ call :: rest).flatMap encoded).length ≤ buffer.bytes.length) :
    (performAll (new heap buffer) done).InRange ∧
      (performAll (new heap buffer) done).Fits call.encoded := by
  rw [List.flatMap_append, List.flatMap_cons, List.length_append, List.length_append] at hfits
  have hnew := ClickWriteProtoBuffer.inRange_new heap buffer
  have hdone : (new heap buffer).Fits (done.flatMap encoded) := by
    show (0 : ℤ) + _ ≤ (buffer.bytes.length : ℤ)
    omega
  rw [performAll_of_fits hnew hdone]
  refine ⟨hnew.append hdone, ?_⟩
  show (0 : ℤ) + _ + _ ≤ (buffer.bytes.length : ℤ)
  omega

end WriteCall

/-- What `GetBuffer` returns after the calls on a fresh writer. -/
def writtenBy (heap : Memory) (buffer : CharArray) (calls : List WriteCall) : Bytes × ℤ :=
  (WriteCall.performAll (ClickWriteProtoBuffer.new heap buffer) calls).getBuffer

/-- A call alone outputs its wire form. -/
theorem writtenBy_singleton (heap : Memory) {buffer : CharArray} {call : WriteCall}
    (hfits : call.encoded.length ≤ buffer.bytes.length) :
    writtenBy heap buffer [call] = (call.encoded, (call.encoded.length : ℤ)) := by
  have hfits' : ([call].flatMap WriteCall.encoded).length ≤ buffer.bytes.length := by
    rw [List.flatMap_singleton]
    exact hfits
  have h := WriteCall.getBuffer_performAll_new heap hfits'
  rw [List.flatMap_singleton] at h
  exact h

/-- The wire form of each of a list of calls is no longer than that of the list. -/
theorem length_encoded_le_of_mem {calls : List WriteCall} {call : WriteCall} (h : call ∈ calls) :
    call.encoded.length ≤ (calls.flatMap WriteCall.encoded).length := by
  obtain ⟨before, after, rfl⟩ := List.append_of_mem h
  rw [List.flatMap_append, List.flatMap_cons, List.length_append, List.length_append]
  omega

/-- **The written form is append-only and uniquely decodable.** Calls whose total output fits the
capacity leave the concatenation of what each of them outputs alone, with the sum of the lengths
reported, and no call alters a byte written before it; and where the output of one such sequence
starts the output of another one of the same kinds, the two sequences carry the same values. -/
theorem writtenForm_append_only_and_decodable (heap heap' : Memory) (buffer buffer' : CharArray)
    (calls calls' : List WriteCall)
    (hfits : (calls.flatMap WriteCall.encoded).length ≤ buffer.bytes.length)
    (hfits' : (calls'.flatMap WriteCall.encoded).length ≤ buffer'.bytes.length) :
    (writtenBy heap buffer calls).1 = calls.flatMap (fun call => (writtenBy heap buffer [call]).1) ∧
    (writtenBy heap buffer calls).2 = (calls.map fun call => (writtenBy heap buffer [call]).2).sum ∧
    (∀ done call rest, calls = done ++ call :: rest →
      ∀ i ∈ (WriteCall.performAll (new heap buffer) done).written,
        (WriteCall.perform (WriteCall.performAll (new heap buffer) done) call).mBuffer i =
          (WriteCall.performAll (new heap buffer) done).mBuffer i) ∧
    (calls.map WriteCall.kind = calls'.map WriteCall.kind →
      (writtenBy heap buffer calls).1 <+: (writtenBy heap' buffer' calls').1 → calls = calls') := by
  have hout : writtenBy heap buffer calls =
      (calls.flatMap WriteCall.encoded, ((calls.flatMap WriteCall.encoded).length : ℤ)) :=
    WriteCall.getBuffer_performAll_new heap hfits
  have hout' : writtenBy heap' buffer' calls' =
      (calls'.flatMap WriteCall.encoded, ((calls'.flatMap WriteCall.encoded).length : ℤ)) :=
    WriteCall.getBuffer_performAll_new heap' hfits'
  have halone : ∀ call ∈ calls,
      writtenBy heap buffer [call] = (call.encoded, (call.encoded.length : ℤ)) := fun call hmem =>
    writtenBy_singleton heap ((length_encoded_le_of_mem hmem).trans hfits)
  refine ⟨?_, ?_, ?_, ?_⟩
  · rw [hout]
    exact List.flatMap_congr fun call hmem => by rw [halone call hmem]
  · have hmap : (calls.map fun call => (writtenBy heap buffer [call]).2) =
        calls.map fun call => (call.encoded.length : ℤ) :=
      List.map_congr_left fun call hmem => by rw [halone call hmem]
    rw [hout, hmap, List.length_flatMap, Nat.cast_list_sum, List.map_map]
    rfl
  · -- the offsets written before lie before the cursor, and a call stores from there on
    rintro done call rest rfl i hi
    obtain ⟨hrange, hroom⟩ := WriteCall.inRange_performAll_new heap hfits
    exact WriteCall.perform_mBuffer_of_written hrange hroom hi
  · intro hkind hpre
    rw [hout, hout'] at hpre
    exact WriteCall.prefixFree_encoded.eq_of_prefix hkind hpre

/-- The written form on a fresh 16-byte buffer: a code and a string, and the code alone. -/
theorem writtenForm_of_code_and_string :
    (writtenBy (fun _ => 0) ⟨List.replicate 16 0, by decide⟩
        [.writeVarint64 300, .writeString [7, 8]]).1 =
      [WriteCall.writeVarint64 300, .writeString [7, 8]].flatMap
        (fun call => (writtenBy (fun _ => 0) ⟨List.replicate 16 0, by decide⟩ [call]).1) :=
  (writtenForm_append_only_and_decodable (fun _ => 0) (fun _ => 0) ⟨List.replicate 16 0, by decide⟩
    ⟨List.replicate 16 0, by decide⟩ [.writeVarint64 300, .writeString [7, 8]]
    [.writeVarint64 300] (by simp [WriteCall.encoded, encode]) (by
      simp [WriteCall.encoded, encode])).1

end AsabruEngine
