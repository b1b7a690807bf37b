import AsabruEngine.Relay.Loop

/-! # The protocol thread

`CProtocolSocket::ThreadHandler` reads a chunk into a local buffer and hands it to the protocol
handler, turn after turn. The handler takes a `std::string`, so the buffer is converted from a
`char *`: up to its first zero byte, wherever that is.

* `receive` is a turn that reads a chunk: `filledBfr` is the local buffer behind the read, and the
  conversion is `Memory.cString`.
* `HandsOver` says that the handler was given what was read and that nothing beside the buffer was
  looked at. `ReadsIntact` is the condition on a turn: the chunk has no zero byte and leaves room
  for one.
* `handsOver_step_iff` decides one turn, and `handsOver_iff_readsIntact` a run. -/

namespace AsabruEngine

/-- The size of `bfr`. -/
def bfrBytes : ℕ := 32000

/-- What a successful `ReadSocketBuffer` stores at the start of `bfr`. -/
structure Chunk where
  bytes : Bytes
  nonempty : bytes ≠ []
  length_le : bytes.length ≤ bfrBytes

/-- What the `CProtocolHandler` of the socket answers during one turn, as a function of the buffer
and the length. -/
structure CProtocolHandler where
  handleData : Bytes → ℕ → HandlerAnswer

/-- One turn with a chunk: the stack around `bfr`, with the number of bytes after `bfr` that can be
read, the chunk, what the handler answers, and what `send` does with the response, in the heap that
it lies in. -/
structure ProtocolTurn where
  stack : Memory
  readable : ℕ
  chunk : Chunk
  handler : CProtocolHandler
  heap : Memory
  send : SendAnswer

/-- How the call of `ReadSocketBuffer` in a turn ends. -/
inductive ProtocolRead
  | received (turn : ProtocolTurn)
  | failed

/-- Where the thread is. -/
inductive ProtocolStatus
  | inLoop
  | returned
  /-- An exception has left its function. -/
  | threw
  /-- It has read memory that cannot be read. -/
  | crashed
  deriving DecidableEq, Repr

/-- The thread between two turns: the chunks stored so far, the arguments of the calls of
`HandleData`, the offsets that the conversions have read, and what was sent. -/
structure ProtocolThread where
  chunks : List Chunk
  handled : List (Bytes × ℕ)
  accessed : List ℤ
  sent : List Bytes
  status : ProtocolStatus

namespace ProtocolThread

/-- The loop is entered if there is a handler; without one the function returns. -/
def start (hasHandler : Bool) : ProtocolThread where
  chunks := []
  handled := []
  accessed := []
  sent := []
  status := if hasHandler then .inLoop else .returned

/-- `bfr` after `memset` and `ReadSocketBuffer`, in its stack. -/
def filledBfr (turn : ProtocolTurn) : Memory :=
  (turn.stack.store 0 (List.replicate bfrBytes 0)).store 0 turn.chunk.bytes

/-- `client_socket->SendBytes((char *)response.c_str(), response.size())`: the size is narrowed to
the `int` parameter, and the loop goes on whatever `send` does. -/
def sendResponse (turn : ProtocolTurn) (response : Bytes) (thread : ProtocolThread) :
    Option ProtocolThread :=
  (Socket.sendBytes turn.heap response (toInt32 response.length) turn.send).map fun taken =>
    { thread with sent := thread.sent ++ [taken] }

/-- A turn in which a chunk was read. -/
def receive (turn : ProtocolTurn) (thread : ProtocolThread) : Option ProtocolThread :=
  let thread := { thread with chunks := thread.chunks ++ [turn.chunk] }
  let numRead := turn.chunk.bytes.length
  -- the argument `std::string buffer` is constructed from the pointer alone
  match (filledBfr turn).cString (bfrBytes + turn.readable) 0 with
  | none =>
      some { thread with
        accessed := thread.accessed ++ Memory.offsets 0 (bfrBytes + turn.readable + 1)
        status := .crashed }
  | some buffer =>
      let thread := { thread with
        handled := thread.handled ++ [(buffer, numRead)]
        accessed := thread.accessed ++ Memory.offsets 0 (buffer.length + 1) }
      match turn.handler.handleData buffer numRead with
      | .returned response => thread.sendResponse turn response
      | .threw => some { thread with status := .threw }

/-- One turn of the loop, if the thread is in it. -/
def step (thread : ProtocolThread) (read : ProtocolRead) : Option ProtocolThread :=
  if thread.status = .inLoop then
    match read with
    | .received turn => thread.receive turn
    | .failed => some { thread with status := .returned }
  else none

/-! ## One turn -/

/-- After the last byte of the chunk `bfr` holds zeros. -/
theorem filledBfr_of_le (turn : ProtocolTurn) {i : ℤ} (hlo : turn.chunk.bytes.length ≤ i)
    (hhi : i < bfrBytes) : filledBfr turn i = 0 := by
  have hzero : (List.replicate bfrBytes (0 : UInt8))[i.toNat]? = some 0 := by
    rw [List.getElem?_replicate, if_pos (by omega)]
  unfold filledBfr
  rw [Memory.store_of_le (by omega), Memory.store, if_pos (by omega), sub_zero, hzero,
    Option.getD_some]

theorem slice_filledBfr (turn : ProtocolTurn) :
    (filledBfr turn).slice 0 turn.chunk.bytes.length = turn.chunk.bytes :=
  Memory.slice_store _ 0 _

/-- A chunk that is converted to itself: it has no zero byte, and leaves room for one. -/
def Intact (chunk : Chunk) : Prop := 0 ∉ chunk.bytes ∧ chunk.bytes.length < bfrBytes

/-- **An intact chunk is converted to itself**, and no other one is without a read outside `bfr`. -/
theorem cString_filledBfr_iff (turn : ProtocolTurn) :
    (∃ buffer, (filledBfr turn).cString (bfrBytes + turn.readable) 0 = some buffer ∧
      buffer = turn.chunk.bytes ∧ buffer.length < bfrBytes) ↔ Intact turn.chunk := by
  constructor
  · rintro ⟨_, hstring, rfl, hshort⟩
    obtain ⟨-, -, hnone, -⟩ := Memory.cString_eq_some_iff.mp hstring
    exact ⟨hnone, hshort⟩
  · rintro ⟨hnone, hshort⟩
    refine ⟨turn.chunk.bytes, Memory.cString_eq_some_iff.mpr ?_, rfl, hshort⟩
    exact ⟨by omega, slice_filledBfr turn, hnone, filledBfr_of_le turn (by omega) (by omega)⟩

/-- The handler was given every chunk, in order, with its length, and nothing outside `bfr` was
read. -/
structure HandsOver (thread : ProtocolThread) : Prop where
  handled : thread.handled = thread.chunks.map fun chunk => (chunk.bytes, chunk.bytes.length)
  inside : ∀ i ∈ thread.accessed, 0 ≤ i ∧ i < bfrBytes

theorem handsOver_start (hasHandler : Bool) : HandsOver (start hasHandler) :=
  ⟨rfl, fun _ h => absurd h List.not_mem_nil⟩

/-- What a turn with a chunk records. -/
theorem receive_records {turn : ProtocolTurn} {thread thread' : ProtocolThread}
    (h : thread.receive turn = some thread') :
    thread'.chunks = thread.chunks ++ [turn.chunk] ∧
      (((filledBfr turn).cString (bfrBytes + turn.readable) 0 = none ∧
          thread'.accessed =
            thread.accessed ++ Memory.offsets 0 (bfrBytes + turn.readable + 1)) ∨
        ∃ buffer, (filledBfr turn).cString (bfrBytes + turn.readable) 0 = some buffer ∧
          thread'.handled = thread.handled ++ [(buffer, turn.chunk.bytes.length)] ∧
          thread'.accessed = thread.accessed ++ Memory.offsets 0 (buffer.length + 1)) := by
  unfold receive at h
  simp only at h
  split at h
  · next hnone =>
      rw [Option.some.injEq] at h
      subst h
      exact ⟨rfl, .inl ⟨hnone, rfl⟩⟩
  · next buffer hbuffer =>
      split at h
      · rw [sendResponse, Option.map_eq_some_iff] at h
        obtain ⟨taken, -, rfl⟩ := h
        exact ⟨rfl, .inr ⟨buffer, hbuffer, rfl, rfl⟩⟩
      · rw [Option.some.injEq] at h
        subst h
        exact ⟨rfl, .inr ⟨buffer, hbuffer, rfl, rfl⟩⟩

/-- **A turn hands its chunk over exactly if the chunk is intact.** -/
theorem handsOver_receive_iff {turn : ProtocolTurn} {thread thread' : ProtocolThread}
    (hthread : HandsOver thread) (h : thread.receive turn = some thread') :
    HandsOver thread' ↔ Intact turn.chunk := by
  obtain ⟨hchunks, ⟨hnone, haccessed⟩ | ⟨buffer, hbuffer, hhandled, haccessed⟩⟩ :=
    receive_records h
  · -- no zero byte was found, so the byte after `bfr` was read
    refine iff_of_false (fun hafter => ?_) fun hintact => ?_
    · have hlast := hafter.inside bfrBytes (by
        rw [haccessed, List.mem_append, Memory.mem_offsets]
        exact .inr ⟨by omega, by omega⟩)
      omega
    · obtain ⟨buffer, hbuffer, -, -⟩ := (cString_filledBfr_iff turn).mpr hintact
      rw [hnone] at hbuffer
      cases hbuffer
  · rw [← cString_filledBfr_iff]
    constructor
    · intro hafter
      have hcalls := hafter.handled
      rw [hhandled, hchunks, hthread.handled, List.map_append, List.map_singleton] at hcalls
      obtain ⟨-, hcall⟩ := List.append_inj' hcalls rfl
      have hlast := hafter.inside buffer.length (by
        rw [haccessed, List.mem_append, Memory.mem_offsets]
        exact .inr ⟨by omega, by omega⟩)
      refine ⟨buffer, hbuffer, ?_, by omega⟩
      simpa using hcall
    · rintro ⟨_, hsame, rfl, hshort⟩
      rw [hbuffer, Option.some.injEq] at hsame
      subst hsame
      refine ⟨?_, fun i hi => ?_⟩
      · rw [hhandled, hchunks, hthread.handled, List.map_append, List.map_singleton]
      · rw [haccessed, List.mem_append, Memory.mem_offsets] at hi
        rcases hi with hi | hi
        · exact hthread.inside i hi
        · omega

/-! ## Runs of the thread -/

/-- The chunk read in a turn, if there is one, is intact. -/
def ReadsIntact : ProtocolRead → Prop
  | .received turn => Intact turn.chunk
  | .failed => True

theorem handsOver_step_iff {thread thread' : ProtocolThread} {read : ProtocolRead}
    (hthread : HandsOver thread) (hstep : thread.step read = some thread') :
    HandsOver thread' ↔ ReadsIntact read := by
  unfold step at hstep
  split at hstep
  · cases read with
    | received turn => exact handsOver_receive_iff hthread hstep
    | failed =>
        rw [Option.some.injEq] at hstep
        subst hstep
        exact iff_of_true ⟨hthread.handled, hthread.inside⟩ trivial
  · cases hstep

/-- **When the server hands over what it received.** For every sequence of chunks, whatever lies
around the buffer, whatever the handler answers and whatever `send` does: at every point the handler
has been called once for each chunk, in order, with exactly its bytes and their number, and nothing
outside `bfr` was read, if and only if every chunk read is without a zero byte and shorter than
`bfr`. -/
theorem handsOver_iff_readsIntact (hasHandler : Bool) (reads : List ProtocolRead) :
    Runs.Always step HandsOver (start hasHandler) reads ↔
      Runs.Along step (fun _ read => ReadsIntact read) (start hasHandler) reads :=
  Runs.always_iff_along step (fun _ h => h)
    (fun _ _ _ h hread hstep => (handsOver_step_iff h hstep).mpr hread)
    (fun _ _ _ h hread hstep hafter => hread ((handsOver_step_iff h hstep).mp hafter))
    (handsOver_start hasHandler) reads

/-- A turn with the start of a client hello packet, whose first byte is zero. -/
def helloTurn : ProtocolTurn where
  stack := fun _ => 0
  readable := 0
  chunk := ⟨[0, 1, 65], by decide, by decide⟩
  handler := ⟨fun _ _ => .returned []⟩
  heap := fun _ => 0
  send := .accepted 0

/-- The handler is given the empty string for a client hello packet. -/
theorem not_handsOver_hello :
    ¬ Runs.Always step HandsOver (start true) [.received helloTurn] := by
  intro hall
  obtain ⟨thread, hstep⟩ : ∃ thread, (start true).step (.received helloTurn) = some thread :=
    ⟨_, rfl⟩
  have hintact := (handsOver_step_iff (handsOver_start true) hstep).mp (hall.2 thread hstep)
  exact hintact.1 (by decide)

end ProtocolThread

end AsabruEngine
