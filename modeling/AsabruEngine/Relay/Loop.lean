import AsabruEngine.Library.Runs
import AsabruEngine.Socket.Receive

/-! # The relay loop of a proxy session

`CProxySocket::ThreadHandler` relays bytes between a client and a target socket, through a handler,
in a loop whose body `LibuvProxySocket::ThreadHandler` has word for word. A `Session` is the state
at an iteration boundary, with what each direction has carried so far; `step` is one iteration, on
what the kernel and the handler answer in it. The two `try` blocks of the body are one definition,
for the peer that is read from.

* `relayFrom` is the block for one peer, and `Session.step` polls, runs both blocks and ends where
  one of them has cleared the flag.
* `Relayed` says in one place what a block does to its direction, and `Disconnects` when it clears
  the flag; `relayFrom_eq_some` and `step_eq_some` find them in every iteration, and the results
  about sessions are proved from these two. -/

namespace AsabruEngine

/-- The two sockets of a session. -/
inductive Peer
  | client
  | target
  deriving DecidableEq, Repr

/-! ## What the loop asks -/

/-- How one `select` ends. -/
inductive SelectAnswer
  /-- The sockets that are readable stay in the set. -/
  | ready (readable : Peer → Bool)
  | failed (errno : Errno)

/-- How a call of the handler ends. -/
inductive HandlerAnswer
  | returned (response : Bytes)
  /-- A `std::exception` leaves the call. -/
  | threw
  deriving DecidableEq, Repr

/-- What the `CProxyHandler` of a session answers during one iteration, as a function of the buffer.
Its answers may depend on `exec_context` and on anything else, so each iteration has its own. -/
structure CProxyHandler where
  handleUpstreamData : Bytes → HandlerAnswer
  handleDownStreamData : Bytes → HandlerAnswer

namespace CProxyHandler

/-- The call made on what is read from a peer. -/
def handle (handler : CProxyHandler) : Peer → Bytes → HandlerAnswer
  | .client => handler.handleUpstreamData
  | .target => handler.handleDownStreamData

/-- The handler that returns each buffer unchanged. -/
def unchanged : CProxyHandler := ⟨.returned, .returned⟩

@[simp] theorem handle_unchanged (peer : Peer) (bytes : Bytes) :
    unchanged.handle peer bytes = .returned bytes := by
  cases peer with
  | client => rfl
  | target => rfl

end CProxyHandler

/-- What the kernel and the handler answer in one iteration: to `select`, to the `recv` calls on
each peer, to the `send` of what was read from each peer, and the memory around the buffers sent. -/
structure Iteration where
  select : SelectAnswer
  recv : Peer → List RecvAnswer
  handler : CProxyHandler
  send : Peer → SendAnswer
  heap : Memory

/-! ## The loop -/

/-- `SocketSelect`: the sockets in `fds_`. -/
structure SocketSelect where
  fds : Peer → Bool

namespace SocketSelect

/-- The constructor, on both sockets. It catches the exception it throws where `select` fails, and
the set then still has both sockets. -/
def new : SelectAnswer → SocketSelect
  | .ready readable => ⟨readable⟩
  | .failed _ => ⟨fun _ => true⟩

/-- `Readable`. -/
def readable (sel : SocketSelect) (peer : Peer) : Bool := sel.fds peer

end SocketSelect

/-- What one direction of a session has carried: the bytes that `recv` delivered, the strings that
`ReceiveBytes` returned, the buffers passed to `SendBytes`, and the bytes the kernel took. -/
structure Channel where
  received : Bytes
  chunks : List Bytes
  sent : List Bytes
  accepted : Bytes
  deriving DecidableEq, Repr

/-- A session at an iteration boundary; `running` is false once the loop is left. -/
structure Session where
  upstream : Channel
  downstream : Channel
  running : Bool
  deriving DecidableEq, Repr

namespace Session

/-- The direction that carries what is read from a peer. -/
def channel (s : Session) : Peer → Channel
  | .client => s.upstream
  | .target => s.downstream

/-- Nothing carried yet. -/
def start : Session := ⟨⟨[], [], [], []⟩, ⟨[], [], [], []⟩, true⟩

/-- The `try` block that reads from a peer: the direction and `still_connected` after it. -/
def relayFrom (peer : Peer) (it : Iteration) (sel : SocketSelect) (channel : Channel)
    (stillConnected : Bool) : Option (Channel × Bool) :=
  if sel.readable peer then
    (Socket.receiveAll (it.recv peer)).bind fun bytes =>
      let read := { channel with
        received := channel.received ++ RecvAnswer.delivered (it.recv peer)
        chunks := channel.chunks ++ [bytes] }
      match it.handler.handle peer bytes with
      -- caught behind the block: nothing is sent, and the flag is not reached
      | .threw => some (read, stillConnected)
      | .returned response =>
          (Socket.sendBytes it.heap response (toInt32 response.length) (it.send peer)).map
            fun accepted =>
              ({ read with
                  sent := read.sent ++ [response]
                  accepted := read.accepted ++ accepted },
                -- `if (bytes.empty()) still_connected = false`
                if bytes = [] then false else stillConnected)
  else some (channel, stillConnected)

/-- One iteration of the loop, if the session is still in it and both calls of `ReceiveBytes` come
back. -/
def step (s : Session) (it : Iteration) : Option Session :=
  if s.running then
    let sel := SocketSelect.new it.select
    (relayFrom .client it sel s.upstream true).bind fun up =>
      (relayFrom .target it sel s.downstream up.2).map fun down =>
        -- `if (!still_connected) break`
        ⟨up.1, down.1, down.2⟩
  else none

end Session

/-! ## One iteration -/

namespace Iteration

/-- The loop reads from the peer. -/
def Polls (it : Iteration) (peer : Peer) : Prop :=
  (SocketSelect.new it.select).readable peer = true

instance (it : Iteration) (peer : Peer) : Decidable (it.Polls peer) :=
  inferInstanceAs (Decidable (_ = _))

/-- `ReceiveBytes` is called on the peer, and returns the empty string. -/
def ReceivesNothing (it : Iteration) (peer : Peer) : Prop :=
  it.Polls peer ∧ Socket.receiveAll (it.recv peer) = some []

instance (it : Iteration) (peer : Peer) : Decidable (it.ReceivesNothing peer) :=
  inferInstanceAs (Decidable (_ ∧ _))

/-- The loop reads from the peer, and the first `recv` that is not interrupted brings no byte. -/
def NothingComes (it : Iteration) (peer : Peer) : Prop :=
  it.Polls peer ∧ (RecvAnswer.first (it.recv peer) = some .closed ∨
    ∃ errno, RecvAnswer.first (it.recv peer) = some (.failed errno))

end Iteration

namespace Session

/-- What the block for a peer does to its direction. -/
inductive Relayed (peer : Peer) (it : Iteration) (channel channel' : Channel) : Prop
  /-- The peer is not readable. -/
  | idle (unpolled : ¬ it.Polls peer) (same : channel' = channel)
  /-- The handler throws on what was read. -/
  | dropped (bytes : Bytes) (polled : it.Polls peer)
      (read : Socket.receiveAll (it.recv peer) = some bytes)
      (handled : it.handler.handle peer bytes = .threw)
      (carried : channel' = { channel with
        received := channel.received ++ bytes, chunks := channel.chunks ++ [bytes] })
  /-- What the handler makes of it is sent. -/
  | passed (bytes response accepted : Bytes) (polled : it.Polls peer)
      (read : Socket.receiveAll (it.recv peer) = some bytes)
      (handled : it.handler.handle peer bytes = .returned response)
      (taken : Socket.sendBytes it.heap response (toInt32 response.length) (it.send peer) =
        some accepted)
      (carried : channel' = ⟨channel.received ++ bytes, channel.chunks ++ [bytes],
        channel.sent ++ [response], channel.accepted ++ accepted⟩)

/-- The block for a peer clears `still_connected`: the peer is read from, nothing comes, and the
handler does not throw on it. -/
def Disconnects (it : Iteration) (peer : Peer) : Prop :=
  it.NothingComes peer ∧ it.handler.handle peer [] ≠ .threw

/-- The block for a peer, told by its three ways through. -/
theorem relayFrom_eq_some {peer : Peer} {it : Iteration} {channel channel' : Channel}
    {stillConnected stillConnected' : Bool}
    (h : relayFrom peer it (SocketSelect.new it.select) channel stillConnected =
      some (channel', stillConnected')) :
    Relayed peer it channel channel' ∧
      (stillConnected' = true ↔ stillConnected = true ∧ ¬ Disconnects it peer) := by
  rw [relayFrom] at h
  split at h
  · rename_i hpolls
    rw [Option.bind_eq_some_iff] at h
    obtain ⟨bytes, hread, h⟩ := h
    have hdelivered := Socket.receiveAll_eq_some hread
    have hnil := Socket.receiveAll_eq_nil_iff hread
    cases hhandle : it.handler.handle peer bytes with
    | threw =>
        simp only [hhandle, Option.some.injEq, Prod.mk.injEq] at h
        obtain ⟨rfl, rfl⟩ := h
        refine ⟨.dropped bytes hpolls hread hhandle (by rw [hdelivered]), ?_⟩
        refine (and_iff_left ?_).symm
        rintro ⟨⟨-, hnothing⟩, hnot⟩
        rw [hnil.mpr hnothing] at hhandle
        exact hnot hhandle
    | returned response =>
        simp only [hhandle, Option.map_eq_some_iff, Prod.mk.injEq] at h
        obtain ⟨accepted, htaken, rfl, rfl⟩ := h
        refine ⟨.passed bytes response accepted hpolls hread hhandle htaken
          (by rw [hdelivered]), ?_⟩
        by_cases hbytes : bytes = []
        · have hdisconnects : Disconnects it peer := by
            refine ⟨⟨hpolls, hnil.mp hbytes⟩, ?_⟩
            rw [← hbytes, hhandle]
            exact HandlerAnswer.noConfusion
          simp [hbytes, hdisconnects]
        · have hstays : ¬ Disconnects it peer := fun hdisconnects =>
            hbytes (hnil.mpr hdisconnects.1.2)
          simp [hbytes, hstays]
  · rename_i hpolls
    simp only [Option.some.injEq, Prod.mk.injEq] at h
    obtain ⟨rfl, rfl⟩ := h
    exact ⟨.idle hpolls rfl, (and_iff_left fun hdisconnects => hpolls hdisconnects.1.1).symm⟩

/-- **One iteration**: each direction is relayed once, and the loop goes on exactly if neither block
clears the flag. -/
theorem step_eq_some {s s' : Session} {it : Iteration} (h : s.step it = some s') :
    s.running = true ∧ (∀ peer, Relayed peer it (s.channel peer) (s'.channel peer)) ∧
      (s'.running = true ↔ ∀ peer, ¬ Disconnects it peer) := by
  rw [step] at h
  split at h
  · rename_i hrunning
    simp only [Option.bind_eq_some_iff, Option.map_eq_some_iff] at h
    obtain ⟨⟨up, stillUp⟩, hup, ⟨down, stillDown⟩, hdown, rfl⟩ := h
    obtain ⟨hupstream, hup⟩ := relayFrom_eq_some hup
    obtain ⟨hdownstream, hdown⟩ := relayFrom_eq_some hdown
    refine ⟨hrunning, fun peer => ?_, ?_⟩
    · cases peer with
      | client => exact hupstream
      | target => exact hdownstream
    · rw [hdown, hup]
      constructor
      · rintro ⟨⟨-, hclient⟩, htarget⟩ (_ | _)
        · exact hclient
        · exact htarget
      · exact fun hall => ⟨⟨rfl, hall .client⟩, hall .target⟩
  · cases h

end Session

end AsabruEngine
