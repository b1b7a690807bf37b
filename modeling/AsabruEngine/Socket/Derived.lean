import AsabruEngine.Socket.Objects

/-! # The classes over `Socket`

`CClientSocket` and `CServerSocket` open and close the descriptor of their `Socket` base, and a
`TcpConnection` owns a `CClientSocket`. Where a constructor throws, the destructor of the base that
is complete runs, and the destructor of the class does not.

* `CClientSocket`, `CServerSocket` and `TcpConnection` have the constructors, the destructors and
  the calls that open or close descriptors, under their names in the source. `ConnectAnswers` and
  `ServerAnswers` are what the system answers in them.
* `Opens` is what a constructor leaves that calls `socket` once; `opens_new` shows it of a client
  socket, and `new_leaks` of a server socket that it loses a descriptor. -/

namespace AsabruEngine

open Resources

/-- The counters that were there are as before. -/
structure Process.KeepsCounters (process process' : Process) : Prop where
  nextCounter_le : process.nextCounter ≤ process'.nextCounter
  counters_eq : ∀ a, a < process.nextCounter → process'.counters a = process.counters a

/-- What a constructor leaves that calls `socket` once, with the answer `s`. -/
inductive Opens (process : Process) (s : SOCKET) (object : Option Socket) (process' : Process) :
    Prop
  /-- `socket` fails. -/
  | refused (invalid : s = none) (noObject : object = none) (log : process'.log = process.log)
  /-- The object has the descriptor. -/
  | kept (fd : ℕ) (valid : s = some fd) (made : object = some ⟨s, process.nextCounter⟩)
      (log : process'.log = process.log ++ [.acquired fd])
      (counter : process'.counters process.nextCounter = 1)
      (allocated : process.nextCounter < process'.nextCounter)
  /-- The constructor throws behind it, and the descriptor is closed. -/
  | closed (fd : ℕ) (valid : s = some fd) (noObject : object = none)
      (log : process'.log = process.log ++ [.acquired fd, .released fd])

/-! ## `CClientSocket` -/

/-- Who a host record belongs to: `gethostbyname` gives out one of its own, `create_hostent` a new
one on the heap. -/
inductive HostRecord
  | library
  | heap
  deriving DecidableEq, Repr

/-- What `Connect` is answered: whether the host name is resolved, and whether `connect` works. -/
structure ConnectAnswers where
  resolves : Bool
  connects : Bool
  deriving DecidableEq, Repr

/-- How a call of `Connect` goes: the records it obtains, those it frees, and whether it returns. -/
structure Connect where
  obtained : List HostRecord
  freed : List HostRecord
  returns : Bool
  deriving DecidableEq, Repr

/-- A client socket. -/
structure CClientSocket extends Socket where
  mServerName : String
  mServerPort : ℤ
  deriving DecidableEq, Repr

namespace CClientSocket

/-- `isalpha(host[0])`; the first character of the empty string is the null character. -/
def isName (host : String) : Bool :=
  match host.toList with
  | c :: _ => c.isAlpha
  | [] => false

/-- `Resolve`: the record in `m_HostPointer`, or `none` for an exception. -/
def resolve (host : String) (resolves : Bool) : Option HostRecord :=
  if resolves then some (if isName host then .library else .heap) else none

/-- `Connect`. -/
def connect (this : CClientSocket) (answers : ConnectAnswers) : Connect :=
  match resolve this.mServerName answers.resolves with
  | none => ⟨[], [], false⟩
  | some record =>
      -- `free(m_HostPointer)` stands behind the exception of a failing `connect`
      if answers.connects then ⟨[record], [record], true⟩ else ⟨[record], [], false⟩

/-- `CClientSocket(server_name, client_port)`, where `socket` answers `s`. -/
def new (process : Process) (serverName : String) (clientPort : ℤ) (s : SOCKET)
    (answers : ConnectAnswers) : Option CClientSocket × Process :=
  match Socket.new process s with
  | (none, process) => (none, process)
  | (some base, process) =>
      let this : CClientSocket := ⟨base, serverName, clientPort⟩
      if (this.connect answers).returns then (some this, process)
      else (none, base.destructor process)

theorem connect_returns (this : CClientSocket) (answers : ConnectAnswers) :
    (this.connect answers).returns = (answers.resolves && answers.connects) := by
  rcases answers with ⟨_ | _, _ | _⟩
  · rfl
  · rfl
  · rfl
  · rfl

/-- A client socket is made exactly if every call for it succeeds. -/
theorem new_isSome_iff (process : Process) (serverName : String) (clientPort : ℤ) (s : SOCKET)
    (answers : ConnectAnswers) :
    (new process serverName clientPort s answers).1.isSome ↔
      s ≠ none ∧ answers.resolves = true ∧ answers.connects = true := by
  cases s with
  | none => simp [new, Socket.new]
  | some fd =>
      simp only [new, Socket.new, reduceCtorEq, if_false, connect_returns]
      split
      · rename_i h
        simpa using h
      · rename_i h
        simpa using h

theorem keepsCounters_new (process : Process) (serverName : String) (clientPort : ℤ) (s : SOCKET)
    (answers : ConnectAnswers) :
    process.KeepsCounters (new process serverName clientPort s answers).2 := by
  cases s with
  | none => exact ⟨le_refl _, fun _ _ => rfl⟩
  | some fd =>
      -- only the counter that comes next is written
      have hbase : ∀ a, a < process.nextCounter →
          (Function.update process.counters process.nextCounter 1) a = process.counters a :=
        fun a ha => Function.update_of_ne (Nat.ne_of_lt ha) _ _
      simp only [new, Socket.new, reduceCtorEq, if_false]
      split
      · exact ⟨Nat.le_succ _, hbase⟩
      · refine ⟨?_, fun a ha => ?_⟩
        · rw [Socket.destructor_nextCounter]
          exact Nat.le_succ _
        · rw [Socket.destructor_counters]
          show _ - (if process.nextCounter = a then 1 else 0) = process.counters a
          rw [if_neg (Nat.ne_of_gt ha), Int.sub_zero]
          exact hbase a ha

/-- A client socket is made on the descriptor, or `~Socket` closes it. -/
theorem opens_new (process : Process) (serverName : String) (clientPort : ℤ) (s : SOCKET)
    (answers : ConnectAnswers) :
    Opens process s ((new process serverName clientPort s answers).1.map (·.toSocket))
      (new process serverName clientPort s answers).2 := by
  cases s with
  | none => exact .refused rfl rfl (List.append_nil _)
  | some fd =>
      have hone : (Socket.withNewCounter ((Socket.start process).socket (some fd))
          (some fd)).2.counters process.nextCounter = 1 := Function.update_self _ _ _
      simp only [new, Socket.new, reduceCtorEq, if_false]
      split
      · exact .kept fd rfl rfl rfl hone (Nat.lt_succ_self _)
      · refine .closed fd rfl rfl ?_
        rw [Socket.destructor_log]
        exact (if_pos hone).trans (List.append_assoc _ _ _)

/-- `Reconnect`: the object, whether the call returns, and the process. The answer of `socket` is in
`s_` before `CreateSocket` looks at it. -/
def reconnect (this : CClientSocket) (process : Process) (s : SOCKET) (answers : ConnectAnswers) :
    CClientSocket × Bool × Process :=
  let process := (this.close process).socket s
  let this := { this with s := s }
  if s = none then (this, false, process) else (this, (this.connect answers).returns, process)

theorem reconnect_object (this : CClientSocket) (process : Process) (s : SOCKET)
    (answers : ConnectAnswers) :
    (this.reconnect process s answers).1 = { this with s := s } := by
  rw [reconnect]
  split
  · rfl
  · rfl

theorem reconnect_process (this : CClientSocket) (process : Process) (s : SOCKET)
    (answers : ConnectAnswers) :
    (this.reconnect process s answers).2.2 = (this.close process).socket s := by
  rw [reconnect]
  split
  · rfl
  · rfl

/-- `~CClientSocket`, and `~Socket` behind it. -/
def destructor (this : CClientSocket) (process : Process) : Process :=
  this.toSocket.destructor (this.close process)

end CClientSocket

/-! ## `CServerSocket` -/

/-- `TypeSocket`. -/
inductive TypeSocket
  | blockingSocket
  | nonBlockingSocket
  deriving DecidableEq, Repr

/-- `make_nonblocking`, where `fcntl` succeeds or does not. The descriptor is closed where it does
not. -/
def makeNonblocking (process : Process) (fd : SOCKET) (succeeds : Bool) : Process :=
  if succeeds then process else process.closeSocket fd

/-- What the constructor of `CServerSocket` is answered: the two calls of `socket`, `setsockopt` and
`fcntl`. -/
structure ServerAnswers where
  base : SOCKET
  s : SOCKET
  setsockopt : Bool
  fcntl : Bool
  deriving DecidableEq, Repr

/-- A listening socket. -/
structure CServerSocket extends Socket where
  mProtocolPort : ℤ
  maxConnections : ℤ
  deriving DecidableEq, Repr

namespace CServerSocket

/-- `CServerSocket(port, num_of_connections, type)`. The descriptor of the base is overwritten. -/
def new (process : Process) (port numOfConnections : ℤ) (type : TypeSocket)
    (answers : ServerAnswers) : Option CServerSocket × Process :=
  match Socket.new process answers.base with
  | (none, process) => (none, process)
  | (some base, process) =>
      let process := process.socket answers.s
      let this := { base with s := answers.s }
      if answers.s = none then (none, this.destructor process)
      else if answers.setsockopt = false then (none, this.destructor process)
      else
        let process := match type with
          | .nonBlockingSocket => makeNonblocking process this.s answers.fcntl
          | .blockingSocket => process
        (some ⟨this, port, numOfConnections⟩, process)

/-- The descriptor of the base is in no object, and is not closed. -/
theorem new_leaks (process : Process) (port numOfConnections : ℤ) (type : TypeSocket)
    {answers : ServerAnswers} {fd : ℕ} (hbase : answers.base = some fd)
    (hs : answers.s ≠ some fd) :
    (∀ this, (new process port numOfConnections type answers).1 = some this → this.s ≠ some fd) ∧
      .acquired fd ∈ (new process port numOfConnections type answers).2.log ∧
      releases (new process port numOfConnections type answers).2.log fd =
        releases process.log fd := by
  -- the process behind both calls of `socket`
  let opened :=
    ((Socket.withNewCounter ((Socket.start process).socket (some fd)) (some fd)).2).socket answers.s
  have hopened : .acquired fd ∈ opened.log :=
    List.mem_append_left _ (List.mem_append_right _ (List.mem_singleton_self _))
  have hreleases : releases opened.log fd = releases process.log fd := by
    rw [Process.releases_socket]
    exact Process.releases_socket _ (some fd) fd
  -- what is closed from there on is the other descriptor
  have hclosed : ∀ process : Process, releases (process.closeSocket answers.s).log fd =
      releases process.log fd := by
    intro process
    rw [Process.releases_closeSocket, if_neg hs]
    rfl
  have hthrown : ∀ refCounter, releases (Socket.destructor ⟨answers.s, refCounter⟩ opened).log fd =
      releases process.log fd := by
    intro refCounter
    rw [Socket.releases_destructor, if_neg (fun h => hs h.2)]
    exact hreleases
  simp only [new, Socket.new, hbase, reduceCtorEq, if_false]
  split
  · exact ⟨by simp, Socket.acquired_mem_destructor _ hopened, hthrown _⟩
  · split
    · exact ⟨by simp, Socket.acquired_mem_destructor _ hopened, hthrown _⟩
    · refine ⟨?_, ?_⟩
      · intro this hthis
        cases hthis
        exact hs
      · split
        · rw [makeNonblocking]
          split
          · exact ⟨hopened, hreleases⟩
          · exact ⟨Process.acquired_mem_closeSocket hopened _, (hclosed opened).trans hreleases⟩
        · exact ⟨hopened, hreleases⟩

end CServerSocket

/-! ## `TcpConnection` -/

/-- A pooled connection; `client_socket` is null or owns its object. -/
structure TcpConnection where
  connectionId : ℤ
  clientSocket : Option CClientSocket
  serverName : String
  serverPort : ℤ
  connected : Bool
  deriving DecidableEq, Repr

namespace TcpConnection

/-- `TcpConnection(connection_id, server_name, server_port)`. -/
def new (process : Process) (connectionId : ℤ) (serverName : String) (serverPort : ℤ) (s : SOCKET)
    (answers : ConnectAnswers) : Option TcpConnection × Process :=
  let (clientSocket, process) := CClientSocket.new process serverName serverPort s answers
  (clientSocket.map fun object => ⟨connectionId, some object, serverName, serverPort, false⟩,
    process)

/-- The constructor leaves no null pointer: an exception of the client socket leaves it. -/
theorem clientSocket_of_new {process process' : Process} {connectionId : ℤ} {serverName : String}
    {serverPort : ℤ} {s : SOCKET} {answers : ConnectAnswers} {this : TcpConnection}
    (h : new process connectionId serverName serverPort s answers = (some this, process')) :
    this.clientSocket ≠ none := by
  unfold new at h
  obtain ⟨object, -, rfl⟩ := Option.map_eq_some_iff.mp (congrArg Prod.fst h)
  simp

/-- `heart_beat`. -/
def heartBeat (this : TcpConnection) : Bool := this.connected

/-- `is_healthy`. -/
def isHealthy (_this : TcpConnection) : Bool := false

/-- `connect`, and whether it returns; `none` where the null pointer is dereferenced. -/
def connect (this : TcpConnection) (process : Process) (s : SOCKET) (answers : ConnectAnswers) :
    Option (TcpConnection × Bool × Process) :=
  this.clientSocket.map fun clientSocket =>
    let (clientSocket, returns, process) := clientSocket.reconnect process s answers
    ({ this with
        clientSocket := some clientSocket
        -- not reached by an exception
        connected := if returns then true else this.connected },
      returns, process)

/-- `connect` is the `Reconnect` of the client socket. -/
theorem connect_eq_some {this object : TcpConnection} {process process' : Process} {s : SOCKET}
    {answers : ConnectAnswers} {returns : Bool}
    (h : this.connect process s answers = some (object, returns, process')) :
    ∃ clientSocket, this.clientSocket = some clientSocket ∧
      object.clientSocket = some { clientSocket with s := s } ∧
      process' = (clientSocket.close process).socket s := by
  obtain ⟨clientSocket, hclient, h⟩ := Option.map_eq_some_iff.mp h
  have hobject := clientSocket.reconnect_object process s answers
  have hprocess := clientSocket.reconnect_process process s answers
  rcases hreconnect : clientSocket.reconnect process s answers with ⟨made, returned, left⟩
  rw [hreconnect] at h hobject hprocess
  cases h
  exact ⟨clientSocket, hclient, congrArg some hobject, hprocess⟩

/-- `connect` has no test for the null pointer. -/
theorem connect_eq_none_iff {this : TcpConnection} {process : Process} {s : SOCKET}
    {answers : ConnectAnswers} :
    this.connect process s answers = none ↔ this.clientSocket = none := by
  rw [connect, Option.map_eq_none_iff]

/-- `connect` returns true if it returns. -/
theorem connected_of_connect {this object : TcpConnection} {process process' : Process} {s : SOCKET}
    {answers : ConnectAnswers}
    (h : this.connect process s answers = some (object, true, process')) :
    object.connected = true := by
  obtain ⟨clientSocket, -, h⟩ := Option.map_eq_some_iff.mp h
  rcases hreconnect : clientSocket.reconnect process s answers with ⟨made, returned, left⟩
  rw [hreconnect] at h
  cases h
  rfl

/-- `disconnect`. -/
def disconnect (this : TcpConnection) (process : Process) : TcpConnection × Process :=
  let process := match this.clientSocket with
    | some clientSocket => clientSocket.destructor (clientSocket.close process)
    | none => process
  ({ this with clientSocket := none, connected := false }, process)

theorem disconnect_of_null {this : TcpConnection} (h : this.clientSocket = none)
    (process : Process) : (this.disconnect process).2 = process := by
  simp [disconnect, h]

theorem disconnect_of_client {this : TcpConnection} {clientSocket : CClientSocket}
    (h : this.clientSocket = some clientSocket) (process : Process) :
    (this.disconnect process).2 = clientSocket.destructor (clientSocket.close process) := by
  simp [disconnect, h]

/-- `~TcpConnection`. -/
def destructor (this : TcpConnection) (process : Process) : Process :=
  (this.disconnect process).2

end TcpConnection

end AsabruEngine
