import AsabruEngine.Library.NodeMap

/-! # The connection pool and its proxies

`ConnectionPool` keeps its connections in two maps, the idle and the busy ones, and moves the node
of a connection from one to the other when it is handed out or released. A client gets a connection
through a `ConnectionProxy`, a pair of raw pointers whose destructor releases the connection.

A connection is named by its address, a pointer that may be null is an `Option`, and `ι` names the
pools. Every member of the pool runs under its mutex, so each is one function of the state. What the
connections answer, and the order in which a map is iterated, are arguments.

* `getConnection` searches with `getConnectionLoop` and `checkConnect`, and leaves a `HandOut`: the
  proxy, the pool, and the calls it has made on connections.
* `releaseConnection` is the member that takes a connection, `releaseConnectionProxy` the one that
  takes a proxy, and `destructor` that of a proxy, which calls the first.
* `heartBeat`, `size`, `sizeIdle`, `sizeBusy` and `valid` are what else is asked of a pool. -/

namespace AsabruEngine

open NodeMap

variable {ι Conn : Type*}

/-! ## Connections -/

/-- How a virtual call on a connection ends. -/
inductive Outcome
  | returned (result : Bool)
  /-- A `std::exception` leaves the call. -/
  | threw
  deriving DecidableEq, Repr

/-- What the connections of a pool answer during one call of the pool. -/
structure Answers (Conn : Type*) where
  heartBeat : Conn → Outcome
  isHealthy : Conn → Outcome
  connect : Conn → Outcome

/-- A virtual call made on a connection, with how it ended. -/
inductive Call (Conn : Type*)
  | heartBeat (connection : Conn) (outcome : Outcome)
  | isHealthy (connection : Conn) (outcome : Outcome)
  | connect (connection : Conn) (outcome : Outcome)
  deriving DecidableEq, Repr

/-- `check_connect`: its result and the calls it makes. -/
def checkConnect (answers : Answers Conn) (connection : Conn) : Bool × List (Call Conn) :=
  match answers.isHealthy connection with
  -- `if (!connection.is_healthy())` fails, and control reaches the final `return true`
  | .returned true => (true, [.isHealthy connection (.returned true)])
  | .returned false =>
      match answers.connect connection with
      | .returned result =>
          (result,
            [.isHealthy connection (.returned false), .connect connection (.returned result)])
      -- the exception is caught and logged, and control reaches the final `return true` as well
      | .threw => (true, [.isHealthy connection (.returned false), .connect connection .threw])
  | .threw => (true, [.isHealthy connection .threw])

/-! ## Proxies -/

/-- A `ConnectionProxy`. -/
structure ConnectionProxy (ι Conn : Type*) where
  mPool : Option ι
  mConnection : Option Conn
  deriving DecidableEq

namespace ConnectionProxy

/-- `ConnectionProxy{nullptr, nullptr}`. -/
def null : ConnectionProxy ι Conn := ⟨none, none⟩

/-- The move constructor, and the move assignment from another object, on the object moved from:
what the target holds afterwards and what `other` does. The target's old pointers play no part. -/
def moveFrom (other : ConnectionProxy ι Conn) : ConnectionProxy ι Conn × ConnectionProxy ι Conn :=
  (⟨other.mPool, other.mConnection⟩, ⟨none, none⟩)

end ConnectionProxy

/-! ## The pool -/

/-- The `std::vector<std::unique_ptr<Connection>>` a pool is built from, without null pointers. Two
owning pointers never own the same connection. -/
structure ConnectionVector (Conn : Type*) where
  connections : List Conn
  nodup : connections.Nodup

/-- A `ConnectionPool`: its two maps, and the connections destroyed with a node that found its key
taken. -/
structure ConnectionPool (Conn : Type*) where
  mConnectionsIdle : Map Conn Conn
  mConnectionsBusy : Map Conn Conn
  destroyed : List Conn

namespace ConnectionPool

variable [DecidableEq Conn]

/-- The connection in a node handle that goes out of scope. -/
def dropped (node : Node Conn Conn) : List Conn := (node.map Prod.snd).toList

/-- `m_connections_idle.emplace(key, std::move(connection))` with `key = connection.get()`. -/
def emplaceIdle (pool : ConnectionPool Conn) (connection : Conn) : ConnectionPool Conn :=
  let emplaced := insertNode pool.mConnectionsIdle (some (connection, connection))
  ⟨emplaced.1, pool.mConnectionsBusy, pool.destroyed ++ dropped emplaced.2⟩

/-- The constructor. -/
def new (vector : ConnectionVector Conn) : ConnectionPool Conn :=
  vector.connections.foldl emplaceIdle ⟨∅, ∅, []⟩

/-- `m_connections_busy.insert(m_connections_idle.extract(key))`. -/
def idleToBusy (pool : ConnectionPool Conn) (key : Conn) : ConnectionPool Conn :=
  let moved := transfer key pool.mConnectionsIdle pool.mConnectionsBusy
  ⟨moved.1, moved.2.1, pool.destroyed ++ dropped moved.2.2⟩

/-- `m_connections_idle.insert(m_connections_busy.extract(key))`. -/
def busyToIdle (pool : ConnectionPool Conn) (key : Conn) : ConnectionPool Conn :=
  let moved := transfer key pool.mConnectionsBusy pool.mConnectionsIdle
  ⟨moved.2.1, moved.1, pool.destroyed ++ dropped moved.2.2⟩

/-- What `get_connection` leaves: the proxy returned, the pool, and the calls made on the way. -/
structure HandOut (ι Conn : Type*) where
  proxy : ConnectionProxy ι Conn
  pool : ConnectionPool Conn
  calls : List (Call Conn)

/-- The loop of `get_connection` over the idle connections still to come. -/
def getConnectionLoop (this : ι) (pool : ConnectionPool Conn) (answers : Answers Conn) :
    List (Σ _ : Conn, Conn) → HandOut ι Conn
  | [] => ⟨.null, pool, []⟩
  | item :: items =>
      let checked := checkConnect answers item.2
      if !checked.1 then
        -- `continue`
        let later := getConnectionLoop this pool answers items
        ⟨later.proxy, later.pool, checked.2 ++ later.calls⟩
      else ⟨⟨some this, some item.1⟩, pool.idleToBusy item.1, checked.2⟩

/-- `get_connection` on the pool `this`, with the idle connections iterated in `order`. -/
def getConnection (this : ι) (pool : ConnectionPool Conn) (answers : Answers Conn)
    (order : List (Σ _ : Conn, Conn)) : HandOut ι Conn :=
  -- `m_connections_idle.empty()`
  if pool.mConnectionsIdle = ∅ then ⟨.null, pool, []⟩
  else getConnectionLoop this pool answers order

/-- The private `release_connection(Connection *)`. -/
def releaseConnection (pool : ConnectionPool Conn) : Option Conn → ConnectionPool Conn
  | none => pool
  | some connection =>
      -- whoever has the connection: only the pointer is looked up
      if connection ∈ pool.mConnectionsBusy then pool.busyToIdle connection else pool

/-- The public `release_connection(ConnectionProxy &&)`: the pool and the caller's proxy, which is
bound by reference, read, and left as it is. -/
def releaseConnectionProxy (pool : ConnectionPool Conn) (proxy : ConnectionProxy ι Conn) :
    ConnectionPool Conn × ConnectionProxy ι Conn :=
  (pool.releaseConnection proxy.mConnection, proxy)

/-- The loop of `heart_beat` over the idle connections; an exception ends it. -/
def heartBeatLoop (answers : Answers Conn) : List (Σ _ : Conn, Conn) → List (Call Conn)
  | [] => []
  | item :: items =>
      match answers.heartBeat item.2 with
      | .threw => [.heartBeat item.2 .threw]
      | .returned result =>
          .heartBeat item.2 (.returned result) :: heartBeatLoop answers items

/-- `heart_beat`: the maps are only read. -/
def heartBeat (pool : ConnectionPool Conn) (answers : Answers Conn)
    (order : List (Σ _ : Conn, Conn)) : ConnectionPool Conn × List (Call Conn) :=
  (pool, heartBeatLoop answers order)

/-- `size`. -/
def size (pool : ConnectionPool Conn) : ℕ :=
  pool.mConnectionsBusy.entries.card + pool.mConnectionsIdle.entries.card

/-- `size_idle`. -/
def sizeIdle (pool : ConnectionPool Conn) : ℕ := pool.mConnectionsIdle.entries.card

/-- `size_busy`. -/
def sizeBusy (pool : ConnectionPool Conn) : ℕ := pool.mConnectionsBusy.entries.card

end ConnectionPool

namespace ConnectionProxy

variable [DecidableEq Conn]

/-- The destructor, on the pools there are. -/
def destructor [DecidableEq ι] (proxy : ConnectionProxy ι Conn) (pools : ι → ConnectionPool Conn) :
    ι → ConnectionPool Conn :=
  match proxy.mPool with
  | none => pools
  | some pool => Function.update pools pool ((pools pool).releaseConnection proxy.mConnection)

theorem destructor_of_mPool_none [DecidableEq ι] {proxy : ConnectionProxy ι Conn}
    (h : proxy.mPool = none) (pools : ι → ConnectionPool Conn) :
    proxy.destructor pools = pools := by
  simp only [destructor, h]

theorem destructor_of_mPool_some [DecidableEq ι] {proxy : ConnectionProxy ι Conn} {i : ι}
    (h : proxy.mPool = some i) (pools : ι → ConnectionPool Conn) :
    proxy.destructor pools =
      Function.update pools i ((pools i).releaseConnection proxy.mConnection) := by
  simp only [destructor, h]

/-- The destructor of a proxy does not touch the pools it does not point to. -/
theorem destructor_apply_of_ne [DecidableEq ι] {proxy : ConnectionProxy ι Conn} {i : ι}
    (h : proxy.mPool ≠ some i) (pools : ι → ConnectionPool Conn) :
    proxy.destructor pools i = pools i := by
  cases hmPool : proxy.mPool with
  | none => rw [destructor_of_mPool_none hmPool]
  | some j =>
      rw [destructor_of_mPool_some hmPool, Function.update_of_ne]
      rintro rfl
      exact h hmPool

/-- `valid`. -/
def valid (proxy : ConnectionProxy ι Conn) (pools : ι → ConnectionPool Conn) : Bool :=
  match proxy.mPool, proxy.mConnection with
  | some pool, some connection => decide (connection ∈ (pools pool).mConnectionsBusy)
  | _, _ => false

end ConnectionProxy

end AsabruEngine
