import AsabruEngine.Pool.Conservation
import AsabruEngine.Socket.Derived

/-! # A pool of TCP connections

The factory fills a pool with `TcpConnection` objects. The pool calls them while it searches, the
clients call them through their proxies, and they are destroyed with the pool. `disconnect` tests
`client_socket` and leaves it null, `connect` dereferences it without a test: what one client
disconnects, the search of another one dereferences.

The connections are named by their `connection_id`, from `0` on. Calls run one after the other here.
The pool sees to that by its mutex, but calls through proxies take no lock: two of them on one
connection, or one of them and a search, may overlap, and what they do then is not described.

* `create` is the factory, `perform` makes one call `Op` on the pool and its connections, and `step`
  does so while the pool still works.
* `Inv` compares the null pointers with the connections that clients have disconnected, and
  `SparesDisconnected` is the condition on a call.
* `inv_step` and `nullDereferenced_step` are the two directions for one call, and
  `neverDereferencesNull_iff_sparesDisconnected` has them for runs. -/

namespace AsabruEngine

open NodeMap

/-- What `socket` and `Connect` are answered in a `connect` of each connection. -/
abbrev Network (Conn : Type*) := Conn → SOCKET × ConnectAnswers

/-- Whether the pool still works. -/
inductive Status
  | running
  | destroyed
  /-- A null `client_socket` was dereferenced; nothing is known from there on. -/
  | nullDereferenced
  deriving DecidableEq, Repr

/-- A pool of `n` TCP connections with its proxies. -/
structure TcpPool (n : ℕ) (π : Type*) where
  world : World Unit π (Fin n)
  objects : Fin n → TcpConnection
  process : Process
  /-- The connections that clients have called `disconnect` on. -/
  disconnected : Finset (Fin n)
  status : Status

namespace TcpPool

variable {n : ℕ} {π : Type*}

/-! ## The factory -/

/-- The loop of `create`; an exception of a constructor leaves it. -/
def createConnections (serverName : String) (serverPort : ℤ) (network : Network ℕ)
    (process : Process) :
    (numConnections : ℕ) → Option (Vector TcpConnection numConnections × Process)
  | 0 => some (#v[], process)
  | k + 1 =>
      match createConnections serverName serverPort network process k with
      | none => none
      | some (connections, process) =>
          match TcpConnection.new process k serverName serverPort (network k).1 (network k).2 with
          | (none, _) => none
          | (some this, process) => some (connections.push this, process)

/-- The vector that the pool takes over. -/
def vector (n : ℕ) : ConnectionVector (Fin n) := ⟨List.finRange n, List.nodup_finRange n⟩

/-- `ConnectionPoolFactory<TcpConnection>::create`. -/
def create (serverName : String) (serverPort : ℤ) (network : Network ℕ) (process : Process)
    (numConnections : ℕ) : Option (TcpPool numConnections π) :=
  (createConnections serverName serverPort network process numConnections).map
    fun (connections, process) =>
      ⟨.start fun _ => vector numConnections, connections.get, process, ∅, .running⟩

/-! ## The calls -/

/-- How `connect` ends on a connection. Where it dereferences the null pointer it has no outcome,
and what stands here is not used. -/
def connectOutcome (w : TcpPool n π) (network : Network (Fin n)) (c : Fin n) : Outcome :=
  match (w.objects c).connect w.process (network c).1 (network c).2 with
  | some (object, true, _) => .returned object.connected
  | some (_, false, _) => .threw
  | none => .threw

/-- What the connections answer the pool. -/
def answers (w : TcpPool n π) (network : Network (Fin n)) : Answers (Fin n) where
  heartBeat c := .returned (w.objects c).heartBeat
  isHealthy c := .returned (w.objects c).isHealthy
  connect := w.connectOutcome network

/-- `connect` on a connection; `none` where it dereferences the null pointer. -/
def connect (w : TcpPool n π) (network : Network (Fin n)) (c : Fin n) : Option (TcpPool n π) :=
  ((w.objects c).connect w.process (network c).1 (network c).2).map fun (object, _, process) =>
    { w with objects := Function.update w.objects c object, process := process }

/-- `disconnect` on a connection. -/
def disconnect (w : TcpPool n π) (c : Fin n) : TcpPool n π :=
  let (object, process) := (w.objects c).disconnect w.process
  { w with
    objects := Function.update w.objects c object
    process := process
    disconnected := insert c w.disconnected }

/-- What a call of the pool does to the connection it is made on. -/
def dispatch (network : Network (Fin n)) (w : TcpPool n π) : Call (Fin n) → Option (TcpPool n π)
  | .heartBeat _ _ => some w
  | .isHealthy _ _ => some w
  | .connect c _ => w.connect network c

/-- The state behind a call that dereferences the null pointer. -/
def dereferenceNull (w : TcpPool n π) : TcpPool n π := { w with status := .nullDereferenced }

/-- The state with the pool and the proxies of another one. -/
def withWorld (w : TcpPool n π) (world : World Unit π (Fin n)) : TcpPool n π :=
  { w with world := world }

/-- A call of a client: on the pool, on a proxy, on a connection through a proxy, and the end of the
pool. -/
inductive Op (n : ℕ) (π : Type*)
  | getConnection (dst : π) (network : Network (Fin n)) (order : List (Σ _ : Fin n, Fin n))
  | releaseConnection (p : π)
  | heartBeat (order : List (Σ _ : Fin n, Fin n))
  | moveConstruct (src dst : π)
  | moveAssign (src dst : π)
  | destroy (p : π)
  | connect (p : π) (network : Network (Fin n))
  | disconnect (p : π)
  | connectionHeartBeat (p : π)
  | isHealthy (p : π)
  | destroyPool (busy idle : List (Σ _ : Fin n, Fin n))

variable [DecidableEq π]

/-- One call, while the pool is there. -/
def perform (w : TcpPool n π) : Op n π → Option (TcpPool n π)
  | .getConnection dst network order =>
      let answers := w.answers network
      let result := (w.world.pools ()).getConnection () answers order
      (w.world.step (.getConnection () dst answers order)).map fun world =>
        (result.calls.foldlM (dispatch network) (w.withWorld world)).getD w.dereferenceNull
  | .releaseConnection p => (w.world.step (.releaseConnection () p)).map w.withWorld
  | .heartBeat order =>
      -- `heart_beat` connects nothing, so the network is not asked
      let answers := w.answers fun _ => (none, ⟨false, false⟩)
      (w.world.step (.heartBeat () answers order)).map w.withWorld
  | .moveConstruct src dst => (w.world.step (.moveConstruct src dst)).map w.withWorld
  | .moveAssign src dst => (w.world.step (.moveAssign src dst)).map w.withWorld
  | .destroy p => (w.world.step (.destroy p)).map w.withWorld
  | .connect p network =>
      (w.world.connectionOf p).map fun c => (w.connect network c).getD w.dereferenceNull
  | .disconnect p => (w.world.connectionOf p).map w.disconnect
  | .connectionHeartBeat p => (w.world.connectionOf p).map fun _ => w
  | .isHealthy p => (w.world.connectionOf p).map fun _ => w
  | .destroyPool busy idle =>
      if Iterates busy (w.world.pools ()).mConnectionsBusy ∧
          Iterates idle (w.world.pools ()).mConnectionsIdle then
        -- the map declared last is destroyed first
        let process := (busy ++ idle).foldl
          (fun process item => (w.objects item.2).destructor process) w.process
        some { w with process := process, status := .destroyed }
      else none

/-- One call; there is none behind the end of the pool. -/
def step (w : TcpPool n π) (op : Op n π) : Option (TcpPool n π) :=
  if w.status = .running then w.perform op else none

/-- The condition on a call: a client does not connect a connection that was disconnected before,
and `get_connection` does not meet one first. -/
def SparesDisconnected (w : TcpPool n π) : Op n π → Prop
  | .getConnection _ _ order => ∀ item, order.head? = some item → item.1 ∉ w.disconnected
  | .connect p _ => ∀ c, w.world.connectionOf p = some c → c ∉ w.disconnected
  | _ => True

/-! ## The search -/

omit [DecidableEq π] in
/-- No TCP connection is refused: it is never healthy, and `connect` returns true or throws. -/
theorem checkConnect_answers (w : TcpPool n π) (network : Network (Fin n)) (c : Fin n) :
    checkConnect (w.answers network) c =
      (true, [.isHealthy c (.returned false), .connect c (w.connectOutcome network c)]) := by
  have hnotFalse : w.connectOutcome network c ≠ .returned false := by
    unfold connectOutcome
    split
    · rename_i hconnect
      rw [TcpConnection.connected_of_connect hconnect]
      simp
    · simp
    · simp
  unfold checkConnect
  simp only [answers, TcpConnection.isHealthy]
  cases houtcome : w.connectOutcome network c with
  | returned result =>
      cases result with
      | false => exact absurd houtcome hnotFalse
      | true => rfl
  | threw => rfl

omit [DecidableEq π] in
/-- **The search connects the first idle connection**, and no other one. -/
theorem dispatch_getConnection {w : TcpPool n π} {l : Lending (Fin n)}
    (hpool : (w.world.pools ()).Represents l) (network : Network (Fin n))
    {order : List (Σ _ : Fin n, Fin n)}
    (horder : Iterates order (w.world.pools ()).mConnectionsIdle) (world : World Unit π (Fin n)) :
    ((w.world.pools ()).getConnection () (w.answers network) order).calls.foldlM
        (dispatch network) (w.withWorld world) =
      match order.head? with
      | none => some (w.withWorld world)
      | some item => (w.withWorld world).connect network item.1 := by
  rw [ConnectionPool.getConnection_eq_loop () _ horder]
  cases order with
  | nil => rfl
  | cons item items =>
      have hown : item.2 = item.1 := hpool.idle_owns.eq_of_mem horder List.mem_cons_self
      simp only [ConnectionPool.getConnectionLoop, checkConnect_answers, Bool.not_true,
        Bool.false_eq_true, if_false, List.foldlM_cons, List.foldlM_nil, List.head?_cons, hown]
      simp [dispatch]

/-! ## The null pointers -/

/-- What the pool keeps until a null pointer is dereferenced: the connections without a client
socket are those that clients have disconnected. -/
structure Inv (w : TcpPool n π) : Prop where
  sound : World.Sound (fun _ => vector n) w.world
  null_iff : ∀ c, (w.objects c).clientSocket = none ↔ c ∈ w.disconnected
  intact : w.status ≠ .nullDereferenced

omit [DecidableEq π] in
theorem connect_eq_none_iff {w : TcpPool n π} {network : Network (Fin n)} {c : Fin n} :
    w.connect network c = none ↔ (w.objects c).clientSocket = none := by
  unfold connect
  rw [Option.map_eq_none_iff, TcpConnection.connect_eq_none_iff]

omit [DecidableEq π] in
/-- A `connect` that dereferences no null pointer leaves none behind. -/
theorem Inv.connect {w w' : TcpPool n π} (h : w.Inv) {network : Network (Fin n)} {c : Fin n}
    (hconnect : w.connect network c = some w') : w'.Inv := by
  unfold TcpPool.connect at hconnect
  obtain ⟨⟨object, returns, process⟩, hobject, rfl⟩ := Option.map_eq_some_iff.mp hconnect
  obtain ⟨clientSocket, hbefore, hafter, -⟩ := TcpConnection.connect_eq_some hobject
  refine ⟨h.sound, fun d => ?_, h.intact⟩
  show (Function.update w.objects c object d).clientSocket = none ↔ d ∈ w.disconnected
  rw [← h.null_iff d]
  by_cases hd : d = c
  · subst hd
    rw [Function.update_self, hafter, hbefore]
    simp
  · rw [Function.update_of_ne hd]

omit [DecidableEq π] in
/-- **`connect`** keeps the pool, or dereferences the null pointer that `disconnect` left. -/
theorem Inv.connect_or_null {w : TcpPool n π} (h : w.Inv) (network : Network (Fin n)) (c : Fin n)
    (w₀ : TcpPool n π) :
    (c ∉ w.disconnected → ((w.connect network c).getD w₀.dereferenceNull).Inv) ∧
      (c ∈ w.disconnected →
        ((w.connect network c).getD w₀.dereferenceNull).status = .nullDereferenced) := by
  have hnull : w.connect network c = none ↔ c ∈ w.disconnected :=
    connect_eq_none_iff.trans (h.null_iff c)
  rw [← hnull]
  cases hconnect : w.connect network c with
  | none => exact ⟨fun hne => absurd rfl hne, fun _ => rfl⟩
  | some w' => exact ⟨fun _ => h.connect hconnect, fun hnull => by cases hnull⟩

omit [DecidableEq π] in
theorem Inv.disconnect {w : TcpPool n π} (h : w.Inv) (c : Fin n) : (w.disconnect c).Inv := by
  refine ⟨h.sound, fun d => ?_, h.intact⟩
  show (Function.update w.objects c ((w.objects c).disconnect w.process).1 d).clientSocket = none ↔
    d ∈ insert c w.disconnected
  by_cases hd : d = c
  · subst hd
    rw [Function.update_self]
    exact iff_of_true rfl (Finset.mem_insert_self _ _)
  · rw [Function.update_of_ne hd, Finset.mem_insert, h.null_iff d]
    exact (or_iff_right hd).symm

/-- The calls on the pool and on the proxies touch no connection. -/
theorem Inv.withWorld {w w' : TcpPool n π} (h : w.Inv) {op : AsabruEngine.Op Unit π (Fin n)}
    (hstep : (w.world.step op).map w.withWorld = some w') : w'.Inv := by
  obtain ⟨world, hworld, rfl⟩ := Option.map_eq_some_iff.mp hstep
  exact ⟨World.sound_step h.sound hworld, h.null_iff, h.intact⟩

theorem step_eq_some {w w' : TcpPool n π} {op : Op n π} :
    w.step op = some w' ↔ w.status = .running ∧ w.perform op = some w' := by
  unfold step
  split
  · rename_i hrunning
    exact (and_iff_right hrunning).symm
  · rename_i hstopped
    exact iff_of_false (by simp) fun h => hstopped h.1

/-- **`get_connection`** dereferences a null pointer exactly where the first idle connection has
been disconnected. -/
theorem Inv.getConnection {w w' : TcpPool n π} (h : w.Inv) {dst : π} {network : Network (Fin n)}
    {order : List (Σ _ : Fin n, Fin n)}
    (hstep : w.perform (.getConnection dst network order) = some w') :
    (w.SparesDisconnected (.getConnection dst network order) → w'.Inv) ∧
      (¬ w.SparesDisconnected (.getConnection dst network order) →
        w'.status = .nullDereferenced) := by
  obtain ⟨world, hworld, rfl⟩ := Option.map_eq_some_iff.mp hstep
  obtain ⟨-, horder, -⟩ := World.step_getConnection.mp hworld
  obtain ⟨l, -, hpool⟩ := h.sound ()
  have hmoved : (w.withWorld world).Inv :=
    ⟨World.sound_step h.sound hworld, h.null_iff, h.intact⟩
  rw [dispatch_getConnection hpool network horder]
  cases order with
  | nil =>
      refine ⟨fun _ => hmoved, fun hspares => absurd ?_ hspares⟩
      intro item hitem
      cases hitem
  | cons item items =>
      have hspares : w.SparesDisconnected (.getConnection dst network (item :: items)) ↔
          item.1 ∉ w.disconnected := by
        constructor
        · exact fun hall => hall item rfl
        · rintro hitem _ ⟨⟩
          exact hitem
      rw [hspares, not_not]
      exact hmoved.connect_or_null network item.1 w

/-- A client's `connect` dereferences a null pointer exactly where the connection has been
disconnected. -/
theorem Inv.connectThrough {w w' : TcpPool n π} (h : w.Inv) {p : π} {network : Network (Fin n)}
    (hstep : w.perform (.connect p network) = some w') :
    (w.SparesDisconnected (.connect p network) → w'.Inv) ∧
      (¬ w.SparesDisconnected (.connect p network) → w'.status = .nullDereferenced) := by
  obtain ⟨c, hc, rfl⟩ := Option.map_eq_some_iff.mp hstep
  have hspares : w.SparesDisconnected (.connect p network) ↔ c ∉ w.disconnected := by
    constructor
    · exact fun hall => hall c hc
    · intro hfresh d hd
      rw [hc, Option.some.injEq] at hd
      exact hd ▸ hfresh
  rw [hspares, not_not]
  exact h.connect_or_null network c w

/-! ## The runs -/

theorem inv_step {w w' : TcpPool n π} {op : Op n π} (h : w.Inv) (hspares : w.SparesDisconnected op)
    (hstep : w.step op = some w') : w'.Inv := by
  obtain ⟨-, hstep⟩ := step_eq_some.mp hstep
  cases op with
  | getConnection dst network order => exact (h.getConnection hstep).1 hspares
  | connect p network => exact (h.connectThrough hstep).1 hspares
  | releaseConnection p => exact h.withWorld hstep
  | heartBeat order => exact h.withWorld hstep
  | moveConstruct src dst => exact h.withWorld hstep
  | moveAssign src dst => exact h.withWorld hstep
  | destroy p => exact h.withWorld hstep
  | disconnect p =>
      obtain ⟨c, -, rfl⟩ := Option.map_eq_some_iff.mp hstep
      exact h.disconnect c
  | connectionHeartBeat p =>
      obtain ⟨-, -, rfl⟩ := Option.map_eq_some_iff.mp hstep
      exact h
  | isHealthy p =>
      obtain ⟨-, -, rfl⟩ := Option.map_eq_some_iff.mp hstep
      exact h
  | destroyPool busy idle =>
      simp only [perform] at hstep
      split at hstep
      · cases hstep
        -- the destructor tests `client_socket`, as `disconnect` does
        exact ⟨h.sound, h.null_iff, by simp⟩
      · cases hstep

theorem nullDereferenced_step {w w' : TcpPool n π} {op : Op n π} (h : w.Inv)
    (hspares : ¬ w.SparesDisconnected op) (hstep : w.step op = some w') :
    w'.status = .nullDereferenced := by
  obtain ⟨-, hstep⟩ := step_eq_some.mp hstep
  cases op with
  | getConnection dst network order => exact (h.getConnection hstep).2 hspares
  | connect p network => exact (h.connectThrough hstep).2 hspares
  | _ => exact absurd trivial hspares

/-- The factory leaves no null pointer. -/
theorem clientSocket_createConnections {serverName : String} {serverPort : ℤ} {network : Network ℕ}
    {process process' : Process} {numConnections : ℕ}
    {connections : Vector TcpConnection numConnections}
    (h : createConnections serverName serverPort network process numConnections =
      some (connections, process')) (c : Fin numConnections) :
    (connections.get c).clientSocket ≠ none := by
  -- on the connections still to be made; the last one is pushed behind those of the hypothesis
  induction numConnections generalizing process' with
  | zero => exact c.elim0
  | succ k ih =>
      unfold createConnections at h
      split at h
      · cases h
      · rename_i earlier left hearlier
        split at h
        · cases h
        · rename_i this made hnew
          cases h
          show ((earlier.push this)[c.val]).clientSocket ≠ none
          rw [Vector.getElem_push]
          split
          · rename_i hc
            exact ih hearlier ⟨c.val, hc⟩
          · exact TcpConnection.clientSocket_of_new hnew

omit [DecidableEq π] in
/-- What the factory makes has no null pointers, and nothing is disconnected. -/
theorem inv_create {serverName : String} {serverPort : ℤ} {network : Network ℕ} {process : Process}
    {w : TcpPool n π} (h : create serverName serverPort network process n = some w) : w.Inv := by
  obtain ⟨⟨connections, left⟩, hconnections, rfl⟩ := Option.map_eq_some_iff.mp h
  refine ⟨World.sound_start _, fun c => ?_, by simp⟩
  exact iff_of_false (clientSocket_createConnections hconnections c) (Finset.notMem_empty c)

/-- **When no null pointer is dereferenced.** In a run of any calls on a new pool of TCP
connections, whatever the network answers, no `TcpConnection` dereferences a null `client_socket`
exactly when no client connects a connection that was disconnected before, and no `get_connection`
meets one first. -/
theorem neverDereferencesNull_iff_sparesDisconnected (serverName : String) (serverPort : ℤ)
    (network : Network ℕ) (process : Process) (w : TcpPool n π)
    (hcreate : create serverName serverPort network process n = some w) (ops : List (Op n π)) :
    Runs.Always step (fun w => w.status ≠ .nullDereferenced) w ops ↔
      Runs.Along step SparesDisconnected w ops := by
  refine Runs.always_iff_along step (I := Inv) (fun _ h => h.intact) ?_ ?_ (inv_create hcreate) ops
  · exact fun w op w' h hspares hstep => inv_step h hspares hstep
  · intro w op w' h hspares hstep hintact
    exact hintact (nullDereferenced_step h hspares hstep)

/-- The one connection of a pool is connected by the search and by its client, which disconnects it
last. -/
theorem neverDereferencesNull_iff_sparesDisconnected_connected :
    let network : Network (Fin 1) := fun _ => (some 4, ⟨true, true⟩)
    let pool : Option (TcpPool 1 Bool) :=
      create "127.0.0.1" 9000 (fun _ => (some 3, ⟨true, true⟩)) .empty 1
    ∃ w, pool = some w ∧ Runs.Always step (fun w => w.status ≠ .nullDereferenced) w
      [.getConnection false network [⟨0, 0⟩], .connect false network, .disconnect false,
        .destroy false] := by
  intro network pool
  refine ⟨_, rfl, (neverDereferencesNull_iff_sparesDisconnected "127.0.0.1" 9000
    (fun _ => (some 3, ⟨true, true⟩)) .empty _ rfl _).mpr ?_⟩
  rintro _ ⟨⟩
  refine ⟨fun _ _ => Finset.notMem_empty _, ?_⟩
  rintro _ ⟨⟩
  refine ⟨fun _ _ => Finset.notMem_empty _, ?_⟩
  exact fun _ _ => ⟨trivial, fun _ _ => ⟨trivial, trivial⟩⟩

/-- The one connection of a pool is disconnected through its proxy, released and asked for again:
the search connects it. -/
theorem not_neverDereferencesNull_disconnected :
    let network : Network (Fin 1) := fun _ => (some 4, ⟨true, true⟩)
    let pool : Option (TcpPool 1 Bool) :=
      create "127.0.0.1" 9000 (fun _ => (some 3, ⟨true, true⟩)) .empty 1
    ∃ w, pool = some w ∧ ¬ Runs.Always step (fun w => w.status ≠ .nullDereferenced) w
      [.getConnection false network [⟨0, 0⟩], .disconnect false, .destroy false,
        .getConnection true network [⟨0, 0⟩]] := by
  intro network pool
  refine ⟨_, rfl, fun h => ?_⟩
  exact Runs.Always.of_run step h rfl rfl

end TcpPool

end AsabruEngine
