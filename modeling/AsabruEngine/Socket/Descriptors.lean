import AsabruEngine.Library.Census
import AsabruEngine.Library.Runs
import AsabruEngine.Socket.Derived

/-! # Descriptors closed once

Programs make client sockets, server sockets and pooled connections, reconnect and close them and
destroy them. What a successful call of `socket` gives is to be closed once: not again once it is
closed, when its number may have been given out anew, and not never. `~CClientSocket` closes what
`~Socket` closes as well, `disconnect` closes it before, and the constructor of a server socket
loses the descriptor of its base.

A descriptor is named by the call of `socket` that gave it, so that no two calls give one name.

* An `Owner` is an object of one of the classes, and `Endpoints.step` does one `Op` with them.
* `ClosedOnce` is what is to hold, and `ClosesUnclosed` the condition on an operation.
* `Effect` lists what an operation may do to the sockets and to what they share; `effect_of_step`
  finds one of its cases in every operation, so that invariants are proved once for each effect. -/

namespace AsabruEngine

open Resources

variable {π : Type*}

/-- An object of one of the classes. -/
inductive Owner
  | client (this : CClientSocket)
  | server (this : CServerSocket)
  | connection (this : TcpConnection)

namespace Owner

/-- The `Socket` that the object is, or points to. -/
def socket : Owner → Option Socket
  | client this => some this.toSocket
  | server this => some this.toSocket
  | connection this => this.clientSocket.map (·.toSocket)

/-- The destructor of the class of the object. -/
def destructor : Owner → Process → Process
  | client this => this.destructor
  | server this => this.toSocket.destructor
  | connection this => this.destructor

/-- The socket of a connection is its client socket. -/
theorem socket_connection {this : TcpConnection} {clientSocket : CClientSocket}
    (h : this.clientSocket = some clientSocket) :
    (connection this).socket = some clientSocket.toSocket := by
  rw [socket, h, Option.map_some]

theorem bind_socket_client (object : Option CClientSocket) :
    (object.map client).bind socket = object.map (·.toSocket) := by
  cases object with
  | none => rfl
  | some this => rfl

end Owner

/-- The socket of a new connection is its new client socket. -/
theorem TcpConnection.bind_socket_new (process : Process) (connectionId : ℤ) (serverName : String)
    (serverPort : ℤ) (s : SOCKET) (answers : ConnectAnswers) :
    ((TcpConnection.new process connectionId serverName serverPort s answers).1.map
      .connection).bind Owner.socket =
      (CClientSocket.new process serverName serverPort s answers).1.map (·.toSocket) := by
  rw [TcpConnection.new]
  rcases CClientSocket.new process serverName serverPort s answers with ⟨_ | this, process⟩
  · rfl
  · rfl

/-- The live objects by name, and what their `Socket` bases share. -/
structure Endpoints (π : Type*) where
  owners : π → Option Owner
  process : Process

namespace Endpoints

/-- What is done with the objects. `close` and `reconnect` are also called through the pointer of a
connection. -/
inductive Op (π : Type*)
  | newClient (dst : π) (serverName : String) (clientPort : ℤ) (s : SOCKET)
      (answers : ConnectAnswers)
  | newServer (dst : π) (port numOfConnections : ℤ) (type : TypeSocket) (answers : ServerAnswers)
  | newConnection (dst : π) (connectionId : ℤ) (serverName : String) (serverPort : ℤ) (s : SOCKET)
      (answers : ConnectAnswers)
  | reconnect (p : π) (s : SOCKET) (answers : ConnectAnswers)
  | connect (p : π) (s : SOCKET) (answers : ConnectAnswers)
  | close (p : π)
  | disconnect (p : π)
  | destroy (p : π)

/-- The descriptors that `socket` gives in an operation. -/
def Op.descriptors : Op π → List ℕ
  | newClient _ _ _ s _ => s.toList
  | newServer _ _ _ _ answers => answers.base.toList ++ answers.s.toList
  | newConnection _ _ _ _ s _ => s.toList
  | reconnect _ s _ => s.toList
  | connect _ s _ => s.toList
  | close _ => []
  | disconnect _ => []
  | destroy _ => []

/-- No object yet. -/
def start : Endpoints π := ⟨fun _ => none, .empty⟩

/-- The `Socket` of each object. -/
def sockets (w : Endpoints π) (p : π) : Option Socket := (w.owners p).bind Owner.socket

/-- Some live object is on the descriptor. -/
def Holds (w : Endpoints π) (fd : ℕ) : Prop :=
  (holders w.sockets fun this => this.s = some fd).Nonempty

/-- Every descriptor that `socket` gave is closed at most once, and once if no object has it. -/
def ClosedOnce (w : Endpoints π) : Prop :=
  ∀ fd, .acquired fd ∈ w.process.log →
    releases w.process.log fd ≤ 1 ∧ (¬ w.Holds fd → releases w.process.log fd = 1)

variable [DecidableEq π]

/-- One operation, if there is the object it is done with, and none at the name of a new one. -/
def perform (w : Endpoints π) : Op π → Option (Endpoints π)
  | .newClient dst serverName clientPort s answers =>
      if w.owners dst = none then
        let (object, process) := CClientSocket.new w.process serverName clientPort s answers
        some ⟨Function.update w.owners dst (object.map .client), process⟩
      else none
  | .newServer dst port numOfConnections type answers =>
      if w.owners dst = none then
        let (object, process) := CServerSocket.new w.process port numOfConnections type answers
        some ⟨Function.update w.owners dst (object.map .server), process⟩
      else none
  | .newConnection dst connectionId serverName serverPort s answers =>
      if w.owners dst = none then
        let (object, process) :=
          TcpConnection.new w.process connectionId serverName serverPort s answers
        some ⟨Function.update w.owners dst (object.map .connection), process⟩
      else none
  | .reconnect p s answers =>
      match w.owners p with
      | some (.client this) =>
          let (object, _, process) := this.reconnect w.process s answers
          some ⟨Function.update w.owners p (some (.client object)), process⟩
      | some (.connection this) =>
          this.clientSocket.map fun clientSocket =>
            let (object, _, process) := clientSocket.reconnect w.process s answers
            ⟨Function.update w.owners p
              (some (.connection { this with clientSocket := some object })), process⟩
      | _ => none
  | .connect p s answers =>
      match w.owners p with
      | some (.connection this) =>
          (this.connect w.process s answers).map fun (object, _, process) =>
            ⟨Function.update w.owners p (some (.connection object)), process⟩
      | _ => none
  | .close p => (w.sockets p).map fun this => ⟨w.owners, this.close w.process⟩
  | .disconnect p =>
      match w.owners p with
      | some (.connection this) =>
          let (object, process) := this.disconnect w.process
          some ⟨Function.update w.owners p (some (.connection object)), process⟩
      | _ => none
  | .destroy p =>
      (w.owners p).map fun owner => ⟨Function.update w.owners p none, owner.destructor w.process⟩

/-- One operation; the descriptors that `socket` gives in it are new. -/
def step (w : Endpoints π) (op : Op π) : Option (Endpoints π) :=
  if op.descriptors.Nodup ∧ ∀ fd ∈ op.descriptors, .acquired fd ∉ w.process.log then w.perform op
  else none

/-- The condition on an operation: no server socket is made but where its first `socket` call fails,
what is closed or reconnected has a descriptor that is not closed yet, and what is disconnected or
destroyed has none. -/
def ClosesUnclosed (w : Endpoints π) : Op π → Prop
  | .newClient _ _ _ _ _ => True
  | .newServer _ _ _ _ answers => answers.base = none
  | .newConnection _ _ _ _ _ _ => True
  | .reconnect p _ _ | .connect p _ _ | .close p => ∀ this fd, w.sockets p = some this →
      this.s = some fd → .released fd ∉ w.process.log
  | .disconnect p | .destroy p => ∀ this, w.sockets p = some this → this.s = none

/-! ## One operation -/

/-- What an operation with the condition `C` does to the sockets and to what they share. -/
inductive Effect (w w' : Endpoints π) (C : Prop) : Prop
  /-- A constructor calls `socket` once. -/
  | opened (dst : π) (s : SOCKET) (object : Option Socket) (condition : C)
      (free : w.sockets dst = none) (fresh : ∀ fd, s = some fd → .acquired fd ∉ w.process.log)
      (after : w'.sockets = Function.update w.sockets dst object)
      (opens : Opens w.process s object w'.process) (keeps : w.process.KeepsCounters w'.process)
  /-- The constructor of a server socket loses a descriptor. -/
  | lost (dst : π) (fd : ℕ) (object : Option Socket) (condition : ¬ C)
      (fresh : .acquired fd ∉ w.process.log)
      (after : w'.sockets = Function.update w.sockets dst object)
      (other : ∀ this, object = some this → this.s ≠ some fd)
      (given : .acquired fd ∈ w'.process.log)
      (open_ : releases w'.process.log fd = releases w.process.log fd)
  | reconnected (p : π) (this : Socket) (s : SOCKET)
      (condition : C ↔ ∀ fd, this.s = some fd → .released fd ∉ w.process.log)
      (before : w.sockets p = some this) (fresh : ∀ fd, s = some fd → .acquired fd ∉ w.process.log)
      (after : w'.sockets = Function.update w.sockets p (some { this with s := s }))
      (process : w'.process = (this.close w.process).socket s)
  | closed (p : π) (this : Socket)
      (condition : C ↔ ∀ fd, this.s = some fd → .released fd ∉ w.process.log)
      (before : w.sockets p = some this) (after : w'.sockets = w.sockets)
      (process : w'.process = this.close w.process)
  /-- A client socket is destroyed, by itself or behind a further `Close`. -/
  | destroyed (p : π) (this : Socket) (condition : C ↔ this.s = none)
      (before : w.sockets p = some this) (after : w'.sockets = Function.update w.sockets p none)
      (process : w'.process = this.destructor (this.close w.process) ∨
        w'.process = this.destructor (this.close (this.close w.process)))
  /-- A connection without a client socket is disconnected or destroyed. -/
  | nothing (condition : C) (after : w'.sockets = w.sockets) (process : w'.process = w.process)

/-- No server socket is there to be destroyed. -/
def NoServer (w : Endpoints π) : Prop := ∀ p this, w.owners p ≠ some (.server this)

theorem sockets_update (owners : π → Option Owner) (p : π) (v : Option Owner)
    (process process' : Process) :
    sockets ⟨Function.update owners p v, process⟩ =
      Function.update (sockets ⟨owners, process'⟩) p (v.bind Owner.socket) := by
  funext q
  by_cases hq : q = p
  · subst hq
    simp [sockets]
  · simp [sockets, hq]

/-- A constructor is done with its one call of `socket`. -/
theorem Effect.of_opens {w : Endpoints π} {dst : π} (hdst : w.owners dst = none) {s : SOCKET}
    (hfresh : ∀ fd ∈ s.toList, .acquired fd ∉ w.process.log) {owner : Option Owner}
    {process : Process} (hopens : Opens w.process s (owner.bind Owner.socket) process)
    (hkeeps : w.process.KeepsCounters process) {C : Prop} (hC : C) :
    Effect w ⟨Function.update w.owners dst owner, process⟩ C := by
  refine .opened dst s (owner.bind Owner.socket) hC ?_ (fun fd hs => hfresh fd (by simp [hs])) ?_
    hopens hkeeps
  · rw [sockets, hdst, Option.bind_none]
  · exact sockets_update w.owners dst owner process w.process

omit [DecidableEq π] in
/-- The descriptor of an object is not closed yet. -/
theorem unclosed_iff {w : Endpoints π} {p : π} {this : Socket} (hp : w.sockets p = some this) :
    (∀ that fd, w.sockets p = some that → that.s = some fd → .released fd ∉ w.process.log) ↔
      ∀ fd, this.s = some fd → .released fd ∉ w.process.log := by
  constructor
  · exact fun h fd hs => h this fd hp hs
  · intro h that fd hthat
    rw [hp, Option.some.injEq] at hthat
    exact hthat ▸ h fd

/-- `Reconnect` closes the descriptor and opens another one. -/
theorem Effect.of_reconnects {w : Endpoints π} {p : π} {owner owner' : Owner} {this : Socket}
    (hp : w.owners p = some owner) (hthis : owner.socket = some this) {s : SOCKET}
    (hfresh : ∀ fd ∈ s.toList, .acquired fd ∉ w.process.log)
    (howner' : owner'.socket = some { this with s := s }) {process : Process}
    (hprocess : process = (this.close w.process).socket s) :
    Effect w ⟨Function.update w.owners p (some owner'), process⟩ (∀ that fd,
      w.sockets p = some that → that.s = some fd → .released fd ∉ w.process.log) := by
  have hsocket : w.sockets p = some this := by rw [sockets, hp, Option.bind_some, hthis]
  refine .reconnected p this s (unclosed_iff hsocket) hsocket
    (fun fd hs => hfresh fd (by simp [hs])) ?_ hprocess
  rw [sockets_update _ _ _ _ w.process, Option.bind_some, howner']

/-- Where there is a client socket, it is closed and destroyed. -/
theorem Effect.of_destroys {w : Endpoints π} {p : π} {owner : Owner} {this : Socket}
    (hp : w.owners p = some owner) (hthis : owner.socket = some this) {owner' : Option Owner}
    (howner' : owner'.bind Owner.socket = none) {process : Process}
    (hprocess : process = this.destructor (this.close w.process) ∨
      process = this.destructor (this.close (this.close w.process))) :
    Effect w ⟨Function.update w.owners p owner', process⟩
      (∀ that, w.sockets p = some that → that.s = none) := by
  have hsocket : w.sockets p = some this := by rw [sockets, hp, Option.bind_some, hthis]
  refine .destroyed p this ?_ hsocket ?_ hprocess
  · simp [hsocket]
  · rw [sockets_update _ _ _ _ w.process, howner']

/-- Where there is no client socket, nothing is closed. -/
theorem Effect.of_null {w : Endpoints π} {p : π} {owner : Owner} (hp : w.owners p = some owner)
    (hnull : owner.socket = none) {owner' : Option Owner}
    (howner' : owner'.bind Owner.socket = none) {process : Process}
    (hprocess : process = w.process) :
    Effect w ⟨Function.update w.owners p owner', process⟩
      (∀ that, w.sockets p = some that → that.s = none) := by
  have hsocket : w.sockets p = none := by rw [sockets, hp, Option.bind_some, hnull]
  refine .nothing (by simp [hsocket]) ?_ hprocess
  rw [sockets_update _ _ _ _ w.process, howner']
  exact Function.update_eq_self_iff.mpr hsocket.symm

/-- `disconnect` destroys the client socket behind a further `Close`, if there is one. -/
theorem Effect.of_disconnects {w : Endpoints π} {p : π} {this : TcpConnection}
    (hp : w.owners p = some (.connection this)) {owner' : Option Owner}
    (howner' : owner'.bind Owner.socket = none) :
    Effect w ⟨Function.update w.owners p owner', (this.disconnect w.process).2⟩
      (∀ that, w.sockets p = some that → that.s = none) := by
  cases hclient : this.clientSocket with
  | none =>
      refine .of_null hp ?_ howner' (TcpConnection.disconnect_of_null hclient _)
      rw [Owner.socket, hclient, Option.map_none]
  | some clientSocket =>
      exact .of_destroys hp (Owner.socket_connection hclient) howner'
        (Or.inr (TcpConnection.disconnect_of_client hclient _))

/-- The constructor of a server socket loses the descriptor of its base, if there is one. -/
theorem Effect.of_newServer {w : Endpoints π} {dst : π} (hdst : w.owners dst = none)
    {port numOfConnections : ℤ} {type : TypeSocket} {answers : ServerAnswers}
    (hnodup : (answers.base.toList ++ answers.s.toList).Nodup)
    (hfresh : ∀ fd ∈ answers.base.toList ++ answers.s.toList, .acquired fd ∉ w.process.log) :
    Effect w
      ⟨Function.update w.owners dst
        ((CServerSocket.new w.process port numOfConnections type answers).1.map .server),
        (CServerSocket.new w.process port numOfConnections type answers).2⟩
      (answers.base = none) := by
  cases hbase : answers.base with
  | none =>
      have hnew : CServerSocket.new w.process port numOfConnections type answers =
          (none, (Socket.start w.process).socket none) := by
        simp [CServerSocket.new, Socket.new, hbase]
      have hopens : Opens w.process none (((none : Option CServerSocket).map .server).bind
          Owner.socket) ((Socket.start w.process).socket none) :=
        .refused rfl rfl (List.append_nil _)
      rw [hnew]
      exact .of_opens hdst (by simp) hopens ⟨le_refl _, fun _ _ => rfl⟩ rfl
  | some fd =>
      have hs : answers.s ≠ some fd := by
        intro hs
        simp [hbase, hs] at hnodup
      obtain ⟨hother, hgiven, hopen⟩ :=
        CServerSocket.new_leaks w.process port numOfConnections type hbase hs
      refine .lost dst fd _ (by simp) (hfresh fd (by simp [hbase]))
        (sockets_update _ _ _ _ w.process) ?_ hgiven hopen
      intro this hthis
      rw [Option.bind_map, Option.bind_eq_some_iff] at hthis
      obtain ⟨object, hobject, hsocket⟩ := hthis
      cases hsocket
      exact hother object hobject

/-- Every operation has one of the effects. -/
theorem effect_of_step {w w' : Endpoints π} {op : Op π} (hserver : w.NoServer)
    (hstep : w.step op = some w') : Effect w w' (w.ClosesUnclosed op) := by
  rw [step, Option.ite_none_right_eq_some] at hstep
  obtain ⟨⟨hnodup, hfresh⟩, hstep⟩ := hstep
  cases op with
  | newClient dst serverName clientPort s answers =>
      simp only [perform, Option.ite_none_right_eq_some, Option.some.injEq] at hstep
      obtain ⟨hdst, rfl⟩ := hstep
      refine .of_opens hdst hfresh ?_ (CClientSocket.keepsCounters_new _ _ _ _ _) trivial
      rw [Owner.bind_socket_client]
      exact CClientSocket.opens_new _ _ _ _ _
  | newServer dst port numOfConnections type answers =>
      simp only [perform, Option.ite_none_right_eq_some, Option.some.injEq] at hstep
      obtain ⟨hdst, rfl⟩ := hstep
      exact .of_newServer hdst hnodup hfresh
  | newConnection dst connectionId serverName serverPort s answers =>
      simp only [perform, Option.ite_none_right_eq_some, Option.some.injEq] at hstep
      obtain ⟨hdst, rfl⟩ := hstep
      refine .of_opens hdst hfresh ?_ (CClientSocket.keepsCounters_new _ _ _ _ _) trivial
      rw [TcpConnection.bind_socket_new]
      exact CClientSocket.opens_new _ _ _ _ _
  | reconnect p s answers =>
      rw [perform] at hstep
      split at hstep
      · rename_i this hp
        have hw' : w' = ⟨Function.update w.owners p
            (some (.client (this.reconnect w.process s answers).1)),
            (this.reconnect w.process s answers).2.2⟩ := (Option.some.inj hstep).symm
        rw [hw']
        exact .of_reconnects hp rfl hfresh (by rw [Owner.socket, this.reconnect_object])
          (this.reconnect_process _ _ _)
      · rename_i this hp
        obtain ⟨clientSocket, hclient, hstep⟩ := Option.map_eq_some_iff.mp hstep
        have hw' : w' = ⟨Function.update w.owners p (some (.connection
            { this with clientSocket := some (clientSocket.reconnect w.process s answers).1 })),
            (clientSocket.reconnect w.process s answers).2.2⟩ := hstep.symm
        rw [hw']
        exact .of_reconnects hp (Owner.socket_connection hclient) hfresh
          (by rw [Owner.socket, Option.map_some, clientSocket.reconnect_object])
          (clientSocket.reconnect_process _ _ _)
      · cases hstep
  | connect p s answers =>
      rw [perform] at hstep
      split at hstep
      · rename_i this hp
        obtain ⟨⟨object, returns, process⟩, hconnect, rfl⟩ := Option.map_eq_some_iff.mp hstep
        obtain ⟨clientSocket, hclient, hobject, hprocess⟩ :=
          TcpConnection.connect_eq_some hconnect
        exact .of_reconnects hp (Owner.socket_connection hclient) hfresh
          (Owner.socket_connection hobject) hprocess
      · cases hstep
  | close p =>
      obtain ⟨this, hp, rfl⟩ := Option.map_eq_some_iff.mp hstep
      exact .closed p this (unclosed_iff hp) hp rfl rfl
  | disconnect p =>
      rw [perform] at hstep
      split at hstep
      · rename_i this hp
        have hw' : w' =
            ⟨Function.update w.owners p (some (.connection (this.disconnect w.process).1)),
              (this.disconnect w.process).2⟩ := (Option.some.inj hstep).symm
        rw [hw']
        exact .of_disconnects hp rfl
      · cases hstep
  | destroy p =>
      obtain ⟨owner, hp, rfl⟩ := Option.map_eq_some_iff.mp hstep
      cases owner with
      | client this => exact .of_destroys hp rfl rfl (Or.inl rfl)
      | server this => exact absurd hp (hserver p this)
      | connection this => exact .of_disconnects hp rfl

end Endpoints

end AsabruEngine
