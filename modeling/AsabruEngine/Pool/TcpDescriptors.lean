import AsabruEngine.Pool.TcpPool

/-! # The descriptors of a pool of TCP connections

Each connection of the pool has a client socket until it is disconnected, and the socket has a
descriptor if the last call of `socket` for it succeeded. `Reconnect` closes the descriptor before
it asks for another one, whether it then returns or throws, and `disconnect` closes it more than
once. No other call comes in between, as calls run one after the other here, so although the kernel
gives closed numbers again no connection closes what another one is on. Among threads this is not
so: `connect` and `disconnect` through proxies take no lock, and the number that `disconnect` has
closed may belong to another thread when it is closed again.

* `Descriptors` says that what is open is what the connections are on, each on its own;
  `Descriptors.giveUp` and `Descriptors.takeUp` keep it where one of them closes or opens.
* `Stocked` is the invariant of a pool and `stocked_step` its step lemma; `tcpPool_open_iff` reads
  off what is open. -/

namespace AsabruEngine

open NodeMap Resources

/-- The connection has a client socket, on the descriptor. -/
def TcpConnection.Holds (this : TcpConnection) (fd : ℕ) : Prop :=
  ∃ clientSocket, this.clientSocket = some clientSocket ∧ clientSocket.s = some fd

namespace TcpConnection

/-- `disconnect` closes the descriptor of the connection, and no other one. -/
theorem disconnect_log (this : TcpConnection) (process : Process) :
    ∃ events, (this.disconnect process).2.log = process.log ++ events ∧
      ∀ e, e ∈ events ↔ ∃ fd, this.Holds fd ∧ e = .released fd := by
  cases hclient : this.clientSocket with
  | none =>
      refine ⟨[], ?_, fun e => ?_⟩
      · rw [this.disconnect_of_null hclient, List.append_nil]
      · simp [Holds, hclient]
  | some clientSocket =>
      -- `Close`, `~CClientSocket` and, where the counter goes down to zero, `~Socket`
      rw [this.disconnect_of_client hclient, CClientSocket.destructor, Socket.destructor_log]
      have hholds : ∀ fd, this.Holds fd ↔ clientSocket.s = some fd := by
        intro fd
        simp [Holds, hclient]
      simp only [hholds]
      split
      · refine ⟨clientSocket.s.toList.map .released ++ clientSocket.s.toList.map .released ++
          clientSocket.s.toList.map .released, ?_, fun e => ?_⟩
        · simp [Socket.close, Process.closeSocket]
        · cases clientSocket.s with
          | none => simp
          | some fd => simp
      · refine ⟨clientSocket.s.toList.map .released ++ clientSocket.s.toList.map .released, ?_,
          fun e => ?_⟩
        · simp [Socket.close, Process.closeSocket]
        · cases clientSocket.s with
          | none => simp
          | some fd => simp

/-- A connection that is made is on the descriptor that `socket` gave. -/
theorem new_log {process process' : Process} {connectionId : ℤ} {serverName : String}
    {serverPort : ℤ} {s : SOCKET} {answers : ConnectAnswers} {this : TcpConnection}
    (h : new process connectionId serverName serverPort s answers = (some this, process')) :
    ∃ fd, process'.log = process.log ++ [.acquired fd] ∧ ∀ fd', this.Holds fd' ↔ fd' = fd := by
  have hopens := CClientSocket.opens_new process serverName serverPort s answers
  rw [new] at h
  rcases hnew : CClientSocket.new process serverName serverPort s answers with ⟨made, left⟩
  rw [hnew] at h hopens
  cases made with
  | none => cases h
  | some clientSocket =>
      cases h
      cases hopens with
      | refused invalid noObject log => cases noObject
      | closed fd valid noObject log => cases noObject
      | kept fd valid made log counter allocated =>
          refine ⟨fd, log, fun fd' => ?_⟩
          have hs : clientSocket.s = some fd := by
            rw [Option.map_some, Option.some.injEq] at made
            rw [made, valid]
          simp [Holds, hs, eq_comm]

/-- `connect` closes the descriptor of the connection and takes what `socket` gives. -/
theorem connect_log {this object : TcpConnection} {process process' : Process} {s : SOCKET}
    {answers : ConnectAnswers} {returns : Bool}
    (h : this.connect process s answers = some (object, returns, process')) :
    ∃ events, process'.log = process.log ++ events ++ s.toList.map .acquired ∧
      (∀ e, e ∈ events ↔ ∃ fd, this.Holds fd ∧ e = .released fd) ∧
      ∀ fd, object.Holds fd ↔ s = some fd := by
  obtain ⟨clientSocket, hclient, hobject, rfl⟩ := connect_eq_some h
  refine ⟨clientSocket.s.toList.map .released, rfl, fun e => ?_, fun fd => ?_⟩
  · have hholds : ∀ fd, this.Holds fd ↔ clientSocket.s = some fd := by
      intro fd
      simp [Holds, hclient]
    simp only [hholds]
    cases clientSocket.s with
    | none => simp
    | some fd => simp
  · simp [Holds, hobject]

end TcpConnection

/-! ## The descriptors of a family of connections -/

/-- What is open are the descriptors `other` than those of the connections, and the one that each
connection is on; no two connections are on one. -/
structure Descriptors {κ : Type*} (other : ℕ → Prop) (objects : κ → TcpConnection) (log : Log ℕ) :
    Prop where
  open_iff : ∀ fd, Open log fd ↔ other fd ∨ ∃ c, (objects c).Holds fd
  apart : ∀ c fd, (objects c).Holds fd → ¬ other fd
  distinct : ∀ c d fd, (objects c).Holds fd → (objects d).Holds fd → c = d

namespace Descriptors

variable {κ : Type*} [DecidableEq κ] {other : ℕ → Prop} {objects : κ → TcpConnection}
  {log events : Log ℕ}

/-- Who is on a descriptor after a change of one connection. -/
theorem exists_holds_update {c : κ} {object : TcpConnection} {fd : ℕ} :
    (∃ d, (Function.update objects c object d).Holds fd) ↔
      object.Holds fd ∨ ∃ d, d ≠ c ∧ (objects d).Holds fd := by
  constructor
  · rintro ⟨d, hd⟩
    by_cases hdc : d = c
    · subst hdc
      rw [Function.update_self] at hd
      exact Or.inl hd
    · rw [Function.update_of_ne hdc] at hd
      exact Or.inr ⟨d, hdc, hd⟩
  · rintro (hobject | ⟨d, hdc, hd⟩)
    · exact ⟨c, by rwa [Function.update_self]⟩
    · exact ⟨d, by rwa [Function.update_of_ne hdc]⟩

/-- A connection that is changed keeps the descriptors apart if its new descriptor is on none of
the others. -/
theorem apart_update (h : Descriptors other objects log) (c : κ) (object : TcpConnection)
    (hother : ∀ fd, object.Holds fd → ¬ other fd)
    (hobjects : ∀ fd d, object.Holds fd → d ≠ c → ¬ (objects d).Holds fd) :
    (∀ d fd, (Function.update objects c object d).Holds fd → ¬ other fd) ∧
      ∀ d e fd, (Function.update objects c object d).Holds fd →
        (Function.update objects c object e).Holds fd → d = e := by
  constructor
  · intro d fd hd
    by_cases hdc : d = c
    · subst hdc
      rw [Function.update_self] at hd
      exact hother fd hd
    · rw [Function.update_of_ne hdc] at hd
      exact h.apart d fd hd
  · intro d e fd hd he
    by_cases hdc : d = c
    · subst hdc
      rw [Function.update_self] at hd
      by_contra hne
      rw [Function.update_of_ne (Ne.symm hne)] at he
      exact hobjects fd e hd (Ne.symm hne) he
    · rw [Function.update_of_ne hdc] at hd
      by_cases hec : e = c
      · subst hec
        rw [Function.update_self] at he
        exact absurd hd (hobjects fd d he hdc)
      · rw [Function.update_of_ne hec] at he
        exact h.distinct d e fd hd he

/-- A connection closes its descriptor, and is on none. -/
theorem giveUp (h : Descriptors other objects log) {c : κ} (object : TcpConnection)
    (hobject : ∀ fd, ¬ object.Holds fd)
    (hevents : ∀ e, e ∈ events ↔ ∃ fd, (objects c).Holds fd ∧ e = .released fd) :
    Descriptors other (Function.update objects c object) (log ++ events) := by
  obtain ⟨hapart, hdistinct⟩ := h.apart_update c object
    (fun fd hfd => absurd hfd (hobject fd)) (fun fd d hfd => absurd hfd (hobject fd))
  refine ⟨fun fd => ?_, hapart, hdistinct⟩
  rw [open_released hevents, h.open_iff, exists_holds_update, or_and_right]
  refine or_congr ?_ ?_
  · exact and_iff_left_of_imp fun hother hc => h.apart c fd hc hother
  · rw [or_iff_right (hobject fd)]
    constructor
    · rintro ⟨⟨d, hd⟩, hc⟩
      refine ⟨d, ?_, hd⟩
      rintro rfl
      exact hc hd
    · rintro ⟨d, hdc, hd⟩
      exact ⟨⟨d, hd⟩, fun hc => hdc (h.distinct d c fd hd hc)⟩

/-- A connection that is on no descriptor takes what `socket` gives. -/
theorem takeUp (h : Descriptors other objects log) {c : κ}
    (hnone : ∀ fd, ¬ (objects c).Holds fd) {object : TcpConnection} {s : SOCKET}
    (hobject : ∀ fd, object.Holds fd ↔ s = some fd)
    (hfresh : GivenFresh (log ++ s.toList.map .acquired)) :
    Descriptors other (Function.update objects c object) (log ++ s.toList.map .acquired) := by
  -- the other connections are all that are on a descriptor now
  have hothers : ∀ fd, (∃ d, (objects d).Holds fd) ↔ ∃ d, d ≠ c ∧ (objects d).Holds fd := by
    intro fd
    refine exists_congr fun d => (and_iff_right_of_imp fun hd => ?_).symm
    rintro rfl
    exact hnone fd hd
  have hheld : ∀ fd, s = some fd → ¬ (other fd ∨ ∃ d, (objects d).Holds fd) := by
    rintro fd rfl hfd
    exact hfresh.not_open ((h.open_iff fd).mpr hfd)
  obtain ⟨hapart, hdistinct⟩ := h.apart_update c object
    (fun fd hfd hother => hheld fd ((hobject fd).mp hfd) (Or.inl hother))
    (fun fd d hfd _ hd => hheld fd ((hobject fd).mp hfd) (Or.inr ⟨d, hd⟩))
  refine ⟨fun fd => ?_, hapart, hdistinct⟩
  rw [exists_holds_update, hobject fd, ← hothers fd]
  cases s with
  | none =>
      rw [Option.toList_none, List.map_nil, List.append_nil, h.open_iff]
      simp
  | some fd' =>
      rw [Option.toList_some, List.map_singleton, open_acquired, h.open_iff, Option.some.injEq,
        eq_comm]
      exact or_left_comm

end Descriptors

namespace TcpPool

variable {n : ℕ} {π : Type*} {other : ℕ → Prop}

/-! ## The calls -/

/-- What is open while the pool is there, and behind its end. -/
structure Stocked (other : ℕ → Prop) (w : TcpPool n π) : Prop where
  sound : World.Sound (fun _ => vector n) w.world
  running : GivenFresh w.process.log → w.status ≠ .destroyed →
    Descriptors other w.objects w.process.log
  destroyed : GivenFresh w.process.log → w.status = .destroyed →
    ∀ fd, Open w.process.log fd ↔ other fd

/-- A pool that is there is stocked if its connections are. -/
theorem Stocked.of_descriptors {w : TcpPool n π} (hsound : World.Sound (fun _ => vector n) w.world)
    (hstatus : w.status ≠ .destroyed)
    (h : GivenFresh w.process.log → Descriptors other w.objects w.process.log) :
    w.Stocked other :=
  ⟨hsound, fun hfresh _ => h hfresh, fun _ hdestroyed => absurd hdestroyed hstatus⟩

/-- `connect` on a connection keeps the pool stocked. -/
theorem Stocked.connect {w w' : TcpPool n π} (h : w.Stocked other) (hstatus : w.status ≠ .destroyed)
    {network : Network (Fin n)} {c : Fin n} (hconnect : w.connect network c = some w') :
    w'.Stocked other := by
  unfold TcpPool.connect at hconnect
  obtain ⟨⟨object, returns, process⟩, hobject, rfl⟩ := Option.map_eq_some_iff.mp hconnect
  obtain ⟨events, hlog, hevents, hholds⟩ := TcpConnection.connect_log hobject
  refine .of_descriptors h.sound hstatus fun hfresh => ?_
  dsimp only at hfresh ⊢
  rw [hlog] at hfresh ⊢
  -- as if `disconnect` came first: the old descriptor is given up before the new one is taken
  have hgiven := (h.running (hfresh.of_append.of_append) hstatus).giveUp
    { w.objects c with clientSocket := none }
    (fun fd hfd => by obtain ⟨_, hnone, -⟩ := hfd; cases hnone) hevents
  have htaken := hgiven.takeUp
    (fun fd hfd => by
      rw [Function.update_self] at hfd
      obtain ⟨_, hnone, -⟩ := hfd
      cases hnone) hholds hfresh
  rw [Function.update_idem] at htaken
  exact htaken

/-- A search or a `connect` of a client: the pool is stocked behind it, whether it dereferences a
null pointer or not. -/
theorem Stocked.connect_getD {w w₀ : TcpPool n π} (h : w.Stocked other) (h₀ : w₀.Stocked other)
    (hstatus : w.status ≠ .destroyed) (hstatus₀ : w₀.status ≠ .destroyed)
    (network : Network (Fin n)) (c : Fin n) :
    ((w.connect network c).getD w₀.dereferenceNull).Stocked other := by
  cases hconnect : w.connect network c with
  | none =>
      show w₀.dereferenceNull.Stocked other
      refine .of_descriptors h₀.sound ?_ fun hfresh => h₀.running hfresh hstatus₀
      intro hdestroyed
      cases hdestroyed
  | some w' => exact h.connect hstatus hconnect

theorem Stocked.disconnect {w : TcpPool n π} (h : w.Stocked other) (hstatus : w.status ≠ .destroyed)
    (c : Fin n) : (w.disconnect c).Stocked other := by
  obtain ⟨events, hlog, hevents⟩ := (w.objects c).disconnect_log w.process
  refine .of_descriptors h.sound hstatus fun hfresh => ?_
  change GivenFresh ((w.objects c).disconnect w.process).2.log at hfresh
  show Descriptors other (Function.update w.objects c ((w.objects c).disconnect w.process).1)
    ((w.objects c).disconnect w.process).2.log
  rw [hlog] at hfresh ⊢
  refine (h.running hfresh.of_append hstatus).giveUp _ (fun fd hfd => ?_) hevents
  obtain ⟨_, hnone, -⟩ := hfd
  cases hnone

/-! ## The end of the pool -/

/-- The connections that are destroyed close their descriptors. -/
theorem open_foldl_destructor (objects : Fin n → TcpConnection) (items : List (Σ _ : Fin n, Fin n))
    (process : Process) (fd : ℕ) :
    Open (items.foldl (fun process item => (objects item.2).destructor process) process).log fd ↔
      Open process.log fd ∧ ∀ item ∈ items, ¬ (objects item.2).Holds fd := by
  induction items generalizing process with
  | nil => simp
  | cons item items ih =>
      obtain ⟨events, hlog, hevents⟩ := (objects item.2).disconnect_log process
      have hfirst : Open ((objects item.2).destructor process).log fd ↔
          Open process.log fd ∧ ¬ (objects item.2).Holds fd := by
        rw [TcpConnection.destructor, hlog]
        exact open_released hevents fd
      rw [List.foldl_cons, ih, hfirst, List.forall_mem_cons, and_assoc]

/-- Every connection is met in one of the maps. -/
theorem exists_item {w : TcpPool n π} (hsound : World.Sound (fun _ => vector n) w.world)
    {busy idle : List (Σ _ : Fin n, Fin n)}
    (hbusy : Iterates busy (w.world.pools ()).mConnectionsBusy)
    (hidle : Iterates idle (w.world.pools ()).mConnectionsIdle) (c : Fin n) :
    ∃ item ∈ busy ++ idle, item.2 = c := by
  obtain ⟨l, hstock, hpool⟩ := hsound ()
  have hconserves := hpool.conserves hstock
  have hc : c ∈ (w.world.pools ()).mConnectionsIdle.keys ∪
      (w.world.pools ()).mConnectionsBusy.keys := by
    rw [hconserves.union]
    simp [vector]
  rcases Finset.mem_union.mp hc with hc | hc
  · obtain ⟨item, hitem, rfl⟩ := hidle.mem_keys.mp hc
    exact ⟨item, List.mem_append_right _ hitem, hpool.idle_owns.eq_of_mem hidle hitem⟩
  · obtain ⟨item, hitem, rfl⟩ := hbusy.mem_keys.mp hc
    exact ⟨item, List.mem_append_left _ hitem, hpool.busy_owns.eq_of_mem hbusy hitem⟩

/-- **The end of the pool** closes the descriptors of all connections, and leaves the others. -/
theorem Stocked.destroyPool {w : TcpPool n π} (h : w.Stocked other)
    (hstatus : w.status ≠ .destroyed)
    {busy idle : List (Σ _ : Fin n, Fin n)}
    (hbusy : Iterates busy (w.world.pools ()).mConnectionsBusy)
    (hidle : Iterates idle (w.world.pools ()).mConnectionsIdle)
    (hfresh : GivenFresh w.process.log) :
    ∀ fd, Open ((busy ++ idle).foldl
      (fun process item => (w.objects item.2).destructor process) w.process).log fd ↔ other fd := by
  intro fd
  have hopen := h.running hfresh hstatus
  rw [open_foldl_destructor, hopen.open_iff]
  constructor
  · rintro ⟨hother | ⟨c, hc⟩, hall⟩
    · exact hother
    · obtain ⟨item, hitem, rfl⟩ := exists_item h.sound hbusy hidle c
      exact absurd hc (hall item hitem)
  · exact fun hother => ⟨Or.inl hother, fun item _ hitem => hopen.apart item.2 fd hitem hother⟩

/-- The log only grows at the end of the pool. -/
theorem givenFresh_foldl_destructor (objects : Fin n → TcpConnection)
    (items : List (Σ _ : Fin n, Fin n)) {process : Process}
    (h : GivenFresh
      (items.foldl (fun process item => (objects item.2).destructor process) process).log) :
    GivenFresh process.log := by
  induction items generalizing process with
  | nil => exact h
  | cons item items ih =>
      obtain ⟨events, hlog, -⟩ := (objects item.2).disconnect_log process
      have hfirst : GivenFresh ((objects item.2).disconnect process).2.log := ih h
      rw [hlog] at hfirst
      exact hfirst.of_append

/-! ## The factory -/

theorem get_push_castSucc {k : ℕ} (connections : Vector TcpConnection k) (this : TcpConnection)
    (c : Fin k) : (connections.push this).get c.castSucc = connections.get c :=
  Vector.getElem_push_lt c.isLt

theorem get_push_last {k : ℕ} (connections : Vector TcpConnection k) (this : TcpConnection) :
    (connections.push this).get (Fin.last k) = this :=
  Vector.getElem_push_eq

/-- The connections that the factory makes are on descriptors of their own. -/
theorem descriptors_createConnections {serverName : String} {serverPort : ℤ} {network : Network ℕ}
    {process process' : Process} {numConnections : ℕ}
    {connections : Vector TcpConnection numConnections}
    (h : createConnections serverName serverPort network process numConnections =
      some (connections, process')) (hfresh : GivenFresh process'.log) :
    Descriptors (Open process.log) connections.get process'.log := by
  -- on the connections still to be made; the last one is pushed behind those of the hypothesis
  induction numConnections generalizing process' with
  | zero =>
      cases h
      exact ⟨fun fd => by simp, fun c => c.elim0, fun c => c.elim0⟩
  | succ k ih =>
      unfold createConnections at h
      split at h
      · cases h
      · rename_i earlier left hearlier
        split at h
        · cases h
        · rename_i this made hnew
          cases h
          obtain ⟨fd, hlog, hthis⟩ := TcpConnection.new_log hnew
          rw [hlog] at hfresh ⊢
          have hopen := ih hearlier hfresh.of_append
          have hnotHeld := hfresh.not_open
          rw [hopen.open_iff] at hnotHeld
          rw [not_or, not_exists] at hnotHeld
          refine ⟨?_, ?_, ?_⟩
          · intro fd'
            rw [open_acquired, hopen.open_iff]
            simp only [Fin.exists_fin_succ', get_push_castSucc, get_push_last, hthis]
            rw [or_comm, or_assoc]
          · intro c
            cases c using Fin.lastCases with
            | last =>
                intro fd' hfd'
                rw [get_push_last, hthis] at hfd'
                exact hfd' ▸ hnotHeld.1
            | cast c =>
                rw [get_push_castSucc]
                exact hopen.apart c
          · intro c d fd' hc hd
            cases c using Fin.lastCases with
            | last =>
                rw [get_push_last, hthis] at hc
                subst hc
                cases d using Fin.lastCases with
                | last => rfl
                | cast d =>
                    rw [get_push_castSucc] at hd
                    exact absurd hd (hnotHeld.2 d)
            | cast c =>
                rw [get_push_castSucc] at hc
                cases d using Fin.lastCases with
                | last =>
                    rw [get_push_last, hthis] at hd
                    exact absurd (hd ▸ hc) (hnotHeld.2 c)
                | cast d =>
                    rw [get_push_castSucc] at hd
                    exact congrArg Fin.castSucc (hopen.distinct c d fd' hc hd)

/-- What the factory makes is stocked. -/
theorem stocked_create {serverName : String} {serverPort : ℤ} {network : Network ℕ}
    {process : Process} {w : TcpPool n π}
    (h : create serverName serverPort network process n = some w) :
    w.Stocked (Open process.log) := by
  obtain ⟨⟨connections, left⟩, hconnections, rfl⟩ := Option.map_eq_some_iff.mp h
  exact .of_descriptors (World.sound_start _) (fun hdestroyed => by cases hdestroyed)
    fun hfresh => descriptors_createConnections hconnections hfresh

/-! ## The runs -/

variable [DecidableEq π]

/-- The calls on the pool and on the proxies touch no connection. -/
theorem Stocked.withWorld {w w' : TcpPool n π} (h : w.Stocked other)
    {op : AsabruEngine.Op Unit π (Fin n)}
    (hstep : (w.world.step op).map w.withWorld = some w') : w'.Stocked other := by
  obtain ⟨world, hworld, rfl⟩ := Option.map_eq_some_iff.mp hstep
  exact ⟨World.sound_step h.sound hworld, h.running, h.destroyed⟩

/-- **Every call keeps the pool stocked.** -/
theorem stocked_step {w w' : TcpPool n π} {op : Op n π} (h : w.Stocked other)
    (hstep : w.step op = some w') : w'.Stocked other := by
  obtain ⟨hrunning, hstep⟩ := step_eq_some.mp hstep
  have hstatus : w.status ≠ .destroyed := by
    rw [hrunning]
    decide
  cases op with
  | getConnection dst network order =>
      obtain ⟨world, hworld, rfl⟩ := Option.map_eq_some_iff.mp hstep
      obtain ⟨-, horder, -⟩ := World.step_getConnection.mp hworld
      obtain ⟨l, -, hpool⟩ := h.sound ()
      have hmoved : (w.withWorld world).Stocked other :=
        ⟨World.sound_step h.sound hworld, h.running, h.destroyed⟩
      rw [dispatch_getConnection hpool network horder]
      cases order with
      | nil => exact hmoved
      | cons item items => exact hmoved.connect_getD h hstatus hstatus network item.1
  | connect p network =>
      obtain ⟨c, -, rfl⟩ := Option.map_eq_some_iff.mp hstep
      exact h.connect_getD h hstatus hstatus network c
  | disconnect p =>
      obtain ⟨c, -, rfl⟩ := Option.map_eq_some_iff.mp hstep
      exact h.disconnect hstatus c
  | releaseConnection p => exact h.withWorld hstep
  | heartBeat order => exact h.withWorld hstep
  | moveConstruct src dst => exact h.withWorld hstep
  | moveAssign src dst => exact h.withWorld hstep
  | destroy p => exact h.withWorld hstep
  | connectionHeartBeat p =>
      obtain ⟨-, -, rfl⟩ := Option.map_eq_some_iff.mp hstep
      exact h
  | isHealthy p =>
      obtain ⟨-, -, rfl⟩ := Option.map_eq_some_iff.mp hstep
      exact h
  | destroyPool busy idle =>
      simp only [perform] at hstep
      split at hstep
      · rename_i hmaps
        cases hstep
        refine ⟨h.sound, fun _ hdestroyed => absurd rfl hdestroyed, fun hfresh _ => ?_⟩
        exact h.destroyPool hstatus hmaps.1 hmaps.2 (givenFresh_foldl_destructor _ _ hfresh)
      · cases hstep

/-- **What a pool of TCP connections has open.** In every state that any calls of any clients on a
new pool lead to, one call after the other, whatever the network answers, as long as the kernel
gives no descriptor that is open: what is open is what was open before the pool was made and, until
the pool is destroyed, the descriptors its connections are on; and no connection is on a descriptor
that was open before, or that another connection is on. -/
theorem tcpPool_open_iff (serverName : String) (serverPort : ℤ) (network : Network ℕ)
    (process : Process) (w : TcpPool n π)
    (hcreate : create serverName serverPort network process n = some w) (ops : List (Op n π))
    (w' : TcpPool n π) (hrun : Runs.run step w ops = some w') (hfresh : GivenFresh w'.process.log) :
    (∀ fd, Open w'.process.log fd ↔ Open process.log fd ∨
        (w'.status ≠ .destroyed ∧ ∃ c, (w'.objects c).Holds fd)) ∧
      (w'.status ≠ .destroyed → ∀ c fd, (w'.objects c).Holds fd →
        ¬ Open process.log fd ∧ ∀ d, (w'.objects d).Holds fd → c = d) := by
  have hstocked : w'.Stocked (Open process.log) :=
    Runs.Always.of_run step (Runs.always_of_invariant step (fun _ h => h)
      (fun _ _ _ h hstep => stocked_step h hstep) (stocked_create hcreate) ops) hrun
  refine ⟨fun fd => ?_, fun hstatus c fd hfd => ?_⟩
  · by_cases hstatus : w'.status = .destroyed
    · rw [hstocked.destroyed hfresh hstatus]
      simp [hstatus]
    · rw [(hstocked.running hfresh hstatus).open_iff]
      simp [hstatus]
  · have hdescriptors := hstocked.running hfresh hstatus
    exact ⟨hdescriptors.apart c fd hfd, fun d hd => hdescriptors.distinct c d fd hfd hd⟩

/-- The one connection of a pool is connected anew by the search, the kernel gives the number that
was closed for it again, and the pool is destroyed. -/
theorem tcpPool_open_reconnected :
    let pool : Option (TcpPool 1 Bool) :=
      create "127.0.0.1" 9000 (fun _ => (some 3, ⟨true, true⟩)) .empty 1
    let ops : List (Op 1 Bool) :=
      [.getConnection false (fun _ => (some 3, ⟨true, true⟩)) [⟨0, 0⟩], .destroyPool [⟨0, 0⟩] []]
    ∃ w w', pool = some w ∧ Runs.run step w ops = some w' ∧
      ∀ fd, Open w'.process.log fd ↔ Open Process.empty.log fd ∨
        (w'.status ≠ .destroyed ∧ ∃ c, (w'.objects c).Holds fd) := by
  intro pool ops
  refine ⟨_, _, rfl, rfl, (tcpPool_open_iff "127.0.0.1" 9000 (fun _ => (some 3, ⟨true, true⟩))
    .empty _ rfl ops _ rfl ?_).1⟩
  have hlog : GivenFresh ([.acquired 3, .released 3, .acquired 3, .released 3,
      .released 3, .released 3] : Log ℕ) := by
    simp [GivenFresh, FreshAfter, Event.leavesOpen]
  exact hlog

end TcpPool

end AsabruEngine
