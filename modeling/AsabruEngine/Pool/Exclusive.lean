import AsabruEngine.Pool.Conservation

/-! # Exclusive hand-out

Clients sharing one pool acquire a connection with `get_connection` and end the acquisition by
passing the proxy to `release_connection` or by destroying it. `release_connection` leaves its
argument's pointers in place, where the move operations null them, so the destructor of a released
proxy releases the connection a second time. That is harmless unless the connection has been handed
out again in between: then it is taken from the client that has it.

* `Shared` adds to a `World` which acquisitions are active; `step` performs a `ClientCall` and keeps
  the account.
* `Exclusive` says that no connection has two active acquisitions and that each connection with one
  is busy. `Harmless` is the condition on a call, and `Inv` what harmless calls keep.
* `inv_step` and `not_exclusive_step` are the two directions for one call, and
  `exclusive_iff_harmless` has them for runs. -/

namespace AsabruEngine

variable {π Conn : Type*}

/-- What the clients of one pool share, with the acquisitions that have not ended. -/
structure Shared (π Conn : Type*) where
  world : World Unit π Conn
  /-- The connection of the active acquisition that a proxy carries. An acquisition follows its
  proxy through moves, so no two slots ever carry the same one. -/
  active : π → Option Conn

/-- A call of a client on the shared pool. -/
inductive ClientCall (π Conn : Type*)
  | getConnection (dst : π) (answers : Answers Conn) (order : List (Σ _ : Conn, Conn))
  | releaseConnection (proxy : π)
  | moveConstruct (src dst : π)
  | destroy (proxy : π)

namespace ClientCall

/-- The call on the pool. -/
def op : ClientCall π Conn → Op Unit π Conn
  | .getConnection dst answers order => .getConnection () dst answers order
  | .releaseConnection p => .releaseConnection () p
  | .moveConstruct src dst => .moveConstruct src dst
  | .destroy p => .destroy p

/-- The acquisitions active after a call that leads to `world`: `get_connection` starts one where it
returns a proxy that is not null, a move takes one along, and releasing or destroying a proxy ends
the one it carries. -/
def account [DecidableEq π] (world : World Unit π Conn) (active : π → Option Conn) :
    ClientCall π Conn → π → Option Conn
  | .getConnection dst _ _ => Function.update active dst (world.connectionOf dst)
  | .releaseConnection p => Function.update active p none
  | .moveConstruct src dst => Function.update (Function.update active src none) dst (active src)
  | .destroy p => Function.update active p none

end ClientCall

namespace Shared

variable [DecidableEq π] [DecidableEq Conn]

/-- A new pool without clients. -/
def start (vector : ConnectionVector Conn) : Shared π Conn :=
  ⟨.start fun _ => vector, fun _ => none⟩

/-- One call of a client. -/
def step (s : Shared π Conn) (call : ClientCall π Conn) : Option (Shared π Conn) :=
  (s.world.step call.op).map fun world => ⟨world, call.account world s.active⟩

/-- The busy connections. -/
def busy (s : Shared π Conn) : Finset Conn := (s.world.pools ()).mConnectionsBusy.keys

/-- No connection is the subject of two active acquisitions, and every connection with one is
busy. -/
structure Exclusive (s : Shared π Conn) : Prop where
  once : ∀ p q c, s.active p = some c → s.active q = some c → p = q
  busy : ∀ p c, s.active p = some c → c ∈ s.busy

/-- A proxy whose acquisition has ended points to no busy connection. -/
def Spent (s : Shared π Conn) (p : π) : Prop :=
  s.active p = none → ∀ c, s.world.connectionOf p = some c → c ∉ s.busy

/-- The condition on a call: releasing or destroying a proxy whose acquisition has ended does not
find the connection it still points to busy. -/
def Harmless (s : Shared π Conn) : ClientCall π Conn → Prop
  | .releaseConnection p => s.Spent p
  | .destroy p => s.Spent p
  | _ => True

/-! ## What one call does -/

/-- What a call does to the shared state. -/
theorem step_eq_some {s s' : Shared π Conn} {call : ClientCall π Conn} :
    s.step call = some s' ↔
      ∃ w, s.world.step call.op = some w ∧ s' = ⟨w, call.account w s.active⟩ := by
  rw [step, Option.map_eq_some_iff]
  exact ⟨fun ⟨w, hw, heq⟩ => ⟨w, hw, heq.symm⟩, fun ⟨w, hw, heq⟩ => ⟨w, hw, heq.symm⟩⟩

/-- Releasing or destroying a proxy takes exactly the connection it points to out of the busy ones,
whoever has it. -/
theorem mem_busy_of_ends {vector : ConnectionVector Conn} {w w' : World Unit π Conn}
    (hsound : World.Sound (fun _ => vector) w) (hpaired : w.Paired) {p : π}
    (hstep : w.step (.releaseConnection () p) = some w' ∨ w.step (.destroy p) = some w')
    {c : Conn} :
    c ∈ (w'.pools ()).mConnectionsBusy.keys ↔
      c ∈ (w.pools ()).mConnectionsBusy.keys ∧ w.connectionOf p ≠ some c := by
  obtain ⟨l, -, hpool⟩ := hsound ()
  rw [Finmap.mem_keys, Finmap.mem_keys]
  rcases hstep with hstep | hstep
  · obtain ⟨proxy, hp, rfl⟩ := World.step_releaseConnection.mp hstep
    dsimp only
    rw [World.connectionOf_of_proxy hp, Function.update_self]
    exact hpool.mem_busy_releaseConnection proxy.mConnection
  · obtain ⟨proxy, hp, rfl⟩ := World.step_destroy.mp hstep
    dsimp only
    rw [World.connectionOf_of_proxy hp]
    cases hmPool : proxy.mPool with
    | none =>
        -- the null proxy releases nothing
        rw [ConnectionProxy.destructor_of_mPool_none hmPool, (hpaired p proxy hp).mp hmPool]
        exact (and_iff_left (Option.some_ne_none c).symm).symm
    | some i =>
        rw [ConnectionProxy.destructor_of_mPool_some hmPool, Function.update_self]
        exact hpool.mem_busy_releaseConnection proxy.mConnection

/-! ## The invariant -/

/-- What the clients' calls keep while they are harmless: the busy connections are exactly those
with an active acquisition, each in the custody of the one proxy that carries it. -/
structure Inv (vector : ConnectionVector Conn) (s : Shared π Conn) : Prop where
  sound : World.Sound (fun _ => vector) s.world
  paired : s.world.Paired
  custody : Custody s.active s.busy
  carried : ∀ p c, s.active p = some c → s.world.connectionOf p = some c

omit [DecidableEq π] in
theorem inv_start (vector : ConnectionVector Conn) : Inv vector (start vector : Shared π Conn) := by
  refine ⟨World.sound_start _, fun _ _ hnone => (nomatch hnone), ?_,
    fun _ _ hnone => (nomatch hnone)⟩
  have hbusy : (start vector : Shared π Conn).busy = ∅ :=
    (ConnectionPool.represents_new vector).busy
  rw [hbusy]
  exact Custody.empty

omit [DecidableEq π] in
/-- While the invariant holds, hand-out is exclusive. -/
theorem Inv.exclusive {vector : ConnectionVector Conn} {s : Shared π Conn} (h : Inv vector s) :
    s.Exclusive :=
  ⟨fun _ _ _ hp hq => h.custody.once hp hq, fun p _ hp => h.custody.mem_iff.mpr ⟨p, hp⟩⟩

omit [DecidableEq π] in
/-- An empty slot carries nothing. -/
theorem Inv.active_of_none {vector : ConnectionVector Conn} {s : Shared π Conn} (h : Inv vector s)
    {p : π} (hp : s.world.proxies p = none) : s.active p = none := by
  cases hactive : s.active p with
  | none => rfl
  | some c =>
      have hconnection := h.carried p c hactive
      rw [World.connectionOf, hp] at hconnection
      cases hconnection

/-- `get_connection` starts an acquisition of the connection that becomes busy. -/
theorem Inv.getConnection {vector : ConnectionVector Conn} {s : Shared π Conn} (h : Inv vector s)
    {dst : π} {answers : Answers Conn} {order : List (Σ _ : Conn, Conn)} {w : World Unit π Conn}
    (hstep : s.world.step (.getConnection () dst answers order) = some w) :
    Custody (Function.update s.active dst (w.connectionOf dst))
      (w.pools ()).mConnectionsBusy.keys := by
  obtain ⟨hdst, horder, rfl⟩ := World.step_getConnection.mp hstep
  obtain ⟨l, -, hpool⟩ := h.sound ()
  rw [World.connectionOf_update, Function.update_self, Option.bind_some]
  dsimp only
  rw [Function.update_self]
  exact hpool.custody_getConnection h.custody () answers horder (h.active_of_none hdst)

omit [DecidableEq Conn] in
/-- What is carried stays what is pointed to where a slot changes both alike. -/
theorem carried_update {active connection : π → Option Conn}
    (h : ∀ p c, active p = some c → connection p = some c) (p : π) {x y : Option Conn}
    (hxy : ∀ c, x = some c → y = some c) (q : π) (c : Conn)
    (hq : Function.update active p x q = some c) : Function.update connection p y q = some c := by
  rw [Function.update_apply] at hq ⊢
  split at hq
  · rename_i hqp
    rw [if_pos hqp]
    exact hxy c hq
  · rename_i hqp
    rw [if_neg hqp]
    exact h q c hq

/-- Ending an acquisition, or a harmless second release, leaves every other acquisition its
connection. -/
theorem Inv.ends {vector : ConnectionVector Conn} {s : Shared π Conn} (h : Inv vector s)
    {p : π} (hspent : s.Spent p) {busy' : Finset Conn}
    (hbusy : ∀ c, c ∈ busy' ↔ c ∈ s.busy ∧ s.world.connectionOf p ≠ some c) :
    Custody (Function.update s.active p none) busy' := by
  cases hactive : s.active p with
  | none =>
      -- a second release: the connection is not busy, so nothing moves
      have hsame : busy' = s.busy := by
        ext c
        rw [hbusy]
        exact ⟨fun hc => hc.1, fun hc => ⟨hc, fun hp => hspent hactive c hp hc⟩⟩
      rw [hsame, ← hactive, Function.update_eq_self]
      exact h.custody
  | some d =>
      have herase : busy' = s.busy.erase d := by
        ext c
        rw [hbusy, h.carried p d hactive, Finset.mem_erase, ne_eq, Option.some.injEq, and_comm,
          eq_comm]
      rw [herase]
      exact h.custody.drop hactive

/-- A harmless call keeps the busy connections in the custody of the proxies that carry them. -/
theorem Inv.custody_step {vector : ConnectionVector Conn} {s : Shared π Conn}
    {call : ClientCall π Conn} (h : Inv vector s) (hharmless : s.Harmless call)
    {w : World Unit π Conn} (hw : s.world.step call.op = some w) :
    Custody (call.account w s.active) (w.pools ()).mConnectionsBusy.keys := by
  cases call with
  | getConnection dst answers order => exact h.getConnection hw
  | releaseConnection p =>
      exact h.ends hharmless fun c => mem_busy_of_ends h.sound h.paired (Or.inl hw)
  | moveConstruct src dst =>
      obtain ⟨proxy, hsrc, hdst, rfl⟩ := World.step_moveConstruct.mp hw
      refine h.custody.hand ?_ (h.active_of_none hdst)
      rintro rfl
      rw [hsrc] at hdst
      cases hdst
  | destroy p =>
      exact h.ends hharmless fun c => mem_busy_of_ends h.sound h.paired (Or.inr hw)

/-- After any call, harmless or not, a proxy that carries an acquisition points to its
connection. -/
theorem Inv.carried_step {vector : ConnectionVector Conn} {s : Shared π Conn}
    {call : ClientCall π Conn} (h : Inv vector s) {w : World Unit π Conn}
    (hw : s.world.step call.op = some w) :
    ∀ p c, call.account w s.active p = some c → w.connectionOf p = some c := by
  intro q c hq
  cases call with
  | getConnection dst answers order =>
      obtain ⟨-, -, rfl⟩ := World.step_getConnection.mp hw
      rw [ClientCall.account, World.connectionOf_update, Function.update_self] at hq
      rw [World.connectionOf_update]
      exact carried_update h.carried dst (fun _ hc => hc) q c hq
  | releaseConnection p =>
      obtain ⟨proxy, -, rfl⟩ := World.step_releaseConnection.mp hw
      -- the released proxy keeps its pointers, and carries nothing
      have hcarried := carried_update h.carried p (x := none) (y := s.world.connectionOf p)
        (fun _ hnone => nomatch hnone) q c hq
      rw [Function.update_eq_self] at hcarried
      exact hcarried
  | moveConstruct src dst =>
      obtain ⟨proxy, hsrc, -, rfl⟩ := World.step_moveConstruct.mp hw
      have hleft := World.connectionOf_update s.world s.world.pools src (some .null)
      have hcarried := carried_update h.carried src (x := none) (y := none) fun _ hnone => hnone
      rw [World.connectionOf_update ⟨s.world.pools, Function.update s.world.proxies src _⟩, hleft]
      refine carried_update hcarried dst (fun d hd => ?_) q c hq
      rw [Option.bind_some, ← World.connectionOf_of_proxy hsrc]
      exact h.carried src d hd
  | destroy p =>
      obtain ⟨proxy, -, rfl⟩ := World.step_destroy.mp hw
      rw [World.connectionOf_update]
      exact carried_update h.carried p (x := none) (fun _ hnone => nomatch hnone) q c hq

/-- **A harmless call keeps the invariant.** -/
theorem inv_step {vector : ConnectionVector Conn} {s s' : Shared π Conn}
    {call : ClientCall π Conn} (h : Inv vector s) (hharmless : s.Harmless call)
    (hstep : s.step call = some s') : Inv vector s' := by
  obtain ⟨w, hw, rfl⟩ := step_eq_some.mp hstep
  exact ⟨World.sound_step h.sound hw, World.paired_step h.paired hw, h.custody_step hharmless hw,
    h.carried_step hw⟩

/-- **A call that is not harmless breaks exclusive hand-out**: the client that has the connection
keeps its acquisition, and the connection is idle. -/
theorem not_exclusive_step {vector : ConnectionVector Conn} {s s' : Shared π Conn}
    {call : ClientCall π Conn} (h : Inv vector s) (hharmless : ¬ s.Harmless call)
    (hstep : s.step call = some s') : ¬ s'.Exclusive := by
  obtain ⟨w, hw, rfl⟩ := step_eq_some.mp hstep
  -- both calls that can do harm take the connection of a proxy without an acquisition
  have hends : ∀ p, ¬ s.Spent p →
      (s.world.step (.releaseConnection () p) = some w ∨ s.world.step (.destroy p) = some w) →
      ¬ Exclusive ⟨w, Function.update s.active p none⟩ := by
    intro p hspent hp hexclusive
    simp only [Spent, not_forall, not_not] at hspent
    obtain ⟨hactive, c, hc, hbusy⟩ := hspent
    obtain ⟨q, hq⟩ := h.custody.mem_iff.mp hbusy
    have hqp : q ≠ p := by
      rintro rfl
      rw [hactive] at hq
      cases hq
    have hq' : Function.update s.active p none q = some c := by
      rw [Function.update_of_ne hqp]
      exact hq
    have hleft := (mem_busy_of_ends h.sound h.paired hp).mp (hexclusive.busy q c hq')
    exact hleft.2 hc
  cases call with
  | getConnection dst answers order => exact absurd trivial hharmless
  | releaseConnection p => exact hends p hharmless (Or.inl hw)
  | moveConstruct src dst => exact absurd trivial hharmless
  | destroy p => exact hends p hharmless (Or.inr hw)

/-- **When hand-out is exclusive.** In a run of clients sharing a new pool, no connection is ever
the subject of two active acquisitions and every one with an active acquisition is busy, in every
state of the run, exactly when at no step a proxy whose acquisition has ended is released or
destroyed while the connection it still points to is busy. -/
theorem exclusive_iff_harmless (vector : ConnectionVector Conn) (calls : List (ClientCall π Conn)) :
    Runs.Always step Exclusive (start vector) calls ↔
      Runs.Along step Harmless (start vector) calls :=
  Runs.always_iff_along step (fun _ h => Inv.exclusive h)
    (fun _ _ _ h hharmless hstep => inv_step h hharmless hstep)
    (fun _ _ _ h hharmless hstep => not_exclusive_step h hharmless hstep) (inv_start vector) calls

/-- A client releases its connection, a second one acquires it, the first one's proxy is destroyed,
and a third client is handed the connection that the second one has. -/
theorem not_exclusive_released_then_destroyed :
    ¬ Runs.Always step Exclusive (start ⟨[7], List.nodup_singleton 7⟩)
      [.getConnection 0 ⟨fun _ => .returned true, fun _ => .returned true, fun _ => .returned true⟩
          [⟨7, 7⟩],
        .releaseConnection 0,
        .getConnection 1 ⟨fun _ => .returned true, fun _ => .returned true, fun _ => .returned true⟩
          [⟨7, 7⟩],
        .destroy 0,
        .getConnection 2 ⟨fun _ => .returned true, fun _ => .returned true, fun _ => .returned true⟩
          [⟨7, 7⟩]] := by
  intro h
  have hlast := Runs.Always.of_run step h rfl
  have htwice := hlast.once 1 2 7 rfl rfl
  cases htwice

end Shared

end AsabruEngine
