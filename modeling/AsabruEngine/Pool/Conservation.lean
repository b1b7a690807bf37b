import AsabruEngine.Pool.World

/-! # Conservation of connections

Whatever the clients do, with proxies of whatever state and pool, every call refines one step of the
lending each pool stands for. So no pool ever loses, gains or mixes up a connection.

* `ConnectionPool.Conserves` says so of one pool and the vector it was built from.
* `Sound` gives each pool of a `World` its lending; `sound_step` keeps it by the refinement of each
  member, and `sound_run` carries it along a run.
* `pools_conserve_connections` reads conservation off in every state reached. -/

namespace AsabruEngine

open NodeMap

variable {ι π Conn : Type*} [DecidableEq ι] [DecidableEq π] [DecidableEq Conn]

/-- A pool has exactly the connections of the vector it was built from: each of them is idle or
busy and not both, is owned under its own address, and none was destroyed. -/
structure ConnectionPool.Conserves (pool : ConnectionPool Conn) (vector : ConnectionVector Conn) :
    Prop where
  disjoint : Disjoint pool.mConnectionsIdle.keys pool.mConnectionsBusy.keys
  union : pool.mConnectionsIdle.keys ∪ pool.mConnectionsBusy.keys = vector.connections.toFinset
  idle_owns : OwnKeyed pool.mConnectionsIdle
  busy_owns : OwnKeyed pool.mConnectionsBusy
  size_eq : pool.size = pool.sizeIdle + pool.sizeBusy
  size_eq_length : pool.size = vector.connections.length
  destroyed : pool.destroyed = []

/-- What a lending of the vector's connections says about the pool that stands for it. -/
theorem ConnectionPool.Represents.conserves {pool : ConnectionPool Conn} {l : Lending Conn}
    (h : pool.Represents l) {vector : ConnectionVector Conn}
    (hstock : l.stock = vector.connections.toFinset) : pool.Conserves vector := by
  refine ⟨?_, ?_, h.idle_owns, h.busy_owns, Nat.add_comm _ _, ?_, h.kept⟩
  · rw [h.idle, h.busy]
    exact Finset.sdiff_disjoint
  · rw [h.idle, h.busy, ← hstock]
    exact Finset.sdiff_union_of_subset l.out_subset
  · rw [h.size_eq, hstock, List.toFinset_card_of_nodup vector.nodup]

namespace World

/-- `release_connection` of a pointer, null or not, refines a step of the lending. -/
theorem refines_releaseConnection {pool : ConnectionPool Conn} {l : Lending Conn}
    (h : pool.Represents l) (connection : Option Conn) :
    ∃ l', l.Step l' ∧ (pool.releaseConnection connection).Represents l' := by
  cases connection with
  | none => exact ⟨l, .stay l, h⟩
  | some c => exact ⟨l.giveBack c, .giveBack l c, h.releaseConnection c⟩

/-- A change of one pool that refines a step of its lending does so for every pool of the family. -/
theorem refines_update {pools : ι → ConnectionPool Conn} {i : ι} {l : Lending Conn}
    (h : (pools i).Represents l) {j : ι} {pool : ConnectionPool Conn}
    (hpool : (pools j).Represents l → ∃ l', l.Step l' ∧ pool.Represents l') :
    ∃ l', l.Step l' ∧ (Function.update pools j pool i).Represents l' := by
  by_cases hij : i = j
  · subst hij
    rw [Function.update_self]
    exact hpool h
  · rw [Function.update_of_ne hij]
    exact ⟨l, .stay l, h⟩

/-- **Every call refines the lending** of every pool. -/
theorem refines_step {w w' : World ι π Conn} {op : Op ι π Conn} (hstep : w.step op = some w')
    {i : ι} {l : Lending Conn} (h : (w.pools i).Represents l) :
    ∃ l', l.Step l' ∧ (w'.pools i).Represents l' := by
  cases op with
  | getConnection pool dst answers order =>
      obtain ⟨-, horder, rfl⟩ := step_getConnection.mp hstep
      refine refines_update h fun hpool => ?_
      rcases hpool.getConnection pool answers horder with ⟨-, heq, -⟩ | ⟨c, hc, -, hlent⟩
      · refine ⟨l, .stay l, ?_⟩
        rw [heq]
        exact hpool
      · exact ⟨l.lend c hc, .lend l c hc, hlent⟩
  | releaseConnection pool p =>
      obtain ⟨proxy, -, rfl⟩ := step_releaseConnection.mp hstep
      exact refines_update h fun hpool => refines_releaseConnection hpool proxy.mConnection
  | moveConstruct src dst =>
      obtain ⟨proxy, -, -, rfl⟩ := step_moveConstruct.mp hstep
      exact ⟨l, .stay l, h⟩
  | moveAssign src dst =>
      obtain ⟨proxy, old, -, -, ⟨-, rfl⟩ | ⟨-, rfl⟩⟩ := step_moveAssign.mp hstep
      · exact ⟨l, .stay l, h⟩
      · exact ⟨l, .stay l, h⟩
  | destroy p =>
      obtain ⟨proxy, -, rfl⟩ := step_destroy.mp hstep
      cases hmPool : proxy.mPool with
      | none =>
          rw [ConnectionProxy.destructor_of_mPool_none hmPool]
          exact ⟨l, .stay l, h⟩
      | some pool =>
          rw [ConnectionProxy.destructor_of_mPool_some hmPool]
          exact refines_update h fun hpool => refines_releaseConnection hpool proxy.mConnection
  | heartBeat pool answers order =>
      obtain ⟨-, rfl⟩ := step_heartBeat.mp hstep
      exact ⟨l, .stay l, h⟩

/-- Every pool stands for a lending of the connections it was built from. -/
def Sound (vectors : ι → ConnectionVector Conn) (w : World ι π Conn) : Prop :=
  ∀ i, ∃ l : Lending Conn,
    l.stock = (vectors i).connections.toFinset ∧ (w.pools i).Represents l

omit [DecidableEq ι] [DecidableEq π] in
theorem sound_start (vectors : ι → ConnectionVector Conn) :
    Sound vectors (start vectors : World ι π Conn) :=
  fun i => ⟨_, rfl, ConnectionPool.represents_new (vectors i)⟩

theorem sound_step {vectors : ι → ConnectionVector Conn} {w w' : World ι π Conn}
    {op : Op ι π Conn} (h : Sound vectors w) (hstep : w.step op = some w') : Sound vectors w' := by
  intro i
  obtain ⟨l, hstock, hpool⟩ := h i
  obtain ⟨l', hlend, hpool'⟩ := refines_step hstep hpool
  exact ⟨l', hlend.stock_eq.trans hstock, hpool'⟩

/-- Every run of the clients keeps every pool sound. -/
theorem sound_run {vectors : ι → ConnectionVector Conn} {ops : List (Op ι π Conn)}
    {w : World ι π Conn} (hrun : Runs.run step (start vectors) ops = some w) : Sound vectors w :=
  Runs.Always.of_run step (Runs.always_of_invariant step (fun _ h => h)
    (fun _ _ _ h hstep => sound_step h hstep) (sound_start vectors) ops) hrun

/-- **Conservation of connections.** After any run of calls of any clients on a family of new
pools, whatever the connections answer, in whatever order the maps are iterated and whichever
proxies are released, moved or destroyed, every pool has exactly the connections it was built
from. -/
theorem pools_conserve_connections (vectors : ι → ConnectionVector Conn)
    (ops : List (Op ι π Conn)) (w : World ι π Conn)
    (hrun : Runs.run step (start vectors) ops = some w) (i : ι) :
    (w.pools i).Conserves (vectors i) := by
  obtain ⟨l, hstock, hpool⟩ := sound_run hrun i
  exact hpool.conserves hstock

/-- A connection released by hand, handed out again, and released by the first proxy's destructor
while the second proxy still has it. -/
theorem pools_conserve_connections_released_twice :
    (((Runs.run step (start fun _ : Unit => ⟨[7, 8], by decide⟩)
      [.getConnection () 0 ⟨fun _ => .threw, fun _ => .threw, fun _ => .threw⟩ [⟨7, 7⟩, ⟨8, 8⟩],
        .releaseConnection () 0,
        .getConnection () 1 ⟨fun _ => .threw, fun _ => .threw, fun _ => .threw⟩ [⟨7, 7⟩, ⟨8, 8⟩],
        .destroy 0]).get (by decide)).pools ()).Conserves ⟨[7, 8], by decide⟩ :=
  pools_conserve_connections _ _ _ (Option.some_get _).symm ()

end World

end AsabruEngine
