import AsabruEngine.Pool.Raii

/-! # Busy connections without a proxy

A busy connection comes back only through a proxy that points to it. Every operation on proxies
keeps such a proxy alive but one: the move assignment overwrites the pointers of its target without
releasing what they point to, and a connection that no other proxy points to then stays busy for
good.

`NoneStranded` says that every busy connection has a proxy, and `SparesLastProxy` is the condition
on a call. `busyCovered_step_iff` decides it for one call, by `Covered.hand_iff` where a proxy is
assigned over, and `noneStranded_iff_sparesLastProxy` for runs. -/

namespace AsabruEngine

open NodeMap

variable {ι π Conn : Type*} [DecidableEq ι] [DecidableEq π] [DecidableEq Conn]

namespace World

/-- Every busy connection of every pool is with a live proxy of that pool, and with all proxies
destroyed every connection is idle. -/
structure NoneStranded (vectors : ι → ConnectionVector Conn) (w : World ι π Conn) : Prop where
  /-- A busy connection is the `m_connection` of a live proxy whose `m_pool` is its pool. -/
  owned : ∀ i c, c ∈ (w.pools i).mConnectionsBusy →
    ∃ p proxy, w.proxies p = some proxy ∧ proxy.mPool = some i ∧ proxy.mConnection = some c
  all_idle : (∀ p, w.proxies p = none) → ∀ i,
    (w.pools i).mConnectionsBusy.keys = ∅ ∧
      (w.pools i).mConnectionsIdle.keys = (vectors i).connections.toFinset

/-- The condition on a call: a proxy that is assigned over from another one does not point to a busy
connection of its pool, or a further live proxy of the pool points to it too. -/
def SparesLastProxy (w : World ι π Conn) : Op ι π Conn → Prop
  | .moveAssign src dst => src ≠ dst → ∀ i c, c ∈ (w.pools i).mConnectionsBusy →
      w.held i dst = some c → ∃ q, q ≠ dst ∧ w.held i q = some c
  | _ => True

omit [DecidableEq π] [DecidableEq Conn] in
theorem held_eq_some_iff {w : World ι π Conn} {i : ι} {p : π} {c : Conn} :
    w.held i p = some c ↔
      ∃ proxy, w.proxies p = some proxy ∧ proxy.mPool = some i ∧ proxy.mConnection = some c := by
  rw [held, Option.bind_eq_some_iff]
  refine exists_congr fun proxy => and_congr_right fun _ => ?_
  rw [ConnectionProxy.heldFrom]
  split
  · rename_i hpool
    exact (and_iff_right hpool).symm
  · rename_i hpool
    refine iff_of_false ?_ fun h => hpool h.1
    simp

/-- The busy connections of a pool are covered by its proxies. -/
def BusyCovered (w : World ι π Conn) (i : ι) : Prop :=
  Covered (w.held i) (w.pools i).mConnectionsBusy.keys

omit [DecidableEq π] in
/-- What is covered is not stranded, and the other way round. -/
theorem noneStranded_iff {vectors : ι → ConnectionVector Conn} {w : World ι π Conn}
    (hsound : Sound vectors w) : w.NoneStranded vectors ↔ ∀ i, w.BusyCovered i := by
  constructor
  · intro h i c hc
    obtain ⟨p, hp⟩ := h.owned i c (Finmap.mem_keys.mp hc)
    exact ⟨p, held_eq_some_iff.mpr hp⟩
  · intro h
    refine ⟨fun i c hc => ?_, fun hnone i => ?_⟩
    · obtain ⟨p, hp⟩ := h i c (Finmap.mem_keys.mpr hc)
      exact ⟨p, held_eq_some_iff.mp hp⟩
    · have hempty : (w.pools i).mConnectionsBusy.keys = ∅ := by
        refine Finset.eq_empty_of_forall_notMem fun c hc => ?_
        obtain ⟨p, hp⟩ := h i c hc
        rw [held_of_none (hnone p)] at hp
        cases hp
      obtain ⟨l, hstock, hpool⟩ := hsound i
      -- with nothing out, all of the stock is free
      refine ⟨hempty, ?_⟩
      rw [hpool.busy] at hempty
      rw [hpool.idle, ← hstock, Lending.free, hempty, Finset.sdiff_empty]

/-! ## The calls -/

omit [DecidableEq ι] [DecidableEq π] in
/-- Releasing a pointer makes no further connection busy, and the one pointed to is idle. -/
theorem busy_releaseConnection_subset {pool : ConnectionPool Conn} {l : Lending Conn}
    (h : pool.Represents l) (connection : Option Conn) :
    (pool.releaseConnection connection).mConnectionsBusy.keys ⊆ pool.mConnectionsBusy.keys := by
  intro c hc
  rw [Finmap.mem_keys] at hc ⊢
  exact ((h.mem_busy_releaseConnection connection).mp hc).1

/-- `get_connection` puts the connection that becomes busy into the new proxy. -/
theorem busyCovered_getConnection {w : World ι π Conn} {i pool : ι} (h : w.BusyCovered i)
    {l : Lending Conn} (hpool : (w.pools pool).Represents l) {dst : π} (hdst : w.proxies dst = none)
    (answers : Answers Conn) {order : List (Σ _ : Conn, Conn)}
    (horder : Iterates order (w.pools pool).mConnectionsIdle) :
    BusyCovered ⟨Function.update w.pools pool
        ((w.pools pool).getConnection pool answers order).pool,
      Function.update w.proxies dst
        (some ((w.pools pool).getConnection pool answers order).proxy)⟩ i := by
  have hfree := held_of_none hdst i
  rw [BusyCovered, held_update, Option.bind_some,
    heldFrom_getConnection hpool pool i answers horder]
  by_cases hi : i = pool
  · subst hi
    rw [if_pos rfl]
    dsimp only
    rw [Function.update_self]
    rcases hpool.getConnection i answers horder with ⟨hproxy, heq, -⟩ | ⟨c, hc, hproxy, hlent⟩
    · rw [hproxy, heq, ConnectionProxy.null, ← hfree, Function.update_eq_self]
      exact h
    · rw [hproxy, hlent.busy, Lending.out_lend, ← hpool.busy]
      exact h.take hfree c
  · -- a proxy of another pool
    rw [if_neg hi]
    dsimp only
    rw [Function.update_of_ne hi, ← hfree, Function.update_eq_self]
    exact h

omit [DecidableEq π] in
/-- A release by hand leaves every proxy its pointers. -/
theorem busyCovered_release {w : World ι π Conn} {i pool : ι} (h : w.BusyCovered i)
    {l : Lending Conn} (hpool : (w.pools pool).Represents l) (connection : Option Conn) :
    BusyCovered ⟨Function.update w.pools pool ((w.pools pool).releaseConnection connection),
      w.proxies⟩ i := by
  refine h.mono ?_
  dsimp only
  by_cases hi : i = pool
  · subst hi
    rw [Function.update_self]
    exact busy_releaseConnection_subset hpool connection
  · rw [Function.update_of_ne hi]

/-- The destructor releases what its proxy points to. -/
theorem busyCovered_destroy {w : World ι π Conn} {i : ι} (h : w.BusyCovered i) {l : Lending Conn}
    (hpool : (w.pools i).Represents l) {p : π} {proxy : ConnectionProxy ι Conn}
    (hp : w.proxies p = some proxy) :
    BusyCovered ⟨proxy.destructor w.pools, Function.update w.proxies p none⟩ i := by
  rw [BusyCovered, held_update, Option.bind_none]
  dsimp only
  have hheld := held_of_proxy hp i
  by_cases hi : proxy.mPool = some i
  · rw [ConnectionProxy.heldFrom, if_pos hi] at hheld
    rw [ConnectionProxy.destructor_of_mPool_some hi, Function.update_self]
    refine h.lose (busy_releaseConnection_subset hpool _) fun c hc hpc => ?_
    rw [Finmap.mem_keys] at hc
    exact absurd (hheld.symm.trans hpc) ((hpool.mem_busy_releaseConnection _).mp hc).2
  · -- the proxy has nothing from this pool, and its destructor does not touch it
    rw [ConnectionProxy.heldFrom, if_neg hi] at hheld
    rw [ConnectionProxy.destructor_apply_of_ne hi, ← hheld, Function.update_eq_self]
    exact h

omit [DecidableEq Conn] in
/-- A move between two proxies covers the busy connections exactly if what the target pointed to is
covered by a further proxy. -/
theorem busyCovered_move_iff {w : World ι π Conn} {i : ι} (h : w.BusyCovered i) {src dst : π}
    {proxy : ConnectionProxy ι Conn} (hsrc : w.proxies src = some proxy) (hne : src ≠ dst) :
    BusyCovered ⟨w.pools,
        Function.update (Function.update w.proxies src (some .null)) dst (some proxy)⟩ i ↔
      ∀ c ∈ (w.pools i).mConnectionsBusy, w.held i dst = some c →
        ∃ q, q ≠ dst ∧ w.held i q = some c := by
  rw [BusyCovered, held_move hsrc, h.hand_iff hne]
  simp only [Finmap.mem_keys]

/-- **A call that spares the last proxy** keeps every busy connection with a proxy, and one that
does not strands a connection. -/
theorem busyCovered_step_iff {vectors : ι → ConnectionVector Conn} {w w' : World ι π Conn}
    {op : Op ι π Conn} (hsound : Sound vectors w) (h : ∀ i, w.BusyCovered i)
    (hstep : w.step op = some w') : (∀ i, w'.BusyCovered i) ↔ w.SparesLastProxy op := by
  cases op with
  | getConnection pool dst answers order =>
      obtain ⟨hdst, horder, rfl⟩ := step_getConnection.mp hstep
      obtain ⟨l, -, hpool⟩ := hsound pool
      exact iff_of_true (fun i => busyCovered_getConnection (h i) hpool hdst answers horder) trivial
  | releaseConnection pool p =>
      obtain ⟨proxy, -, rfl⟩ := step_releaseConnection.mp hstep
      obtain ⟨l, -, hpool⟩ := hsound pool
      exact iff_of_true (fun i => busyCovered_release (h i) hpool proxy.mConnection) trivial
  | moveConstruct src dst =>
      obtain ⟨proxy, hsrc, hdst, rfl⟩ := step_moveConstruct.mp hstep
      refine iff_of_true (fun i => ?_) trivial
      have hne : src ≠ dst := by
        rintro rfl
        rw [hsrc] at hdst
        cases hdst
      -- the target was no proxy before
      refine (busyCovered_move_iff (h i) hsrc hne).mpr fun c _ hc => ?_
      rw [held_of_none hdst] at hc
      cases hc
  | moveAssign src dst =>
      obtain ⟨proxy, old, hsrc, -, ⟨hself, rfl⟩ | ⟨hne, rfl⟩⟩ := step_moveAssign.mp hstep
      · exact iff_of_true h fun hne => absurd hself hne
      · exact ⟨fun hafter _ i => (busyCovered_move_iff (h i) hsrc hne).mp (hafter i),
          fun hspares i => (busyCovered_move_iff (h i) hsrc hne).mpr (hspares hne i)⟩
  | destroy p =>
      obtain ⟨proxy, hp, rfl⟩ := step_destroy.mp hstep
      refine iff_of_true (fun i => ?_) trivial
      obtain ⟨l, -, hpool⟩ := hsound i
      exact busyCovered_destroy (h i) hpool hp
  | heartBeat pool answers order =>
      obtain ⟨-, rfl⟩ := step_heartBeat.mp hstep
      exact iff_of_true h trivial

/-! ## The runs -/

/-- What calls that spare the last proxy keep. -/
structure CoveredInv (vectors : ι → ConnectionVector Conn) (w : World ι π Conn) : Prop where
  sound : Sound vectors w
  covered : ∀ i, w.BusyCovered i

omit [DecidableEq π] in
theorem coveredInv_start (vectors : ι → ConnectionVector Conn) :
    CoveredInv vectors (start vectors : World ι π Conn) := by
  refine ⟨sound_start vectors, fun i => ?_⟩
  have hbusy : (ConnectionPool.new (vectors i)).mConnectionsBusy.keys = ∅ :=
    (ConnectionPool.represents_new (vectors i)).busy
  intro c hc
  change c ∈ (ConnectionPool.new (vectors i)).mConnectionsBusy.keys at hc
  rw [hbusy] at hc
  exact absurd hc (Finset.notMem_empty c)

/-- **When no connection is stranded.** In a run of clients of new pools every busy connection is,
in every state, with a live proxy of its pool, and idle once all proxies are destroyed, exactly when
no proxy is ever assigned over while it is the last one to point to a busy connection. -/
theorem noneStranded_iff_sparesLastProxy (vectors : ι → ConnectionVector Conn)
    (ops : List (Op ι π Conn)) :
    Runs.Always step (NoneStranded vectors) (start vectors) ops ↔
      Runs.Along step SparesLastProxy (start vectors : World ι π Conn) ops := by
  refine Runs.always_iff_along step (I := CoveredInv vectors) (fun _ h => ?_) ?_ ?_
    (coveredInv_start vectors) ops
  · exact (noneStranded_iff h.sound).mpr h.covered
  · intro w op w' h hspares hstep
    exact ⟨sound_step h.sound hstep, (busyCovered_step_iff h.sound h.covered hstep).mpr hspares⟩
  · intro w op w' h hspares hstep hnone
    have hcovered := (noneStranded_iff (sound_step h.sound hstep)).mp hnone
    exact hspares ((busyCovered_step_iff h.sound h.covered hstep).mp hcovered)

/-- Of two connections handed out, the proxy of the first is assigned over by that of the second:
the first connection is busy, and neither proxy points to it. -/
theorem not_noneStranded_assigned_over :
    ¬ Runs.Always step (NoneStranded fun _ : Unit => ⟨[7, 8], by decide⟩)
      (start fun _ : Unit => ⟨[7, 8], by decide⟩)
      [.getConnection () false
          ⟨fun _ => .returned true, fun _ => .returned true, fun _ => .returned true⟩
          [⟨7, 7⟩, ⟨8, 8⟩],
        .getConnection () true
          ⟨fun _ => .returned true, fun _ => .returned true, fun _ => .returned true⟩ [⟨8, 8⟩],
        .moveAssign true false] := by
  intro h
  have hlast := Runs.Always.of_run step h rfl
  obtain ⟨p, proxy, hproxy, -, hconnection⟩ := hlast.owned () 7 (by decide)
  cases p with
  | false =>
      cases hproxy
      cases hconnection
  | true =>
      cases hproxy
      cases hconnection

end World

end AsabruEngine
