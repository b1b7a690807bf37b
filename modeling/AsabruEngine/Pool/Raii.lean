import AsabruEngine.Pool.Conservation

/-! # Handing out through proxies alone

While clients release connections only by letting proxies be destroyed, a busy connection and the
proxy that has it are in one-to-one correspondence: the moves null their source, so no second proxy
ever points to the connection, and the destructor of the one that does gives it back.

`RaiiCall` singles out the calls that this allows. `InCustody` is the custody of one pool's
connections by the proxies, and `inCustody_step` keeps it; together with conservation it is
`RaiiInv`, from which `raii_handOut_bijection` reads the correspondence. The holders are kept by the
rules of `Custody`, one for each call. -/

namespace AsabruEngine

open NodeMap

variable {ι π Conn : Type*} [DecidableEq ι] [DecidableEq π] [DecidableEq Conn]

/-- The connection that a proxy has from a pool. -/
def ConnectionProxy.heldFrom (i : ι) (proxy : ConnectionProxy ι Conn) : Option Conn :=
  if proxy.mPool = some i then proxy.mConnection else none

namespace World

/-- The calls of RAII use: no connection is released by hand, and no proxy that points to a pool is
assigned over. -/
def RaiiCall (w : World ι π Conn) : Op ι π Conn → Prop
  | .getConnection _ _ _ _ => True
  | .releaseConnection _ _ => False
  | .moveConstruct _ _ => True
  | .moveAssign src dst => src = dst ∨ ∀ proxy, w.proxies dst = some proxy → proxy.mPool = none
  | .destroy _ => True
  | .heartBeat _ _ _ => True

/-- Which proxy alive has which connection from a pool. -/
def held (w : World ι π Conn) (i : ι) (p : π) : Option Conn :=
  (w.proxies p).bind (ConnectionProxy.heldFrom i)

/-- The proxies alive whose `m_pool` points to a pool. -/
def holders (w : World ι π Conn) (i : ι) : Set π :=
  {p | ∃ proxy, w.proxies p = some proxy ∧ proxy.mPool = some i}

/-- The connections of a pool are with the proxies, one each. -/
def InCustody (w : World ι π Conn) (i : ι) : Prop :=
  Custody (w.held i) (w.pools i).mConnectionsBusy.keys

/-! ## Updates of one slot -/

omit [DecidableEq Conn] in
/-- A changed slot changes what is held in it. -/
theorem held_update (w : World ι π Conn) (pools : ι → ConnectionPool Conn) (p : π)
    (slot : Option (ConnectionProxy ι Conn)) (i : ι) :
    held ⟨pools, Function.update w.proxies p slot⟩ i =
      Function.update (w.held i) p (slot.bind (ConnectionProxy.heldFrom i)) := by
  funext q
  rw [held, Function.update_apply]
  change (Function.update w.proxies p slot q).bind _ = _
  rw [Function.update_apply]
  split
  · rfl
  · rfl

omit [DecidableEq Conn] [DecidableEq π] in
theorem held_of_proxy {w : World ι π Conn} {p : π} {proxy : ConnectionProxy ι Conn}
    (hp : w.proxies p = some proxy) (i : ι) : w.held i p = proxy.heldFrom i := by
  rw [held, hp, Option.bind_some]

omit [DecidableEq Conn] [DecidableEq π] in
theorem held_of_none {w : World ι π Conn} {p : π} (hp : w.proxies p = none) (i : ι) :
    w.held i p = none := by
  rw [held, hp, Option.bind_none]

omit [DecidableEq Conn] in
/-- What a proxy had is held in the slot it moved to; the null proxy left behind holds nothing. -/
theorem held_move {w : World ι π Conn} {src : π} {proxy : ConnectionProxy ι Conn}
    (hsrc : w.proxies src = some proxy) (dst : π) (i : ι) :
    held ⟨w.pools,
        Function.update (Function.update w.proxies src (some .null)) dst (some proxy)⟩ i =
      Function.update (Function.update (w.held i) src none) dst (w.held i src) := by
  have hnull : ConnectionProxy.heldFrom i (.null : ConnectionProxy ι Conn) = none :=
    if_neg (Option.some_ne_none i).symm
  have hleft := held_update w w.pools src (some .null) i
  rw [Option.bind_some, hnull] at hleft
  rw [held_update ⟨w.pools, Function.update w.proxies src (some .null)⟩, hleft, Option.bind_some,
    held_of_proxy hsrc]

omit [DecidableEq Conn] in
/-- Custody after a change of one slot. -/
theorem inCustody_update (w : World ι π Conn) (pools : ι → ConnectionPool Conn) (p : π)
    (slot : Option (ConnectionProxy ι Conn)) (i : ι) :
    InCustody ⟨pools, Function.update w.proxies p slot⟩ i ↔
      Custody (Function.update (w.held i) p (slot.bind (ConnectionProxy.heldFrom i)))
        (pools i).mConnectionsBusy.keys := by
  rw [InCustody, held_update]

/-! ## The calls -/

omit [DecidableEq π] in
/-- The proxy that `get_connection` returns has its connection from the pool it was called on. -/
theorem heldFrom_getConnection {pool : ConnectionPool Conn} {l : Lending Conn}
    (h : pool.Represents l) (this i : ι) (answers : Answers Conn)
    {order : List (Σ _ : Conn, Conn)} (horder : Iterates order pool.mConnectionsIdle) :
    (pool.getConnection this answers order).proxy.heldFrom i =
      if i = this then (pool.getConnection this answers order).proxy.mConnection else none := by
  rcases h.getConnection this answers horder with ⟨hproxy, -, -⟩ | ⟨c, -, hproxy, -⟩
  · rw [hproxy, ConnectionProxy.heldFrom, ConnectionProxy.null, ite_self, ite_self]
  · rw [hproxy, ConnectionProxy.heldFrom]
    simp only [Option.some.injEq, eq_comm]

/-- `get_connection` puts the connection that becomes busy into the new proxy. -/
theorem inCustody_getConnection {w : World ι π Conn} {i pool : ι} (h : w.InCustody i)
    {l : Lending Conn} (hpool : (w.pools pool).Represents l) {dst : π} (hdst : w.proxies dst = none)
    (answers : Answers Conn) {order : List (Σ _ : Conn, Conn)}
    (horder : Iterates order (w.pools pool).mConnectionsIdle) :
    InCustody ⟨Function.update w.pools pool
        ((w.pools pool).getConnection pool answers order).pool,
      Function.update w.proxies dst
        (some ((w.pools pool).getConnection pool answers order).proxy)⟩ i := by
  have hfree := held_of_none hdst i
  rw [inCustody_update, Option.bind_some, heldFrom_getConnection hpool pool i answers horder]
  by_cases hi : i = pool
  · subst hi
    rw [if_pos rfl, Function.update_self]
    exact hpool.custody_getConnection h i answers horder hfree
  · -- a proxy of another pool
    rw [if_neg hi, Function.update_of_ne hi, ← hfree, Function.update_eq_self]
    exact h

omit [DecidableEq Conn] in
/-- A move takes the connection along and leaves nothing behind. -/
theorem inCustody_move {w : World ι π Conn} {i : ι} (h : w.InCustody i) {src dst : π}
    {proxy : ConnectionProxy ι Conn} (hsrc : w.proxies src = some proxy) (hne : src ≠ dst)
    (hdst : w.held i dst = none) :
    InCustody ⟨w.pools,
      Function.update (Function.update w.proxies src (some .null)) dst (some proxy)⟩ i := by
  rw [InCustody, held_move hsrc]
  exact h.hand hne hdst

/-- The destructor gives back what the proxy has. -/
theorem inCustody_destroy {w : World ι π Conn} {i : ι} (h : w.InCustody i) {l : Lending Conn}
    (hpool : (w.pools i).Represents l) {p : π} {proxy : ConnectionProxy ι Conn}
    (hp : w.proxies p = some proxy) :
    InCustody ⟨proxy.destructor w.pools, Function.update w.proxies p none⟩ i := by
  rw [inCustody_update, Option.bind_none]
  have hheld := held_of_proxy hp i
  by_cases hi : proxy.mPool = some i
  · rw [ConnectionProxy.heldFrom, if_pos hi] at hheld
    rw [ConnectionProxy.destructor_of_mPool_some hi, Function.update_self, ← hheld]
    exact hpool.custody_releaseConnection h p
  · -- the proxy has nothing from this pool
    rw [ConnectionProxy.heldFrom, if_neg hi] at hheld
    rw [← hheld, Function.update_eq_self, ConnectionProxy.destructor_apply_of_ne hi]
    exact h

/-- **One RAII call keeps every connection in custody.** -/
theorem inCustody_step {vectors : ι → ConnectionVector Conn} {w w' : World ι π Conn}
    {op : Op ι π Conn} (hsound : Sound vectors w) (h : ∀ i, w.InCustody i)
    (hraii : w.RaiiCall op) (hstep : w.step op = some w') (i : ι) : w'.InCustody i := by
  cases op with
  | getConnection pool dst answers order =>
      obtain ⟨hdst, horder, rfl⟩ := step_getConnection.mp hstep
      obtain ⟨l, -, hpool⟩ := hsound pool
      exact inCustody_getConnection (h i) hpool hdst answers horder
  | releaseConnection pool p => exact hraii.elim
  | moveConstruct src dst =>
      obtain ⟨proxy, hsrc, hdst, rfl⟩ := step_moveConstruct.mp hstep
      refine inCustody_move (h i) hsrc ?_ (held_of_none hdst i)
      rintro rfl
      rw [hsrc] at hdst
      cases hdst
  | moveAssign src dst =>
      obtain ⟨proxy, old, hsrc, hdst, ⟨-, rfl⟩ | ⟨hne, rfl⟩⟩ := step_moveAssign.mp hstep
      · exact h i
      · -- the proxy assigned over has nothing to lose
        have hempty : old.mPool = none := hraii.elim (fun heq => absurd heq hne) fun hall =>
          hall old hdst
        refine inCustody_move (h i) hsrc hne ?_
        rw [held_of_proxy hdst, ConnectionProxy.heldFrom, hempty,
          if_neg (Option.some_ne_none i).symm]
  | destroy p =>
      obtain ⟨proxy, hp, rfl⟩ := step_destroy.mp hstep
      obtain ⟨l, -, hpool⟩ := hsound i
      exact inCustody_destroy (h i) hpool hp
  | heartBeat pool answers order =>
      obtain ⟨-, rfl⟩ := step_heartBeat.mp hstep
      exact h i

/-! ## The runs -/

/-- What RAII use keeps. -/
structure RaiiInv (vectors : ι → ConnectionVector Conn) (w : World ι π Conn) : Prop where
  sound : Sound vectors w
  paired : w.Paired
  custody : ∀ i, w.InCustody i

omit [DecidableEq π] in
theorem raiiInv_start (vectors : ι → ConnectionVector Conn) :
    RaiiInv vectors (start vectors : World ι π Conn) := by
  refine ⟨sound_start vectors, fun _ _ hnone => (nomatch hnone), fun i => ?_⟩
  have hbusy : (ConnectionPool.new (vectors i)).mConnectionsBusy.keys = ∅ :=
    (ConnectionPool.represents_new (vectors i)).busy
  change Custody (fun _ : π => none) (ConnectionPool.new (vectors i)).mConnectionsBusy.keys
  rw [hbusy]
  exact Custody.empty

theorem raiiInv_step {vectors : ι → ConnectionVector Conn} {w w' : World ι π Conn}
    {op : Op ι π Conn} (h : RaiiInv vectors w) (hraii : w.RaiiCall op)
    (hstep : w.step op = some w') : RaiiInv vectors w' :=
  ⟨sound_step h.sound hstep, paired_step h.paired hstep,
    inCustody_step h.sound h.custody hraii hstep⟩

theorem raiiInv_run {vectors : ι → ConnectionVector Conn} {ops : List (Op ι π Conn)}
    {w : World ι π Conn} (hraii : Runs.Along step RaiiCall (start vectors) ops)
    (hrun : Runs.run step (start vectors) ops = some w) : RaiiInv vectors w :=
  Runs.run_invariant step (fun _ _ _ h hcall hstep => raiiInv_step h hcall hstep)
    (raiiInv_start vectors) hraii hrun

/-! ## What the invariant says -/

omit [DecidableEq Conn] [DecidableEq π] in
/-- The proxies pointing to a pool are those that have a connection from it. -/
theorem Paired.holders_eq {w : World ι π Conn} (h : w.Paired) (i : ι) :
    w.holders i = {p | w.held i p ≠ none} := by
  ext p
  constructor
  · rintro ⟨proxy, hp, hpool⟩
    change w.held i p ≠ none
    rw [held_of_proxy hp, ConnectionProxy.heldFrom, if_pos hpool]
    intro hnone
    rw [(h p proxy hp).mpr hnone] at hpool
    cases hpool
  · intro hheld
    change w.held i p ≠ none at hheld
    rw [held] at hheld
    cases hp : w.proxies p with
    | none =>
        rw [hp] at hheld
        exact absurd rfl hheld
    | some proxy =>
        rw [hp, Option.bind_some, ConnectionProxy.heldFrom] at hheld
        refine ⟨proxy, hp, ?_⟩
        by_contra hpool
        rw [if_neg hpool] at hheld
        exact hheld rfl

omit [DecidableEq Conn] [DecidableEq π] in
/-- A proxy pointing to a pool has its `m_connection` from there. -/
theorem held_eq_connectionOf {w : World ι π Conn} {i : ι} {p : π} (hp : p ∈ w.holders i) :
    w.held i p = w.connectionOf p := by
  obtain ⟨proxy, hproxy, hpool⟩ := hp
  rw [held_of_proxy hproxy, connectionOf, hproxy, Option.bind_some, ConnectionProxy.heldFrom,
    if_pos hpool]

omit [DecidableEq π] in
/-- `valid` is true of the proxies that point to a pool. -/
theorem RaiiInv.valid_iff {vectors : ι → ConnectionVector Conn} {w : World ι π Conn}
    (h : RaiiInv vectors w) {p : π} {proxy : ConnectionProxy ι Conn}
    (hp : w.proxies p = some proxy) : proxy.valid w.pools = true ↔ proxy.mPool ≠ none := by
  rw [ConnectionProxy.valid]
  split
  · rename_i i c hpool hconnection
    rw [hpool, decide_eq_true_iff, ← Finmap.mem_keys, (h.custody i).mem_iff]
    refine iff_of_true ⟨p, ?_⟩ (Option.some_ne_none i)
    rw [held_of_proxy hp, ConnectionProxy.heldFrom, if_pos hpool, hconnection]
  · rename_i hnot
    refine iff_of_false Bool.false_ne_true fun hpool => ?_
    obtain ⟨i, hi⟩ := Option.ne_none_iff_exists'.mp hpool
    have hconnection : proxy.mConnection ≠ none := fun hnone =>
      hpool ((h.paired p proxy hp).mpr hnone)
    obtain ⟨c, hc⟩ := Option.ne_none_iff_exists'.mp hconnection
    exact hnot i c hi hc

omit [DecidableEq π] in
/-- While every idle connection passes its check, `get_connection` returns the null proxy exactly
when as many proxies point to the pool as it has connections. -/
theorem RaiiInv.getConnection_eq_null_iff {vectors : ι → ConnectionVector Conn}
    {w : World ι π Conn} (h : RaiiInv vectors w) (i : ι) (answers : Answers Conn)
    {order : List (Σ _ : Conn, Conn)} (horder : Iterates order (w.pools i).mConnectionsIdle)
    (hpass : ∀ c ∈ (w.pools i).mConnectionsIdle, (checkConnect answers c).1 = true) :
    ((w.pools i).getConnection i answers order).proxy = .null ↔
      (w.holders i).encard = (vectors i).connections.length := by
  obtain ⟨l, hstock, hpool⟩ := h.sound i
  have hcard : (w.holders i).encard = l.out.card := by
    rw [h.paired.holders_eq, (h.custody i).encard_holders, hpool.busy]
  rw [hcard, ENat.natCast_inj, ← List.toFinset_card_of_nodup (vectors i).nodup, ← hstock,
    ← l.free_eq_empty_iff]
  rcases hpool.getConnection i answers horder with ⟨hproxy, -, hall⟩ | ⟨c, hc, hproxy, -⟩
  · -- nothing passed, so nothing is idle
    refine iff_of_true hproxy (Finset.eq_empty_of_forall_notMem fun c hc => ?_)
    have hfalse := hall c hc
    rw [hpass c (hpool.mem_idle.mpr hc)] at hfalse
    cases hfalse
  · refine iff_of_false ?_ (Finset.ne_empty_of_mem hc)
    rw [hproxy]
    intro heq
    cases heq

/-- **RAII hand-out is a bijection.** In every state that clients of new pools reach while they
release connections only by destroying proxies: the proxies pointing to a pool have its busy
connections, one each; exactly these proxies are valid; a proxy points to a pool exactly when it
points to a connection; and as long as every idle connection passes its check, the null proxy is
returned exactly when as many proxies point to the pool as it was built with connections. -/
theorem raii_handOut_bijection (vectors : ι → ConnectionVector Conn) (ops : List (Op ι π Conn))
    (w : World ι π Conn) (hraii : Runs.Along step RaiiCall (start vectors) ops)
    (hrun : Runs.run step (start vectors) ops = some w) :
    (∀ i, Set.BijOn w.connectionOf (w.holders i)
        (some '' ((w.pools i).mConnectionsBusy.keys : Set Conn))) ∧
      (∀ p proxy, w.proxies p = some proxy →
        (proxy.valid w.pools = true ↔ proxy.mPool ≠ none) ∧
        (proxy.mPool = none ↔ proxy.mConnection = none)) ∧
      (∀ i answers order, Iterates order (w.pools i).mConnectionsIdle →
        (∀ c ∈ (w.pools i).mConnectionsIdle, (checkConnect answers c).1 = true) →
        (((w.pools i).getConnection i answers order).proxy = .null ↔
          (w.holders i).encard = (vectors i).connections.length)) := by
  have h := raiiInv_run hraii hrun
  refine ⟨fun i => ?_, fun p proxy hp => ⟨h.valid_iff hp, h.paired p proxy hp⟩,
    fun i answers order horder hpass => h.getConnection_eq_null_iff i answers horder hpass⟩
  -- the holders are the proxies that point to the pool, and hold their `m_connection`
  have hbij := (h.custody i).bijOn
  rw [← h.paired.holders_eq] at hbij
  exact hbij.congr fun p hp => held_eq_connectionOf hp

/-- A connection handed out, moved to a second proxy and back into the first one, which it left
empty, and then the second proxy destroyed. -/
theorem raii_handOut_bijection_moved_back :
    ∃ w, Runs.run step (start fun _ : Unit => ⟨[7, 8], by decide⟩)
      [.getConnection () 0 ⟨fun _ => .threw, fun _ => .threw, fun _ => .threw⟩ [⟨7, 7⟩, ⟨8, 8⟩],
        .moveConstruct 0 1, .moveAssign 1 0, .destroy 1] = some w ∧
      Set.BijOn w.connectionOf (w.holders ())
        (some '' ((w.pools ()).mConnectionsBusy.keys : Set ℕ)) := by
  obtain ⟨w, hrun⟩ := Option.isSome_iff_exists.mp (show (Runs.run step
    (start fun _ : Unit => ⟨[7, 8], by decide⟩)
    [.getConnection () 0 ⟨fun _ => .threw, fun _ => .threw, fun _ => .threw⟩ [⟨7, 7⟩, ⟨8, 8⟩],
      .moveConstruct 0 1, .moveAssign 1 0, .destroy 1]).isSome by decide)
  refine ⟨w, hrun, (raii_handOut_bijection _ _ w ?_ hrun).1 ()⟩
  refine fun w₁ _ => ⟨trivial, fun w₂ hmove => ⟨trivial, fun w₃ _ => ⟨Or.inr ?_, fun w₄ _ =>
    ⟨trivial, trivial⟩⟩⟩⟩
  -- the first proxy is the null proxy after the move
  obtain ⟨proxy, -, -, rfl⟩ := step_moveConstruct.mp hmove
  rintro _ ⟨⟩
  rfl

end World

end AsabruEngine
