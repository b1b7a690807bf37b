import Mathlib.Logic.Function.Basic
import AsabruEngine.Library.Runs
import AsabruEngine.Pool.Refinement

/-! # Pools and proxies in use

A `World` is what the clients of a family of pools share: the pools, and the proxies that are alive,
each in a slot of its own. `step` performs one call of one client, atomic under the mutex of its
pool; the clients' interleavings are the lists of calls. A call that is not possible, on a proxy
that is not alive or into a slot that is taken, has no next state.

`Op` is a call of a client, and `connectionOf` the connection that the proxy in a slot points to.
`Paired` says of all proxies that their two pointers are null together or not at all; it is kept by
every call (`paired_step`). -/

namespace AsabruEngine

open NodeMap

variable {ι π Conn : Type*}

/-- The pools and the proxies alive. -/
structure World (ι π Conn : Type*) where
  pools : ι → ConnectionPool Conn
  proxies : π → Option (ConnectionProxy ι Conn)

/-- A call of a client. `getConnection` and `moveConstruct` put a new proxy into the slot `dst`. -/
inductive Op (ι π Conn : Type*)
  | getConnection (pool : ι) (dst : π) (answers : Answers Conn) (order : List (Σ _ : Conn, Conn))
  | releaseConnection (pool : ι) (proxy : π)
  | moveConstruct (src dst : π)
  | moveAssign (src dst : π)
  | destroy (proxy : π)
  | heartBeat (pool : ι) (answers : Answers Conn) (order : List (Σ _ : Conn, Conn))

namespace World

variable [DecidableEq ι] [DecidableEq π] [DecidableEq Conn]

/-- New pools, and no proxies. -/
def start (vectors : ι → ConnectionVector Conn) : World ι π Conn :=
  ⟨fun i => .new (vectors i), fun _ => none⟩

/-- The `m_connection` of the proxy in a slot. -/
def connectionOf (w : World ι π Conn) (p : π) : Option Conn :=
  (w.proxies p).bind ConnectionProxy.mConnection

/-- One call. -/
def step (w : World ι π Conn) : Op ι π Conn → Option (World ι π Conn)
  | .getConnection pool dst answers order =>
      if w.proxies dst = none ∧ Iterates order (w.pools pool).mConnectionsIdle then
        let result := (w.pools pool).getConnection pool answers order
        some ⟨Function.update w.pools pool result.pool,
          Function.update w.proxies dst (some result.proxy)⟩
      else none
  | .releaseConnection pool p =>
      match w.proxies p with
      | some proxy =>
          -- the proxy may be any, null or of another pool
          let result := (w.pools pool).releaseConnectionProxy proxy
          some ⟨Function.update w.pools pool result.1,
            Function.update w.proxies p (some result.2)⟩
      | none => none
  | .moveConstruct src dst =>
      match w.proxies src, w.proxies dst with
      -- a new object is constructed in a slot that is not taken
      | some other, none =>
          some ⟨w.pools, Function.update (Function.update w.proxies src (some other.moveFrom.2)) dst
            (some other.moveFrom.1)⟩
      | _, _ => none
  | .moveAssign src dst =>
      match w.proxies src, w.proxies dst with
      | some other, some _ =>
          -- `if (this == &other)`: prevent self-assignment
          if src = dst then some w
          else
            some ⟨w.pools, Function.update (Function.update w.proxies src (some other.moveFrom.2))
              dst (some other.moveFrom.1)⟩
      | _, _ => none
  | .destroy p =>
      match w.proxies p with
      | some proxy => some ⟨proxy.destructor w.pools, Function.update w.proxies p none⟩
      | none => none
  | .heartBeat pool answers order =>
      if Iterates order (w.pools pool).mConnectionsIdle then
        some ⟨Function.update w.pools pool ((w.pools pool).heartBeat answers order).1, w.proxies⟩
      else none

/-! ## The connections that proxies point to -/

omit [DecidableEq ι] [DecidableEq π] [DecidableEq Conn] in
theorem connectionOf_of_proxy {w : World ι π Conn} {p : π} {proxy : ConnectionProxy ι Conn}
    (hp : w.proxies p = some proxy) : w.connectionOf p = proxy.mConnection := by
  rw [connectionOf, hp, Option.bind_some]

omit [DecidableEq ι] [DecidableEq Conn] in
/-- A changed slot changes what is pointed to from it. -/
theorem connectionOf_update (w : World ι π Conn) (pools : ι → ConnectionPool Conn) (p : π)
    (slot : Option (ConnectionProxy ι Conn)) :
    connectionOf ⟨pools, Function.update w.proxies p slot⟩ =
      Function.update w.connectionOf p (slot.bind ConnectionProxy.mConnection) := by
  funext q
  rw [Function.update_apply]
  change (Function.update w.proxies p slot q).bind _ = _
  rw [Function.update_apply]
  split
  · rfl
  · rfl

/-! ## What one call does -/

theorem step_getConnection {w w' : World ι π Conn} {pool : ι} {dst : π} {answers : Answers Conn}
    {order : List (Σ _ : Conn, Conn)} :
    w.step (.getConnection pool dst answers order) = some w' ↔
      w.proxies dst = none ∧ Iterates order (w.pools pool).mConnectionsIdle ∧
        w' = ⟨Function.update w.pools pool ((w.pools pool).getConnection pool answers order).pool,
          Function.update w.proxies dst
            (some ((w.pools pool).getConnection pool answers order).proxy)⟩ := by
  simp only [step]
  split
  · rename_i h
    rw [Option.some.injEq]
    exact ⟨fun heq => ⟨h.1, h.2, heq.symm⟩, fun heq => heq.2.2.symm⟩
  · rename_i h
    exact ⟨fun heq => (nomatch heq), fun heq => absurd ⟨heq.1, heq.2.1⟩ h⟩

/-- Releasing through a proxy changes the pool only: the proxy keeps its pointers. -/
theorem step_releaseConnection {w w' : World ι π Conn} {pool : ι} {p : π} :
    w.step (.releaseConnection pool p) = some w' ↔
      ∃ proxy, w.proxies p = some proxy ∧
        w' = ⟨Function.update w.pools pool ((w.pools pool).releaseConnection proxy.mConnection),
          w.proxies⟩ := by
  simp only [step]
  split
  · rename_i proxy hproxy
    rw [Option.some.injEq]
    have hsame : Function.update w.proxies p (some proxy) = w.proxies := by
      rw [← hproxy]
      exact Function.update_eq_self p w.proxies
    simp only [ConnectionPool.releaseConnectionProxy, hsame, hproxy, Option.some.injEq]
    exact ⟨fun heq => ⟨proxy, rfl, heq.symm⟩, fun ⟨_, heq, hw⟩ => heq ▸ hw.symm⟩
  · rename_i hproxy
    exact ⟨fun heq => (nomatch heq), fun ⟨_, heq, _⟩ => by rw [hproxy] at heq; cases heq⟩

/-- Moving a proxy leaves the null proxy behind. -/
theorem step_moveConstruct {w w' : World ι π Conn} {src dst : π} :
    w.step (.moveConstruct src dst) = some w' ↔
      ∃ proxy, w.proxies src = some proxy ∧ w.proxies dst = none ∧
        w' = ⟨w.pools,
          Function.update (Function.update w.proxies src (some .null)) dst (some proxy)⟩ := by
  simp only [step]
  split
  · rename_i other hsrc hdst
    rw [Option.some.injEq, hsrc]
    exact ⟨fun heq => ⟨other, rfl, hdst, heq.symm⟩, fun ⟨_, heq, _, hw⟩ => by
      rw [Option.some.injEq] at heq
      rw [hw, ← heq]
      rfl⟩
  · rename_i hnot
    exact ⟨fun heq => (nomatch heq), fun ⟨proxy, hsrc, hdst, _⟩ => absurd hdst (hnot proxy hsrc)⟩

/-- Assigning a proxy to itself does nothing; to another one it leaves the null proxy behind. -/
theorem step_moveAssign {w w' : World ι π Conn} {src dst : π} :
    w.step (.moveAssign src dst) = some w' ↔
      ∃ proxy old, w.proxies src = some proxy ∧ w.proxies dst = some old ∧
        (src = dst ∧ w' = w ∨ src ≠ dst ∧ w' = ⟨w.pools,
          Function.update (Function.update w.proxies src (some .null)) dst (some proxy)⟩) := by
  simp only [step]
  split
  · rename_i other old hsrc hdst
    split
    · rename_i hself
      rw [Option.some.injEq]
      constructor
      · exact fun heq => ⟨other, old, hsrc, hdst, Or.inl ⟨hself, heq.symm⟩⟩
      · rintro ⟨_, _, -, -, ⟨-, heq⟩ | ⟨hne, -⟩⟩
        · exact heq.symm
        · exact absurd hself hne
    · rename_i hne
      rw [Option.some.injEq]
      constructor
      · exact fun heq => ⟨other, old, hsrc, hdst, Or.inr ⟨hne, heq.symm⟩⟩
      · rintro ⟨proxy, _, hproxy, -, ⟨hself, -⟩ | ⟨-, heq⟩⟩
        · exact absurd hself hne
        · rw [hsrc, Option.some.injEq] at hproxy
          rw [heq, ← hproxy]
          rfl
  · rename_i hnot
    exact ⟨fun heq => (nomatch heq), fun ⟨proxy, old, hsrc, hdst, _⟩ =>
      absurd hdst (hnot proxy old hsrc)⟩

theorem step_destroy {w w' : World ι π Conn} {p : π} :
    w.step (.destroy p) = some w' ↔
      ∃ proxy, w.proxies p = some proxy ∧
        w' = ⟨proxy.destructor w.pools, Function.update w.proxies p none⟩ := by
  simp only [step]
  split
  · rename_i proxy hproxy
    rw [Option.some.injEq, hproxy]
    exact ⟨fun heq => ⟨proxy, rfl, heq.symm⟩, fun ⟨_, heq, hw⟩ => by
      rw [Option.some.injEq] at heq
      rw [hw, heq]⟩
  · rename_i hproxy
    exact ⟨fun heq => (nomatch heq), fun ⟨_, heq, _⟩ => by rw [hproxy] at heq; cases heq⟩

/-- The heart beat changes nothing. -/
theorem step_heartBeat {w w' : World ι π Conn} {pool : ι} {answers : Answers Conn}
    {order : List (Σ _ : Conn, Conn)} :
    w.step (.heartBeat pool answers order) = some w' ↔
      Iterates order (w.pools pool).mConnectionsIdle ∧ w' = w := by
  simp only [step]
  split
  · rename_i h
    rw [Option.some.injEq, ConnectionPool.heartBeat, Function.update_eq_self]
    exact ⟨fun heq => ⟨h, heq.symm⟩, fun heq => heq.2.symm⟩
  · rename_i h
    exact ⟨fun heq => (nomatch heq), fun heq => absurd heq.1 h⟩

/-! ## The two pointers of a proxy -/

/-- The pointers of every proxy are both null or both not. -/
def Paired (w : World ι π Conn) : Prop :=
  ∀ p proxy, w.proxies p = some proxy → (proxy.mPool = none ↔ proxy.mConnection = none)

omit [DecidableEq ι] [DecidableEq Conn] in
/-- Putting a proxy with paired pointers, or none, into a slot keeps all pointers paired. -/
theorem Paired.update {w : World ι π Conn} (h : w.Paired) (pools : ι → ConnectionPool Conn) (p : π)
    {slot : Option (ConnectionProxy ι Conn)}
    (hslot : ∀ proxy, slot = some proxy → (proxy.mPool = none ↔ proxy.mConnection = none)) :
    Paired ⟨pools, Function.update w.proxies p slot⟩ := by
  intro q proxy hq
  change Function.update w.proxies p slot q = some proxy at hq
  rw [Function.update_apply] at hq
  split at hq
  · exact hslot proxy hq
  · exact h q proxy hq

/-- Every call keeps the pointers of every proxy paired. -/
theorem paired_step {w w' : World ι π Conn} {op : Op ι π Conn} (h : w.Paired)
    (hstep : w.step op = some w') : w'.Paired := by
  have hnull : ∀ proxy, some (ConnectionProxy.null : ConnectionProxy ι Conn) = some proxy →
      (proxy.mPool = none ↔ proxy.mConnection = none) := by
    rintro _ ⟨⟩
    exact iff_of_true rfl rfl
  cases op with
  | getConnection pool dst answers order =>
      obtain ⟨-, -, rfl⟩ := step_getConnection.mp hstep
      refine h.update _ dst ?_
      rintro _ ⟨⟩
      exact ConnectionPool.getConnection_paired pool (w.pools pool) answers order
  | releaseConnection pool p =>
      obtain ⟨proxy, -, rfl⟩ := step_releaseConnection.mp hstep
      exact h
  | moveConstruct src dst =>
      obtain ⟨proxy, hsrc, -, rfl⟩ := step_moveConstruct.mp hstep
      have hleft := h.update w.pools src hnull
      refine hleft.update w.pools dst ?_
      rintro _ ⟨⟩
      exact h src proxy hsrc
  | moveAssign src dst =>
      obtain ⟨proxy, old, hsrc, -, ⟨-, rfl⟩ | ⟨-, rfl⟩⟩ := step_moveAssign.mp hstep
      · exact h
      · have hleft := h.update w.pools src hnull
        refine hleft.update w.pools dst ?_
        rintro _ ⟨⟩
        exact h src proxy hsrc
  | destroy p =>
      obtain ⟨proxy, -, rfl⟩ := step_destroy.mp hstep
      exact h.update _ p fun _ hnone => (nomatch hnone)
  | heartBeat pool answers order =>
      obtain ⟨-, rfl⟩ := step_heartBeat.mp hstep
      exact h

end World

end AsabruEngine
