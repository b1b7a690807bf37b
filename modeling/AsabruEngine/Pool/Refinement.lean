import AsabruEngine.Library.Lending
import AsabruEngine.Pool.ConnectionPool

/-! # The pool lends its connections

A pool stands for a lending of the connections it was built from: the keys of the busy map are out,
those of the idle map are free, and every key owns its connection. Handing out lends, releasing
gives back, and no node insertion on the way finds its key taken.

`Represents` connects a pool with the lending it stands for. It holds of a new pool
(`represents_new`), and each member has a lemma of its own that says which lending the pool stands
for afterwards: `Represents.getConnection` and `Represents.releaseConnection` lend and give back.
`refused_or_found` splits a search by its outcome, every connection refused or one of them found. -/

namespace AsabruEngine

open NodeMap

namespace ConnectionPool

variable {ι Conn : Type*} [DecidableEq Conn]

/-- A pool stands for a lending: busy is out, idle is free, every key owns its own connection, and
none has been destroyed. -/
structure Represents (pool : ConnectionPool Conn) (l : Lending Conn) : Prop where
  idle : pool.mConnectionsIdle.keys = l.free
  busy : pool.mConnectionsBusy.keys = l.out
  idle_owns : OwnKeyed pool.mConnectionsIdle
  busy_owns : OwnKeyed pool.mConnectionsBusy
  kept : pool.destroyed = []

theorem Represents.mem_idle {pool : ConnectionPool Conn} {l : Lending Conn} (h : pool.Represents l)
    {c : Conn} : c ∈ pool.mConnectionsIdle ↔ c ∈ l.free := by
  rw [← Finmap.mem_keys, h.idle]

theorem Represents.mem_busy {pool : ConnectionPool Conn} {l : Lending Conn} (h : pool.Represents l)
    {c : Conn} : c ∈ pool.mConnectionsBusy ↔ c ∈ l.out := by
  rw [← Finmap.mem_keys, h.busy]

/-! ## The constructor -/

/-- Emplacing a connection that is not there yet adds it to the stock. -/
theorem Represents.emplaceIdle {pool : ConnectionPool Conn} {stock : Finset Conn}
    (h : pool.Represents (.full stock)) {c : Conn} (hc : c ∉ stock) :
    (pool.emplaceIdle c).Represents (.full (insert c stock)) := by
  have hidle : c ∉ pool.mConnectionsIdle := by
    rw [h.mem_idle, Lending.free_full]
    exact hc
  rw [ConnectionPool.emplaceIdle, insertNode, if_neg hidle]
  refine ⟨?_, h.busy, h.idle_owns.insert c, h.busy_owns, ?_⟩
  · rw [keys_insert, h.idle, Lending.free_full, Lending.free_full]
  · rw [h.kept]
    rfl

/-- The loop of the constructor adds distinct connections to what there is. -/
theorem Represents.foldl_emplaceIdle {connections : List Conn} (hnodup : connections.Nodup)
    {pool : ConnectionPool Conn} {stock : Finset Conn} (h : pool.Represents (.full stock))
    (hnew : ∀ c ∈ connections, c ∉ stock) :
    (connections.foldl ConnectionPool.emplaceIdle pool).Represents
      (.full (connections.toFinset ∪ stock)) := by
  -- on the connections still to emplace; none of them is in the stock built so far
  induction connections generalizing pool stock with
  | nil =>
      rw [List.foldl_nil, List.toFinset_nil, Finset.empty_union]
      exact h
  | cons c connections ih =>
      rw [List.nodup_cons] at hnodup
      rw [List.foldl_cons, List.toFinset_cons, Finset.insert_union, ← Finset.union_insert]
      refine ih hnodup.2 (h.emplaceIdle (hnew c List.mem_cons_self)) ?_
      intro d hd
      rw [Finset.mem_insert, not_or]
      refine ⟨?_, hnew d (List.mem_cons_of_mem _ hd)⟩
      rintro rfl
      exact hnodup.1 hd

/-- **A new pool** has all its connections free. -/
theorem represents_new (vector : ConnectionVector Conn) :
    (new vector).Represents (.full vector.connections.toFinset) := by
  have hempty : Represents (⟨∅, ∅, []⟩ : ConnectionPool Conn) (.full ∅) :=
    ⟨Finmap.keys_empty, Finmap.keys_empty, ownKeyed_empty, ownKeyed_empty, rfl⟩
  have h := hempty.foldl_emplaceIdle vector.nodup fun c _ => Finset.notMem_empty c
  rw [Finset.union_empty] at h
  exact h

/-! ## Moving a node -/

/-- The node of an idle connection moves to the busy map, if its key is not taken there. -/
theorem idleToBusy_of_mem {pool : ConnectionPool Conn} (howns : OwnKeyed pool.mConnectionsIdle)
    {c : Conn} (hidle : c ∈ pool.mConnectionsIdle) (hbusy : c ∉ pool.mConnectionsBusy) :
    pool.idleToBusy c =
      ⟨pool.mConnectionsIdle.erase c, pool.mConnectionsBusy.insert c c, pool.destroyed⟩ := by
  rw [idleToBusy, transfer_of_lookup (howns.lookup_of_mem hidle) hbusy]
  simp [dropped]

/-- Moving the node of a free connection to the busy map lends it. -/
theorem Represents.idleToBusy {pool : ConnectionPool Conn} {l : Lending Conn}
    (h : pool.Represents l) {c : Conn} (hc : c ∈ l.free) :
    (pool.idleToBusy c).Represents (l.lend c hc) := by
  -- what is free is not out, so the key is not taken
  have hbusy : c ∉ pool.mConnectionsBusy := by
    rw [h.mem_busy]
    exact Lending.not_mem_out_of_mem_free hc
  rw [idleToBusy_of_mem h.idle_owns (h.mem_idle.mpr hc) hbusy]
  refine ⟨?_, ?_, h.idle_owns.erase c, h.busy_owns.insert c, h.kept⟩
  · rw [Finmap.keys_erase, h.idle, Lending.free_lend]
  · rw [keys_insert, h.busy, Lending.out_lend]

/-- Moving the node of a connection that is out to the idle map gives it back. -/
theorem Represents.busyToIdle {pool : ConnectionPool Conn} {l : Lending Conn}
    (h : pool.Represents l) {c : Conn} (hc : c ∈ l.out) :
    (pool.busyToIdle c).Represents (l.giveBack c) := by
  have hlookup := h.busy_owns.lookup_of_mem (h.mem_busy.mpr hc)
  have hidle : c ∉ pool.mConnectionsIdle := by
    rw [h.mem_idle]
    exact fun hfree => Lending.not_mem_out_of_mem_free hfree hc
  rw [ConnectionPool.busyToIdle, transfer_of_lookup hlookup hidle]
  refine ⟨?_, ?_, h.idle_owns.insert c, h.busy_owns.erase c, ?_⟩
  · rw [keys_insert, h.idle, Lending.free_giveBack l hc]
  · rw [Finmap.keys_erase, h.busy, Lending.out_giveBack]
  · rw [h.kept]
    rfl

/-- **`release_connection`** of any connection, busy or not, gives it back. -/
theorem Represents.releaseConnection {pool : ConnectionPool Conn} {l : Lending Conn}
    (h : pool.Represents l) (c : Conn) :
    (pool.releaseConnection (some c)).Represents (l.giveBack c) := by
  rw [ConnectionPool.releaseConnection]
  split
  · rename_i hbusy
    exact h.busyToIdle (h.mem_busy.mp hbusy)
  · rename_i hbusy
    -- the pool does not know the connection, or has it idle: nothing moves
    rw [Lending.giveBack_of_not_mem l fun hout => hbusy (h.mem_busy.mpr hout)]
    exact h

/-- Exactly the connection released stops being busy. -/
theorem Represents.mem_busy_releaseConnection {pool : ConnectionPool Conn} {l : Lending Conn}
    (h : pool.Represents l) (connection : Option Conn) {c : Conn} :
    c ∈ (pool.releaseConnection connection).mConnectionsBusy ↔
      c ∈ pool.mConnectionsBusy ∧ connection ≠ some c := by
  cases connection with
  | none => exact (and_iff_left (Option.some_ne_none c).symm).symm
  | some d =>
      rw [(h.releaseConnection d).mem_busy, h.mem_busy, Lending.out_giveBack, Finset.mem_erase,
        and_comm, ne_eq, ne_eq, Option.some.injEq, eq_comm]

/-! ## The search for a connection -/

omit [DecidableEq Conn] in
/-- A check asks whether the connection is healthy, and connects it where it is not. -/
theorem checkConnect_snd (answers : Answers Conn) (c : Conn) :
    (checkConnect answers c).2 = .isHealthy c (answers.isHealthy c) ::
      if answers.isHealthy c = .returned false then [.connect c (answers.connect c)] else [] := by
  rw [checkConnect]
  rcases answers.isHealthy c with (_ | _) | _
  · cases answers.connect c with
    | returned result => rfl
    | threw => rfl
  · rfl
  · rfl

/-- While every connection met is refused, the loop only checks them. -/
theorem getConnectionLoop_refused (this : ι) (pool : ConnectionPool Conn) (answers : Answers Conn)
    {order : List (Σ _ : Conn, Conn)}
    (hall : ∀ item ∈ order, (checkConnect answers item.2).1 = false) :
    getConnectionLoop this pool answers order =
      ⟨.null, pool, order.flatMap fun item => (checkConnect answers item.2).2⟩ := by
  induction order with
  | nil => rfl
  | cons item items ih =>
      have hrefused := hall item List.mem_cons_self
      have hlater := ih fun item' hitem' => hall item' (List.mem_cons_of_mem _ hitem')
      simp only [getConnectionLoop, hrefused, Bool.not_false, if_true, hlater, List.flatMap_cons]

/-- The loop hands out the first connection met that is not refused. -/
theorem getConnectionLoop_found (this : ι) (pool : ConnectionPool Conn) (answers : Answers Conn)
    {before : List (Σ _ : Conn, Conn)} {item : Σ _ : Conn, Conn} (after : List (Σ _ : Conn, Conn))
    (hbefore : ∀ item' ∈ before, (checkConnect answers item'.2).1 = false)
    (hitem : (checkConnect answers item.2).1 = true) :
    getConnectionLoop this pool answers (before ++ item :: after) =
      ⟨⟨some this, some item.1⟩, pool.idleToBusy item.1,
        (before ++ [item]).flatMap fun item' => (checkConnect answers item'.2).2⟩ := by
  induction before with
  | nil => simp [getConnectionLoop, hitem]
  | cons first before ih =>
      have hrefused := hbefore first List.mem_cons_self
      have hlater := ih fun item' hitem' => hbefore item' (List.mem_cons_of_mem _ hitem')
      simp only [List.cons_append, getConnectionLoop, hrefused, Bool.not_false, if_true, hlater,
        List.flatMap_cons]

omit [DecidableEq Conn] in
/-- Either every connection met is refused, or there is a first one that is not. -/
theorem refused_or_found (answers : Answers Conn) (order : List (Σ _ : Conn, Conn)) :
    (∀ item ∈ order, (checkConnect answers item.2).1 = false) ∨
      ∃ before item after, order = before ++ item :: after ∧
        (∀ item' ∈ before, (checkConnect answers item'.2).1 = false) ∧
        (checkConnect answers item.2).1 = true := by
  cases hfind : order.find? fun item => (checkConnect answers item.2).1 with
  | none =>
      left
      intro item hitem
      rw [← Bool.not_eq_true]
      exact List.find?_eq_none.mp hfind item hitem
  | some item =>
      right
      rw [List.find?_eq_some_iff_append] at hfind
      obtain ⟨hitem, before, after, horder, hbefore⟩ := hfind
      refine ⟨before, item, after, horder, ?_, hitem⟩
      intro item' hitem'
      rw [← Bool.not_eq_true']
      exact hbefore item' hitem'

/-- Over an iteration of the idle map the test for an empty map makes no difference. -/
theorem getConnection_eq_loop (this : ι) {pool : ConnectionPool Conn} (answers : Answers Conn)
    {order : List (Σ _ : Conn, Conn)} (horder : Iterates order pool.mConnectionsIdle) :
    pool.getConnection this answers order = pool.getConnectionLoop this answers order := by
  rw [getConnection]
  split
  · rename_i hempty
    rw [horder.eq_nil_iff.mpr hempty]
    rfl
  · rfl

/-- The proxy that `get_connection` returns is null or points to a pool and a connection. -/
theorem getConnection_paired (this : ι) (pool : ConnectionPool Conn) (answers : Answers Conn)
    (order : List (Σ _ : Conn, Conn)) :
    (pool.getConnection this answers order).proxy.mPool = none ↔
      (pool.getConnection this answers order).proxy.mConnection = none := by
  rw [getConnection]
  split
  · exact iff_of_true rfl rfl
  · rcases refused_or_found answers order with hall | ⟨before, item, after, rfl, hbefore, hitem⟩
    · rw [getConnectionLoop_refused this pool answers hall]
      exact iff_of_true rfl rfl
    · rw [getConnectionLoop_found this pool answers after hbefore hitem]
      exact iff_of_false (Option.some_ne_none _) (Option.some_ne_none _)

/-- **`get_connection`** either refuses every idle connection, returning the null proxy and leaving
the pool as it is, or lends a free connection and returns a proxy for it. -/
theorem Represents.getConnection {pool : ConnectionPool Conn} {l : Lending Conn}
    (h : pool.Represents l) (this : ι) (answers : Answers Conn) {order : List (Σ _ : Conn, Conn)}
    (horder : Iterates order pool.mConnectionsIdle) :
    ((pool.getConnection this answers order).proxy = .null ∧
        (pool.getConnection this answers order).pool = pool ∧
        ∀ c ∈ l.free, (checkConnect answers c).1 = false) ∨
      ∃ (c : Conn) (hc : c ∈ l.free),
        (pool.getConnection this answers order).proxy = ⟨some this, some c⟩ ∧
          (pool.getConnection this answers order).pool.Represents (l.lend c hc) := by
  rw [getConnection_eq_loop this answers horder]
  rcases refused_or_found answers order with hall | ⟨before, item, after, heq, hbefore, hitem⟩
  · left
    rw [getConnectionLoop_refused this pool answers hall]
    -- every free connection is met in the iteration, under its own address
    refine ⟨rfl, rfl, fun c hc => ?_⟩
    rw [← h.idle, horder.mem_keys] at hc
    obtain ⟨item, hmem, rfl⟩ := hc
    rw [← h.idle_owns.eq_of_mem horder hmem]
    exact hall item hmem
  · right
    have hmem : item ∈ order := heq ▸ List.mem_append_right _ List.mem_cons_self
    have hfree : item.1 ∈ l.free := by
      rw [← h.idle, horder.mem_keys]
      exact ⟨item, hmem, rfl⟩
    refine ⟨item.1, hfree, ?_⟩
    rw [heq, getConnectionLoop_found this pool answers after hbefore hitem]
    exact ⟨rfl, h.idleToBusy hfree⟩

/-! ## Who has the busy connections -/

section Holders

variable {π : Type*} [DecidableEq π] {holds : π → Option Conn}

/-- The connection that `get_connection` hands out goes to a holder that had none. -/
theorem Represents.custody_getConnection {pool : ConnectionPool Conn} {l : Lending Conn}
    (h : pool.Represents l) (hcustody : Custody holds pool.mConnectionsBusy.keys) (this : ι)
    (answers : Answers Conn) {order : List (Σ _ : Conn, Conn)}
    (horder : Iterates order pool.mConnectionsIdle) {dst : π} (hdst : holds dst = none) :
    Custody
      (Function.update holds dst (pool.getConnection this answers order).proxy.mConnection)
      (pool.getConnection this answers order).pool.mConnectionsBusy.keys := by
  rcases h.getConnection this answers horder with ⟨hproxy, heq, -⟩ | ⟨c, hc, hproxy, hlent⟩
  · -- the null proxy: nothing is handed out
    rw [hproxy, heq, ConnectionProxy.null, ← hdst, Function.update_eq_self]
    exact hcustody
  · rw [hproxy, hlent.busy, Lending.out_lend, ← h.busy]
    refine hcustody.take hdst ?_
    rw [h.busy]
    exact Lending.not_mem_out_of_mem_free hc

/-- A holder that releases what it has, if anything, has nothing any more. -/
theorem Represents.custody_releaseConnection {pool : ConnectionPool Conn} {l : Lending Conn}
    (h : pool.Represents l) (hcustody : Custody holds pool.mConnectionsBusy.keys) (p : π) :
    Custody (Function.update holds p none)
      (pool.releaseConnection (holds p)).mConnectionsBusy.keys := by
  cases hp : holds p with
  | none =>
      have hsame : Function.update holds p none = holds := by
        rw [← hp, Function.update_eq_self]
      rw [hsame]
      exact hcustody
  | some c =>
      rw [(h.releaseConnection c).busy, Lending.out_giveBack, ← h.busy]
      exact hcustody.drop hp

end Holders

/-! ## Sizes -/

theorem Represents.sizeIdle_eq {pool : ConnectionPool Conn} {l : Lending Conn}
    (h : pool.Represents l) : pool.sizeIdle = l.free.card := by
  rw [sizeIdle, ← card_keys, h.idle]

theorem Represents.sizeBusy_eq {pool : ConnectionPool Conn} {l : Lending Conn}
    (h : pool.Represents l) : pool.sizeBusy = l.out.card := by
  rw [sizeBusy, ← card_keys, h.busy]

/-- The size of a pool is that of its stock. -/
theorem Represents.size_eq {pool : ConnectionPool Conn} {l : Lending Conn}
    (h : pool.Represents l) : pool.size = l.stock.card := by
  rw [← l.card_free_add_card_out, ← h.sizeIdle_eq, ← h.sizeBusy_eq, Nat.add_comm]
  rfl

end ConnectionPool

end AsabruEngine
