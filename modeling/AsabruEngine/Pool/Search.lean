import AsabruEngine.Pool.Conservation

/-! # The search of `get_connection`

What the search returns, moves and touches, on any pool its clients can bring about. The calls it
makes are the checks of the connections it meets, in their order, up to the first that passes; as
every connection is met once, the calls on one connection are its one check or none.

`checks` are the checks of a list of connections in order, and `callsOn` picks out of a list of
calls those on one connection. `RefusesAll` and `HandsOutFirst` are the two outcomes with everything
they leave as it was; `getConnection_specification` says that each search has one of them. -/

namespace AsabruEngine

open NodeMap

variable {ι π Conn : Type*}

/-! ## The calls on one connection -/

/-- The connection a call is made on. -/
def Call.connection : Call Conn → Conn
  | heartBeat c _ => c
  | isHealthy c _ => c
  | connect c _ => c

/-- A check calls the connection checked only. -/
theorem connection_of_mem_checkConnect {answers : Answers Conn} {c : Conn} {call : Call Conn}
    (h : call ∈ (checkConnect answers c).2) : call.connection = c := by
  rw [ConnectionPool.checkConnect_snd, List.mem_cons] at h
  rcases h with rfl | h
  · rfl
  · split at h
    · rw [List.mem_singleton.mp h, Call.connection]
    · cases h

/-- The calls of checking connections in order. -/
def checks (answers : Answers Conn) (connections : List Conn) : List (Call Conn) :=
  connections.flatMap fun c => (checkConnect answers c).2

/-- Only the connections checked are called. -/
theorem connection_mem_of_mem_checks {answers : Answers Conn} {connections : List Conn}
    {call : Call Conn} (h : call ∈ checks answers connections) :
    call.connection ∈ connections := by
  obtain ⟨c, hc, hcall⟩ := List.mem_flatMap.mp h
  rw [connection_of_mem_checkConnect hcall]
  exact hc

variable [DecidableEq Conn]

/-- The calls made on a connection. -/
def callsOn (c : Conn) (calls : List (Call Conn)) : List (Call Conn) :=
  calls.filter fun call => call.connection = c

theorem callsOn_eq_nil_of_not_mem {answers : Answers Conn} {connections : List Conn} {c : Conn}
    (hc : c ∉ connections) : callsOn c (checks answers connections) = [] := by
  rw [callsOn, List.filter_eq_nil_iff]
  intro call hcall heq
  rw [decide_eq_true_eq] at heq
  exact hc (heq ▸ connection_mem_of_mem_checks hcall)

/-- **A connection met once is checked once.** -/
theorem callsOn_checks {answers : Answers Conn} {connections : List Conn}
    (hnodup : connections.Nodup) {c : Conn} (hc : c ∈ connections) :
    callsOn c (checks answers connections) = (checkConnect answers c).2 := by
  have hself : callsOn c (checkConnect answers c).2 = (checkConnect answers c).2 := by
    rw [callsOn, List.filter_eq_self]
    intro call hcall
    exact decide_eq_true (connection_of_mem_checkConnect hcall)
  obtain ⟨before, after, rfl⟩ := List.append_of_mem hc
  have hbefore : c ∉ before := fun hmem =>
    List.disjoint_of_nodup_append hnodup hmem List.mem_cons_self
  have hafter : c ∉ after :=
    (List.nodup_cons.mp (List.nodup_append.mp hnodup).2.1).1
  have hsplit : checks answers (before ++ c :: after) =
      checks answers before ++ ((checkConnect answers c).2 ++ checks answers after) := by
    simp [checks]
  have happend (xs ys : List (Call Conn)) : callsOn c (xs ++ ys) = callsOn c xs ++ callsOn c ys :=
    List.filter_append xs ys
  rw [hsplit, happend, happend, hself, callsOn_eq_nil_of_not_mem hbefore,
    callsOn_eq_nil_of_not_mem hafter, List.append_nil, List.nil_append]

/-! ## The two outcomes -/

namespace ConnectionPool

/-- The search refused every idle connection: the null proxy is returned, both maps are as they
were, every idle connection was checked once, and no other connection was called. -/
structure RefusesAll (pool : ConnectionPool Conn) (answers : Answers Conn)
    (result : HandOut ι Conn) : Prop where
  proxy : result.proxy = .null
  idle : result.pool.mConnectionsIdle = pool.mConnectionsIdle
  busy : result.pool.mConnectionsBusy = pool.mConnectionsBusy
  checked_once : ∀ c ∈ pool.mConnectionsIdle,
    callsOn c result.calls = (checkConnect answers c).2
  others_untouched : ∀ c, c ∉ pool.mConnectionsIdle → callsOn c result.calls = []

/-- The search of the pool `this` refused the connections `before` and handed out `c`: a proxy for
`c` is returned, exactly `c` has moved from idle to busy, `c` and those before it were checked once,
and neither those `after` it nor the busy ones were called. -/
structure HandsOutFirst (this : ι) (pool : ConnectionPool Conn) (answers : Answers Conn)
    (before : List Conn) (c : Conn) (after : List Conn) (result : HandOut ι Conn) : Prop where
  refused : ∀ d ∈ before, (checkConnect answers d).1 = false
  passed : (checkConnect answers c).1 = true
  proxy : result.proxy = ⟨some this, some c⟩
  was_idle : c ∈ pool.mConnectionsIdle
  idle : result.pool.mConnectionsIdle = pool.mConnectionsIdle.erase c
  busy : result.pool.mConnectionsBusy = pool.mConnectionsBusy.insert c c
  stays_idle : ∀ d ∈ before, d ∈ result.pool.mConnectionsIdle
  checked_once : ∀ d ∈ before ++ [c], callsOn d result.calls = (checkConnect answers d).2
  after_untouched : ∀ d ∈ after, callsOn d result.calls = []
  busy_untouched : ∀ d ∈ pool.mConnectionsBusy, callsOn d result.calls = []

section Outcomes

variable {pool : ConnectionPool Conn} {order : List (Σ _ : Conn, Conn)}

/-- The checks of what is met are those of the connections in their order. -/
theorem flatMap_checkConnect (howns : OwnKeyed pool.mConnectionsIdle)
    (horder : Iterates order pool.mConnectionsIdle) (answers : Answers Conn)
    {items : List (Σ _ : Conn, Conn)} (hsub : ∀ item ∈ items, item ∈ order) :
    (items.flatMap fun item => (checkConnect answers item.2).2) =
      checks answers (items.map Sigma.fst) := by
  rw [checks, List.flatMap_map]
  refine List.flatMap_congr fun item hitem => ?_
  rw [howns.eq_of_mem horder (hsub item hitem)]

omit [DecidableEq Conn] in
theorem mem_map_fst_iff (horder : Iterates order pool.mConnectionsIdle) {c : Conn} :
    c ∈ order.map Sigma.fst ↔ c ∈ pool.mConnectionsIdle := by
  rw [← Finmap.mem_keys, horder.mem_keys, List.mem_map]

theorem refusesAll (this : ι) (howns : OwnKeyed pool.mConnectionsIdle)
    (horder : Iterates order pool.mConnectionsIdle) (answers : Answers Conn)
    (hall : ∀ item ∈ order, (checkConnect answers item.2).1 = false) :
    pool.RefusesAll answers (pool.getConnection this answers order) := by
  have hcalls := flatMap_checkConnect howns horder answers fun _ h => h
  rw [getConnection_eq_loop this answers horder, getConnectionLoop_refused this pool answers hall,
    hcalls]
  refine ⟨rfl, rfl, rfl, fun c hc => ?_, fun c hc => ?_⟩
  · exact callsOn_checks horder.nodup_keys ((mem_map_fst_iff horder).mpr hc)
  · exact callsOn_eq_nil_of_not_mem fun hmem => hc ((mem_map_fst_iff horder).mp hmem)

theorem handsOutFirst (this : ι) (howns : OwnKeyed pool.mConnectionsIdle)
    (hdisjoint : Disjoint pool.mConnectionsIdle.keys pool.mConnectionsBusy.keys)
    (answers : Answers Conn) {before : List (Σ _ : Conn, Conn)} {item : Σ _ : Conn, Conn}
    {after : List (Σ _ : Conn, Conn)}
    (horder : Iterates (before ++ item :: after) pool.mConnectionsIdle)
    (hbefore : ∀ item' ∈ before, (checkConnect answers item'.2).1 = false)
    (hitem : (checkConnect answers item.2).1 = true) :
    HandsOutFirst this pool answers (before.map Sigma.fst) item.1 (after.map Sigma.fst)
      (pool.getConnection this answers (before ++ item :: after)) := by
  have hown : ∀ item' ∈ before ++ item :: after, item'.2 = item'.1 := fun _ h =>
    howns.eq_of_mem horder h
  have hmem : item ∈ before ++ item :: after := List.mem_append_right _ List.mem_cons_self
  have hnodup := horder.nodup_keys
  rw [List.map_append, List.map_cons] at hnodup
  have hidle : item.1 ∈ pool.mConnectionsIdle :=
    (mem_map_fst_iff horder).mp (List.mem_map_of_mem hmem)
  have hnotbusy : ∀ d ∈ pool.mConnectionsBusy, d ∉ pool.mConnectionsIdle := fun d hbusy hfree =>
    Finset.disjoint_left.mp hdisjoint (Finmap.mem_keys.mpr hfree) (Finmap.mem_keys.mpr hbusy)
  have hmoved := idleToBusy_of_mem howns hidle fun hbusy => hnotbusy _ hbusy hidle
  have hcalls : ((before ++ [item]).flatMap fun item' => (checkConnect answers item'.2).2) =
      checks answers (before.map Sigma.fst ++ [item.1]) := by
    have hmet : ∀ item' ∈ before ++ [item], item' ∈ before ++ item :: after := by
      simp +contextual [or_imp]
    have h := flatMap_checkConnect howns horder answers hmet
    rwa [List.map_append, List.map_singleton] at h
  have hchecked : (before.map Sigma.fst ++ [item.1]).Nodup := by
    rw [← List.singleton_append, ← List.append_assoc] at hnodup
    exact (List.nodup_append.mp hnodup).1
  have hmet : ∀ d ∈ before.map Sigma.fst ++ [item.1], d ∈ pool.mConnectionsIdle := by
    intro d hd
    rw [← mem_map_fst_iff horder, List.map_append, List.map_cons]
    rw [List.mem_append, List.mem_singleton] at hd
    rw [List.mem_append, List.mem_cons]
    exact hd.imp_right Or.inl
  rw [getConnection_eq_loop this answers horder,
    getConnectionLoop_found this pool answers after hbefore hitem, hcalls, hmoved]
  refine ⟨?_, ?_, rfl, hidle, rfl, rfl, ?_, ?_, ?_, ?_⟩
  · intro d hd
    obtain ⟨item', hitem', rfl⟩ := List.mem_map.mp hd
    rw [← hown item' (List.mem_append_left _ hitem')]
    exact hbefore item' hitem'
  · rw [← hown item hmem]
    exact hitem
  · intro d hd
    show d ∈ pool.mConnectionsIdle.erase item.1
    rw [Finmap.mem_erase]
    refine ⟨?_, hmet d (List.mem_append_left _ hd)⟩
    rintro rfl
    exact List.disjoint_of_nodup_append hnodup hd List.mem_cons_self
  · exact fun d hd => callsOn_checks hchecked hd
  · intro d hd
    apply callsOn_eq_nil_of_not_mem
    rw [← List.singleton_append, ← List.append_assoc] at hnodup
    exact fun hmem' => List.disjoint_of_nodup_append hnodup hmem' hd
  · intro d hd
    apply callsOn_eq_nil_of_not_mem
    exact fun hmem' => hnotbusy d hd (hmet d hmem')

end Outcomes

end ConnectionPool

/-- **`get_connection`, specified.** In every state of a pool that its clients can bring about, for
every iteration order of its idle connections and all their answers: the proxy is null if and only
if the check of every idle connection fails, and then nothing has changed; otherwise the first
connection in the order that passes is handed out, and nothing else has changed or was called. -/
theorem getConnection_specification [DecidableEq ι] [DecidableEq π]
    (vectors : ι → ConnectionVector Conn) (ops : List (Op ι π Conn)) (w : World ι π Conn)
    (hrun : Runs.run World.step (World.start vectors) ops = some w) (i : ι)
    (answers : Answers Conn) (order : List (Σ _ : Conn, Conn))
    (horder : Iterates order (w.pools i).mConnectionsIdle) :
    (((w.pools i).getConnection i answers order).proxy = .null ↔
      ∀ c ∈ (w.pools i).mConnectionsIdle, (checkConnect answers c).1 = false) ∧
    (((w.pools i).getConnection i answers order).proxy = .null →
      (w.pools i).RefusesAll answers ((w.pools i).getConnection i answers order)) ∧
    (((w.pools i).getConnection i answers order).proxy ≠ .null →
      ∃ before c after, order.map Sigma.fst = before ++ c :: after ∧
        ConnectionPool.HandsOutFirst i (w.pools i) answers before c after
          ((w.pools i).getConnection i answers order)) := by
  obtain ⟨l, hstock, hpool⟩ := World.sound_run hrun i
  have hidle (c : Conn) : c ∈ (w.pools i).mConnectionsIdle ↔ c ∈ order.map Sigma.fst :=
    (ConnectionPool.mem_map_fst_iff horder).symm
  rcases ConnectionPool.refused_or_found answers order with
    hall | ⟨before, item, after, rfl, hbefore, hitem⟩
  · have hrefuses := ConnectionPool.refusesAll i hpool.idle_owns horder answers hall
    refine ⟨iff_of_true hrefuses.proxy ?_, fun _ => hrefuses,
      fun hne => absurd hrefuses.proxy hne⟩
    intro c hc
    obtain ⟨item, hmem, rfl⟩ := List.mem_map.mp ((hidle c).mp hc)
    rw [← hpool.idle_owns.eq_of_mem horder hmem]
    exact hall item hmem
  · have hfirst := ConnectionPool.handsOutFirst i hpool.idle_owns (hpool.conserves hstock).disjoint
      answers horder hbefore hitem
    have hne : ((w.pools i).getConnection i answers (before ++ item :: after)).proxy ≠ .null := by
      rw [hfirst.proxy]
      simp [ConnectionProxy.null]
    refine ⟨iff_of_false hne ?_, fun hnull => absurd hnull hne, fun _ => ?_⟩
    · intro hall
      have hrefused := hall item.1 hfirst.was_idle
      rw [hfirst.passed] at hrefused
      cases hrefused
    · exact ⟨before.map Sigma.fst, item.1, after.map Sigma.fst, by simp, hfirst⟩

/-- Of three idle connections the first is refused and the second is handed out. -/
theorem getConnection_specification_second_of_three :
    let answers : Answers ℕ := ⟨fun _ => .returned true, fun _ => .returned false,
      fun c => .returned (decide (8 ≤ c))⟩
    let pool := ((World.start fun _ : Unit => ⟨[7, 8, 9], by decide⟩ : World Unit ℕ ℕ).pools ())
    ∃ before c after, [7, 8, 9] = before ++ c :: after ∧
      ConnectionPool.HandsOutFirst () pool answers before c after
        (pool.getConnection () answers [⟨7, 7⟩, ⟨8, 8⟩, ⟨9, 9⟩]) := by
  intro answers pool
  have hspec := getConnection_specification (π := ℕ) (fun _ : Unit => ⟨[7, 8, 9], by decide⟩) []
    _ rfl () answers [⟨7, 7⟩, ⟨8, 8⟩, ⟨9, 9⟩] (by decide)
  exact hspec.2.2 (by decide)

end AsabruEngine
