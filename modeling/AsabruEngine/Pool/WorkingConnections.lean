import AsabruEngine.Pool.Refinement

/-! # Which connections are handed out

`get_connection` checks the idle connections it meets until one is not refused. The calls it made on
the connection it hands out show whether that connection works: it reported itself healthy, or
connected without throwing.

`Refused` and `Throws` are the two ways for a check to go wrong. `check_connect` swallows the
exception, so that only a refusal is negative (`checkConnect_eq_false_iff`), and the search hands
out a connection whose check has thrown. `handsOutWorking_iff` says when it meets none such. -/

namespace AsabruEngine

open NodeMap

variable {ι Conn : Type*}

/-! ## One check -/

/-- The check of a connection is negative: it is not healthy and does not connect. -/
def Refused (answers : Answers Conn) (c : Conn) : Prop :=
  answers.isHealthy c = .returned false ∧ answers.connect c = .returned false

/-- The check of a connection throws, from `is_healthy` or from `connect`. -/
def Throws (answers : Answers Conn) (c : Conn) : Prop :=
  answers.isHealthy c = .threw ∨
    answers.isHealthy c = .returned false ∧ answers.connect c = .threw

/-- `check_connect` is false exactly on a negative check: one that throws counts as passed. -/
theorem checkConnect_eq_false_iff (answers : Answers Conn) (c : Conn) :
    (checkConnect answers c).1 = false ↔ Refused answers c := by
  rw [checkConnect, Refused]
  rcases hhealthy : answers.isHealthy c with (_ | _) | _
  · -- not healthy, so the outcome of `connect` decides
    rcases hconnect : answers.connect c with (_ | _) | _
    · simp
    · simp
    · simp
  · simp
  · simp

/-- `is_healthy` is called on the connection checked, and nothing else. -/
theorem isHealthy_mem_checkConnect {answers : Answers Conn} {c d : Conn} {o : Outcome} :
    .isHealthy d o ∈ (checkConnect answers c).2 ↔ d = c ∧ o = answers.isHealthy c := by
  rw [ConnectionPool.checkConnect_snd]
  by_cases hhealthy : answers.isHealthy c = .returned false
  · simp [hhealthy]
  · simp [hhealthy]

/-- `connect` is called on the connection checked, where it is not healthy. -/
theorem connect_mem_checkConnect {answers : Answers Conn} {c d : Conn} {o : Outcome} :
    .connect d o ∈ (checkConnect answers c).2 ↔
      d = c ∧ answers.isHealthy c = .returned false ∧ o = answers.connect c := by
  rw [ConnectionPool.checkConnect_snd]
  by_cases hhealthy : answers.isHealthy c = .returned false
  · simp [hhealthy]
  · simp [hhealthy]

/-! ## The whole search -/

/-- A connection handed out has shown, during the call, that it works. -/
def HandsOutWorking (result : ConnectionPool.HandOut ι Conn) : Prop :=
  ∀ c, result.proxy.mConnection = some c →
    .isHealthy c (.returned true) ∈ result.calls ∨ .connect c (.returned true) ∈ result.calls

/-- A connection that the last check of a search throws on has not shown that it works. -/
theorem not_shown_of_throws {answers : Answers Conn} {c : Conn} (hc : Throws answers c)
    (order : List (Σ _ : Conn, Conn)) :
    ¬ (.isHealthy c (.returned true) ∈ order.flatMap (fun item => (checkConnect answers item.2).2) ∨
      .connect c (.returned true) ∈
        order.flatMap (fun item => (checkConnect answers item.2).2)) := by
  simp only [List.mem_flatMap]
  rintro (⟨item, -, hcall⟩ | ⟨item, -, hcall⟩)
  · obtain ⟨rfl, hhealthy⟩ := isHealthy_mem_checkConnect.mp hcall
    rcases hc with hthrew | ⟨hfalse, -⟩
    · rw [hthrew] at hhealthy
      cases hhealthy
    · rw [hfalse] at hhealthy
      cases hhealthy
  · obtain ⟨rfl, hfalse, hconnect⟩ := connect_mem_checkConnect.mp hcall
    rcases hc with hthrew | ⟨-, hthrew⟩
    · rw [hthrew] at hfalse
      cases hfalse
    · rw [hthrew] at hconnect
      cases hconnect

/-- A check that is neither negative nor thrown has shown that the connection works. -/
theorem shown_of_not_throws {answers : Answers Conn} {c : Conn} (hpass : ¬ Refused answers c)
    (hc : ¬ Throws answers c) :
    .isHealthy c (.returned true) ∈ (checkConnect answers c).2 ∨
      .connect c (.returned true) ∈ (checkConnect answers c).2 := by
  rw [isHealthy_mem_checkConnect, connect_mem_checkConnect]
  rw [Throws, not_or, not_and] at hc
  rw [Refused, not_and] at hpass
  rcases hhealthy : answers.isHealthy c with (_ | _) | _
  · -- not healthy, so `connect` was called and neither failed nor threw
    rcases hconnect : answers.connect c with (_ | _) | _
    · exact absurd hconnect (hpass hhealthy)
    · exact Or.inr ⟨rfl, rfl, rfl⟩
    · exact absurd hconnect (hc.2 hhealthy)
  · exact Or.inl ⟨rfl, rfl⟩
  · exact absurd hhealthy hc.1

/-- **When only working connections are handed out.** On a pool whose idle connections are kept
under their own addresses, a connection handed out has shown that it works exactly when no idle
connection whose check throws comes, in the iteration order, after refused ones only. -/
theorem handsOutWorking_iff [DecidableEq Conn] (this : ι) (pool : ConnectionPool Conn)
    (answers : Answers Conn) (order : List (Σ _ : Conn, Conn))
    (howns : OwnKeyed pool.mConnectionsIdle) (horder : Iterates order pool.mConnectionsIdle) :
    HandsOutWorking (pool.getConnection this answers order) ↔
      ∀ before item after, order = before ++ item :: after →
        (∀ item' ∈ before, Refused answers item'.2) → ¬ Throws answers item.2 := by
  rw [ConnectionPool.getConnection_eq_loop this answers horder]
  constructor
  · rintro hworking before item after heq hbefore hthrows
    have hrefused : ∀ item' ∈ before, (checkConnect answers item'.2).1 = false :=
      fun item' hitem' => (checkConnect_eq_false_iff _ _).mpr (hbefore item' hitem')
    -- a check that throws is not negative, so this is the connection handed out
    have hitem : (checkConnect answers item.2).1 = true := by
      rw [← Bool.not_eq_false, checkConnect_eq_false_iff]
      rintro ⟨hhealthy, hconnect⟩
      rcases hthrows with hthrew | ⟨-, hthrew⟩
      · rw [hthrew] at hhealthy
        cases hhealthy
      · rw [hthrew] at hconnect
        cases hconnect
    have hkey : item.2 = item.1 := howns.eq_of_mem horder (by simp [heq])
    rw [heq, ConnectionPool.getConnectionLoop_found this pool answers after hrefused hitem]
      at hworking
    rw [hkey] at hthrows
    exact not_shown_of_throws hthrows _ (hworking item.1 rfl)
  · intro hfirst
    rcases ConnectionPool.refused_or_found answers order with
      hall | ⟨before, item, after, heq, hbefore, hitem⟩
    · rw [ConnectionPool.getConnectionLoop_refused this pool answers hall]
      intro c hc
      cases hc
    · have hkey : item.2 = item.1 := howns.eq_of_mem horder (by simp [heq])
      have hnot : ¬ Throws answers item.2 :=
        hfirst before item after heq fun item' hitem' =>
          (checkConnect_eq_false_iff _ _).mp (hbefore item' hitem')
      have hpass : ¬ Refused answers item.2 := by
        rw [← checkConnect_eq_false_iff, Bool.not_eq_false]
        exact hitem
      have hshown := shown_of_not_throws hpass hnot
      rw [heq, ConnectionPool.getConnectionLoop_found this pool answers after hbefore hitem]
      intro c hc
      rw [Option.some.injEq] at hc
      have hmem : item ∈ before ++ [item] := List.mem_append_right _ (List.mem_singleton_self item)
      rw [← hc, ← hkey]
      exact hshown.imp (fun h => List.mem_flatMap.mpr ⟨item, hmem, h⟩)
        (fun h => List.mem_flatMap.mpr ⟨item, hmem, h⟩)

/-- The single connection of a pool, whose server is up: it is not healthy, connects, and is handed
out working. -/
theorem handsOutWorking_reconnected :
    HandsOutWorking ((ConnectionPool.new ⟨[7], List.nodup_singleton 7⟩).getConnection ()
      ⟨fun _ => .returned true, fun _ => .returned false, fun _ => .returned true⟩ [⟨7, 7⟩]) := by
  have hpool := ConnectionPool.represents_new ⟨[7], List.nodup_singleton 7⟩
  refine (handsOutWorking_iff () _ _ _ hpool.idle_owns rfl).mpr ?_
  rintro before item after - - (hthrows | ⟨-, hthrows⟩)
  · cases hthrows
  · cases hthrows

/-- The single connection of a pool, whose server is down: it is not healthy, `connect` throws, and
it is handed out nevertheless. -/
theorem not_handsOutWorking_unreachable :
    ¬ HandsOutWorking ((ConnectionPool.new ⟨[7], List.nodup_singleton 7⟩).getConnection ()
      ⟨fun _ => .returned true, fun _ => .returned false, fun _ => .threw⟩ [⟨7, 7⟩]) := by
  intro hworking
  have h := hworking 7 rfl
  revert h
  decide

end AsabruEngine
