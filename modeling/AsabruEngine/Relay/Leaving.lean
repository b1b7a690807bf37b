import AsabruEngine.Relay.Loop

/-! # How a session ends

The loop is left where `ReceiveBytes` returns the empty string on one of the sockets and the handler
does not throw on it. That is not where a peer has closed its connection: the flag is set behind the
call of the handler, and the empty string stands for a timeout as well.

* `EndsOnNothing` and `NothingIsHandled` are about a handler that throws, `EndsOnlyIfGone` and
  `TimesOut` about timeouts. All four speak of one iteration.
* `running_eq_false_iff` says when an iteration ends a session, and
  `NothingComes.peerGone_or_timesOut` what stands behind an empty string.
* `endsOnNothing_iff_nothingIsHandled` and `endsOnlyIfGone_iff_timesOut` are the results, for whole
  sessions. -/

namespace AsabruEngine

namespace Session

/-- A session ends in an iteration exactly if one of the blocks clears the flag. -/
theorem running_eq_false_iff {s s' : Session} {it : Iteration} (hstep : s.step it = some s') :
    s'.running = false ↔ ∃ peer, Disconnects it peer := by
  obtain ⟨-, -, hrunning⟩ := step_eq_some hstep
  rw [← Bool.not_eq_true, hrunning, not_forall_not]

/-! ## A closed peer -/

/-- The session ends with an iteration in which `ReceiveBytes` returns the empty string. -/
def EndsOnNothing (s : Session) (it : Iteration) : Prop :=
  ∀ s', s.step it = some s' → (∃ peer, it.ReceivesNothing peer) → s'.running = false

/-- In an iteration taken, `ReceiveBytes` returns the empty string where nothing comes. -/
theorem receivesNothing_iff {s s' : Session} {it : Iteration} (hstep : s.step it = some s')
    (peer : Peer) : it.ReceivesNothing peer ↔ it.NothingComes peer := by
  refine and_congr_right fun hpolls => ?_
  obtain ⟨bytes, hread⟩ : ∃ bytes, Socket.receiveAll (it.recv peer) = some bytes := by
    cases (step_eq_some hstep).2.1 peer with
    | idle hidle _ => exact absurd hpolls hidle
    | dropped bytes _ hread _ _ => exact ⟨bytes, hread⟩
    | passed bytes _ _ _ hread _ _ _ => exact ⟨bytes, hread⟩
  rw [← Socket.receiveAll_eq_nil_iff hread, hread, Option.some.injEq]

/-- The condition on an iteration: where nothing comes, there is a socket from which nothing comes
and on whose empty string the handler does not throw. -/
def NothingIsHandled (it : Iteration) : Prop :=
  (∃ peer, it.NothingComes peer) →
    ∃ peer, it.NothingComes peer ∧ it.handler.handle peer [] ≠ .threw

/-- **When a closed peer ends the session.** In every session the loop is left with the iteration in
which nothing comes from a socket, exactly when the handler lets the empty string of such a socket
through in every one. -/
theorem endsOnNothing_iff_nothingIsHandled (its : List Iteration) :
    Runs.Along step EndsOnNothing start its ↔
      Runs.Along step (fun _ it => NothingIsHandled it) start its := by
  refine Runs.along_congr step (fun it _ s s' hstep => ?_) start
  have hends := running_eq_false_iff hstep
  have hreceives := exists_congr (receivesNothing_iff hstep)
  constructor
  · intro h hnothing
    exact hends.mp (h s' hstep (hreceives.mpr hnothing))
  · intro h t ht hnothing
    rw [hstep, Option.some.injEq] at ht
    subst ht
    exact hends.mpr (h (hreceives.mp hnothing))

/-- The client closes its connection, and the handler throws on the empty string: the loop goes on,
and so it does each time the closed socket is found readable. -/
theorem not_endsOnNothing_throwing_handler :
    ¬ Runs.Along step EndsOnNothing start [{
        select := .ready (· == .client)
        recv := fun peer => if peer = .client then [.closed] else []
        handler := ⟨fun _ => .threw, .returned⟩
        send := fun _ => .accepted 0
        heap := fun _ => 0 }] := by
  intro h
  obtain ⟨hends, -⟩ := h _ rfl
  exact absurd (hends _ rfl ⟨.client, rfl, rfl⟩) (by decide)

/-! ## A healthy session -/

end Session

namespace Iteration

/-- A `recv` on a socket says that the peer is gone: it returns `0`, or fails with another `errno`
than `EINTR` and `EAGAIN`. -/
def PeerGone (it : Iteration) : Prop :=
  ∃ peer, it.Polls peer ∧
    (.closed ∈ it.recv peer ∨ ∃ code, .failed (.other code) ∈ it.recv peer)

/-- A socket is read from, and the read timeout passes before any byte comes. -/
def TimesOut (it : Iteration) : Prop :=
  ∃ peer, it.Polls peer ∧ RecvAnswer.first (it.recv peer) = some (.failed .eagain)

/-- Where nothing comes, the peer is gone or the read timed out. -/
theorem NothingComes.peerGone_or_timesOut {it : Iteration} {peer : Peer}
    (h : it.NothingComes peer) : it.PeerGone ∨ it.TimesOut := by
  obtain ⟨hpolls, hclosed | ⟨errno, hfailed⟩⟩ := h
  · exact Or.inl ⟨peer, hpolls, Or.inl (List.mem_of_find?_eq_some hclosed)⟩
  · cases errno with
    | eintr => exact absurd hfailed (Socket.first_ne_eintr _)
    | eagain => exact Or.inr ⟨peer, hpolls, hfailed⟩
    | other code =>
        exact Or.inl ⟨peer, hpolls, Or.inr ⟨code, List.mem_of_find?_eq_some hfailed⟩⟩

end Iteration

namespace Session

/-- The session ends with the iteration only if a peer is gone. -/
def EndsOnlyIfGone (s : Session) (it : Iteration) : Prop :=
  ∀ s', s.step it = some s' → s'.running = false → it.PeerGone

/-- **When a healthy session goes on.** In a session whose handler never throws, the loop is left
only with an iteration in which a peer is gone, exactly when no read of an iteration times out
unless a peer is gone in it too. -/
theorem endsOnlyIfGone_iff_timesOut {its : List Iteration}
    (hreturns : ∀ it ∈ its, ∀ peer bytes, it.handler.handle peer bytes ≠ .threw) :
    Runs.Along step EndsOnlyIfGone start its ↔
      Runs.Along step (fun _ it => it.TimesOut → it.PeerGone) start its := by
  refine Runs.along_congr step (fun it hit s s' hstep => ?_) start
  have hends : s'.running = false ↔ ∃ peer, it.NothingComes peer := by
    rw [running_eq_false_iff hstep]
    exact exists_congr fun peer => and_iff_left (hreturns it hit peer [])
  constructor
  · rintro h ⟨peer, hpolls, hfirst⟩
    exact h s' hstep (hends.mpr ⟨peer, hpolls, Or.inr ⟨_, hfirst⟩⟩)
  · intro h t ht hended
    rw [hstep, Option.some.injEq] at ht
    subst ht
    obtain ⟨peer, hnothing⟩ := hends.mp hended
    exact hnothing.peerGone_or_timesOut.elim id h

/-- `select` is interrupted, so that both idle sockets look readable, and both reads time out. -/
theorem not_endsOnlyIfGone_select_failed :
    ¬ Runs.Along step EndsOnlyIfGone start [{
        select := .failed .eintr
        recv := fun _ => [.failed .eagain]
        handler := .unchanged
        send := fun _ => .accepted 0
        heap := fun _ => 0 }] := by
  intro h
  obtain ⟨hgone, -⟩ := h _ rfl
  obtain ⟨peer, -, hclosed | ⟨code, hfailed⟩⟩ := hgone _ rfl rfl
  · simp at hclosed
  · simp at hfailed

/-- `select` is interrupted, one side sends and the other one closes. -/
theorem endsOnlyIfGone_iff_timesOut_closed :
    Runs.Along step EndsOnlyIfGone start [{
        select := .failed .eintr
        recv := fun peer => if peer = .client then [.data 1 [] 0] else [.closed]
        handler := .unchanged
        send := fun _ => .accepted 0
        heap := fun _ => 0 }] := by
  refine (endsOnlyIfGone_iff_timesOut ?_).mpr fun _ _ => ⟨?_, trivial⟩
  · intro it hit peer bytes
    rw [List.mem_singleton.mp hit, CProxyHandler.handle_unchanged]
    exact HandlerAnswer.noConfusion
  · exact fun _ => ⟨.target, rfl, Or.inl (by simp)⟩

end Session

end AsabruEngine
