import AsabruEngine.Relay.Loop

/-! # What the relay loses

With a handler that returns each buffer unchanged, the relay is to hand on every byte. The loop does
not look at the count `send` returns, so what the kernel does not take of a buffer is gone, unless
the session ends in the same iteration.

`Lossless` compares what was received with what the kernel has taken, and `EndsOrSendsAll` is the
condition on an iteration. `lossless_step_iff` decides one iteration, from
`Relayed.accepted_eq_received_iff` for each direction, and `lossless_iff_endsOrSendsAll` a run. -/

namespace AsabruEngine

namespace Iteration

/-- The kernel takes all of what is read from the peer. -/
def SendsAll (it : Iteration) (peer : Peer) : Prop :=
  it.send peer = .accepted (RecvAnswer.delivered (it.recv peer)).length

instance (it : Iteration) (peer : Peer) : Decidable (it.SendsAll peer) :=
  inferInstanceAs (Decidable (_ = _))

/-- The condition on an iteration: nothing comes from a socket that is read from, or the kernel
takes all of what is read from each. -/
def EndsOrSendsAll (it : Iteration) : Prop :=
  (∃ peer, it.NothingComes peer) ∨ ∀ peer, it.Polls peer → it.SendsAll peer

end Iteration

namespace Session

/-- While the session runs, the kernel has taken in each direction the bytes received, in order. -/
def Lossless (s : Session) : Prop :=
  s.running = true → ∀ peer, (s.channel peer).accepted = (s.channel peer).received

theorem lossless_start : start.Lossless := by
  rintro - (_ | _)
  · rfl
  · rfl

/-- With the handler that changes nothing, a direction without loss stays so exactly if the kernel
takes all of what is read. -/
theorem Relayed.accepted_eq_received_iff {peer : Peer} {it : Iteration}
    {channel channel' : Channel} (h : Relayed peer it channel channel')
    (hunchanged : it.handler = .unchanged) (hsome : ¬ it.NothingComes peer)
    (heq : channel.accepted = channel.received) :
    channel'.accepted = channel'.received ↔ (it.Polls peer → it.SendsAll peer) := by
  have hhandle : ∀ bytes, it.handler.handle peer bytes = .returned bytes := by
    intro bytes
    rw [hunchanged, CProxyHandler.handle_unchanged]
  cases h with
  | idle hidle hsame =>
      subst hsame
      exact iff_of_true heq fun hpolls => absurd hpolls hidle
  | dropped bytes _ _ hthrew =>
      rw [hhandle bytes] at hthrew
      cases hthrew
  | passed bytes response accepted hpolls hread hresponse htaken hcarried =>
      rw [hhandle bytes, HandlerAnswer.returned.injEq] at hresponse
      subst hcarried hresponse
      have hbytes : bytes ≠ [] := fun hnil =>
        hsome ⟨hpolls, (Socket.receiveAll_eq_nil_iff hread).mp hnil⟩
      rw [imp_iff_right hpolls, Iteration.SendsAll, ← Socket.receiveAll_eq_some hread,
        ← Socket.sendBytes_eq_self_iff hbytes htaken]
      dsimp only
      rw [heq, List.append_cancel_left_eq]

/-- **One iteration** keeps a session without loss exactly if it ends it or the kernel takes all of
what is read. -/
theorem lossless_step_iff {s s' : Session} {it : Iteration} (hs : s.Lossless)
    (hunchanged : it.handler = .unchanged) (hstep : s.step it = some s') :
    s'.Lossless ↔ it.EndsOrSendsAll := by
  obtain ⟨hrunning, hrelayed, hrunning'⟩ := step_eq_some hstep
  have hdisconnects : ∀ peer, Disconnects it peer ↔ it.NothingComes peer := by
    intro peer
    refine and_iff_left ?_
    rw [hunchanged, CProxyHandler.handle_unchanged]
    exact HandlerAnswer.noConfusion
  simp only [hdisconnects] at hrunning'
  rw [Lossless, hrunning', Iteration.EndsOrSendsAll, ← not_forall_not, ← imp_iff_not_or]
  refine imp_congr_right fun hsome => forall_congr' fun peer => ?_
  exact (hrelayed peer).accepted_eq_received_iff hunchanged (hsome peer) (hs hrunning peer)

/-- **When nothing is lost.** In a session whose handler changes nothing, each direction has handed
on what it received at every boundary reached running, exactly when the kernel takes all that is
read in every iteration that does not end the session. -/
theorem lossless_iff_endsOrSendsAll {its : List Iteration}
    (hunchanged : ∀ it ∈ its, it.handler = .unchanged) :
    Runs.Always step Lossless start its ↔
      Runs.Along step (fun _ it => it.EndsOrSendsAll) start its := by
  refine Runs.always_iff_along_of_mem step (I := Lossless) (fun _ h => h) ?_ ?_ lossless_start
  · intro it hit s s' hs hsends hstep
    exact (lossless_step_iff hs (hunchanged it hit) hstep).mpr hsends
  · intro it hit s s' hs hsends hstep hs'
    exact hsends ((lossless_step_iff hs (hunchanged it hit) hstep).mp hs')

/-- Three bytes from the client, of which the kernel takes two. -/
theorem not_lossless_partial_send :
    ¬ Runs.Always step Lossless start [{
        select := .ready (· == .client)
        recv := fun peer => if peer = .client then [.data 1 [2, 3] 0] else []
        handler := .unchanged
        send := fun _ => .accepted 2
        heap := fun _ => 0 }] := by
  intro h
  have hlast := Runs.Always.of_run step h rfl
  have hlost := hlast rfl .client
  revert hlost
  decide

/-- A session in which each side sends once and all of it is taken. -/
theorem lossless_iff_endsOrSendsAll_exchange :
    Runs.Always step Lossless start [{
        select := .ready fun _ => true
        recv := fun peer => if peer = .client then [.data 1 [2, 3] 0] else [.data 4 [] 0]
        handler := .unchanged
        send := fun peer => .accepted (if peer = .client then 3 else 1)
        heap := fun _ => 0 }] :=
  (lossless_iff_endsOrSendsAll (by simp)).mpr fun _ _ =>
    ⟨Or.inr fun peer _ => by cases peer <;> rfl, trivial⟩

end Session

end AsabruEngine
