import AsabruEngine.Relay.Independence

/-! # A session told by its calls

Each iteration in which a peer is read from makes one call of the handler in that direction, on what
`ReceiveBytes` returned. A session is told by these calls: what each direction carried, in order,
and where the loop was left. The kernel decides how much of a result is handed on, but what it takes
is the front of it.

* A `HandlerCall` is one call with what it was given and what became of its result; `MadeIn` ties it
  to the iteration that makes it, and `Ends` says that the loop is left after it.
* `Told` says that a session is what its calls say. `told_step` adds the calls of one iteration, and
  `told_run` follows a session from its start.
* `accepted_sublist_received` is what this gives for a handler that changes nothing. -/

namespace AsabruEngine

/-- A call of the handler in one direction, and what is handed on of its result. -/
structure HandlerCall where
  chunk : Bytes
  answer : HandlerAnswer
  taken : Bytes
  /-- What is handed on is the front of the result, if the size of that is an `int`. -/
  front : 0 ≤ toInt32 (answer.response.getD []).length → taken <+: answer.response.getD []

namespace HandlerCall

/-- The call is the one that an iteration makes on what is read from a peer. -/
def MadeIn (peer : Peer) (call : HandlerCall) (it : Iteration) : Prop :=
  Socket.receiveAll (it.recv peer) = some call.chunk ∧
    it.handler.handle peer call.chunk = call.answer

/-- The loop is left after the call: nothing was read, and the handler did not throw on it. -/
def Ends (call : HandlerCall) : Prop := call.chunk = [] ∧ call.answer ≠ .threw

end HandlerCall

/-- What the calls of a direction carry. -/
def Channel.ofCalls (calls : List HandlerCall) : Channel where
  received := calls.flatMap HandlerCall.chunk
  chunks := calls.map HandlerCall.chunk
  sent := calls.filterMap fun call => call.answer.response
  accepted := calls.flatMap HandlerCall.taken

namespace Session

/-- A session after the iterations `its`, told by the calls made in each direction. -/
structure Told (s : Session) (its : List Iteration) (calls : Peer → List HandlerCall) : Prop where
  /-- Each direction has carried what its calls carry. -/
  carried : ∀ peer, s.channel peer = .ofCalls (calls peer)
  /-- The calls of a direction are made in the iterations that read from its peer, one in each. -/
  made : ∀ peer, (calls peer).Forall₂ (HandlerCall.MadeIn peer) (its.filter fun it => it.Polls peer)
  /-- The loop has not been left, exactly if no call ends it. -/
  running : s.running = true ↔ ∀ peer, ∀ call ∈ calls peer, ¬ call.Ends
  /-- A call that ends the loop is the last one of its direction. -/
  last : ∀ peer, ∀ call ∈ (calls peer).dropLast, ¬ call.Ends

theorem told_start : start.Told [] fun _ => [] where
  carried
    | .client => rfl
    | .target => rfl
  made _ := .nil
  running := by simp [start]
  last := by simp

/-! ## One iteration -/

/-- The block for a peer makes a call exactly if the peer is read from, and the direction carries
what the call carries. -/
theorem Relayed.exists_call {peer : Peer} {it : Iteration} {channel channel' : Channel}
    (h : Relayed peer it channel channel') :
    ∃ made : List HandlerCall,
      made.Forall₂ (HandlerCall.MadeIn peer) ([it].filter fun it => it.Polls peer) ∧
      (∀ calls, channel = .ofCalls calls → channel' = .ofCalls (calls ++ made)) ∧
      ((∃ call ∈ made, call.Ends) ↔ Disconnects it peer) ∧ made.length ≤ 1 := by
  cases h with
  | idle hidle hsame =>
      refine ⟨[], by simp [hidle], ?_, ?_, by simp⟩
      · rintro calls rfl
        rw [hsame, List.append_nil]
      · exact iff_of_false (by simp) fun hdisconnects => hidle hdisconnects.1.1
  | dropped bytes hpolls hread hthrew hcarried =>
      let call : HandlerCall := ⟨bytes, .threw, [], fun _ => List.nil_prefix⟩
      refine ⟨[call], ?_, ?_, ?_, le_rfl⟩
      · rw [List.filter_singleton, decide_eq_true hpolls, cond_true]
        exact .cons ⟨hread, hthrew⟩ .nil
      · rintro calls rfl
        simp [hcarried, Channel.ofCalls, call, HandlerAnswer.response]
      · refine iff_of_false (by simp [HandlerCall.Ends, call]) ?_
        rintro ⟨⟨-, hnothing⟩, hreturns⟩
        rw [(Socket.receiveAll_eq_nil_iff hread).mpr hnothing] at hthrew
        exact hreturns hthrew
  | passed bytes response accepted hpolls hread hreturned htaken hcarried =>
      let call : HandlerCall := ⟨bytes, .returned response, accepted,
        fun hfits => Socket.sendBytes_prefix hfits htaken⟩
      refine ⟨[call], ?_, ?_, ?_, le_rfl⟩
      · rw [List.filter_singleton, decide_eq_true hpolls, cond_true]
        exact .cons ⟨hread, hreturned⟩ .nil
      · rintro calls rfl
        simp [hcarried, Channel.ofCalls, call, HandlerAnswer.response]
      · have hends : (∃ c ∈ [call], c.Ends) ↔ bytes = [] := by simp [HandlerCall.Ends, call]
        rw [hends, Socket.receiveAll_eq_nil_iff hread, Disconnects, Iteration.NothingComes,
          and_iff_right hpolls]
        refine (and_iff_left_of_imp fun hnothing => ?_).symm
        rw [← (Socket.receiveAll_eq_nil_iff hread).mpr hnothing, hreturned]
        exact HandlerAnswer.noConfusion

/-- **One iteration** adds to each direction the call made in it, if one is made. -/
theorem told_step {s s' : Session} {its : List Iteration} {it : Iteration}
    {calls : Peer → List HandlerCall} (htold : s.Told its calls) (hstep : s.step it = some s') :
    ∃ calls', s'.Told (its ++ [it]) calls' := by
  obtain ⟨hrunning, hrelayed, hrunning'⟩ := step_eq_some hstep
  choose made hmade hcarried hends hone using fun peer => (hrelayed peer).exists_call
  have hbefore := htold.running.mp hrunning
  refine ⟨fun peer => calls peer ++ made peer, ?_, ?_, ?_, ?_⟩
  · exact fun peer => hcarried peer (calls peer) (htold.carried peer)
  · intro peer
    rw [List.filter_append]
    exact List.rel_append (htold.made peer) (hmade peer)
  · rw [hrunning']
    refine forall_congr' fun peer => ?_
    rw [← hends peer, List.forall_mem_append]
    push Not
    exact (and_iff_right (hbefore peer)).symm
  · -- the loop had not been left, so none of the calls before this iteration ends it
    intro peer call hcall
    refine hbefore peer call ?_
    match hmade' : made peer, hone peer with
    | [], _ =>
        rw [hmade', List.append_nil] at hcall
        exact (List.dropLast_subset _) hcall
    | [_], _ =>
        rw [hmade', List.dropLast_concat] at hcall
        exact hcall

end Session

/-! ## What is handed on -/

/-- The chunks read are what was received, cut up. -/
theorem Channel.flatten_chunks_ofCalls (calls : List HandlerCall) :
    (Channel.ofCalls calls).chunks.flatten = (Channel.ofCalls calls).received :=
  (List.flatMap_def ..).symm

/-- What is handed on is what was sent, with the ends of some buffers left out. -/
theorem Channel.accepted_sublist_sent {calls : List HandlerCall}
    (hfits : ∀ response ∈ (Channel.ofCalls calls).sent, 0 ≤ toInt32 response.length) :
    (Channel.ofCalls calls).accepted.Sublist (Channel.ofCalls calls).sent.flatten := by
  induction calls with
  | nil => exact List.Sublist.refl _
  | cons call calls ih =>
      have hfront := call.front
      cases hresponse : call.answer.response with
      | none =>
          have hnone : call.taken = [] := by simpa [hresponse, toInt32] using hfront
          simp only [ofCalls, List.filterMap_cons, hresponse, List.flatMap_cons, hnone,
            List.nil_append] at hfits ⊢
          exact ih hfits
      | some response =>
          simp only [ofCalls, List.filterMap_cons, hresponse, List.forall_mem_cons,
            List.flatMap_cons, List.flatten_cons] at hfits ⊢
          have htaken : call.taken <+: response := by
            simpa [hresponse] using hfront (by simpa [hresponse] using hfits.1)
          exact htaken.sublist.append (ih hfits.2)

namespace Session

/-- In a session told by its calls, what a direction has handed on is what it has sent, with the
ends of some buffers left out. -/
theorem Told.accepted_sublist_sent {s : Session} {its : List Iteration}
    {calls : Peer → List HandlerCall} (htold : s.Told its calls) {peer : Peer}
    (hfits : ∀ response ∈ (s.channel peer).sent, 0 ≤ toInt32 response.length) :
    (s.channel peer).accepted.Sublist (s.channel peer).sent.flatten := by
  rw [htold.carried peer] at hfits ⊢
  exact Channel.accepted_sublist_sent hfits

/-! ## Whole sessions -/

/-- Every session is told by calls. -/
theorem exists_told {its : List Iteration} {s : Session}
    (hrun : Runs.run step start its = some s) : ∃ calls, s.Told its calls := by
  induction its using List.reverseRecOn generalizing s with
  | nil =>
      cases hrun
      exact ⟨_, told_start⟩
  | append_singleton its it ih =>
      rw [Runs.run_append, Option.bind_eq_some_iff] at hrun
      obtain ⟨t, ht, hstep⟩ := hrun
      rw [Runs.run_singleton] at hstep
      obtain ⟨calls, hcalls⟩ := ih ht
      exact told_step hcalls hstep

/-- **A session is told by its calls.** In every session, with any handler and any kernel, each
iteration that reads from a peer makes one call in that direction; the direction has received the
chunks of these calls, sent their results and handed on the front of each; and the loop is left with
the first call that returns on an empty chunk. No byte is handed on that was not sent, none twice,
and none out of order. -/
theorem told_run {its : List Iteration} {s : Session} (hrun : Runs.run step start its = some s) :
    ∃ calls, s.Told its calls ∧ ∀ peer,
      (∀ response ∈ (s.channel peer).sent, 0 ≤ toInt32 response.length) →
        (s.channel peer).accepted.Sublist (s.channel peer).sent.flatten := by
  obtain ⟨calls, htold⟩ := exists_told hrun
  exact ⟨calls, htold, fun _ hfits => htold.accepted_sublist_sent hfits⟩

/-- The client sends three bytes, of which the kernel takes two, while the handler throws on what
the target sends; then the client closes. -/
theorem told_run_closed_client :
    let reading (answers : Peer → List RecvAnswer) : Iteration :=
      { select := .ready fun peer => answers peer ≠ []
        recv := answers
        handler := ⟨.returned, fun _ => .threw⟩
        send := fun peer => .accepted ((RecvAnswer.delivered (answers peer)).length - 1)
        heap := fun _ => 0 }
    let its := [reading fun peer => if peer = .client then [.data 1 [2, 3] 0] else [.data 4 [] 0],
      reading fun peer => if peer = .client then [.closed] else []]
    ∃ s calls, Runs.run step start its = some s ∧ s.Told its calls ∧ ∀ peer,
      (∀ response ∈ (s.channel peer).sent, 0 ≤ toInt32 response.length) →
        (s.channel peer).accepted.Sublist (s.channel peer).sent.flatten := by
  intro reading its
  have hrun : Runs.run step start its =
      some ⟨⟨[1, 2, 3], [[1, 2, 3], []], [[1, 2, 3], []], [1, 2]⟩, ⟨[4], [[4]], [], []⟩, false⟩ :=
    rfl
  obtain ⟨calls, hcalls⟩ := told_run hrun
  exact ⟨_, calls, hrun, hcalls⟩

/-- **The relay makes nothing up.** In every session with the handler that changes nothing, what a
direction has handed on is a subsequence of what it has received: nothing is duplicated, reordered
or invented, and what is lost are the ends of chunks. -/
theorem accepted_sublist_received {its : List Iteration} {s : Session} {peer : Peer}
    (hunchanged : ∀ it ∈ its, it.handler = .unchanged) (hrun : Runs.run step start its = some s)
    (hfits : ∀ chunk ∈ (s.channel peer).chunks, 0 ≤ toInt32 chunk.length) :
    (s.channel peer).accepted.Sublist (s.channel peer).received := by
  obtain ⟨calls, htold⟩ := exists_told hrun
  have hsends : s.SendsResultsOf .returned peer := by
    refine sendsResultsOf_run (fun it hit => ?_) hrun
    rw [hunchanged it hit]
    exact funext (CProxyHandler.handle_unchanged peer)
  have hsent : (s.channel peer).sent = (s.channel peer).chunks := by
    rw [hsends]
    exact List.filterMap_some
  have hreceived : (s.channel peer).chunks.flatten = (s.channel peer).received := by
    rw [htold.carried peer, Channel.flatten_chunks_ofCalls]
  rw [← hreceived, ← hsent]
  rw [← hsent] at hfits
  exact htold.accepted_sublist_sent hfits

/-- The kernel takes one byte of the first chunk and all of the second, so that the byte lost lies
between two that arrive. -/
theorem accepted_sublist_received_partial_send :
    let reading (answer : RecvAnswer) (count : ℕ) : Iteration :=
      { select := .ready (· == .client)
        recv := fun peer => if peer = .client then [answer] else []
        handler := .unchanged
        send := fun _ => .accepted count
        heap := fun _ => 0 }
    ∃ s, Runs.run step start [reading (.data 1 [2] 0) 1, reading (.data 3 [] 0) 1] = some s ∧
      (s.channel .client).accepted.Sublist (s.channel .client).received := by
  intro reading
  have hrun : Runs.run step start [reading (.data 1 [2] 0) 1, reading (.data 3 [] 0) 1] =
      some ⟨⟨[1, 2, 3], [[1, 2], [3]], [[1, 2], [3]], [1, 3]⟩, ⟨[], [], [], []⟩, true⟩ := rfl
  refine ⟨_, hrun, accepted_sublist_received ?_ hrun (by decide)⟩
  intro it hit
  rcases List.mem_pair.mp hit with rfl | rfl
  · rfl
  · rfl

end Session

end AsabruEngine
