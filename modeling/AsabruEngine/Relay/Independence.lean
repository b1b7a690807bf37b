import AsabruEngine.Relay.Loop

/-! # Each direction on its own

Both directions share one loop, one schedule and one flag. With a handler whose result in a
direction depends on the chunk alone, what is sent in that direction is still told by the chunks
read in it, so that two sessions that read the same chunks send the same buffers for as long as both
last.

`SendsResultsOf` is the invariant of one direction: the buffers sent are the results on the chunks
read. `sendsResultsOf_step` keeps it whatever the other direction does, and
`sent_prefix_of_chunks_prefix` compares two runs by it. -/

namespace AsabruEngine

/-- The string that a call of the handler returns, if it returns. -/
def HandlerAnswer.response : HandlerAnswer → Option Bytes
  | .returned response => some response
  | .threw => none

namespace Session

/-- The buffers sent in a direction are the results of the handler `f` on the chunks read in it, in
order, without the chunks on which it threw. -/
def SendsResultsOf (f : Bytes → HandlerAnswer) (peer : Peer) (s : Session) : Prop :=
  (s.channel peer).sent = (s.channel peer).chunks.filterMap fun bytes => (f bytes).response

theorem sendsResultsOf_start (f : Bytes → HandlerAnswer) (peer : Peer) :
    start.SendsResultsOf f peer := by
  cases peer with
  | client => rfl
  | target => rfl

/-- **One iteration** sends in a direction what the handler makes of the chunk read in it, whatever
the other direction does. -/
theorem sendsResultsOf_step {f : Bytes → HandlerAnswer} {peer : Peer} {s s' : Session}
    {it : Iteration} (hs : s.SendsResultsOf f peer) (hf : it.handler.handle peer = f)
    (hstep : s.step it = some s') : s'.SendsResultsOf f peer := by
  obtain ⟨-, hrelayed, -⟩ := step_eq_some hstep
  rw [SendsResultsOf] at hs ⊢
  cases hrelayed peer with
  | idle _ hsame => rw [hsame, hs]
  | dropped bytes _ _ hthrew hcarried =>
      have hnone : (f bytes).response = none := by rw [← hf, hthrew, HandlerAnswer.response]
      simp [hcarried, hs, List.filterMap_append, hnone]
  | passed bytes response accepted _ _ hreturned _ hcarried =>
      have hsome : (f bytes).response = some response := by
        rw [← hf, hreturned, HandlerAnswer.response]
      simp [hcarried, hs, List.filterMap_append, hsome]

/-- In every session, what is sent in a direction is what the handler makes of the chunks read. -/
theorem sendsResultsOf_run {f : Bytes → HandlerAnswer} {peer : Peer} {its : List Iteration}
    {s : Session} (hf : ∀ it ∈ its, it.handler.handle peer = f)
    (hrun : Runs.run step start its = some s) : s.SendsResultsOf f peer :=
  Runs.run_invariant step (C := fun _ it => it.handler.handle peer = f)
    (fun _ _ _ hs hf hstep => sendsResultsOf_step hs hf hstep) (sendsResultsOf_start f peer)
    (Runs.along_of_forall_mem step (fun it hit _ => hf it hit) start) hrun

/-- **Independence of the directions.** Two sessions with a handler whose result on what a peer
sends depends on the chunk alone, and whose reads from that peer draw from the same chunks, pass the
same buffers on, as far as both go; and each passes on the results of what it has read. -/
theorem sent_prefix_of_chunks_prefix {f : Bytes → HandlerAnswer} {peer : Peer}
    {its₁ its₂ : List Iteration} {s₁ s₂ : Session} {draws : List Bytes}
    (hf₁ : ∀ it ∈ its₁, it.handler.handle peer = f) (hf₂ : ∀ it ∈ its₂, it.handler.handle peer = f)
    (hrun₁ : Runs.run step start its₁ = some s₁) (hrun₂ : Runs.run step start its₂ = some s₂)
    (hdraws₁ : (s₁.channel peer).chunks <+: draws) (hdraws₂ : (s₂.channel peer).chunks <+: draws) :
    ((s₁.channel peer).sent <+: (s₂.channel peer).sent ∨
        (s₂.channel peer).sent <+: (s₁.channel peer).sent) ∧
      s₁.SendsResultsOf f peer ∧ s₂.SendsResultsOf f peer := by
  have hsends₁ := sendsResultsOf_run hf₁ hrun₁
  have hsends₂ := sendsResultsOf_run hf₂ hrun₂
  refine ⟨?_, hsends₁, hsends₂⟩
  rw [hsends₁, hsends₂]
  rcases List.prefix_or_prefix_of_prefix hdraws₁ hdraws₂ with hle | hle
  · exact Or.inl (hle.filterMap _)
  · exact Or.inr (hle.filterMap _)

/-- A handler that doubles a chunk and throws on the empty one, in two sessions: the first reads the
end of the stream after the chunk, the second reads the chunk while the target's handler throws. -/
theorem sent_prefix_of_chunks_prefix_doubled :
    let upstream : Bytes → HandlerAnswer := fun bytes =>
      if bytes = [] then .threw else .returned (bytes ++ bytes)
    let reading (answers : Peer → List RecvAnswer) (downstream : HandlerAnswer) : Iteration :=
      { select := .ready fun peer => answers peer ≠ []
        recv := answers
        handler := ⟨upstream, fun _ => downstream⟩
        send := fun _ => .failed .eagain
        heap := fun _ => 0 }
    let chunk : List RecvAnswer := [.data 1 [] 0]
    let its₁ := [reading (fun peer => if peer = .client then chunk else []) .threw,
      reading (fun peer => if peer = .client then [.closed] else []) .threw]
    let its₂ := [reading (fun _ => chunk) .threw]
    ∃ s₁ s₂, Runs.run step start its₁ = some s₁ ∧ Runs.run step start its₂ = some s₂ ∧
      ((s₁.channel .client).sent <+: (s₂.channel .client).sent ∨
        (s₂.channel .client).sent <+: (s₁.channel .client).sent) ∧
      s₁.SendsResultsOf upstream .client ∧ s₂.SendsResultsOf upstream .client := by
  intro upstream reading chunk its₁ its₂
  have hrun₁ : Runs.run step start its₁ =
      some ⟨⟨[1], [[1], []], [[1, 1]], []⟩, ⟨[], [], [], []⟩, true⟩ := rfl
  have hrun₂ : Runs.run step start its₂ =
      some ⟨⟨[1], [[1]], [[1, 1]], []⟩, ⟨[1], [[1]], [], []⟩, true⟩ := rfl
  have hdraws₁ : ([[1], []] : List Bytes) <+: [[1], []] := by decide
  have hdraws₂ : ([[1]] : List Bytes) <+: [[1], []] := by decide
  refine ⟨_, _, hrun₁, hrun₂, ?_⟩
  refine sent_prefix_of_chunks_prefix ?_ ?_ hrun₁ hrun₂ hdraws₁ hdraws₂
  · intro it hit
    rcases List.mem_pair.mp hit with rfl | rfl
    · rfl
    · rfl
  · intro it hit
    rw [List.mem_singleton.mp hit]
    rfl

end Session

end AsabruEngine
