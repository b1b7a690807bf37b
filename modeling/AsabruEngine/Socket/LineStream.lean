import AsabruEngine.Library.Framing
import AsabruEngine.Socket.Receive
import AsabruEngine.Socket.ReceiveLine

/-! # Lines from one socket to another

One side calls `SendLine`, the other one `ReceiveLine`, on the two ends of a connection that keeps
the order of its bytes. `SendLine` calls `send` once and does not look at what it returns, and a
call of `ReceiveLine` that is interrupted forgets the line it was reading. The steps of the two
sides may come in any order; what is received and what is on its way, cut at newlines, is compared
with the lines that were sent.

`Delivers` is this comparison, and `Clean` the condition on a step. `inv_step` keeps the invariant
of clean steps, `not_delivers_step` is the other direction for one step, and `delivers_iff_clean`
has both for runs. Lines are cut by the library's `Delimited.cut`. -/

namespace AsabruEngine

open Delimited

/-- `SendLine`: the bytes that `send` hands to the kernel, if it may answer so. The string has a
newline appended, and the count that `send` returns is not looked at. -/
def Socket.sendLine (s : Bytes) : SendAnswer → Option Bytes
  | .failed _ => some []
  | .accepted count =>
      if count ≤ (s ++ [newline]).length then some ((s ++ [newline]).take count) else none

/-- Both ends of a connection: the strings passed to `SendLine`, the bytes on their way, whether the
sender has closed its end, and the calls of `ReceiveLine` at the other one. -/
structure LineStream where
  sent : List Bytes
  inFlight : Bytes
  closed : Bool
  receiver : ReceiveLine

namespace LineStream

/-- A step of one of the two sides. -/
inductive Step
  | sendLine (s : Bytes) (answer : SendAnswer)
  | close
  /-- `recv` brings the next byte, or `0` at the end of the stream. -/
  | recv
  /-- `recv` returns `-1`. -/
  | recvFails

/-- Nothing sent yet. -/
def start : LineStream := ⟨[], [], false, .start⟩

/-- One step. `recv` waits while there is no byte and the sender has not closed its end. -/
def step (stream : LineStream) : Step → Option LineStream
  | .sendLine s answer =>
      if stream.closed then none
      else
        (Socket.sendLine s answer).map fun taken =>
          { stream with sent := stream.sent ++ [s], inFlight := stream.inFlight ++ taken }
  | .close => some { stream with closed := true }
  | .recv =>
      match stream.inFlight with
      | r :: inFlight =>
          (stream.receiver.step Socket.receiveLine (.byte r)).map fun receiver =>
            { stream with inFlight, receiver }
      | [] =>
          if stream.closed then
            (stream.receiver.step Socket.receiveLine .zero).map fun receiver =>
              { stream with receiver }
          else none
  | .recvFails =>
      (stream.receiver.step Socket.receiveLine .minusOne).map fun receiver =>
        { stream with receiver }

/-- The lines that `ReceiveLine` has returned: a call that returns the empty string returns none. -/
def received (stream : LineStream) : List Bytes :=
  (stream.receiver.calls.map LineCall.ret).filter (· ≠ [])

/-- What `ReceiveLine` has returned and what it is yet to return, from the line under way and the
bytes on their way, are the lines that were sent, one for one and in order. -/
def Delivers (stream : LineStream) : Prop :=
  stream.received ++ cut newline (stream.receiver.ret ++ stream.inFlight) =
    stream.sent.map (· ++ [newline])

/-- The condition on a step: a line that is sent has no newline of its own and is taken whole, and
`recv` does not fail within a line. -/
def Clean (stream : LineStream) : Step → Prop
  | .sendLine s answer => newline ∉ s ∧ answer = .accepted (s ++ [newline]).length
  | .recvFails => stream.receiver.ret = []
  | _ => True

/-! ## The invariant -/

/-- What clean steps keep: the line under way has no newline, and what is on its way ends in one. -/
structure Inv (stream : LineStream) : Prop where
  delivers : stream.Delivers
  line : newline ∉ stream.receiver.ret
  ends : ∀ b ∈ (stream.receiver.ret ++ stream.inFlight).getLast?, b = newline

theorem inv_start : start.Inv :=
  ⟨rfl, by simp [start, ReceiveLine.start], by simp [start, ReceiveLine.start]⟩

/-- What the receiver has got goes in front of what is on its way, and lines behind it. -/
theorem Delivers.prefix {stream : LineStream} (h : stream.Delivers) :
    stream.received <+: stream.sent.map (· ++ [newline]) :=
  ⟨_, h⟩

theorem received_of_calls (stream : LineStream) {receiver : ReceiveLine} {call : LineCall}
    (hcalls : receiver.calls = stream.receiver.calls ++ [call]) (inFlight : Bytes) :
    received { stream with receiver, inFlight } =
      stream.received ++ if call.ret = [] then [] else [call.ret] := by
  simp only [received, hcalls, List.map_append, List.filter_append, List.map_singleton]
  split
  · rename_i hret
    simp [hret]
  · rename_i hret
    simp [hret]

/-- Behind what ends in a newline, the lines sent are those there were and those of the bytes
taken. -/
theorem Inv.cut_append {stream : LineStream} (h : stream.Inv) (taken : Bytes) :
    stream.received ++ cut newline (stream.receiver.ret ++ (stream.inFlight ++ taken)) =
      stream.sent.map (· ++ [newline]) ++ cut newline taken := by
  rw [← List.append_assoc stream.receiver.ret, cut_append_of_getLast newline h.ends,
    ← List.append_assoc, h.delivers]

/-- At the end of the stream there is no line under way. -/
theorem Inv.ret_eq_nil {stream : LineStream} (h : stream.Inv) (hempty : stream.inFlight = []) :
    stream.receiver.ret = [] := by
  by_contra hne
  have hlast := h.ends (stream.receiver.ret.getLast hne) (by
    simp [hempty, List.getLast?_eq_some_getLast hne])
  exact h.line (hlast ▸ List.getLast_mem hne)

/-- Sending a line. -/
theorem step_sendLine {stream stream' : LineStream} {s : Bytes} {answer : SendAnswer} :
    stream.step (.sendLine s answer) = some stream' ↔
      stream.closed = false ∧ ∃ taken, Socket.sendLine s answer = some taken ∧
        stream' = { stream with
          sent := stream.sent ++ [s], inFlight := stream.inFlight ++ taken } := by
  simp only [step]
  split
  · rename_i hclosed
    simp [hclosed]
  · rename_i hclosed
    rw [Option.map_eq_some_iff]
    simp only [Bool.not_eq_true] at hclosed
    exact ⟨fun ⟨taken, htaken, heq⟩ => ⟨hclosed, taken, htaken, heq.symm⟩,
      fun ⟨_, taken, htaken, heq⟩ => ⟨taken, htaken, heq.symm⟩⟩

/-- What `send` takes of a line is the line exactly where it takes as many bytes. -/
theorem sendLine_eq_iff {s taken : Bytes} {answer : SendAnswer}
    (h : Socket.sendLine s answer = some taken) :
    taken = s ++ [newline] ↔ answer = .accepted (s ++ [newline]).length := by
  cases answer with
  | failed errno =>
      simp only [Socket.sendLine, Option.some.injEq] at h
      subst h
      simp
  | accepted count =>
      simp only [Socket.sendLine, Option.ite_none_right_eq_some, Option.some.injEq] at h
      obtain ⟨hle, rfl⟩ := h
      rw [List.take_eq_self_iff, SendAnswer.accepted.injEq]
      omega

/-- The receiver gets a byte that goes on with its line. -/
theorem Inv.recv_byte {stream : LineStream} (h : stream.Inv) {r : UInt8} {inFlight : Bytes}
    (hinFlight : stream.inFlight = r :: inFlight) (hr : r ≠ newline) :
    Inv { stream with
      inFlight := inFlight
      receiver := ⟨stream.receiver.ret ++ [r], stream.receiver.consumed ++ [r],
        stream.receiver.calls⟩ } := by
  have hsame : stream.receiver.ret ++ [r] ++ inFlight = stream.receiver.ret ++ stream.inFlight := by
    rw [hinFlight, List.append_assoc, List.singleton_append]
  refine ⟨?_, ?_, ?_⟩
  · have hdelivers := h.delivers
    rw [Delivers, ← hsame] at hdelivers
    exact hdelivers
  · rw [List.mem_append, List.mem_singleton, not_or]
    exact ⟨h.line, hr.symm⟩
  · dsimp only
    rw [hsame]
    exact h.ends

/-- The receiver gets the newline that ends its line. -/
theorem Inv.recv_newline {stream : LineStream} (h : stream.Inv) {inFlight : Bytes}
    (hinFlight : stream.inFlight = newline :: inFlight) {call : LineCall}
    (hcall : call.ret = stream.receiver.ret ++ [newline]) :
    Inv { stream with inFlight, receiver :=
      { ReceiveLine.start with calls := stream.receiver.calls ++ [call] } } := by
  refine ⟨?_, by simp [ReceiveLine.start], fun b hb => h.ends b ?_⟩
  · have hdelivers := h.delivers
    rw [Delivers, hinFlight, cut_append_cons newline h.line] at hdelivers
    rw [Delivers, received_of_calls stream rfl, if_neg (by simp [hcall]), hcall,
      List.append_assoc]
    exact hdelivers
  · -- what is left ends as it did with the line in front of it
    have hne : inFlight ≠ [] := by
      rintro rfl
      simp [ReceiveLine.start] at hb
    rw [hinFlight, List.getLast?_append, List.getLast?_cons_of_ne_nil hne]
    simp only [ReceiveLine.start, List.nil_append, Option.mem_def] at hb
    rw [hb]
    rfl

/-- A call of `ReceiveLine` that has no line under way returns none. -/
theorem Inv.returns_nothing {stream : LineStream} (h : stream.Inv)
    (hret : stream.receiver.ret = []) {call : LineCall} (hcall : call.ret = []) :
    Inv { stream with receiver :=
      { ReceiveLine.start with calls := stream.receiver.calls ++ [call] } } := by
  refine ⟨?_, by simp [ReceiveLine.start], ?_⟩
  · have hdelivers := h.delivers
    rw [Delivers, hret] at hdelivers
    rw [Delivers, received_of_calls stream rfl, if_pos hcall, List.append_nil]
    exact hdelivers
  · have hends := h.ends
    rw [hret] at hends
    exact hends

/-- **A clean step** keeps the invariant. -/
theorem inv_step {stream stream' : LineStream} {e : Step} (h : stream.Inv) (hclean : stream.Clean e)
    (hstep : stream.step e = some stream') : stream'.Inv := by
  cases e with
  | sendLine s answer =>
      obtain ⟨-, taken, htaken, rfl⟩ := step_sendLine.mp hstep
      obtain ⟨hs, hanswer⟩ := hclean
      obtain rfl := (sendLine_eq_iff htaken).mpr hanswer
      refine ⟨?_, h.line, ?_⟩
      · have happend := h.cut_append (s ++ [newline])
        rw [(cut_concat_eq_singleton_iff newline).mpr hs] at happend
        rw [Delivers, List.map_append, List.map_singleton]
        exact happend
      · intro b hb
        dsimp only at hb
        rw [← List.append_assoc, ← List.append_assoc, List.getLast?_concat] at hb
        exact (Option.some.inj hb).symm
  | close =>
      cases hstep
      exact ⟨h.delivers, h.line, h.ends⟩
  | recv =>
      simp only [step] at hstep
      split at hstep
      · rename_i r inFlight hinFlight
        by_cases hr : r = newline
        · subst hr
          simp only [Socket.receiveLine, ReceiveLine.step_newline, Option.map_some] at hstep
          cases hstep
          exact h.recv_newline hinFlight rfl
        · simp only [Socket.receiveLine, ReceiveLine.step_byte hr, Option.map_some] at hstep
          cases hstep
          exact h.recv_byte hinFlight hr
      · rename_i hinFlight
        split at hstep
        · simp only [Socket.receiveLine, ReceiveLine.step_zero, Option.map_some] at hstep
          cases hstep
          have hret := h.ret_eq_nil hinFlight
          exact h.returns_nothing hret hret
        · cases hstep
  | recvFails =>
      simp only [step, Socket.receiveLine, ReceiveLine.step_minusOne, Option.map_some] at hstep
      cases hstep
      exact h.returns_nothing hclean rfl

/-- **A step that is not clean** loses, cuts or adds a line. -/
theorem not_delivers_step {stream stream' : LineStream} {e : Step} (h : stream.Inv)
    (hclean : ¬ stream.Clean e) (hstep : stream.step e = some stream') : ¬ stream'.Delivers := by
  intro hdelivers
  cases e with
  | sendLine s answer =>
      obtain ⟨-, taken, htaken, rfl⟩ := step_sendLine.mp hstep
      rw [Delivers, List.map_append, List.map_singleton] at hdelivers
      have hcut : cut newline taken = [s ++ [newline]] :=
        List.append_cancel_left ((h.cut_append taken).symm.trans hdelivers)
      have hwhole : taken = s ++ [newline] := by
        rw [← flatten_cut newline taken, hcut, List.flatten_singleton]
      rw [hwhole] at hcut
      exact hclean ⟨(cut_concat_eq_singleton_iff newline).mp hcut,
        (sendLine_eq_iff htaken).mp hwhole⟩
  | close => exact hclean trivial
  | recv => exact hclean trivial
  | recvFails =>
      simp only [step, Socket.receiveLine, ReceiveLine.step_minusOne, Option.map_some] at hstep
      cases hstep
      rw [Delivers, received_of_calls stream rfl, if_pos rfl, List.append_nil] at hdelivers
      -- what was read of the line is in no call
      have hcut := List.append_cancel_left (hdelivers.trans h.delivers.symm)
      have hbytes := congrArg List.flatten hcut
      rw [flatten_cut, flatten_cut] at hbytes
      exact hclean (List.append_cancel_right hbytes).symm

/-- **When lines arrive as they were sent.** However the steps of the sender and of the receiver
interleave: the lines that `ReceiveLine` has returned and is yet to return are at every moment the
lines passed to `SendLine`, one for one and in order, exactly if every line that is sent has no
newline of its own and is taken whole by `send`, and no `recv` fails within a line. -/
theorem delivers_iff_clean (steps : List Step) :
    Runs.Always step Delivers start steps ↔ Runs.Along step Clean start steps :=
  Runs.always_iff_along step (fun _ h => h.delivers)
    (fun _ _ _ h hclean hstep => inv_step h hclean hstep)
    (fun _ _ _ h hclean hstep => not_delivers_step h hclean hstep) inv_start steps

end LineStream

end AsabruEngine
