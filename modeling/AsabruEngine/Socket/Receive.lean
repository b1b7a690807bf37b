import AsabruEngine.Library.ByteMemory

/-! # Receiving and sending on a socket

`Socket::ReceiveBytes` and `Socket::SendBytes` over what the kernel answers. The answers to the
`recv` calls of one `ReceiveBytes` are a list, consumed one a call; a list that ends before the call
does, or an answer larger than what was asked for, is none that the kernel gives.

* `receiveBytes` is the call, `receiveBytesLoop` its loop, and `Receive` what they leave.
  `receiveAll` is the string of a call that consumes exactly the answers.
* `receiveBytesLoop_ret` and `receiveBytesLoop_nil_iff` tell the string from the answers: what the
  chunks of the call have brought, and when that is nothing.
* `sendBytes` is one call of `send`; `sendBytes_prefix` says that what the kernel takes is the front
  of the string, unless the size comes out negative as an `int`. -/

namespace AsabruEngine

/-- `errno` after a failed call, as far as the code tells errors apart. `EWOULDBLOCK` is another
name of `EAGAIN`. -/
inductive Errno
  | eintr
  | eagain
  | other (code : ℤ)
  deriving DecidableEq, Repr

/-- How one `recv` ends. -/
inductive RecvAnswer
  /-- At least one byte; `available` is what `FIONREAD` reports next, `0` if `ioctl` fails. -/
  | data (first : UInt8) (more : Bytes) (available : ℕ)
  /-- `0`: the peer has closed the connection. -/
  | closed
  | failed (errno : Errno)
  deriving DecidableEq, Repr

namespace RecvAnswer

/-- The bytes delivered. -/
def bytes : RecvAnswer → Bytes
  | data first more _ => first :: more
  | closed => []
  | failed _ => []

/-- The first answer that the loop around `recv` does not repeat the call on. -/
def first (answers : List RecvAnswer) : Option RecvAnswer :=
  answers.find? (· ≠ .failed .eintr)

/-- The bytes that a list of answers delivers. -/
def delivered (answers : List RecvAnswer) : Bytes := answers.flatMap bytes

end RecvAnswer

/-- How one `send` ends. -/
inductive SendAnswer
  /-- The kernel takes `count` bytes. -/
  | accepted (count : ℕ)
  | failed (errno : Errno)
  deriving DecidableEq, Repr

namespace Socket

/-- `READ_BUFFER`. -/
def readBuffer : ℕ := 1024

/-- What a call of `ReceiveBytes` leaves: the string returned, the size asked for in each `recv`,
and the answers that no `recv` has consumed. -/
structure Receive where
  ret : Bytes
  requests : List ℕ
  rest : List RecvAnswer
  deriving DecidableEq, Repr

/-- The loop of `ReceiveBytes`: `recv` is asked for `arg` bytes, with `ret` received so far. -/
def receiveBytesLoop : (answers : List RecvAnswer) → (arg : ℕ) → (ret : Bytes) →
    (requests : List ℕ) → Option Receive
  | [], _, _, _ => none
  | .failed errno :: answers, arg, ret, requests =>
      -- `while (bytesRead == -1 && errno == EINTR)`
      if errno = .eintr then receiveBytesLoop answers arg ret (requests ++ [arg])
      else some ⟨ret, requests ++ [arg], answers⟩
  | .closed :: answers, arg, ret, requests => some ⟨ret, requests ++ [arg], answers⟩
  | .data first more available :: answers, arg, ret, requests =>
      if more.length + 1 ≤ arg then
        let ret := ret ++ first :: more
        if available = 0 then some ⟨ret, requests ++ [arg], answers⟩
        else receiveBytesLoop answers (min available readBuffer) ret (requests ++ [arg])
      else none

/-- `ReceiveBytes`. -/
def receiveBytes (answers : List RecvAnswer) : Option Receive :=
  receiveBytesLoop answers readBuffer [] []

/-- The string that `ReceiveBytes` returns where it consumes exactly the answers. -/
def receiveAll (answers : List RecvAnswer) : Option (Bytes) :=
  (receiveBytes answers).bind fun receive => if receive.rest = [] then some receive.ret else none

/-- `SendBytes(char *s, int length)`: the bytes that `send` hands to the kernel. The `int` length is
taken as a `size_t`, and may lead beyond the bytes of `s` into the memory around them. The count
that `send` returns is not looked at. -/
def sendBytes (heap : Memory) (s : Bytes) (length : ℤ) : SendAnswer → Option (Bytes)
  | .failed _ => some []
  | .accepted count =>
      if count ≤ (length % 2 ^ 64).toNat then some ((heap.store 0 s).slice 0 count) else none

/-! ## What `ReceiveBytes` returns -/

/-- The loop returns what it had and what the answers it consumed delivered. -/
theorem receiveBytesLoop_ret {answers : List RecvAnswer} {arg : ℕ} {ret : Bytes}
    {requests : List ℕ} {receive : Receive}
    (h : receiveBytesLoop answers arg ret requests = some receive) :
    ∃ consumed, answers = consumed ++ receive.rest ∧
      receive.ret = ret ++ RecvAnswer.delivered consumed := by
  induction answers generalizing arg ret requests with
  | nil => cases h
  | cons answer answers ih =>
      cases answer with
      | data first more available =>
          simp only [receiveBytesLoop] at h
          split at h
          · split at h
            · cases h
              exact ⟨[.data first more available], rfl, by
                simp [RecvAnswer.delivered, RecvAnswer.bytes]⟩
            · obtain ⟨consumed, hsplit, hret⟩ := ih h
              refine ⟨.data first more available :: consumed, by simp [hsplit], ?_⟩
              simp [hret, RecvAnswer.delivered, RecvAnswer.bytes]
          · cases h
      | closed =>
          cases h
          exact ⟨[.closed], rfl, by simp [RecvAnswer.delivered, RecvAnswer.bytes]⟩
      | failed errno =>
          simp only [receiveBytesLoop] at h
          split at h
          · obtain ⟨consumed, hsplit, hret⟩ := ih h
            refine ⟨.failed errno :: consumed, by simp [hsplit], ?_⟩
            simp [hret, RecvAnswer.delivered, RecvAnswer.bytes]
          · cases h
            exact ⟨[.failed errno], rfl, by simp [RecvAnswer.delivered, RecvAnswer.bytes]⟩

/-- **Exactness of `ReceiveBytes`**: it returns all the bytes delivered to it, in order. -/
theorem receiveAll_eq_some {answers : List RecvAnswer} {bytes : Bytes}
    (h : receiveAll answers = some bytes) : bytes = RecvAnswer.delivered answers := by
  rw [receiveAll, Option.bind_eq_some_iff] at h
  obtain ⟨receive, hreceive, hrest⟩ := h
  obtain ⟨consumed, hsplit, hret⟩ := receiveBytesLoop_ret hreceive
  split at hrest
  · rename_i hnil
    cases hrest
    rw [hnil, List.append_nil] at hsplit
    rw [hret, hsplit, List.nil_append]
  · cases hrest

/-- The loop returns nothing exactly where it had nothing and the first answer that counts brings
nothing. -/
theorem receiveBytesLoop_nil_iff {answers : List RecvAnswer} {arg : ℕ} {requests : List ℕ}
    {receive : Receive} (h : receiveBytesLoop answers arg [] requests = some receive) :
    receive.ret = [] ↔ RecvAnswer.first answers = some .closed ∨
      ∃ errno, RecvAnswer.first answers = some (.failed errno) := by
  induction answers generalizing requests with
  | nil => cases h
  | cons answer answers ih =>
      cases answer with
      | data first more available =>
          -- bytes were delivered first, so the string is not empty
          have hne : receive.ret ≠ [] := by
            simp only [receiveBytesLoop] at h
            split at h
            · split at h
              · cases h
                simp
              · obtain ⟨consumed, -, hret⟩ := receiveBytesLoop_ret h
                simp [hret]
            · cases h
          simp [RecvAnswer.first, hne]
      | closed =>
          cases h
          simp [RecvAnswer.first]
      | failed errno =>
          simp only [receiveBytesLoop] at h
          split at h
          · rename_i hintr
            subst hintr
            rw [ih h]
            simp [RecvAnswer.first]
          · rename_i hintr
            cases h
            simp [RecvAnswer.first, hintr]

/-- `ReceiveBytes` returns the empty string exactly where the first answer that it does not repeat
its call on is the end of the stream or an error. -/
theorem receiveAll_eq_nil_iff {answers : List RecvAnswer} {bytes : Bytes}
    (h : receiveAll answers = some bytes) :
    bytes = [] ↔ RecvAnswer.first answers = some .closed ∨
      ∃ errno, RecvAnswer.first answers = some (.failed errno) := by
  rw [receiveAll, Option.bind_eq_some_iff] at h
  obtain ⟨receive, hreceive, hrest⟩ := h
  rw [← receiveBytesLoop_nil_iff hreceive]
  split at hrest
  · cases hrest
    rfl
  · cases hrest

/-- **What `send` takes of a string** is all of it exactly where it takes as many bytes. -/
theorem sendBytes_eq_self_iff {heap : Memory} {s accepted : Bytes} {length : ℤ}
    {answer : SendAnswer} (hs : s ≠ []) (h : sendBytes heap s length answer = some accepted) :
    accepted = s ↔ answer = .accepted s.length := by
  cases answer with
  | failed errno =>
      cases h
      simp [hs.symm]
  | accepted count =>
      simp only [sendBytes, Option.ite_none_right_eq_some, Option.some.injEq] at h
      obtain ⟨-, rfl⟩ := h
      rw [SendAnswer.accepted.injEq]
      constructor
      · intro heq
        rw [← heq, Memory.length_slice]
      · rintro rfl
        exact Memory.slice_store heap 0 s

/-- Where the size of a string does not come out negative as an `int`, what `send` takes is the
front of the string. -/
theorem sendBytes_prefix {heap : Memory} {s accepted : Bytes} {answer : SendAnswer}
    (hfits : 0 ≤ toInt32 s.length)
    (h : sendBytes heap s (toInt32 s.length) answer = some accepted) : accepted <+: s := by
  cases answer with
  | failed errno =>
      cases h
      exact List.nil_prefix
  | accepted count =>
      simp only [sendBytes, Option.ite_none_right_eq_some, Option.some.injEq] at h
      obtain ⟨hcount, rfl⟩ := h
      have hle : count ≤ s.length := by
        rw [toInt32, Int.bmod_def] at hcount hfits
        omega
      rw [← Memory.take_slice _ 0 hle, Memory.slice_store]
      exact List.take_prefix count s

/-- The answer that counts is not an interruption. -/
theorem first_ne_eintr (answers : List RecvAnswer) :
    RecvAnswer.first answers ≠ some (.failed .eintr) := by
  intro h
  simpa using List.find?_some h

end Socket

end AsabruEngine
