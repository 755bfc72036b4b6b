import Net29.Poll.Sockets
import Net29.Uring.Sockets

/-!
# Operations act on the socket they were started for

* `calls_on_own_socket`: every system call for an operation is made on the socket that its id
  denoted when it was submitted, as long as no socket is released while an operation on it is
  pending (on `uring_context`: while its entry has not been consumed);
* `calls_on_other_socket`: a socket released too early, and another one in its place.
-/

namespace Net29

open Machine Transition

/-- Every call was made on the right socket, and every operation that waits has a live id, with the
descriptor that is waited for. -/
structure PollContext.OnOwnSockets (c : PollContext) : Prop where
  calls : ∀ call ∈ c.env.calls, call.Faithful
  live : ∀ (i : ℕ) (p : Pollfd) (io : IoBase), c.poll[i]? = some p → c.outstanding[i]? = some io →
    ∃ rec, c.sockets.get? io.op.id = some rec ∧ rec.handle = p.fd

/-- **Operations act on their own sockets** in every run in which no socket is released while an
operation on it is pending. -/
theorem calls_on_own_socket (os : Os) :
    (∀ m : Machine PollContext Empty,
      Runs pollBase PollContext.Unreleased (PollContext.initial os) m → m.ctx.OnOwnSockets) ∧
    (∀ m : Machine UringContext Empty,
      Runs uringBase UringContext.Unconsumed (UringContext.initial os) m →
      ∀ call ∈ m.ctx.env.calls, call.Faithful) := by
  refine ⟨fun m h => ?_, fun m h => ?_⟩
  · have hS := PollContext.pollSockets_of_runs h
    refine ⟨hS.faithful.calls, fun i p io hp hio => ?_⟩
    obtain ⟨rec, s, hget, hhandle, -, -⟩ := hS.served.get hp hio
    exact ⟨rec, hget, hhandle⟩
  · exact (UringContext.uringSockets_of_runs h).faithful.calls

/-- Two receives one after the other; in between, the socket is released, and its descriptor and its
id are used again. -/
def reusedAfter : List (Label Answers Unit PollCall) :=
  [.call (.makeSocket (.ok 3 [])), .start ⟨1, .receive 0 [8]⟩ {} false (),
    .call (.runOne 0 [.ok [POLLIN] 0 [.ok 5 []]]), .ret, .call (.release 0 none),
    .call (.makeSocket (.ok 3 [])), .start ⟨2, .receive 0 [8]⟩ {} false (),
    .call (.runOne 0 [.ok [POLLIN] 0 [.ok 6 []]]), .ret]

/-- Sockets are released when no operation on them is pending, and no native handle is adopted. -/
def late (m : Machine PollContext Empty) : Label Answers Unit PollCall → Bool
  | .call (.release id _) => m.ctx.outstanding.all fun io => io.op.id ≠ id
  | .call (.makeSocketNative _) => false
  | _ => true

theorem late_unreleased (m : Machine PollContext Empty) (l : Label Answers Unit PollCall)
    (h : late m l = true) : PollContext.Unreleased m l := by
  cases l with
  | call k =>
    cases k with
    | release id answer => simpa [late, PollContext.Unreleased] using h
    | makeSocketNative fd => cases h
    | _ => trivial
  | _ => trivial

theorem calls_on_own_socket_reusedAfter :
    ∃ m : Machine PollContext Empty,
      Runs pollBase PollContext.Unreleased (PollContext.initial {}) m ∧
      m.ctx.env.calls = [⟨2, .recvmsg, 0, some 1, some 1⟩, ⟨1, .recvmsg, 0, some 0, some 0⟩] ∧
      m.ctx.OnOwnSockets := by
  obtain ⟨m, hrun, hm⟩ := runs_of_labels pollBase (PollContext.initial {}) late late_unreleased
    reusedAfter (fun m => m.ctx.env.calls)
    [⟨2, .recvmsg, 0, some 1, some 1⟩, ⟨1, .recvmsg, 0, some 0, some 0⟩] (by decide)
  exact ⟨m, hrun, hm, (calls_on_own_socket {}).1 m hrun⟩

/-- A socket is released while a `receive` waits on it; the next socket gets its descriptor and its
id, and its bytes go to that `receive`. -/
def reusedBefore : List (Label Answers Unit PollCall) :=
  [.call (.makeSocket (.ok 3 [])), .start ⟨1, .receive 0 [8]⟩ {} false (), .call (.release 0 none),
    .call (.makeSocket (.ok 3 [])), .call (.runOne 0 [.ok [POLLIN] 0 [.ok 5 []]])]

theorem calls_on_other_socket :
    ¬ ((∀ (os : Os) (m : Machine PollContext Empty),
        Runs pollBase free (PollContext.initial os) m → m.ctx.OnOwnSockets) ∧
      (∀ (os : Os) (m : Machine UringContext Empty),
        Runs uringBase free (UringContext.initial os) m →
        ∀ call ∈ m.ctx.env.calls, call.Faithful)) := by
  rintro ⟨h, -⟩
  obtain ⟨m, hrun, hm⟩ := runs_of_labels pollBase (PollContext.initial {}) any any_free reusedBefore
    (fun m => m.ctx.env.calls) [⟨1, .recvmsg, 0, some 1, some 0⟩] (by decide)
  obtain ⟨s, hsock, hdenoted⟩ := (h {} m hrun).calls _ (hm ▸ List.mem_cons_self)
  cases hsock
  cases hdenoted

end Net29
