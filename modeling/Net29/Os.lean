import Net29.Basic
import Mathlib.Data.List.Basic
import Mathlib.Tactic.Common

/-!
# Descriptors and system calls

The part of the operating system that the contexts depend on: which socket a descriptor denotes.
A descriptor that is closed may be handed out again, so the sockets themselves are numbered in the
order of their creation (`Sock`).

`Env` also records, for the statements only, the calls made on behalf of operations (`calls`) and
the socket an operation's id denoted when the operation was submitted (`denoted`).
-/

namespace Net29

/-- The open descriptors with the sockets they denote, and the number of sockets created. -/
structure Os where
  fds : List (Fd × Sock) := []
  next : Sock := 0
  deriving DecidableEq, Repr

/-- The socket an open descriptor denotes. -/
def Os.denotes (os : Os) (fd : Fd) : Option Sock := os.fds.lookup fd

/-- The open descriptors. -/
def Os.descriptors (os : Os) : List Fd := os.fds.map Prod.fst

theorem Os.mem_descriptors {os : Os} {fd : Fd} : fd ∈ os.descriptors ↔ (os.denotes fd).isSome := by
  rw [← not_iff_not, Option.not_isSome_iff_eq_none, Os.denotes, List.lookup_eq_none_iff]
  simp only [Os.descriptors, List.mem_map, not_exists, not_and, bne_iff_ne]
  exact forall₂_congr fun p _ => ne_comm

/-- A new socket under the descriptor `fd`: one that is not open, in the range of `int`. -/
def Os.open (os : Os) (fd : Fd) : Exec Os :=
  if fd < 2 ^ 31 ∧ os.denotes fd = none then .ok ⟨(fd, os.next) :: os.fds, os.next + 1⟩
  else .error .blocked

/-- `::close`: the descriptor denotes nothing afterwards. -/
def Os.close (os : Os) (fd : Fd) : Os := { os with fds := os.fds.filter fun p => p.1 ≠ fd }

theorem Os.open_eq_ok {os os' : Os} {fd : Fd} (h : os.open fd = .ok os') :
    fd < 2 ^ 31 ∧ os.denotes fd = none ∧ os' = ⟨(fd, os.next) :: os.fds, os.next + 1⟩ := by
  unfold Os.open at h
  split at h
  · next hfd => cases h; exact ⟨hfd.1, hfd.2, rfl⟩
  · cases h

theorem Os.denotes_open_self {os os' : Os} {fd : Fd} (h : os.open fd = .ok os') :
    os'.denotes fd = some os.next := by
  obtain ⟨-, -, rfl⟩ := Os.open_eq_ok h
  simp [Os.denotes]

theorem Os.denotes_open_of_ne {os os' : Os} {fd fd' : Fd} (h : os.open fd = .ok os')
    (hne : fd' ≠ fd) : os'.denotes fd' = os.denotes fd' := by
  obtain ⟨-, -, rfl⟩ := Os.open_eq_ok h
  have hb : (fd' == fd) = false := by simpa using hne
  simp [Os.denotes, List.lookup_cons, hb]

theorem Os.denotes_open {os os' : Os} {fd fd' : Fd} {s : Sock} (h : os.open fd = .ok os')
    (hs : os.denotes fd' = some s) : os'.denotes fd' = some s := by
  have hne : fd' ≠ fd := by
    rintro rfl
    rw [(Os.open_eq_ok h).2.1] at hs
    cases hs
  rw [Os.denotes_open_of_ne h hne, hs]

theorem Os.denotes_close_of_ne {os : Os} {fd fd' : Fd} (hne : fd' ≠ fd) :
    (os.close fd).denotes fd' = os.denotes fd' := by
  unfold Os.denotes Os.close
  induction os.fds with
  | nil => rfl
  | cons p ps ih =>
    obtain ⟨a, s⟩ := p
    by_cases ha : a = fd
    · have hb : (fd' == a) = false := by simpa [ha] using hne
      simpa [List.filter_cons, ha, List.lookup_cons, ha ▸ hb] using ih
    · simp only [List.filter_cons, ne_eq, ha, not_false_eq_true, decide_true, if_true,
        List.lookup_cons]
      rw [ih]

theorem Os.denotes_close_self (os : Os) (fd : Fd) : (os.close fd).denotes fd = none := by
  unfold Os.denotes Os.close
  rw [List.lookup_eq_none_iff]
  intro p hp
  simpa using (of_decide_eq_true (List.mem_filter.1 hp).2).symm

/-- A descriptor that denotes something after another one was closed did so before. -/
theorem Os.denotes_of_close {os : Os} {fd fd' : Fd} {s : Sock}
    (h : (os.close fd).denotes fd' = some s) : fd' ≠ fd ∧ os.denotes fd' = some s := by
  have hne : fd' ≠ fd := by
    rintro rfl
    rw [Os.denotes_close_self] at h
    cases h
  exact ⟨hne, (Os.denotes_close_of_ne hne).symm.trans h⟩

/-- The sockets are numbered in the order of their creation, and each has one descriptor. -/
structure Os.Numbered (os : Os) : Prop where
  lt : ∀ {fd : Fd} {s : Sock}, os.denotes fd = some s → s < os.next
  unique : ∀ {fd fd' : Fd} {s : Sock}, os.denotes fd = some s → os.denotes fd' = some s → fd = fd'

theorem Os.numbered_empty : Os.Numbered {} := ⟨fun h => (by cases h), fun h => (by cases h)⟩

/-- After a descriptor was opened, another one denotes what it denoted before. -/
theorem Os.denotes_of_open {os os' : Os} {fd fd' : Fd} {s : Sock} (h : os.open fd = .ok os')
    (hs : os'.denotes fd' = some s) : fd' = fd ∧ s = os.next ∨ os.denotes fd' = some s := by
  by_cases hfd : fd' = fd
  · subst hfd
    rw [Os.denotes_open_self h] at hs
    exact .inl ⟨rfl, (Option.some.inj hs).symm⟩
  · exact .inr ((Os.denotes_open_of_ne h hfd).symm.trans hs)

theorem Os.Numbered.opened {os os' : Os} {fd : Fd} (hos : os.Numbered) (h : os.open fd = .ok os') :
    os'.Numbered := by
  have hnext : os'.next = os.next + 1 := by
    obtain ⟨-, -, rfl⟩ := Os.open_eq_ok h
    rfl
  refine ⟨fun {fd' s} hs => ?_, fun {a b s} ha hb => ?_⟩
  · rcases Os.denotes_of_open h hs with ⟨-, rfl⟩ | hs
    · rw [hnext]
      exact Nat.lt_succ_self _
    · rw [hnext]
      exact Nat.lt_succ_of_lt (hos.lt hs)
  · rcases Os.denotes_of_open h ha with ⟨rfl, rfl⟩ | ha <;>
      rcases Os.denotes_of_open h hb with ⟨rfl, hb⟩ | hb
    · rfl
    · exact absurd (hos.lt hb) (Nat.lt_irrefl _)
    · exact absurd (hos.lt (hb ▸ ha)) (Nat.lt_irrefl _)
    · exact hos.unique ha hb

theorem Os.Numbered.close {os : Os} (hos : os.Numbered) (fd : Fd) : (os.close fd).Numbered where
  lt h := hos.lt (Os.denotes_of_close h).2
  unique h h' := hos.unique (Os.denotes_of_close h).2 (Os.denotes_of_close h').2

/-- The system calls made on behalf of operations. -/
inductive Syscall
  | fcntl
  | connect
  | getsockopt
  | accept
  | recvmsg
  | sendmsg
  deriving DecidableEq, Repr

/-- What a system call returns: a non-negative result (with the address `accept` reports), or −1
with `errno` set. -/
inductive SysAnswer
  | ok (n : ℕ) (peer : List UInt8)
  | err (e : Errno)
  deriving DecidableEq, Repr

/-- The system's answers at a submission: a clock reading and results of system calls. -/
structure Answers where
  now : Time := 0
  sys : List SysAnswer := []
  deriving DecidableEq, Repr

/-- A call that is repeated while it is interrupted: how often it is made, and its last answer. -/
def retry : List SysAnswer → Option (ℕ × SysAnswer)
  | [] => none
  | .err e :: as =>
    if e = Errno.EINTR then (retry as).map fun p => (p.1 + 1, p.2) else some (1, .err e)
  | .ok n peer :: _ => some (1, .ok n peer)

/-- A call made for an operation: with which address length (if it takes an address), the socket
that its descriptor denoted when the call was made, and the one that the operation's id denoted when
it was submitted. -/
structure OsCall where
  op : OpId
  call : Syscall
  len : ℕ
  sock : Option Sock
  denoted : Option Sock
  deriving DecidableEq, Repr

/-- The system as seen from a context, with the records the statements are about. -/
structure Env where
  os : Os := {}
  calls : List OsCall := []
  denoted : OpId → Option Sock := fun _ => none

/-- `n` calls for `op` on `fd`, the first attempt and its repetitions. -/
def Env.logCalls (e : Env) (n : ℕ) (op : OpId) (call : Syscall) (fd : Fd) (len : ℕ) : Env :=
  { e with calls := List.replicate n ⟨op, call, len, e.os.denotes fd, e.denoted op⟩ ++ e.calls }

/-- At submission of `op`: the descriptor of its id, if it has one. -/
def Env.submitted (e : Env) (op : OpId) (fd : Option Fd) : Env :=
  { e with denoted := Function.update e.denoted op (fd.bind e.os.denotes) }

@[simp] theorem Env.logCalls_os (e : Env) (n : ℕ) (op : OpId) (call : Syscall) (fd : Fd) (len : ℕ) :
    (e.logCalls n op call fd len).os = e.os := rfl

@[simp] theorem Env.logCalls_denoted (e : Env) (n : ℕ) (op : OpId) (call : Syscall) (fd : Fd)
    (len : ℕ) : (e.logCalls n op call fd len).denoted = e.denoted := rfl

@[simp] theorem Env.submitted_os (e : Env) (op : OpId) (fd : Option Fd) :
    (e.submitted op fd).os = e.os := rfl

@[simp] theorem Env.submitted_calls (e : Env) (op : OpId) (fd : Option Fd) :
    (e.submitted op fd).calls = e.calls := rfl

end Net29
