import Net29.Basic
import Net29.Lib.Search
import Mathlib.Tactic.Common

/-!
# `basic_buffered`

`basic_buffered` reads a stream through an array of 1024 bytes: `read` appends to `to` what comes
before a sentinel, and goes on receiving until it has found one. The sentinel is a character or a
string literal; it may arrive in pieces.

* `Stream`: a stream whose bytes come in any pieces, and what comes after them;
* `BasicBuffered`: the array with the iterators `it` and `end` into it, in an object that stays
  where it was constructed;
* `consume`, `read`, for a character and for a literal;
* `Splits`: what `read` does, in terms of the bytes the stream still has;
* `read_splits`: it does that however the bytes are cut.
-/

namespace Net29

open Search

namespace DemoStream

/-- How a stream ends. -/
inductive StreamEnd
  | eof
  | error (e : Error)
  | stopped
  deriving DecidableEq, Repr

/-- A stream: the bytes to come, how many more than one of them are there at each call of `receive`,
and how it ends. -/
structure Stream where
  rest : List UInt8
  arrived : List ℕ := []
  ending : StreamEnd := .eof
  deriving DecidableEq, Repr

/-- How `receive` with a buffer of `room` bytes completes. -/
inductive Received (room : ℕ)
  | bytes (got : List UInt8) (fits : got.length ≤ room)
  | error (e : Error)
  | stopped

namespace Stream

/-- What a stream without bytes answers. -/
def atEnd (s : Stream) (room : ℕ) : Received room :=
  match s.ending with
  | .eof => .bytes [] (Nat.zero_le _)
  | .error e => .error e
  | .stopped => .stopped

/-- The number of bytes that are delivered. -/
def ready (s : Stream) (room : ℕ) : ℕ := min room (s.arrived.headD room + 1)

theorem length_take_ready (s : Stream) (room : ℕ) : (s.rest.take (s.ready room)).length ≤ room :=
  (List.length_take_le ..).trans (Nat.min_le_left ..)

/-- `receive`: bytes that are there, as many as fit. -/
def receive (s : Stream) (room : ℕ) : Received room × Stream :=
  if s.rest = [] then (s.atEnd room, s)
  else (.bytes (s.rest.take (s.ready room)) (s.length_take_ready room),
    { s with rest := s.rest.drop (s.ready room), arrived := s.arrived.tail })

theorem rest_of_receive {s s' : Stream} {room : ℕ} {got : List UInt8} {fits : got.length ≤ room}
    (h : s.receive room = (.bytes got fits, s')) : s.rest = got ++ s'.rest := by
  unfold receive at h
  split_ifs at h with hnil
  · obtain ⟨hend, rfl⟩ := Prod.mk.inj h
    unfold atEnd at hend
    split at hend
    · cases hend
      rfl
    · cases hend
    · cases hend
  · cases h
    exact (List.take_append_drop _ _).symm

/-- A stream with bytes delivers at least one of them, if there is room for it. -/
theorem receive_of_ne_nil {s : Stream} (h : s.rest ≠ []) {room : ℕ} (hroom : 0 < room) :
    ∃ got fits s', s.receive room = (.bytes got fits, s') ∧ got ≠ [] ∧ s'.ending = s.ending := by
  refine ⟨_, s.length_take_ready room, _, if_neg h, ?_, rfl⟩
  rw [Ne, List.take_eq_nil_iff, not_or]
  refine ⟨?_, h⟩
  unfold ready
  omega

end Stream

/-- `std::array<char, 1024>`. -/
def SIZE : ℕ := 1024

/-- `basic_buffered`: the array is `before ++ pending ++ after`, `it` and `end` are the bounds of
`pending`. -/
structure BasicBuffered where
  stream : Stream
  before : List UInt8
  pending : List UInt8
  after : List UInt8
  size : before.length + pending.length + after.length = SIZE

/-- What `read` looks for. -/
inductive Sentinel
  | char (c : UInt8)
  | text (s : List UInt8)
  deriving DecidableEq, Repr

namespace Sentinel

def bytes : Sentinel → List UInt8
  | char c => [c]
  | text s => s

/-- `length`. -/
def length (s : Sentinel) : ℕ := s.bytes.length

/-- What `consume` keeps in the array without a sentinel: nothing for a character, and for a literal
its `Size`, which counts the zero at its end. -/
def held : Sentinel → ℕ
  | char _ => 0
  | text s => s.length + 1

theorem length_le_held (s : Sentinel) : s.length ≤ s.held + 1 := by
  cases s with
  | char c => exact Nat.le_refl 1
  | text s =>
    change s.length ≤ s.length + 1 + 1
    omega

end Sentinel

/-- How `read` ends: by returning true, or with the stream. -/
inductive ReadEnd
  | found
  | ended (e : StreamEnd)
  deriving DecidableEq, Repr

namespace BasicBuffered

/-- The constructor: both iterators are at the beginning. -/
def new (stream : Stream) : BasicBuffered where
  stream := stream
  before := []
  pending := []
  after := List.replicate SIZE 0
  size := by simp

/-- `it` moves on by `n`. -/
def advance (b : BasicBuffered) (n : ℕ) : BasicBuffered where
  stream := b.stream
  before := b.before ++ b.pending.take n
  pending := b.pending.drop n
  after := b.after
  size := by
    have h := b.size
    rw [List.length_append, List.length_take, List.length_drop]
    omega

/-- `consume`: what comes before the sentinel is appended to `into`. The result is whether there is
none; then all bytes are consumed but those that are held back. -/
def consume (b : BasicBuffered) (into : List UInt8) (sentinel : Sentinel) :
    Bool × List UInt8 × BasicBuffered :=
  let found := search sentinel.bytes b.pending
  let rc := found == b.pending.length
  let n := if rc then found - min b.pending.length sentinel.held else found
  (rc, into ++ b.pending.take n, b.advance n)

/-- Before `receive`: the pending bytes are moved to the beginning when less than half of the array
is free behind them. -/
def compact (b : BasicBuffered) : BasicBuffered :=
  if b.after.length < SIZE / 2 then
    { stream := b.stream
      before := []
      pending := b.pending
      after := (b.before ++ b.pending ++ b.after).drop b.pending.length
      size := by
        have h := b.size
        simp only [List.length_drop, List.length_append, List.length_nil]
        omega }
  else b

/-- What was received is in the array, and `end` behind it. -/
def fill (b : BasicBuffered) (stream : Stream) (got : List UInt8)
    (fits : got.length ≤ b.after.length) : BasicBuffered where
  stream := stream
  before := b.before
  pending := b.pending ++ got
  after := b.after.drop got.length
  size := by
    have h := b.size
    rw [List.length_append, List.length_drop]
    omega

@[simp] theorem pending_advance (b : BasicBuffered) (n : ℕ) :
    (b.advance n).pending = b.pending.drop n := rfl

@[simp] theorem stream_compact (b : BasicBuffered) : b.compact.stream = b.stream := by
  unfold compact
  split_ifs <;> rfl

@[simp] theorem pending_compact (b : BasicBuffered) : b.compact.pending = b.pending := by
  unfold compact
  split_ifs <;> rfl

/-- There is room behind the pending bytes unless they fill the array. -/
theorem after_compact_pos (b : BasicBuffered) (h : b.pending.length < SIZE) :
    0 < b.compact.after.length := by
  have hsize := b.size
  unfold compact
  split_ifs with hless
  · simp only [List.length_drop, List.length_append]
    omega
  · exact Nat.lt_of_lt_of_le (by decide) (Nat.le_of_not_lt hless)

/-- `read`. -/
def read (b : BasicBuffered) (into : List UInt8) (sentinel : Sentinel) :
    ReadEnd × List UInt8 × BasicBuffered :=
  let r := b.consume into sentinel
  if r.1 then
    let b' := r.2.2.compact
    match _h : b'.stream.receive b'.after.length with
    | (.bytes got fits, stream) =>
        if got = [] then (.ended .eof, r.2.1, { b' with stream := stream })
        else (b'.fill stream got fits).read r.2.1 sentinel
    | (.error e, stream) => (.ended (.error e), r.2.1, { b' with stream := stream })
    | (.stopped, stream) => (.ended .stopped, r.2.1, { b' with stream := stream })
  else (.found, r.2.1, r.2.2.advance sentinel.length)
termination_by b.stream.rest.length
decreasing_by
  next hgot =>
    have hrest := Stream.rest_of_receive _h
    have hpos := List.length_pos_iff.2 hgot
    rw [stream_compact] at hrest
    change stream.rest.length < b.stream.rest.length
    change b.stream.rest = got ++ stream.rest at hrest
    rw [hrest, List.length_append]
    omega

/-- The bytes that were not read: those in the array and those to come. -/
def content (b : BasicBuffered) : List UInt8 := b.pending ++ b.stream.rest

/-- What `read` does with the bytes that were not read: they are split at the first sentinel, or all
but the last `held` are consumed and the stream is at its end. -/
inductive Splits (b : BasicBuffered) (into : List UInt8) (sentinel : Sentinel) :
    ReadEnd × List UInt8 × BasicBuffered → Prop
  | found (b' : BasicBuffered) (hfound : search sentinel.bytes b.content < b.content.length)
      (hcontent : b'.content =
        b.content.drop (search sentinel.bytes b.content + sentinel.length))
      (hending : b'.stream.ending = b.stream.ending) :
      Splits b into sentinel
        (.found, into ++ b.content.take (search sentinel.bytes b.content), b')
  | ended (b' : BasicBuffered) (hnone : search sentinel.bytes b.content = b.content.length)
      (hpending : b'.pending = b.content.drop (b.content.length - sentinel.held))
      (hrest : b'.stream.rest = []) (hending : b'.stream.ending = b.stream.ending) :
      Splits b into sentinel
        (.ended b.stream.ending, into ++ b.content.take (b.content.length - sentinel.held), b')

section Read

variable {b : BasicBuffered} {into : List UInt8} {sentinel : Sentinel}

theorem consume_of_found (h : search sentinel.bytes b.pending < b.pending.length) :
    b.consume into sentinel =
      (false, into ++ b.pending.take (search sentinel.bytes b.pending),
        b.advance (search sentinel.bytes b.pending)) := by
  have hne : (search sentinel.bytes b.pending == b.pending.length) = false :=
    beq_false_of_ne (Nat.ne_of_lt h)
  simp [consume, hne]

theorem consume_of_none (h : search sentinel.bytes b.pending = b.pending.length) :
    b.consume into sentinel =
      (true, into ++ b.pending.take (b.pending.length - sentinel.held),
        b.advance (b.pending.length - sentinel.held)) := by
  have heq : b.pending.length - min b.pending.length sentinel.held =
      b.pending.length - sentinel.held := by omega
  simp [consume, h, heq]

/-- The sentinel is in the array. -/
theorem splits_of_found (hs : sentinel.bytes ≠ [])
    (h : search sentinel.bytes b.pending < b.pending.length) :
    Splits b into sentinel (b.read into sentinel) := by
  have hfirst : search sentinel.bytes b.content = search sentinel.bytes b.pending :=
    search_append_of_found h b.stream.rest hs
  have hlen : search sentinel.bytes b.pending + sentinel.length ≤ b.pending.length :=
    (occurs_search h).length_le hs
  have hle : search sentinel.bytes b.pending ≤ b.pending.length := Nat.le_of_lt h
  have hread : b.read into sentinel =
      (.found, into ++ b.content.take (search sentinel.bytes b.content),
        (b.advance (search sentinel.bytes b.pending)).advance sentinel.length) := by
    rw [read, consume_of_found h, hfirst, content, List.take_append_of_le_length hle]
    rfl
  rw [hread]
  refine .found _ ?_ ?_ rfl
  · rw [hfirst, content, List.length_append]
    omega
  · rw [hfirst, content, content, List.drop_append_of_le_length hlen, ← List.drop_drop]
    rfl

/-- The array before `receive`, when the sentinel is not in it. -/
def waiting (b : BasicBuffered) (sentinel : Sentinel) : BasicBuffered :=
  (b.advance (b.pending.length - sentinel.held)).compact

/-- Bytes are received, and `read` goes round its loop. -/
theorem read_of_received (h : search sentinel.bytes b.pending = b.pending.length) {stream : Stream}
    {got : List UInt8} {fits : got.length ≤ (b.waiting sentinel).after.length}
    (hr : (b.waiting sentinel).stream.receive (b.waiting sentinel).after.length =
      (.bytes got fits, stream)) (hgot : got ≠ []) :
    b.read into sentinel =
      ((b.waiting sentinel).fill stream got fits).read
        (into ++ b.pending.take (b.pending.length - sentinel.held)) sentinel := by
  rw [read, consume_of_none h]
  dsimp only
  rw [if_pos rfl]
  split
  · next heq =>
    cases hr.symm.trans heq
    exact if_neg hgot
  · next heq => cases hr.symm.trans heq
  · next heq => cases hr.symm.trans heq

/-- The stream is at its end. -/
theorem read_of_end (h : search sentinel.bytes b.pending = b.pending.length)
    (hrest : b.stream.rest = []) :
    b.read into sentinel =
      (.ended b.stream.ending, into ++ b.pending.take (b.pending.length - sentinel.held),
        b.waiting sentinel) := by
  have hstream : (b.waiting sentinel).stream = b.stream := stream_compact _
  have hr : ∀ room, (b.waiting sentinel).stream.receive room =
      ((b.waiting sentinel).stream.atEnd room, (b.waiting sentinel).stream) := by
    intro room
    exact if_pos (by rw [hstream, hrest])
  rw [read, consume_of_none h]
  dsimp only
  rw [if_pos rfl, ← hstream]
  split
  · next heq =>
    obtain ⟨hend, rfl⟩ := Prod.mk.inj ((hr _).symm.trans heq)
    unfold Stream.atEnd at hend
    split at hend
    · next he =>
      cases hend
      rw [if_pos rfl, he]
      rfl
    · cases hend
    · cases hend
  · next heq =>
    obtain ⟨hend, rfl⟩ := Prod.mk.inj ((hr _).symm.trans heq)
    unfold Stream.atEnd at hend
    split at hend
    · cases hend
    · next he =>
      cases hend
      rw [he]
      rfl
    · cases hend
  · next heq =>
    obtain ⟨hend, rfl⟩ := Prod.mk.inj ((hr _).symm.trans heq)
    unfold Stream.atEnd at hend
    split at hend
    · cases hend
    · cases hend
    · next he =>
      rw [he]
      rfl

/-- What remains to be done after a round of the loop. -/
theorem Splits.resume {b₁ : BasicBuffered} {x : ReadEnd × List UInt8 × BasicBuffered}
    (hcontent : b₁.content = b.content.drop (b.pending.length - sentinel.held))
    (hending : b₁.stream.ending = b.stream.ending)
    (hsearch : search sentinel.bytes b.content =
      b.pending.length - sentinel.held + search sentinel.bytes b₁.content)
    (h : Splits b₁ (into ++ b.pending.take (b.pending.length - sentinel.held)) sentinel x) :
    Splits b into sentinel x := by
  have hlen : b.content.length = b.pending.length + b.stream.rest.length := List.length_append
  have hlen₁ := congrArg List.length hcontent
  rw [List.length_drop] at hlen₁
  have htake : b.pending.take (b.pending.length - sentinel.held) =
      b.content.take (b.pending.length - sentinel.held) :=
    (List.take_append_of_le_length (Nat.sub_le ..)).symm
  rw [htake] at h
  cases h with
  | found b' hfound hcontent' hending' =>
    rw [List.append_assoc, hcontent, ← List.take_add, ← hcontent, ← hsearch]
    refine .found b' (by omega) ?_ (hending'.trans hending)
    calc b'.content
        = (b.content.drop (b.pending.length - sentinel.held)).drop
            (search sentinel.bytes b₁.content + sentinel.length) := by rw [hcontent', ← hcontent]
      _ = b.content.drop (b.pending.length - sentinel.held +
            (search sentinel.bytes b₁.content + sentinel.length)) := List.drop_drop
      _ = b.content.drop (search sentinel.bytes b.content + sentinel.length) := by
          rw [hsearch, Nat.add_assoc]
  | ended b' hnone hpending hrest hending' =>
    have htotal : b.pending.length - sentinel.held + (b₁.content.length - sentinel.held) =
        b.content.length - sentinel.held := by omega
    rw [List.append_assoc, hending, hcontent, ← List.take_add, ← hcontent, htotal]
    refine .ended b' (by omega) ?_ hrest (hending'.trans hending)
    rw [hpending, hcontent, List.drop_drop, ← hcontent, htotal]

/-- **`read` finds the sentinel however the bytes are cut.** Without a sentinel that is too long for
the array, it splits the bytes that were not read at the first sentinel; if there is none it ends
with the stream, and what it keeps back stays in the array. -/
theorem read_splits (b : BasicBuffered) (into : List UInt8) (sentinel : Sentinel)
    (hs : sentinel.bytes ≠ []) (hheld : sentinel.held < SIZE) :
    Splits b into sentinel (b.read into sentinel) := by
  generalize hn : b.stream.rest.length = n
  induction n using Nat.strong_induction_on generalizing b into with
  | _ n ih =>
    by_cases hfound : search sentinel.bytes b.pending < b.pending.length
    · exact splits_of_found hs hfound
    have hnone : search sentinel.bytes b.pending = b.pending.length :=
      Nat.le_antisymm (search_le _ _) (Nat.le_of_not_lt hfound)
    have hstream : (b.waiting sentinel).stream = b.stream := stream_compact _
    have hpending : (b.waiting sentinel).pending =
        b.pending.drop (b.pending.length - sentinel.held) := pending_compact _
    by_cases hrest : b.stream.rest = []
    · have hcontent : b.content = b.pending := by rw [content, hrest, List.append_nil]
      rw [read_of_end hnone hrest, ← hcontent]
      exact .ended _ (hcontent.symm ▸ hnone) (hcontent.symm ▸ hpending) (hstream ▸ hrest)
        (by rw [hstream])
    · -- there is room for at least one byte
      have hroom : 0 < (b.waiting sentinel).after.length := by
        refine after_compact_pos _ ?_
        rw [pending_advance, List.length_drop]
        omega
      obtain ⟨got, fits, stream, hr, hgot, hend⟩ :=
        Stream.receive_of_ne_nil (hstream.symm ▸ hrest) hroom
      have hsplit := Stream.rest_of_receive hr
      rw [hstream] at hsplit hend
      rw [read_of_received hnone hr hgot]
      have hcontent : ((b.waiting sentinel).fill stream got fits).content =
          b.content.drop (b.pending.length - sentinel.held) := by
        rw [content, content, hsplit, List.drop_append_of_le_length (Nat.sub_le ..), ← hpending,
          ← List.append_assoc]
        rfl
      have hshorter : stream.rest.length < n := by
        have hpos := List.length_pos_iff.2 hgot
        rw [← hn, hsplit, List.length_append]
        omega
      refine Splits.resume hcontent hend ?_ (ih _ hshorter _ _ rfl)
      -- the sentinel cannot begin before the bytes that were kept back
      rw [hcontent, content, List.drop_append_of_le_length (Nat.sub_le ..)]
      have hheld' := sentinel.length_le_held
      by_cases hshort : b.pending.length ≤ sentinel.held
      · rw [Nat.sub_eq_zero_of_le hshort, List.drop_zero, Nat.zero_add]
      · refine search_drop_append hnone hs ?_ _
        change _ + sentinel.length ≤ _
        omega

/-- A line that arrives one byte at a time. -/
theorem read_splits_bytewise : ∃ b' : BasicBuffered,
    (new { rest := [97, 98, 13, 10, 99], arrived := [0, 0, 0, 0, 0] }).read [] (.text [13, 10]) =
      (.found, [97, 98], b') ∧ b'.content = [99] := by
  have hsplit := read_splits (new { rest := [97, 98, 13, 10, 99], arrived := [0, 0, 0, 0, 0] }) []
    (.text [13, 10]) (by decide) (by decide)
  generalize BasicBuffered.read _ _ _ = x at hsplit ⊢
  cases hsplit with
  | found b' _ hcontent => exact ⟨b', rfl, hcontent⟩
  | ended _ hnone => exact absurd hnone (by decide)

end Read

end BasicBuffered

end DemoStream

end Net29
