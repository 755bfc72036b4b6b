import Net29.Demo.Updates

/-!
# `memory`

A `memory` object whose function delivers a text as the one of memory_stream.cpp does: two bytes at
a time, until none are taken.

* `Sends`: what that function does, and that the receives are started one after the other;
* `memory_is_stream`: the receives get what those of a `Stream` with the text get;
* `stays_until_delivered`: the function stays until then.
-/

namespace Net29

open Transition

namespace DemoStream

/-- What the function of memory_stream.cpp delivers at most at once. -/
def PIECE : ℕ := 2

namespace Stream

/-- The text in pieces, as far as it is left. -/
def pieces (rest : List UInt8) (k : ℕ) : Stream :=
  { rest := rest, arrived := List.replicate k (PIECE - 1) }

/-- A stream whose bytes are the text. -/
def ofText (text : List UInt8) : Stream := pieces text text.length

/-- Receives one after the other, each with the size of its buffer and what it gets. -/
inductive Receives : Stream → List (ℕ × List UInt8) → Stream → Prop
  | nil (s : Stream) : Receives s [] s
  | snoc {s s' s'' : Stream} {l : List (ℕ × List UInt8)} {room : ℕ} {got : List UInt8}
      {fits : got.length ≤ room} (h : Receives s l s')
      (hgot : s'.receive room = (.bytes got fits, s'')) : Receives s (l ++ [(room, got)]) s''

variable {rest : List UInt8} {k room : ℕ}

theorem take_piece (rest : List UInt8) (room : ℕ) :
    (rest.take PIECE).take (min (rest.take PIECE).length room) = rest.take (min room PIECE) := by
  rw [List.take_take, List.length_take, List.take_eq_take_iff]
  omega

theorem drop_length_take (n : ℕ) (rest : List UInt8) :
    rest.drop (rest.take n).length = rest.drop n := by
  rw [List.length_take]
  rcases Nat.le_total n rest.length with h | h
  · rw [Nat.min_eq_left h]
  · rw [Nat.min_eq_right h, List.drop_length, List.drop_eq_nil_of_le h]

/-- What `add_receive_data` copies of a piece is what the stream delivers. -/
theorem receive_pieces (hroom : 0 < room) (hk : rest.length ≤ k) {got : List UInt8}
    (hgot : got = (rest.take PIECE).take (min (rest.take PIECE).length room)) :
    ∃ fits k', (pieces rest k).receive room =
      (.bytes got fits, pieces (rest.drop got.length) k') ∧ (rest.drop got.length).length ≤ k' := by
  rw [take_piece] at hgot
  subst hgot
  rw [drop_length_take]
  by_cases hnil : rest = []
  · subst hnil
    exact ⟨by simp, k, by simp only [List.take_nil, List.drop_nil]; rfl, by simp⟩
  · have hpos : 0 < rest.length := List.length_pos_of_ne_nil hnil
    have hroom' : 0 < min room PIECE := Nat.lt_min.2 ⟨hroom, by decide⟩
    obtain ⟨k, rfl⟩ : ∃ k', k = k' + 1 := ⟨k - 1, by omega⟩
    refine ⟨length_take_ready (pieces rest (k + 1)) room, k, if_neg hnil, ?_⟩
    rw [List.length_drop]
    omega

end Stream

namespace AsyncUpdates

variable {N : Type} [DecidableEq N]

/-- The receives of the stream `name`, the first one first. -/
def startedOn (name : N) (s : AsyncUpdates N) : List MemoryState :=
  ((s.started.filter fun x => x.1 = name).map Prod.snd).reverse

/-- Those that were completed, with what they got. -/
def receivedOn (name : N) (s : AsyncUpdates N) : List (MemoryState × List UInt8) :=
  ((s.received.filter fun x => x.1 = name).map Prod.snd).reverse

/-- What is left of the text. -/
def rest (text : List UInt8) (name : N) (s : AsyncUpdates N) : List UInt8 :=
  text.drop ((s.receivedOn name).flatMap Prod.snd).length

/-- The last receive has got nothing. -/
def AtEnd (name : N) (s : AsyncUpdates N) : Prop :=
  (s.receivedOn name).getLast?.map Prod.snd = some []

instance (name : N) (s : AsyncUpdates N) : Decidable (AtEnd name s) :=
  inferInstanceAs (Decidable (_ = _))

/-- The function of the stream `name` delivers the text, and returns true when nothing was taken;
the receives are started one after the other, and each has a buffer. -/
def Sends (text : List UInt8) (name : N) (s : AsyncUpdates N) : UpdatesLabel N → Prop
  | .start name' stream => name' = name → 0 < stream.room ∧ s.ctx.streams name = none
  | .deliver data => ∀ x ∈ s.calling, x.1.name = name → data = (s.rest text name).take PIECE
  | .ret finished => ∀ x ∈ s.calling, x.1.name = name →
      x.2 = none ∧ (finished = true ↔ s.AtEnd name)
  | .add _ | .next => True

instance (text : List UInt8) (name : N) (s : AsyncUpdates N) (l : UpdatesLabel N) :
    Decidable (Sends text name s l) :=
  match l with
  | .start _ _ => inferInstanceAs (Decidable (_ → _))
  | .deliver _ | .ret _ => inferInstanceAs (Decidable (∀ x ∈ s.calling, _))
  | .add _ | .next => inferInstanceAs (Decidable True)

variable {s s' : AsyncUpdates N} {l : UpdatesLabel N} {name name' : N} {text : List UInt8}
  {u : Update N} {stream : MemoryState} {got : List UInt8}

theorem startedOn_of_cons (h : s'.started = (name, stream) :: s.started) :
    s'.startedOn name = s.startedOn name ++ [stream] := by
  simp [startedOn, h]

theorem startedOn_of_cons_ne (h : s'.started = (name', stream) :: s.started) (hne : name' ≠ name) :
    s'.startedOn name = s.startedOn name := by
  simp [startedOn, h, hne]

theorem receivedOn_of_cons (h : s'.received = (name, stream, got) :: s.received) :
    s'.receivedOn name = s.receivedOn name ++ [(stream, got)] := by
  simp [receivedOn, h]

theorem receivedOn_of_cons_ne (h : s'.received = (name', stream, got) :: s.received)
    (hne : name' ≠ name) : s'.receivedOn name = s.receivedOn name := by
  simp [receivedOn, h, hne]

theorem atEnd_of_cons (h : s'.received = (name, stream, got) :: s.received) :
    s'.AtEnd name ↔ got = [] := by
  rw [AtEnd, receivedOn_of_cons h, List.getLast?_concat]
  simp

theorem rest_of_cons (text : List UInt8) (h : s'.received = (name, stream, got) :: s.received) :
    s'.rest text name = (s.rest text name).drop got.length := by
  rw [rest, rest, receivedOn_of_cons h, List.flatMap_append, List.length_append, ← List.drop_drop]
  simp

/-- What the receives of the stream `name` got is what a `Stream` delivers; the last one that was
started may wait. -/
structure Fed (text : List UInt8) (name : N) (s : AsyncUpdates N) : Prop where
  stream : ∃ k, Stream.Receives (Stream.ofText text)
    ((s.receivedOn name).map fun x => (x.1.room, x.2)) (Stream.pieces (s.rest text name) k) ∧
      (s.rest text name).length ≤ k
  started : s.startedOn name =
    (s.receivedOn name).map Prod.fst ++ (s.ctx.streams name).toList
  room : ∀ stream, s.ctx.streams name = some stream → 0 < stream.room
  called : ∀ u stream, s.calling = some (u, some stream) → u.name = name →
    s.ctx.streams name = some stream
  ended : s.AtEnd name → s.rest text name = []

theorem fed_initial (text : List UInt8) (name : N) : Fed text name {} where
  stream := ⟨text.length, .nil _, Nat.le_refl _⟩
  started := rfl
  room _ h := by cases h
  called _ _ h := by cases h
  ended h := by cases h

/-- A step that neither starts nor completes a receive of this stream. -/
theorem Fed.frame (h : Fed text name s) (hstarted : s'.startedOn name = s.startedOn name)
    (hreceived : s'.receivedOn name = s.receivedOn name)
    (hstreams : s'.ctx.streams name = s.ctx.streams name)
    (hcalled : ∀ u stream, s'.calling = some (u, some stream) → u.name = name →
      s.ctx.streams name = some stream) : Fed text name s' := by
  have hrest : s'.rest text name = s.rest text name := by rw [rest, rest, hreceived]
  refine ⟨?_, ?_, ?_, ?_, ?_⟩
  · rw [hreceived, hrest]
    exact h.stream
  · rw [hstarted, hreceived, hstreams]
    exact h.started
  · rw [hstreams]
    exact h.room
  · rw [hstreams]
    exact hcalled
  · rw [AtEnd, hreceived, hrest]
    exact h.ended

omit [DecidableEq N] in
theorem streams_turn (c : Context N) (finished : Bool) : (c.turn finished).streams = c.streams := by
  unfold Context.turn
  split_ifs <;> rfl

theorem Fed.taken (h : Fed text name s) (u : Update N) (finished : Bool) :
    Fed text name (s.taken u finished) :=
  h.frame rfl rfl (congrFun (streams_turn s.ctx finished) name) fun _ _ h => by cases h

theorem Fed.next (h : Fed text name s) : Fed text name s.next := by
  unfold AsyncUpdates.next
  split
  · exact h.frame rfl rfl rfl h.called
  · split
    · exact h.taken _ true
    · next u _ stream hstream =>
      refine h.frame rfl rfl rfl ?_
      rintro _ _ ⟨⟩ rfl
      exact hstream

/-- A receive is started. -/
theorem Fed.start (h : Fed text name s) (hroom : 0 < stream.room)
    (hnone : s.ctx.streams name = none) :
    Fed text name { s with
      ctx := s.ctx.start name stream
      started := (name, stream) :: s.started } := by
  have hsome : (s.ctx.start name stream).streams name = some stream := Function.update_self ..
  refine ⟨h.stream, ?_, ?_, fun u stream' hcalling hname => ?_, h.ended⟩
  · rw [startedOn_of_cons rfl, h.started, hnone, hsome]
    simp [receivedOn]
  · intro stream' hstream'
    cases hsome.symm.trans hstream'
    exact hroom
  · have hwas := h.called u stream' hcalling hname
    rw [hnone] at hwas
    cases hwas

/-- A piece is delivered. -/
theorem Fed.deliver (h : Fed text name s) (hcalling : s.calling = some (u, some stream))
    (hname : u.name = name) (hs' : s'.received = (name, stream, got) :: s.received)
    (hgot : got = ((s.rest text name).take PIECE).take
      (min ((s.rest text name).take PIECE).length stream.room))
    (hstarted : s'.started = s.started) (hstreams : s'.ctx.streams name = none)
    (hcalling' : s'.calling = some (u, none)) : Fed text name s' := by
  have hwas := h.called u stream hcalling hname
  have hroom := h.room stream hwas
  obtain ⟨k, hstream, hk⟩ := h.stream
  obtain ⟨fits, k', hreceive, hk'⟩ := Stream.receive_pieces hroom hk hgot
  rw [← rest_of_cons text hs'] at hreceive hk'
  refine ⟨⟨k', ?_, hk'⟩, ?_, fun _ h => ?_, fun _ _ h => ?_, fun hend => ?_⟩
  · rw [receivedOn_of_cons hs', List.map_append]
    exact hstream.snoc hreceive
  · have hall : s'.startedOn name = s.startedOn name := by rw [startedOn, hstarted, startedOn]
    rw [receivedOn_of_cons hs', hstreams, hall, h.started, hwas, List.map_append]
    exact (List.append_nil _).symm
  · rw [hstreams] at h
    cases h
  · rw [hcalling'] at h
    cases h
  · rw [atEnd_of_cons hs'] at hend
    subst hend
    rw [Stream.take_piece, eq_comm, List.take_eq_nil_iff] at hgot
    have hpos : 0 < min stream.room PIECE := Nat.lt_min.2 ⟨hroom, by decide⟩
    rw [rest_of_cons text hs', hgot.resolve_left hpos.ne', List.drop_nil]

theorem fed_of_step (h : Fed text name s) (hok : Sends text name s l) (hstep : s.step l = some s') :
    Fed text name s' := by
  cases (stepped_of_step hstep).2 with
  | add => exact h.frame rfl rfl rfl h.called
  | @start name' stream =>
    by_cases hname : name' = name
    · subst hname
      obtain ⟨hroom, hnone⟩ := hok rfl
      exact h.start hroom hnone
    · exact h.frame (startedOn_of_cons_ne rfl hname) rfl (Function.update_of_ne (Ne.symm hname) _ _)
        h.called
  | next => exact h.next
  | @deliver data u stream hcalling =>
    by_cases hname : u.name = name
    · have hdata := hok (u, some stream) hcalling hname
      subst hname
      refine h.deliver hcalling rfl rfl ?_ rfl (Function.update_self ..) rfl
      rw [← hdata]
      rfl
    · exact h.frame rfl (receivedOn_of_cons_ne rfl hname)
        (Function.update_of_ne (Ne.symm hname) _ _) fun _ _ h => by cases h
  | ret => exact h.taken _ _

/-- **A `memory` stream is a stream of its text**, in pieces of two bytes: in every run the receives
are completed in the order in which they were started, all but one that waits, and with what the
same receives of a `Stream` get. If none is started twice, none is completed twice, and one that
waits was not completed. -/
theorem memory_is_stream (h : Reaches step (Sends text name) {} s) :
    (∃ rest, Stream.Receives (Stream.ofText text)
      ((s.receivedOn name).map fun x => (x.1.room, x.2)) rest ∧ rest.rest = s.rest text name) ∧
    s.startedOn name = (s.receivedOn name).map Prod.fst ++ (s.ctx.streams name).toList ∧
    (((s.startedOn name).map MemoryState.op).Nodup →
      ((s.receivedOn name).map fun x => x.1.op).Nodup ∧
      ∀ stream ∈ s.ctx.streams name, stream.op ∉ (s.receivedOn name).map fun x => x.1.op) := by
  have hfed : Fed text name s :=
    h.invariant (fed_initial text name) fun _ _ _ ht hok hstep => fed_of_step ht hok hstep
  obtain ⟨k, hstream, -⟩ := hfed.stream
  refine ⟨⟨_, hstream, rfl⟩, hfed.started, fun hnodup => ?_⟩
  rw [hfed.started, List.map_append, List.map_map] at hnodup
  obtain ⟨honce, -, hdisjoint⟩ := List.nodup_append.1 hnodup
  refine ⟨honce, fun stream hstream hmem => ?_⟩
  exact hdisjoint _ hmem _ (List.mem_map_of_mem (Option.mem_toList.2 hstream)) rfl

/-- Three bytes; the receiver goes on with the next receive when it is called. -/
def threeBytes : List (UpdatesLabel ℕ) :=
  [.start 0 ⟨1, 4⟩, .next, .deliver [1, 2], .start 0 ⟨2, 4⟩, .ret false, .next, .deliver [3],
    .start 0 ⟨3, 4⟩, .ret false]

theorem memory_is_stream_threeBytes : ∃ s : AsyncUpdates ℕ,
    run step {} (.add 0 :: threeBytes) = some s ∧
    s.startedOn 0 = [⟨1, 4⟩, ⟨2, 4⟩] ++ [⟨3, 4⟩] ∧
    3 ∉ (s.receivedOn 0).map (fun x => x.1.op) ∧
    ∃ rest, Stream.Receives (Stream.ofText [1, 2, 3]) [(4, [1, 2]), (4, [3])] rest := by
  obtain ⟨s, hrun, hsends, hreceived, hpending⟩ : ∃ s : AsyncUpdates ℕ,
      run step {} (.add 0 :: threeBytes) = some s ∧
      run (checked step fun s l => decide (Sends [1, 2, 3] 0 s l)) {} (.add 0 :: threeBytes) =
        some s ∧
      s.receivedOn 0 = [(⟨1, 4⟩, [1, 2]), (⟨2, 4⟩, [3])] ∧ s.ctx.streams 0 = some ⟨3, 4⟩ :=
    ⟨_, rfl, rfl, rfl, rfl⟩
  obtain ⟨⟨rest, hrest, -⟩, hstarted, honce⟩ :=
    memory_is_stream (reaches_of_run (fun s l h => of_decide_eq_true h) hsends)
  rw [hreceived, hpending] at hstarted
  have hnodup : ((s.startedOn 0).map MemoryState.op).Nodup := by
    rw [hstarted]
    decide
  have hwaits := (honce hnodup).2 ⟨3, 4⟩ (hpending ▸ rfl)
  rw [hreceived] at hrest
  exact ⟨s, hrun, hstarted, hwaits, rest, hrest⟩

/-! ### The function -/

/-- A receive waits whenever the function of the stream `name` gets its turn. -/
def Awaited (name : N) (s : AsyncUpdates N) : UpdatesLabel N → Prop
  | .next => ∀ u ∈ s.ctx.updates[s.ctx.nextIndex]?, u.name = name → s.ctx.streams name ≠ none
  | _ => True

instance (name : N) (s : AsyncUpdates N) (l : UpdatesLabel N) : Decidable (Awaited name s l) :=
  match l with
  | .next => inferInstanceAs (Decidable (∀ u ∈ s.ctx.updates[s.ctx.nextIndex]?, _))
  | .add _ | .start _ _ | .deliver _ | .ret _ => inferInstanceAs (Decidable True)

theorem kept_of_taken {finished : Bool} {v : Update N} (h : u ∈ s.ctx.updates ∨ s.AtEnd name)
    (hv : s.ctx.updates[s.ctx.nextIndex]? = some v)
    (hlast : u = v → finished = true → s.AtEnd name) :
    u ∈ (s.taken v finished).ctx.updates ∨ (s.taken v finished).AtEnd name := by
  rcases h with hu | hend
  · cases finished with
    | false => exact .inl (by rwa [AsyncUpdates.taken, Context.updates_turn_false])
    | true =>
      by_cases huv : u = v
      · exact .inr (hlast huv rfl)
      · exact .inl (Context.mem_turn_true hv hu huv)
  · exact .inr hend

theorem kept_of_step (hname : u.name = name) (hcalls : s.Calls) (hfed : Fed text name s)
    (h : u ∈ s.ctx.updates ∨ s.AtEnd name) (hok : Sends text name s l)
    (hawaited : Awaited name s l) (hstep : s.step l = some s') :
    u ∈ s'.ctx.updates ∨ s'.AtEnd name := by
  cases (stepped_of_step hstep).2 with
  | add => exact h.imp_left (List.mem_append_left _)
  | start => exact h
  | next hcalling =>
    unfold AsyncUpdates.next
    split
    · exact h
    · next v hv =>
      split
      · next hnone =>
        refine kept_of_taken h hv fun huv _ => absurd ?_ (hawaited v hv (huv ▸ hname))
        rwa [← huv, hname] at hnone
      · exact h
  | @deliver data v stream hcalling =>
    refine h.imp_right fun hend => ?_
    by_cases hv : v.name = name
    · have hdata := hok (v, some stream) hcalling hv
      rw [hfed.ended hend, List.take_nil] at hdata
      subst hv hdata
      exact (atEnd_of_cons rfl).2 rfl
    · rwa [AtEnd, receivedOn_of_cons_ne rfl hv]
  | @ret finished v a hcalling =>
    refine kept_of_taken h (hcalls v a hcalling) fun huv hfin => ?_
    exact (hok (v, a) hcalling (huv ▸ hname)).2.1 hfin

/-- **The text is delivered to its end**: if a receive waits whenever the function gets its turn, it
stays until all of the text was delivered and a receive has got nothing. -/
theorem stays_until_delivered {s₀ : AsyncUpdates N} (h₀ : Reaches step (Sends text name) {} s₀)
    (hu : u ∈ s₀.ctx.updates) (hname : u.name = name)
    (h : Reaches step (fun s l => Sends text name s l ∧ Awaited name s l) s₀ s) :
    u ∈ s.ctx.updates ∨ s.AtEnd name ∧ s.rest text name = [] := by
  have hinv : ∀ {t}, Reaches step (Sends text name) {} t → Fed text name t ∧ Ordered t := fun ht =>
    ⟨ht.invariant (fed_initial text name) fun _ _ _ ht hok hstep => fed_of_step ht hok hstep,
      ordered_of_reaches ordered_initial ht⟩
  have hreach : ∀ {t}, Reaches step (fun s l => Sends text name s l ∧ Awaited name s l) s₀ t →
      Reaches step (Sends text name) {} t := fun ht => h₀.trans (ht.mono fun _ _ => And.left)
  have hkept : u ∈ s.ctx.updates ∨ s.AtEnd name := by
    refine h.invariant₂ (I := fun t => u ∈ t.ctx.updates ∨ t.AtEnd name)
      (J := fun t => Fed text name t ∧ Ordered t)
      (fun t ht => hinv (hreach ht)) (.inl hu) fun t l t' ⟨hfed, ho⟩ hk ⟨hok, hawaited⟩ hstep => ?_
    exact kept_of_step hname ho.calls hfed hk hok hawaited hstep
  exact hkept.imp_right fun hend => ⟨hend, (hinv (hreach h)).1.ended hend⟩

theorem stays_until_delivered_threeBytes : ∃ s : AsyncUpdates ℕ,
    run step {} (.add 0 :: (threeBytes ++ [.next, .deliver [], .ret true])) = some s ∧
    s.ctx.updates = [] ∧ s.rest [1, 2, 3] 0 = [] := by
  obtain ⟨s₀, hadd, s, hrun, hsends, hnil⟩ : ∃ s₀ : AsyncUpdates ℕ,
      run step {} [.add 0] = some s₀ ∧ ∃ s,
      run step {} (.add 0 :: (threeBytes ++ [.next, .deliver [], .ret true])) = some s ∧
      run (checked step fun s l => decide (Sends [1, 2, 3] 0 s l ∧ Awaited 0 s l)) s₀
        (threeBytes ++ [.next, .deliver [], .ret true]) = some s ∧
      s.ctx.updates = [] := ⟨_, rfl, _, rfl, rfl, rfl⟩
  have hreach₀ : Reaches step (Sends [1, 2, 3] 0) {} s₀ := by
    cases hadd
    exact (Reaches.refl _).tail (l := .add 0) trivial rfl
  have hu : (⟨0, 0⟩ : Update ℕ) ∈ s₀.ctx.updates := by
    cases hadd
    exact List.mem_singleton_self _
  have hreach := reaches_of_run (fun s l h => of_decide_eq_true h) hsends
  rcases stays_until_delivered hreach₀ hu rfl hreach with hmem | ⟨-, hrest⟩
  · rw [hnil] at hmem
    cases hmem
  · exact ⟨s, hrun, hnil, hrest⟩

end AsyncUpdates

end DemoStream

end Net29
