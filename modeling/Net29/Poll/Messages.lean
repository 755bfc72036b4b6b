import Net29.Poll.Queues
import Net29.Lib.Memory

/-!
# Messages

`async_send_to` and `async_receive_from` hand the system a `msghdr` that points to the buffer
descriptors and, in `msg_name`, to the place of the peer's address. The descriptor of the latter
fills in the buffers for both.

* `SendToDesc.submit`, `ReceiveFromDesc.submit`: the headers;
* `recvmsg`, `recvLoop`: what the system writes, and the loop of the work function over memory;
* `Completes`: the work function completes the operation with a message;
* `receive_from_misdelivers`: where the address goes instead.
-/

namespace Net29

open Memory

/-- `sizeof(iovec)`. -/
def sizeofIovec : ℕ := 16

/-- The `iovec` at an address: `iov_base` and `iov_len`. -/
def iovecAt (host : ByteOrder) (m : Memory) (a : ℕ) : Region :=
  ⟨m.get host ⟨a, 8⟩, m.get host ⟨a + 8, 8⟩⟩

/-- What `data()` and `size()` of a buffer sequence or of an endpoint return. -/
structure Extent where
  data : ℕ
  size : ℕ
  deriving DecidableEq, Repr

/-- The members of `send_to_desc::Data` and `receive_from_desc::data`: the buffer sequence with its
descriptors and the endpoint are different objects. -/
structure MessageData where
  buffers : Extent
  endpoint : Extent
  distinct : buffers.data ≠ endpoint.data

/-- `msghdr`. -/
structure Msghdr where
  name : ℕ
  namelen : ℕ
  iov : ℕ
  iovlen : ℕ
  deriving DecidableEq, Repr

/-- `send_to_desc::Data::submit`. -/
def SendToDesc.submit (d : MessageData) : Msghdr where
  iov := d.buffers.data
  iovlen := d.buffers.size
  name := d.endpoint.data
  namelen := d.endpoint.size

/-- `receive_from_desc::data::submit`; `msg_namelen` has 32 bits. -/
def ReceiveFromDesc.submit (d : MessageData) : Msghdr where
  iov := d.buffers.data
  iovlen := d.buffers.size
  name := d.buffers.data
  namelen := d.buffers.size % 2 ^ 32

/-- The regions that the descriptors list. -/
def Msghdr.regions (host : ByteOrder) (m : Memory) (hdr : Msghdr) : List Region :=
  (List.range hdr.iovlen).map fun i => iovecAt host m (hdr.iov + sizeofIovec * i)

/-- A message that arrives: the address of its sender, and as much of its data as is received. -/
structure Message where
  peer : List UInt8
  payload : List UInt8
  deriving DecidableEq, Repr

/-- `::recvmsg` reads the descriptors, writes the data to the regions, and then the address to
`msg_name`. -/
def recvmsg (host : ByteOrder) (hdr : Msghdr) (m : Memory) (msg : Message) : Memory :=
  (m.scatter (hdr.regions host m) msg.payload).write hdr.name (msg.peer.take hdr.namelen)

/-- What `::recvmsg` returns: a message, or −1 with `errno` set. -/
inductive Received
  | message (msg : Message)
  | err (e : Errno)
  deriving DecidableEq, Repr

/-- The result of the call. -/
def Received.sys : Received → SysAnswer
  | .message msg => .ok msg.payload.length msg.peer
  | .err e => .err e

/-- The loop of the work function: the memory after the last call, and what that returned. -/
def recvLoop (host : ByteOrder) (hdr : Msghdr) (m : Memory) :
    List Received → Option (Memory × Received)
  | [] => none
  | .err e :: as => if e = Errno.EINTR then recvLoop host hdr m as else some (m, .err e)
  | .message msg :: _ => some (recvmsg host hdr m msg, .message msg)

/-- `submit` with the operation that the context is handed. -/
def MessageData.operation (host : ByteOrder) (m : Memory) (d : MessageData) (id : SocketId) :
    Operation :=
  .receive id (((ReceiveFromDesc.submit d).regions host m).map Region.len)

/-- The work function of `receive` completes the operation with a message. -/
structure Completes (host : ByteOrder) (d : MessageData) (c : PollContext) (io : IoBase)
    (before : Memory) (answers : List Received) (msg : Message) (c' : PollContext)
    (after : Memory) : Prop where
  operation : io.op = d.operation host before io.op.id
  work : c.work io (answers.map Received.sys) =
    .ok (c', [.complete io.self (some (.size msg.payload.length))], .ready)
  memory : recvLoop host (ReceiveFromDesc.submit d) before answers = some (after, .message msg)

/-! ### The loop -/

section Loop

variable {host : ByteOrder} {hdr : Msghdr} {m m' : Memory} {answers rest : List Received}
  {a : Received} {msg : Message} {c : PollContext} {io : IoBase} {rec : PollRecord}
  {d : MessageData} {id : SocketId}

/-- **The loop over memory makes the calls of the work function.** -/
theorem retry_sys (host : ByteOrder) (hdr : Msghdr) (m : Memory) (answers : List Received) :
    (retry (answers.map Received.sys)).map Prod.snd =
      (recvLoop host hdr m answers).map fun x => x.2.sys := by
  induction answers with
  | nil => rfl
  | cons a as ih =>
    cases a with
    | message msg => rfl
    | err e =>
      rw [List.map_cons, Received.sys, retry, recvLoop]
      split_ifs
      · rw [← ih, Option.map_map]
        rfl
      · rfl

/-- However often the call is interrupted, the message is received once. -/
theorem recvLoop_message (h : recvLoop host hdr m answers = some (m', .message msg)) :
    m' = recvmsg host hdr m msg := by
  induction answers with
  | nil => cases h
  | cons a as ih =>
    cases a with
    | message msg' => cases h; rfl
    | err e =>
      rw [recvLoop] at h
      split_ifs at h
      · exact ih h
      · cases h

/-- When the loop receives a message, the work function completes the operation with it. -/
theorem completes_of_message (hop : io.op = d.operation host m id)
    (hlive : c.sockets.get? io.op.id = some rec)
    (h : recvLoop host (ReceiveFromDesc.submit d) m answers = some (m', .message msg)) :
    ∃ c', Completes host d c io m answers msg c' m' := by
  have hretry := retry_sys host (ReceiveFromDesc.submit d) m answers
  rw [h] at hretry
  obtain ⟨⟨n, a⟩, hn, ha⟩ := Option.map_eq_some_iff.1 hretry
  obtain rfl : a = .ok msg.payload.length msg.peer := ha
  have hwork : c.work io (answers.map Received.sys) =
      PollContext.transferWork .recvmsg c io (answers.map Received.sys) := by
    unfold PollContext.work
    rw [hop]
    rfl
  refine ⟨c.logCalls n io .recvmsg rec.handle 0, by rw [hop]; rfl, ?_, h⟩
  rw [hwork, PollContext.transferWork, PollContext.nativeHandle, hlive, hn]
  rfl

end Loop

/-! ### Delivery -/

/-- The message is where it belongs: the address in the endpoint, the data in the buffers; the
descriptors of the buffers are as before. -/
structure InPlace (host : ByteOrder) (d : MessageData) (before after : Memory) (msg : Message) :
    Prop where
  endpoint : after.read d.endpoint.data msg.peer.length = msg.peer
  buffers :
    (after.gather ((ReceiveFromDesc.submit d).regions host before)).take msg.payload.length =
      msg.payload
  descriptors : after.read d.buffers.data (sizeofIovec * d.buffers.size) =
    before.read d.buffers.data (sizeofIovec * d.buffers.size)

/-- The descriptors of the buffers. -/
def MessageData.descriptors (d : MessageData) : Region :=
  ⟨d.buffers.data, sizeofIovec * d.buffers.size⟩

/-- The storage of the endpoint. -/
def MessageData.storage (d : MessageData) : Region := ⟨d.endpoint.data, sizeofSockaddrStorage⟩

/-- The descriptors, the endpoint and the buffers have no byte in common. -/
structure Apart (host : ByteOrder) (d : MessageData) (m : Memory) : Prop where
  endpoint : d.descriptors.Disjoint d.storage
  buffers : ((ReceiveFromDesc.submit d).regions host m).Pairwise Region.Disjoint
  fromDescriptors : ∀ r ∈ (ReceiveFromDesc.submit d).regions host m, r.Disjoint d.descriptors
  fromEndpoint : ∀ r ∈ (ReceiveFromDesc.submit d).regions host m, r.Disjoint d.storage

/-- What the system can deliver: data that fit into the buffers, and the address of a socket. -/
structure Deliverable (host : ByteOrder) (d : MessageData) (m : Memory) (msg : Message) : Prop where
  payload : msg.payload.length ≤ capacity ((ReceiveFromDesc.submit d).regions host m)
  peer : msg.peer.length ≤ sizeofSockaddrStorage

/-- The endpoint holds the address already, and the descriptors begin with it. -/
structure Coincides (d : MessageData) (m : Memory) (msg : Message) : Prop where
  endpoint : m.read d.endpoint.data msg.peer.length = msg.peer
  descriptors : m.read d.buffers.data (msg.peer.take (d.buffers.size % 2 ^ 32)).length =
    msg.peer.take (d.buffers.size % 2 ^ 32)

section Delivery

variable {host : ByteOrder} {d : MessageData} {m : Memory} {msg : Message}

/-- The headers differ in the place of the address. -/
theorem submit_ne (d : MessageData) : ReceiveFromDesc.submit d ≠ SendToDesc.submit d :=
  fun h => d.distinct (congrArg Msghdr.name h)

theorem Apart.read_endpoint (h : Apart host d m) (bs : List UInt8) :
    (m.scatter ((ReceiveFromDesc.submit d).regions host m) bs).read d.endpoint.data
      sizeofSockaddrStorage = m.read d.endpoint.data sizeofSockaddrStorage :=
  read_scatter_of_disjoint (s := d.storage) h.fromEndpoint

theorem Apart.read_descriptors (h : Apart host d m) (bs : List UInt8) :
    (m.scatter ((ReceiveFromDesc.submit d).regions host m) bs).read d.buffers.data
      (sizeofIovec * d.buffers.size) = m.read d.buffers.data (sizeofIovec * d.buffers.size) :=
  read_scatter_of_disjoint (s := d.descriptors) h.fromDescriptors

/-- The data are in the buffers, whatever is written afterwards to a place apart from them. -/
theorem Apart.gather_write (h : Apart host d m) (hmsg : Deliverable host d m msg) {r : Region}
    {bs : List UInt8} (hr : ∀ s ∈ (ReceiveFromDesc.submit d).regions host m, r.Disjoint s)
    (hlen : bs.length ≤ r.len) :
    (((m.scatter ((ReceiveFromDesc.submit d).regions host m) msg.payload).write r.base bs).gather
      ((ReceiveFromDesc.submit d).regions host m)).take msg.payload.length = msg.payload := by
  rw [gather_congr fun s hs => read_write_of_regions (hr s hs) hlen]
  exact gather_scatter h.buffers hmsg.payload

theorem length_namelen (d : MessageData) (msg : Message) :
    (msg.peer.take (d.buffers.size % 2 ^ 32)).length ≤ sizeofIovec * d.buffers.size := by
  have htake := List.length_take_le (d.buffers.size % 2 ^ 32) msg.peer
  have hmod := Nat.mod_le d.buffers.size (2 ^ 32)
  simp only [sizeofIovec]
  omega

/-- **What `::recvmsg` leaves behind**: the data in the buffers, the endpoint as it was, and the
beginning of the address over the descriptors. -/
theorem inPlace_iff (h : Apart host d m) (hmsg : Deliverable host d m msg) :
    InPlace host d m (recvmsg host (ReceiveFromDesc.submit d) m msg) msg ↔
      Coincides d m msg := by
  have hlen := length_namelen d msg
  have hendpoint : (recvmsg host (ReceiveFromDesc.submit d) m msg).read d.endpoint.data
      msg.peer.length = m.read d.endpoint.data msg.peer.length := by
    have hread := read_write_of_regions (m := m.scatter ((ReceiveFromDesc.submit d).regions host m)
      msg.payload) h.endpoint hlen
    rw [← take_read _ _ hmsg.peer, ← take_read m _ hmsg.peer, ← h.read_endpoint msg.payload]
    exact congrArg _ hread
  have hdescriptors : (recvmsg host (ReceiveFromDesc.submit d) m msg).read d.buffers.data
      (sizeofIovec * d.buffers.size) = m.read d.buffers.data (sizeofIovec * d.buffers.size) ↔
        m.read d.buffers.data (msg.peer.take (d.buffers.size % 2 ^ 32)).length =
          msg.peer.take (d.buffers.size % 2 ^ 32) := by
    rw [← h.read_descriptors msg.payload, ← take_read m _ hlen, ← h.read_descriptors msg.payload,
      take_read _ _ hlen]
    exact read_write_eq_iff _ _ hlen
  have hbuffers := h.gather_write hmsg (r := d.descriptors)
    (fun s hs => (h.fromDescriptors s hs).symm) hlen
  constructor
  · rintro ⟨he, -, hd⟩
    exact ⟨hendpoint ▸ he, hdescriptors.1 hd⟩
  · rintro ⟨he, hd⟩
    exact ⟨hendpoint.trans he, hbuffers, hdescriptors.2 hd⟩

end Delivery

/-- What `async_receive_from` is for: the message is delivered, by the header that `async_send_to`
builds for the same arguments. -/
structure ReceivesFrom (host : ByteOrder) (d : MessageData) (before after : Memory)
    (msg : Message) : Prop where
  delivered : InPlace host d before after msg
  header : ReceiveFromDesc.submit d = SendToDesc.submit d

/-- **`async_receive_from` never does what it is for**: its header is not the one of
`async_send_to`, and it delivers a message exactly when the address happens to be in both places
already. -/
theorem receive_from_misdelivers (host : ByteOrder) (d : MessageData) (c c' : PollContext)
    (io : IoBase) (before after : Memory) (answers : List Received) (msg : Message)
    (h : Completes host d c io before answers msg c' after) :
    ¬ ReceivesFrom host d before after msg ∧
      (Apart host d before → Deliverable host d before msg →
        (InPlace host d before after msg ↔ Coincides d before msg)) := by
  refine ⟨fun hreceives => submit_ne d hreceives.header, fun hapart hmsg => ?_⟩
  rw [recvLoop_message h.memory]
  exact inPlace_iff hapart hmsg

/-- One `mutable_buffer` at 0, and an endpoint behind it. -/
def oneBuffer : MessageData := ⟨⟨0, 1⟩, ⟨16, 16⟩, by decide⟩

/-- The buffer has 4 bytes at 200. -/
def oneBufferMemory : Memory := .ofBytes [200, 0, 0, 0, 0, 0, 0, 0, 4, 0, 0, 0, 0, 0, 0, 0]

/-- Two bytes from 127.0.0.1:8080. -/
def twoBytes : Message := ⟨[2, 0, 0x1F, 0x90, 127, 0, 0, 1, 0, 0, 0, 0, 0, 0, 0, 0], [104, 105]⟩

/-- The message is received at the second attempt. -/
theorem completes_twoBytes :
    ∃ c', Completes .little oneBuffer { sockets := ⟨[.used { handle := 3 }], 1⟩ }
      ⟨1, oneBuffer.operation .little oneBufferMemory 0⟩ oneBufferMemory
      [.err Errno.EINTR, .message twoBytes] twoBytes c'
      (recvmsg .little (ReceiveFromDesc.submit oneBuffer) oneBufferMemory twoBytes) :=
  completes_of_message rfl rfl rfl

theorem receive_from_misdelivers_twoBytes :
    ¬ ReceivesFrom .little oneBuffer oneBufferMemory
      (recvmsg .little (ReceiveFromDesc.submit oneBuffer) oneBufferMemory twoBytes) twoBytes := by
  obtain ⟨c', h⟩ := completes_twoBytes
  exact (receive_from_misdelivers .little oneBuffer _ c' _ _ _ _ twoBytes h).1

/-- The first descriptor points elsewhere afterwards. -/
theorem receive_from_overwrites :
    ¬ ∀ (host : ByteOrder) (d : MessageData) (c c' : PollContext) (io : IoBase)
      (before after : Memory) (answers : List Received) (msg : Message),
      Apart host d before → Deliverable host d before msg →
        Completes host d c io before answers msg c' after →
          ReceivesFrom host d before after msg := by
  intro h
  have hregions : (ReceiveFromDesc.submit oneBuffer).regions .little oneBufferMemory =
      [⟨200, 4⟩] := by decide
  have hapart : Apart .little oneBuffer oneBufferMemory := by
    refine ⟨.inl (by decide), ?_, ?_, ?_⟩ <;> rw [hregions]
    · exact List.pairwise_singleton _ _
    · exact List.forall_mem_singleton.2 (.inr (by decide))
    · exact List.forall_mem_singleton.2 (.inr (by decide))
  have hmsg : Deliverable .little oneBuffer oneBufferMemory twoBytes := by
    refine ⟨?_, by decide⟩
    rw [hregions]
    decide
  obtain ⟨c', hc⟩ := completes_twoBytes
  have hdescriptors := (h _ _ _ c' _ _ _ _ _ hapart hmsg hc).delivered.descriptors
  revert hdescriptors
  decide

end Net29
