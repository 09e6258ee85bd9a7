/-
# What clients write and the broker reads

A client writes each operation as a header of nine bytes (the id of the frame,
operation and quality of service in one byte, the length of the body) and a
body: a target or topic and, for a publication to one receiver, the receiver,
each ended by a zero byte, and the payload; or the topics of a subscription. A
ping is a header of zeros.

`handle_reader` takes the bytes apart again: the framing (`getRequest`), then
the body (`Request.fields`). What comes back is what was written, by either
client (`requests_writes`), and the body of a message, a broadcast or a
publication that the broker accepts is one that a client would write.

Key definitions: `ClientOp`, `Ipc.writes`, `SyncIpc.writes`, `getRequest`, `Request.fields`.
Key theorems: `bytes_frame`, `getRequest_frame`, `getRequest_item`, `requests_writes`.
-/
import Busrt.Wire

namespace Busrt

open Lib

/-! ### The clients -/

/-- The operations of `AsyncClient` and `SyncClient` that write. -/
inductive ClientOp
  | ping
  | send (target : String) (payload : List UInt8) (qos : QoS)
  | zcSend (target : String) (header payload : List UInt8) (qos : QoS)
  | sendBroadcast (target : String) (payload : List UInt8) (qos : QoS)
  | publish (topic : String) (payload : List UInt8) (qos : QoS)
  | publishFor (topic receiver : String) (payload : List UInt8) (qos : QoS)
  | subscribe (topic : String) (qos : QoS)
  | unsubscribe (topic : String) (qos : QoS)
  | exclude (topic : String) (qos : QoS)
  | unexclude (topic : String) (qos : QoS)
  | subscribeBulk (topics : List String) (qos : QoS)
  | unsubscribeBulk (topics : List String) (qos : QoS)
  | excludeBulk (topics : List String) (qos : QoS)
  | unexcludeBulk (topics : List String) (qos : QoS)
  deriving DecidableEq, Repr

/-- `FrameOp as u8`. -/
def FrameOp.code : FrameOp → UInt8
  | .nop => 0x00
  | .message => 0x12
  | .broadcast => 0x13
  | .publishTopic => 0x01
  | .publishTopicFor => 0x06
  | .subscribeTopic => 0x02
  | .unsubscribeTopic => 0x03
  | .excludeTopic => 0x04
  | .unexcludeTopic => 0x05

/-- `QoS as u8`. -/
def QoS.code : QoS → UInt8
  | .no => 0
  | .processed => 1
  | .realtime => 2
  | .realtimeProcessed => 3

/-- `PING_FRAME`. -/
def PING_FRAME : List UInt8 := [0, 0, 0, 0, 0, 0, 0, 0, 0]

section Macros

variable (id : UInt32) (target receiver : String) (header payload : List UInt8)
  (op : FrameOp) (qos : QoS)

/-- `prepare_frame_buf!`, once the id is taken. -/
def prepareFrameBuf : List UInt8 := toLe 4 id.toNat ++ [op.code ||| qos.code <<< 6]

/-- `send_zc_frame!`: what is passed to `send_frame_and_confirm!`. -/
def sendZcFrame : List UInt8 × List UInt8 :=
  let t := utf8 target
  (prepareFrameBuf id op qos ++ toLe 4 (t.length + payload.length + header.length + 1) ++ t ++
    [0] ++ header, payload)

/-- `send_frame!` to a target or topic. -/
def sendFrame : List UInt8 × List UInt8 :=
  let t := utf8 target
  (prepareFrameBuf id op qos ++ toLe 4 (t.length + payload.length + 1) ++ t ++ [0], payload)

/-- `send_frame!` to a topic with a receiver. -/
def sendFrameFor : List UInt8 × List UInt8 :=
  let t := utf8 target
  let r := utf8 receiver
  (prepareFrameBuf id op qos ++ toLe 4 (t.length + r.length + payload.length + 2) ++ t ++ [0] ++
    r ++ [0], payload)

/-- `send_frame!` without a target. -/
def sendFrameOnly : List UInt8 × List UInt8 :=
  (prepareFrameBuf id op qos ++ toLe 4 payload.length, payload)

end Macros

/-- The payload of the `_bulk` operations. -/
def bulk (topics : List String) : List UInt8 :=
  topics.foldl
    (fun payload topic => (if payload.isEmpty then payload else payload ++ [0]) ++ utf8 topic) []

namespace Ipc

/-- `send_frame_and_confirm!`: the two writes of a frame. -/
def sendFrameAndConfirm (qos : QoS) (frame : List UInt8 × List UInt8) : List (List UInt8 × Flush) :=
  [(frame.1, .no), (frame.2, .ofRealtime qos.isRealtime)]

/-- The writes of an operation of `ipc::Client`. -/
def writes (id : UInt32) : ClientOp → List (List UInt8 × Flush)
  | .ping => [(PING_FRAME, .instant)]
  | .send target payload qos => sendFrameAndConfirm qos (sendFrame id target payload .message qos)
  | .zcSend target header payload qos =>
    sendFrameAndConfirm qos (sendZcFrame id target header payload .message qos)
  | .sendBroadcast target payload qos =>
    sendFrameAndConfirm qos (sendFrame id target payload .broadcast qos)
  | .publish topic payload qos =>
    sendFrameAndConfirm qos (sendFrame id topic payload .publishTopic qos)
  | .publishFor topic receiver payload qos =>
    sendFrameAndConfirm qos (sendFrameFor id topic receiver payload .publishTopicFor qos)
  | .subscribe topic qos =>
    sendFrameAndConfirm qos (sendFrameOnly id (utf8 topic) .subscribeTopic qos)
  | .unsubscribe topic qos =>
    sendFrameAndConfirm qos (sendFrameOnly id (utf8 topic) .unsubscribeTopic qos)
  | .exclude topic qos => sendFrameAndConfirm qos (sendFrameOnly id (utf8 topic) .excludeTopic qos)
  | .unexclude topic qos =>
    sendFrameAndConfirm qos (sendFrameOnly id (utf8 topic) .unexcludeTopic qos)
  | .subscribeBulk topics qos =>
    sendFrameAndConfirm qos (sendFrameOnly id (bulk topics) .subscribeTopic qos)
  | .unsubscribeBulk topics qos =>
    sendFrameAndConfirm qos (sendFrameOnly id (bulk topics) .unsubscribeTopic qos)
  | .excludeBulk topics qos =>
    sendFrameAndConfirm qos (sendFrameOnly id (bulk topics) .excludeTopic qos)
  | .unexcludeBulk topics qos =>
    sendFrameAndConfirm qos (sendFrameOnly id (bulk topics) .unexcludeTopic qos)

/-- The bytes of an operation. -/
def bytes (id : UInt32) (o : ClientOp) : List UInt8 := (writes id o).flatMap (·.1)

end Ipc

namespace SyncIpc

/-- `send_frame_and_confirm!`, without flushes. -/
def sendFrameAndConfirm (frame : List UInt8 × List UInt8) : List (List UInt8) := [frame.1, frame.2]

/-- The writes of an operation of `sync::ipc::Client`. -/
def writes (id : UInt32) : ClientOp → List (List UInt8)
  | .ping => [PING_FRAME]
  | .send target payload qos => sendFrameAndConfirm (sendFrame id target payload .message qos)
  | .zcSend target header payload qos =>
    sendFrameAndConfirm (sendZcFrame id target header payload .message qos)
  | .sendBroadcast target payload qos =>
    sendFrameAndConfirm (sendFrame id target payload .broadcast qos)
  | .publish topic payload qos => sendFrameAndConfirm (sendFrame id topic payload .publishTopic qos)
  | .publishFor topic receiver payload qos =>
    sendFrameAndConfirm (sendFrameFor id topic receiver payload .publishTopicFor qos)
  | .subscribe topic qos => sendFrameAndConfirm (sendFrameOnly id (utf8 topic) .subscribeTopic qos)
  | .unsubscribe topic qos =>
    sendFrameAndConfirm (sendFrameOnly id (utf8 topic) .unsubscribeTopic qos)
  | .exclude topic qos => sendFrameAndConfirm (sendFrameOnly id (utf8 topic) .excludeTopic qos)
  | .unexclude topic qos => sendFrameAndConfirm (sendFrameOnly id (utf8 topic) .unexcludeTopic qos)
  | .subscribeBulk topics qos =>
    sendFrameAndConfirm (sendFrameOnly id (bulk topics) .subscribeTopic qos)
  | .unsubscribeBulk topics qos =>
    sendFrameAndConfirm (sendFrameOnly id (bulk topics) .unsubscribeTopic qos)
  | .excludeBulk topics qos =>
    sendFrameAndConfirm (sendFrameOnly id (bulk topics) .excludeTopic qos)
  | .unexcludeBulk topics qos =>
    sendFrameAndConfirm (sendFrameOnly id (bulk topics) .unexcludeTopic qos)

/-- The bytes of an operation. -/
def bytes (id : UInt32) (o : ClientOp) : List UInt8 := (writes id o).flatten

end SyncIpc

/-- Both clients write the same bytes. -/
theorem bytes_sync (id : UInt32) (o : ClientOp) : SyncIpc.bytes id o = Ipc.bytes id o := by
  cases o <;> rfl

namespace ClientOp

/-- The operation in the frame. -/
def op : ClientOp → FrameOp
  | ping => .nop
  | send .. | zcSend .. => .message
  | sendBroadcast .. => .broadcast
  | publish .. => .publishTopic
  | publishFor .. => .publishTopicFor
  | subscribe .. | subscribeBulk .. => .subscribeTopic
  | unsubscribe .. | unsubscribeBulk .. => .unsubscribeTopic
  | exclude .. | excludeBulk .. => .excludeTopic
  | unexclude .. | unexcludeBulk .. => .unexcludeTopic

/-- The quality of service; a ping has none. -/
def qos : ClientOp → QoS
  | ping => .no
  | send _ _ q | zcSend _ _ _ q | sendBroadcast _ _ q | publish _ _ q |
      publishFor _ _ _ q | subscribe _ q
  | unsubscribe _ q | exclude _ q | unexclude _ q | subscribeBulk _ q |
      unsubscribeBulk _ q | excludeBulk _ q
  | unexcludeBulk _ q => q

/-- The body of the frame. -/
def body : ClientOp → List UInt8
  | ping => []
  | send t p _ | sendBroadcast t p _ | publish t p _ => utf8 t ++ 0 :: p
  | zcSend t h p _ => utf8 t ++ 0 :: (h ++ p)
  | publishFor t r p _ => utf8 t ++ 0 :: (utf8 r ++ 0 :: p)
  | subscribe t _ | unsubscribe t _ | exclude t _ | unexclude t _ => utf8 t
  | subscribeBulk ts _ | unsubscribeBulk ts _ | excludeBulk ts _ | unexcludeBulk ts _ => bulk ts

end ClientOp

/-- The bytes of a frame: its header, and a body of the declared length. -/
def frameBytes (id : UInt32) (op : FrameOp) (qos : QoS) (body : List UInt8) : List UInt8 :=
  toLe 4 id.toNat ++ [op.code ||| qos.code <<< 6] ++ toLe 4 body.length ++ body

/-- Every operation but a ping writes one frame. -/
theorem bytes_frame (id : UInt32) {o : ClientOp} (h : o ≠ .ping) :
    Ipc.bytes id o = frameBytes id o.op o.qos o.body := by
  cases o with
  | ping => exact absurd rfl h
  | send t p q | sendBroadcast t p q | publish t p q =>
    simp [Ipc.bytes, Ipc.writes, Ipc.sendFrameAndConfirm, sendFrame, prepareFrameBuf, frameBytes,
      ClientOp.op, ClientOp.qos, ClientOp.body, Nat.add_assoc]
  | zcSend t hd p q =>
    simp [Ipc.bytes, Ipc.writes, Ipc.sendFrameAndConfirm, sendZcFrame, prepareFrameBuf, frameBytes,
      ClientOp.op, ClientOp.qos, ClientOp.body, Nat.add_assoc, Nat.add_comm p.length]
  | publishFor t r p q =>
    simp [Ipc.bytes, Ipc.writes, Ipc.sendFrameAndConfirm, sendFrameFor, prepareFrameBuf, frameBytes,
      ClientOp.op, ClientOp.qos, ClientOp.body, Nat.add_assoc]
  | _ =>
    simp [Ipc.bytes, Ipc.writes, Ipc.sendFrameAndConfirm, sendFrameOnly, prepareFrameBuf,
      frameBytes, ClientOp.op, ClientOp.qos, ClientOp.body]

/-! ### The broker -/

/-- What bounds the reader: `payload_size_limit`, and the allocator for bodies above
`direct_alloc_limit`, which refuses or gives a buffer of some length. -/
structure Limits where
  payloadSizeLimit : Option ℕ := none
  directAllocLimit : Option ℕ := none
  allocate : ℕ → Option ℕ := some

/-- The length of the buffer for a body. -/
def Limits.bufLen (l : Limits) (len : ℕ) : Option ℕ :=
  match l.directAllocLimit with
  | some limit => if limit < len then l.allocate len else some len
  | none => some len

/-- One round of the loop of `handle_reader`, up to the body: a ping gives nothing. -/
def getRequest (l : Limits) : List UInt8 → Got ErrorKind (Option Request)
  | i₀ :: i₁ :: i₂ :: i₃ :: flags :: l₀ :: l₁ :: l₂ :: l₃ :: rest =>
    match Header.parse [i₀, i₁, i₂, i₃, flags, l₀, l₁, l₂, l₃] with
    | .error e => .fail e
    | .ok .nop => .item none rest
    | .ok (.op _ op qos len) =>
      if l.payloadSizeLimit.any (· < len) then .fail .data
      else match l.bufLen len with
        | none => .fail .io
        | some m =>
          if rest.length < m then .more
          else .item (some ⟨[i₀, i₁, i₂, i₃], op, qos, rest.take m, rfl⟩) (rest.drop m)
  | _ => .more

/-- What `handle_reader` finds in a body. -/
inductive Fields
  | topics (ts : List String)
  | target (target : String) (payload : List UInt8)
  | publishFor (topic receiver : String) (payload : List UInt8)
  deriving DecidableEq, Repr

/-- The body of a request, or the error that ends the reader. -/
def Request.fields (r : Request) : Except ErrorKind Fields :=
  match r.op with
  | .subscribeTopic | .unsubscribeTopic | .excludeTopic | .unexcludeTopic =>
    let (ts, complete) := topicsOf (splitZeros r.buf)
    if complete then .ok (.topics ts) else .error .data
  | op =>
    match targetOf r.buf with
    | .error e => .error e
    | .ok (target, payloadPos) =>
      match op with
      | .publishTopicFor =>
        match targetOf (r.buf.drop payloadPos) with
        | .error e => .error e
        | .ok (receiver, pos) => .ok (.publishFor target receiver (r.buf.drop (payloadPos + pos)))
      | _ => .ok (.target target (r.buf.drop payloadPos))

/-- Everything a round can find. -/
theorem getRequest_item {l : Limits} {bs rest' : List UInt8} {o : Option Request}
    (h : getRequest l bs = .item o rest') :
    ∃ i₀ i₁ i₂ i₃ flags l₀ l₁ l₂ l₃ rest, bs =
      i₀ :: i₁ :: i₂ :: i₃ :: flags :: l₀ :: l₁ :: l₂ :: l₃ :: rest ∧
      ((o = none ∧ rest' = rest) ∨
        ∃ op qos m, Header.parse [i₀, i₁, i₂, i₃, flags, l₀, l₁, l₂, l₃] =
            .ok (.op [i₀, i₁, i₂, i₃] op qos (ofLe [l₀, l₁, l₂, l₃])) ∧
          l.bufLen (ofLe [l₀, l₁, l₂, l₃]) = some m ∧ m ≤ rest.length ∧
          o = some ⟨[i₀, i₁, i₂, i₃], op, qos, rest.take m, rfl⟩ ∧ rest' = rest.drop m) := by
  unfold getRequest at h
  split at h
  · rename_i i₀ i₁ i₂ i₃ flags l₀ l₁ l₂ l₃ rest
    refine ⟨i₀, i₁, i₂, i₃, flags, l₀, l₁, l₂, l₃, rest, rfl, ?_⟩
    split at h
    · cases h
    · cases h; exact .inl ⟨rfl, rfl⟩
    · rename_i opId op qos len hp
      obtain ⟨rfl, rfl⟩ : opId = [i₀, i₁, i₂, i₃] ∧ len = ofLe [l₀, l₁, l₂, l₃] := by
        simp only [Header.parse] at hp
        split at hp
        · cases hp
        · simp only [bind, Except.bind] at hp
          split at hp
          · cases hp
          · split at hp
            · cases hp
            · cases hp
              exact ⟨rfl, rfl⟩
      split at h
      · cases h
      · split at h
        · cases h
        · rename_i m hm
          split at h
          · cases h
          · rename_i hlen
            cases h
            exact .inr ⟨op, qos, m, hp, hm, not_lt.mp hlen, rfl, rfl⟩
  · cases h

/-- The framing of `handle_reader`. -/
def requests (l : Limits) : Parser ErrorKind (Option Request) where
  get := getRequest l
  get_nil := rfl
  item_lt h := by
    obtain ⟨i₀, i₁, i₂, i₃, flags, l₀, l₁, l₂, l₃, rest, rfl, ⟨-, rfl⟩ |
        ⟨op, qos, m, -, -, -, -, rfl⟩⟩ :=
      getRequest_item h
    · simp; omega
    · simp; omega

/-! ### What is written comes back -/

/-- Operation and quality of service come back from their byte. -/
theorem tryFrom_flags (op : FrameOp) (qos : QoS) :
    FrameOp.tryFrom ((op.code ||| qos.code <<< 6) &&& 0b00111111) = .ok op ∧
      QoS.tryFrom ((op.code ||| qos.code <<< 6) >>> 6 &&& 0b00111111) = .ok qos := by
  cases op <;> cases qos <;> exact ⟨rfl, rfl⟩

theorem flags_ne_zero {op : FrameOp} (qos : QoS) (h : op ≠ .nop) :
    (op.code ||| qos.code <<< 6) ≠ 0 := by
  cases op with
  | nop => exact absurd rfl h
  | _ => cases qos <;> decide

/-- The header of a frame. -/
theorem parse_header {op : FrameOp} (qos : QoS) (h : op ≠ .nop) (i₀ i₁ i₂ i₃ l₀ l₁ l₂ l₃ : UInt8) :
    Header.parse [i₀, i₁, i₂, i₃, op.code ||| qos.code <<< 6, l₀, l₁, l₂, l₃] =
      .ok (.op [i₀, i₁, i₂, i₃] op qos (ofLe [l₀, l₁, l₂, l₃])) := by
  have hf := flags_ne_zero qos h
  obtain ⟨ho, hq⟩ := tryFrom_flags op qos
  simp only [Header.parse, List.getD_cons_succ, List.getD_cons_zero, hf, if_false, ho, hq]
  rfl

/-- The allocator gives what it is asked for. -/
def Limits.Exact (l : Limits) : Prop := ∀ n, l.allocate n = some n

theorem bufLen_exact {l : Limits} (hl : l.Exact) (len : ℕ) : l.bufLen len = some len := by
  unfold Limits.bufLen
  split
  · rw [hl, ite_self]
  · rfl

/-- A body may have this length. -/
def Limits.Allows (l : Limits) (len : ℕ) : Prop :=
  len < 2 ^ 32 ∧ ∀ limit, l.payloadSizeLimit = some limit → len ≤ limit

/-- The reader takes a frame off the front. -/
theorem getRequest_frame {l : Limits} (hl : l.Exact) (id : UInt32) {op : FrameOp} (qos : QoS)
    (hop : op ≠ .nop) {body : List UInt8} (hb : l.Allows body.length) (rest : List UInt8) :
    getRequest l (frameBytes id op qos body ++ rest) =
      .item (some ⟨toLe 4 id.toNat, op, qos, body, rfl⟩) rest := by
  have hle : ofLe (toLe 4 body.length) = body.length :=
    (ofLe_toLe 4 _).trans (Nat.mod_eq_of_lt hb.1)
  obtain ⟨i₀, i₁, i₂, i₃, hi⟩ := toLe_four id.toNat
  obtain ⟨l₀, l₁, l₂, l₃, hl'⟩ := toLe_four body.length
  rw [hl'] at hle
  have hlim : l.payloadSizeLimit.any (· < body.length) = false := by
    cases hlim : l.payloadSizeLimit with
    | none => rfl
    | some limit => simpa using hb.2 limit hlim
  have hlen : ¬ (body ++ rest).length < body.length := by
    rw [List.length_append]
    omega
  simp only [frameBytes, hi, hl', List.cons_append, List.nil_append, getRequest,
    parse_header qos hop, hle, hlim, bufLen_exact hl, Bool.false_eq_true, if_false, hlen,
    List.take_left, List.drop_left]

theorem getRequest_ping (l : Limits) (rest : List UInt8) :
    getRequest l (PING_FRAME ++ rest) = .item none rest := rfl

namespace ClientOp

/-- More than one topic at once. -/
def isBulk : ClientOp → Bool
  | subscribeBulk .. | unsubscribeBulk .. | excludeBulk .. | unexcludeBulk .. => true
  | _ => false

/-- The texts of an operation. -/
def texts : ClientOp → List String
  | ping => []
  | send t .. | zcSend t .. | sendBroadcast t .. | publish t .. | subscribe t _ |
      unsubscribe t _ | exclude t _
  | unexclude t _ => [t]
  | publishFor t r .. => [t, r]
  | subscribeBulk ts _ | unsubscribeBulk ts _ | excludeBulk ts _ | unexcludeBulk ts _ => ts

/-- What is to come back; what was a header is part of the payload. -/
def fields : ClientOp → Fields
  | ping => .topics []
  | send t p _ | sendBroadcast t p _ | publish t p _ => .target t p
  | zcSend t h p _ => .target t (h ++ p)
  | publishFor t r p _ => .publishFor t r p
  | subscribe t _ | unsubscribe t _ | exclude t _ | unexclude t _ => .topics [t]
  | subscribeBulk ts _ | unsubscribeBulk ts _ | excludeBulk ts _ | unexcludeBulk ts _ => .topics ts

end ClientOp

/-- The broker reads the operation with its id, quality of service and fields. -/
structure Parses (id : UInt32) (o : ClientOp) (r : Request) : Prop where
  opId : r.opId = toLe 4 id.toNat
  op : r.op = o.op
  qos : r.qos = o.qos
  fields : r.fields = .ok o.fields

/-- A target, a zero byte, and a payload. -/
theorem targetOf_append {t : String} (ht : NulFree t) (p : List UInt8) :
    targetOf (utf8 t ++ 0 :: p) = .ok (t, (utf8 t).length + 1) := by
  simp only [targetOf, splitZero_append _ ht, fromUtf8_utf8]

theorem drop_target (t p : List UInt8) : (t ++ 0 :: p).drop (t.length + 1) = p := by
  rw [← List.singleton_append, ← List.append_assoc]
  exact List.drop_left' (by simp)

theorem topicsOf_map : ∀ ts : List String, topicsOf (ts.map utf8) = (ts, true)
  | [] => rfl
  | t :: ts => by simp only [List.map_cons, topicsOf, fromUtf8_utf8, topicsOf_map ts]

/-- One topic. -/
theorem topicsOf_one {t : String} (ht : NulFree t) :
    topicsOf (splitZeros (utf8 t)) = ([t], true) := by
  rw [splitZeros_eq ht]
  simp only [topicsOf, fromUtf8_utf8]

/-- The body of an operation with NUL-free texts. -/
theorem fields_body (id : UInt32) {o : ClientOp} (hp : o ≠ .ping) (hb : o.isBulk = false)
    (ht : ∀ t ∈ o.texts, NulFree t) : Parses id o ⟨toLe 4 id.toNat, o.op, o.qos, o.body, rfl⟩ := by
  refine ⟨rfl, rfl, rfl, ?_⟩
  cases o with
  | ping => exact absurd rfl hp
  | send t p q | sendBroadcast t p q | publish t p q | zcSend t h p q =>
    have hn := ht t List.mem_cons_self
    simp only [Request.fields, ClientOp.op, ClientOp.body, ClientOp.fields, targetOf_append hn,
      drop_target]
  | publishFor t r p q =>
    have hn := ht t List.mem_cons_self
    have hn' := ht r (List.mem_cons_of_mem _ List.mem_cons_self)
    simp only [Request.fields, ClientOp.op, ClientOp.body, ClientOp.fields, targetOf_append hn,
      drop_target, targetOf_append hn']
    rw [← List.drop_drop, drop_target, drop_target]
  | subscribe t q | unsubscribe t q | exclude t q | unexclude t q =>
    have hn := ht t List.mem_cons_self
    simp only [Request.fields, ClientOp.op, ClientOp.body, ClientOp.fields, topicsOf_one hn,
      if_true]
  | subscribeBulk ts q | unsubscribeBulk ts q | excludeBulk ts q | unexcludeBulk ts q => cases hb

/-! ### What is accepted would be written -/

/-- An id comes back from its bytes. -/
theorem ofNat_ofLe (id : UInt32) : UInt32.ofNat (ofLe (toLe 4 id.toNat)) = id := by
  have hlt : id.toNat < 256 ^ 4 := id.toNat_lt
  rw [ofLe_toLe, Nat.mod_eq_of_lt hlt, UInt32.ofNat_toNat]

theorem FrameOp.code_of_tryFrom {x : UInt8} {op : FrameOp} (h : FrameOp.tryFrom x = .ok op) :
    op.code = x := by
  unfold FrameOp.tryFrom at h
  split_ifs at h <;> cases h <;> symm <;> assumption

theorem QoS.code_of_tryFrom {x : UInt8} {q : QoS} (h : QoS.tryFrom x = .ok q) : q.code = x := by
  unfold QoS.tryFrom at h
  split_ifs at h <;> cases h <;> symm <;> assumption

/-- A byte is its low six bits and its high two. -/
theorem flags_bits (f : UInt8) :
    ((f &&& (0b00111111 : UInt8)) ||| (f >>> 6 &&& (0b00111111 : UInt8)) <<< 6) = f := by
  have hall : ∀ n : Fin 256, ((UInt8.ofNat n &&& (0b00111111 : UInt8)) |||
      (UInt8.ofNat n >>> 6 &&& (0b00111111 : UInt8)) <<< 6) = UInt8.ofNat n := by decide +kernel
  simpa using hall ⟨f.toNat, f.toNat_lt⟩

/-- The header a request is read from is the one that would be written. -/
theorem flags_of_parse {i₀ i₁ i₂ i₃ flags l₀ l₁ l₂ l₃ : UInt8} {opId : List UInt8} {op : FrameOp}
    {qos : QoS} {len : ℕ}
    (h : Header.parse [i₀, i₁, i₂, i₃, flags, l₀, l₁, l₂, l₃] = .ok (.op opId op qos len)) :
    (op.code ||| qos.code <<< 6) = flags := by
  simp only [Header.parse, List.getD_cons_succ, List.getD_cons_zero] at h
  split at h
  · cases h
  · simp only [bind, Except.bind] at h
    split at h
    · cases h
    · rename_i op' hop
      split at h
      · cases h
      · rename_i qos' hqos
        cases h
        rw [FrameOp.code_of_tryFrom hop, QoS.code_of_tryFrom hqos, flags_bits]

/-- The bytes that a request is read from. -/
theorem eq_frameBytes {l : Limits} (hl : l.Exact) {bs rest : List UInt8} {r : Request}
    (h : getRequest l bs = .item (some r) rest) :
    bs = frameBytes (UInt32.ofNat (ofLe r.opId)) r.op r.qos r.buf ++ rest := by
  obtain ⟨i₀, i₁, i₂, i₃, flags, l₀, l₁, l₂, l₃, rest', rfl, ⟨ho, -⟩ |
      ⟨op, qos, m, hp, hm, hlen, hr, rfl⟩⟩ :=
    getRequest_item h
  · cases ho
  · rw [bufLen_exact hl] at hm
    cases hm
    cases hr
    have hid : (UInt32.ofNat (ofLe [i₀, i₁, i₂, i₃])).toNat = ofLe [i₀, i₁, i₂, i₃] := by
      have hlt := ofLe_lt [i₀, i₁, i₂, i₃]
      simp only [List.length_cons, List.length_nil] at hlt
      rw [UInt32.toNat_ofNat']
      omega
    have hi : toLe 4 (ofLe [i₀, i₁, i₂, i₃]) = [i₀, i₁, i₂, i₃] := toLe_ofLe [i₀, i₁, i₂, i₃]
    have hll : toLe 4 (ofLe [l₀, l₁, l₂, l₃]) = [l₀, l₁, l₂, l₃] := toLe_ofLe [l₀, l₁, l₂, l₃]
    simp only [frameBytes, hid, hi, flags_of_parse hp, List.length_take, Nat.min_eq_left hlen, hll,
      List.take_append_drop, List.cons_append, List.nil_append]

/-- The operation that the parsed fields make again. -/
def Request.reencode (r : Request) : Option ClientOp :=
  match r.op, r.fields with
  | .message, .ok (.target t p) => some (.send t p r.qos)
  | .broadcast, .ok (.target t p) => some (.sendBroadcast t p r.qos)
  | .publishTopic, .ok (.target t p) => some (.publish t p r.qos)
  | .publishTopicFor, .ok (.publishFor t rc p) => some (.publishFor t rc p r.qos)
  | _, _ => none

/-- The frame an accepted body leads to: the payload is inside the body, and what was
parsed makes the body again. -/
theorem reencode_outgoing {c : BrokerClient} {n : ℕ} {r : Request} {fr : Frame}
    (h : r.outgoing c n = some fr) :
    fr.data.buf = r.buf ∧ fr.data.payloadPos ≤ r.buf.length ∧
      ∃ o, r.reencode = some o ∧ o ≠ .ping ∧ o.op = r.op ∧ o.qos = r.qos ∧ o.body = r.buf := by
  unfold Request.outgoing at h
  split at h
  · cases h
  · rename_i target pos ht
    obtain ⟨-, hpos, hbuf⟩ := targetOf_ok ht
    have hle := targetOf_le ht
    split at h
    all_goals try cases h
    · rename_i hop
      refine ⟨rfl, hle, .send target (r.buf.drop pos) r.qos, ?_, nofun, hop.symm, rfl, hbuf.symm⟩
      simp only [Request.reencode, Request.fields, hop, ht]
    · rename_i hop
      refine ⟨rfl, hle, .sendBroadcast target (r.buf.drop pos) r.qos, ?_, nofun,
        hop.symm, rfl, hbuf.symm⟩
      simp only [Request.reencode, Request.fields, hop, ht]
    · rename_i hop
      refine ⟨rfl, hle, .publish target (r.buf.drop pos) r.qos, ?_, nofun, hop.symm, rfl, hbuf.symm⟩
      simp only [Request.reencode, Request.fields, hop, ht]
    · rename_i hop
      split at h
      · cases h
      · rename_i receiver pos' ht'
        cases h
        obtain ⟨-, -, hbuf'⟩ := targetOf_ok ht'
        have hle' := targetOf_le ht'
        rw [List.length_drop] at hle'
        refine ⟨rfl, ?_, .publishFor target receiver (r.buf.drop (pos + pos')) r.qos, ?_, nofun,
          hop.symm, rfl, ?_⟩
        · simp only [Request.frame]
          omega
        · simp only [Request.reencode, Request.fields, hop, ht, ht']
        · rw [ClientOp.body, ← List.drop_drop, ← hbuf', ← hbuf]

/-- A message, a broadcast or a publication. -/
def FrameOp.carries (op : FrameOp) : Bool :=
  op == .message || op == .broadcast || op == .publishTopic || op == .publishTopicFor

/-- A body that `handle_reader` accepts goes out. -/
theorem outgoing_of_fields (c : BrokerClient) (n : ℕ) {r : Request} {f : Fields}
    (hop : r.op.carries = true) (h : r.fields = .ok f) : ∃ fr, r.outgoing c n = some fr := by
  rcases ht : targetOf r.buf with e | ⟨target, pos⟩
  · cases ho : r.op with
    | message | broadcast | publishTopic | publishTopicFor =>
      simp only [Request.fields, ho, ht] at h; cases h
    | _ => rw [ho] at hop; cases hop
  · cases ho : r.op with
    | message | broadcast | publishTopic =>
      simp only [Request.outgoing, ht, ho]
      exact ⟨_, rfl⟩
    | publishTopicFor =>
      rcases hr : targetOf (r.buf.drop pos) with e | ⟨receiver, pos'⟩
      · simp only [Request.fields, ho, ht, hr] at h
        cases h
      · simp only [Request.outgoing, ho, ht, hr]
        exact ⟨_, rfl⟩
    | _ => rw [ho] at hop; cases hop

/-! ### The codec -/

/-- What the broker reads for an operation: for a ping, nothing. -/
inductive ReadAs (id : UInt32) : ClientOp → Option Request → Prop
  | ping : ReadAs id .ping none
  | frame {o : ClientOp} {r : Request} (hp : o ≠ .ping) (h : Parses id o r) : ReadAs id o (some r)

/-- What the codec is for: one topic at a time, texts without a zero byte, and a length
that fits. -/
structure ClientOp.Encodable (l : Limits) (o : ClientOp) : Prop where
  single : o.isBulk = false
  nulFree : ∀ t ∈ o.texts, NulFree t
  fits : l.Allows o.body.length

/-- An operation is read alone. -/
theorem get_writes {l : Limits} (hl : l.Exact) (id : UInt32) {o : ClientOp} (h : o.Encodable l) :
    ∃ or, ReadAs id o or ∧ ∀ rest, getRequest l (Ipc.bytes id o ++ rest) = .item or rest := by
  by_cases hp : o = .ping
  · subst hp
    exact ⟨none, .ping, getRequest_ping l⟩
  · refine ⟨_, .frame hp (fields_body id hp h.single h.nulFree), fun rest => ?_⟩
    have hop : o.op ≠ .nop := by
      cases o with
      | ping => exact absurd rfl hp
      | _ => exact nofun
    rw [bytes_frame id hp]
    exact getRequest_frame hl id o.qos hop h.fits rest

/-- **Client to broker**: both clients write the same bytes, and the broker reads from
them the operations, in their order, whatever follows; and the bytes of a message,
a broadcast or a publication that it accepts are those a client writes for what it
found in them. -/
theorem requests_writes (l : Limits) (hl : l.Exact) :
    (∀ xs : List (UInt32 × ClientOp), (∀ x ∈ xs, x.2.Encodable l) →
      xs.flatMap (fun x => SyncIpc.bytes x.1 x.2) = xs.flatMap (fun x => Ipc.bytes x.1 x.2) ∧
      ∃ rs, List.Forall₂ (fun x => ReadAs x.1 x.2) xs rs ∧ ∀ rest,
        (requests l).readAll (xs.flatMap (fun x => Ipc.bytes x.1 x.2) ++ rest) =
          (rs ++ ((requests l).readAll rest).1, ((requests l).readAll rest).2)) ∧
    ∀ (bs rest : List UInt8) (r : Request) (f : Fields), getRequest l bs = .item (some r) rest →
      r.op.carries = true → r.fields = .ok f → ∀ c n, ∃ fr, r.outgoing c n = some fr ∧
        fr.data.payloadPos ≤ fr.data.buf.length ∧
        ∃ o, r.reencode = some o ∧ Ipc.bytes (UInt32.ofNat (ofLe r.opId)) o ++ rest = bs := by
  refine ⟨fun xs h => ⟨?_, ?_⟩, fun bs rest r f hget hop hf c n => ?_⟩
  · simp only [bytes_sync]
  · induction xs with
    | nil => exact ⟨[], .nil, fun rest => rfl⟩
    | cons x xs ih =>
      obtain ⟨o, ho, hget⟩ := get_writes hl x.1 (h x List.mem_cons_self)
      obtain ⟨os, hos, hread⟩ := ih fun y hy => h y (List.mem_cons_of_mem _ hy)
      refine ⟨o :: os, .cons ho hos, fun rest => ?_⟩
      rw [List.flatMap_cons, List.append_assoc, Parser.readAll_item (p := requests l) (hget _),
        hread]
      rfl
  · obtain ⟨fr, hfr⟩ := outgoing_of_fields c n hop hf
    obtain ⟨hbuf, hpos, o, ho, hp, hop', hqos, hbody⟩ := reencode_outgoing hfr
    refine ⟨fr, hfr, hbuf ▸ hpos, o, ho, ?_⟩
    rw [bytes_frame _ hp, hop', hqos, hbody]
    exact (eq_frameBytes hl hget).symm

namespace Streams

/-- A ping, a message with a header and a subscription. -/
def written : List (UInt32 × ClientOp) :=
  [(0, .ping), (1, .zcSend "w" [1, 0] [0, 2] .processed), (2, .subscribe "t" .no)]

theorem encodable_written : ∀ x ∈ written, x.2.Encodable {} := by
  intro x hx
  simp only [written, List.mem_cons, List.not_mem_nil, or_false] at hx
  obtain rfl | rfl | rfl := hx
  · exact ⟨rfl, by decide, by decide, nofun⟩
  · exact ⟨rfl, by decide, by decide, nofun⟩
  · exact ⟨rfl, by decide, by decide, nofun⟩

end Streams

open Streams in
/-- The operations come back, and so do the bytes of the message. -/
theorem requests_writes_written : (∃ rs, List.Forall₂ (fun x => ReadAs x.1 x.2) written rs ∧
    (requests {}).readAll (written.flatMap fun x => Ipc.bytes x.1 x.2) = (rs, .ok [])) ∧
    ∃ o, Request.reencode ⟨[1, 0, 0, 0], .message, .no, [119, 0, 5], rfl⟩ = some o ∧
      Ipc.bytes 1 o = [1, 0, 0, 0, 0x12, 3, 0, 0, 0, 119, 0, 5] := by
  have hcodec := requests_writes {} fun _ => rfl
  constructor
  · obtain ⟨-, rs, hrs, hread⟩ := hcodec.1 written encodable_written
    refine ⟨rs, hrs, ?_⟩
    rw [← List.append_nil (written.flatMap _), hread [], Parser.readAll_nil, List.append_nil]
  · obtain ⟨fr, -, -, o, ho, hbytes⟩ :=
      hcodec.2 [1, 0, 0, 0, 0x12, 3, 0, 0, 0, 119, 0, 5] [] _ (.target "w" [5]) rfl rfl
      (by decide) split 0
    exact ⟨o, ho, by rw [← hbytes, List.append_nil]; rfl⟩

end Busrt
