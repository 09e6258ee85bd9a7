/-
# The reader: what one frame makes the broker do

`handle_reader` reads a header of nine bytes and a body, and then runs one of
ten branches. Here a branch is a list of acts (`plan`), in the order the code
does them: an act is what the code does without giving up the processor, a
critical section, a queue operation, or a wait. What the acts do is in
`System`; the access checks and the parsing are all in the plan, since they
read nothing that another task can change.

A body that is not well formed ends the reader at the point the code finds
it out (`Act.exit`), after the acts before it.

Key definitions: `Header`, `ClientAaa`, `Request`, `Act`, `plan`.
Key theorems: `planned_of_mem`.
-/
import Busrt.Delivery
import Busrt.Lib.Bytes

namespace Busrt

open Lib

variable {S : Submap}

/-! ### Headers -/

/-- `FrameOp::try_from`. -/
def FrameOp.tryFrom (tp : UInt8) : Except ErrorKind FrameOp :=
  if tp = 0x00 then .ok .nop
  else if tp = 0x12 then .ok .message
  else if tp = 0x13 then .ok .broadcast
  else if tp = 0x01 then .ok .publishTopic
  else if tp = 0x06 then .ok .publishTopicFor
  else if tp = 0x02 then .ok .subscribeTopic
  else if tp = 0x03 then .ok .unsubscribeTopic
  else if tp = 0x04 then .ok .excludeTopic
  else if tp = 0x05 then .ok .unexcludeTopic
  else .error .data

/-- `QoS::try_from`. -/
def QoS.tryFrom (q : UInt8) : Except ErrorKind QoS :=
  if q = 0 then .ok .no
  else if q = 1 then .ok .processed
  else if q = 2 then .ok .realtime
  else if q = 3 then .ok .realtimeProcessed
  else .error .data

/-- What the nine bytes of a header say: nothing (a ping), or an operation with
its id, its quality of service and the length of its body. -/
inductive Header
  | nop
  | op (opId : List UInt8) (op : FrameOp) (qos : QoS) (len : ℕ)
  deriving DecidableEq, Repr

/-- The header as `handle_reader` takes it apart. -/
def Header.parse (buf : List UInt8) : Except ErrorKind Header :=
  let flags := buf.getD 4 0
  if flags = 0 then .ok .nop
  else do
    let op ← FrameOp.tryFrom (flags &&& 0b00111111)
    let qos ← QoS.tryFrom (flags >>> 6 &&& 0b00111111)
    return .op (buf.take 4) op qos (ofLe ((buf.drop 5).take 4))

/-- `std::str::from_utf8`. -/
def fromUtf8 (bs : List UInt8) : Except ErrorKind String :=
  match String.fromUTF8? ⟨bs.toArray⟩ with
  | some s => .ok s
  | none => .error .data

/-! ### Access rules -/

/-- `ClientAaa`; `connectAllowed` is `hosts_allow` as `connect_allowed` reads it. -/
structure ClientAaa (S : Submap) where
  connectAllowed : String → Bool
  allowP2pTo : S.acl.T
  allowP2pAny : Bool
  allowPublishTo : S.acl.T
  allowPublishAny : Bool
  allowSubscribeTo : S.acl.T
  allowSubscribeAny : Bool
  allowBroadcastTo : S.acl.T
  allowBroadcastAny : Bool

namespace ClientAaa

/-- `ClientAaa::default`: everything is allowed, but `hosts_allow` is `0.0.0.0/0`: the addresses of
IPv4, and none of IPv6, whose texts have colons. -/
def new (S : Submap) : ClientAaa S where
  connectAllowed addr := !addr.toList.contains ':'
  allowP2pTo := S.acl.new (peerCfg S.zero)
  allowP2pAny := true
  allowPublishTo := S.acl.new (topicCfg S.zero)
  allowPublishAny := true
  allowSubscribeTo := S.acl.new (topicCfg S.zero)
  allowSubscribeAny := true
  allowBroadcastTo := S.acl.new (peerCfg S.zero)
  allowBroadcastAny := true

/-- The masks given to one of the `allow_` functions: all are inserted, and the
one that stands for everything sets the flag. -/
def allowTo (all : String) (acl : S.acl.T) (masks : List String) : S.acl.T × Bool :=
  (masks.foldl S.acl.insert acl, masks.any (· == all))

/-- `ClientAaa::allow_p2p_to`. -/
def withP2pTo (a : ClientAaa S) (masks : List String) : ClientAaa S :=
  let (acl, any) := allowTo "*" a.allowP2pTo masks
  { a with allowP2pTo := acl, allowP2pAny := any }

/-- `ClientAaa::allow_publish_to`. -/
def withPublishTo (a : ClientAaa S) (masks : List String) : ClientAaa S :=
  let (acl, any) := allowTo "#" a.allowPublishTo masks
  { a with allowPublishTo := acl, allowPublishAny := any }

/-- `ClientAaa::allow_subscribe_to`. -/
def withSubscribeTo (a : ClientAaa S) (masks : List String) : ClientAaa S :=
  let (acl, any) := allowTo "#" a.allowSubscribeTo masks
  { a with allowSubscribeTo := acl, allowSubscribeAny := any }

/-- `ClientAaa::allow_broadcast_to`. -/
def withBroadcastTo (a : ClientAaa S) (masks : List String) : ClientAaa S :=
  let (acl, any) := allowTo "*" a.allowBroadcastTo masks
  { a with allowBroadcastTo := acl, allowBroadcastAny := any }

end ClientAaa

/-- The check of one of the access lists; without rules everything is allowed. -/
def allowed (aaa : Option (ClientAaa S)) (any : ClientAaa S → Bool) (acl : ClientAaa S → S.acl.T)
    (s : String) : Bool :=
  match aaa with
  | some a => any a || S.acl.isMatch (acl a) s
  | none => true

/-! ### Acts -/

/-- What is done with the result of a delivery: nothing (`let _r`), or an
acknowledgement to the sender if its quality of service asks for one. -/
inductive Reply
  | none
  | ack (c : BrokerClient) (n : ℕ) (opId : List UInt8) (qos : QoS)
  deriving DecidableEq, Repr

/-- What the core client does under both locks: `announce`, and the forms of
`send_fifo_cmd`, which publish, broadcast or send (a notification and a call
with a header). -/
inductive CoreJob
  | announce (event : BrokerEvent)
  | fan (op : BrokerDb.FanOp) (payload : List UInt8)
  | send (target : String) (header : Option (List UInt8)) (payload : List UInt8)
  deriving DecidableEq, Repr

/-- What a task does next. -/
inductive Act
  /-- `send_ack!` of the operation `n`. -/
  | ack (c : BrokerClient) (n : ℕ) (opId : List UInt8) (code : UInt8) (realtime : Bool)
  /-- The critical section of a subscribe frame. -/
  | subscribe (c : BrokerClient) (topics : List String)
  | unsubscribe (c : BrokerClient) (topics : List String)
  /-- `complete` says that the loop over the topics got to its end. -/
  | exclude (c : BrokerClient) (topics : List String) (complete : Bool)
  | unexclude (c : BrokerClient) (topics : List String) (complete : Bool)
  /-- `send!`: look the target up. -/
  | send (target : String) (frame : Frame) (timeout : Bool) (reply : Reply)
  /-- `send_broadcast!`, `publish!`: choose the recipients. -/
  | fan (op : BrokerDb.FanOp) (frame : Frame) (timeout : Bool)
  /-- `safe_send_frame!`: look at the queue. -/
  | safeSend (tgt : BrokerClient) (frame : Frame) (timeout : Bool) (reply : Reply)
  /-- `tx.send(frame).await`, under a timeout or not. -/
  | put (tgt : BrokerClient) (frame : Frame) (timeout : Bool) (reply : Reply)
  /-- `tx.close()`, and the result of the forced unregistration. -/
  | close (tgt : BrokerClient) (reply : Reply)
  /-- `BrokerDb::unregister_client`. -/
  | unregister (c : BrokerClient)
  /-- The drop of a `Client`. -/
  | drop (c : BrokerClient)
  /-- `rpc_client.lock().await`, and the lock of the client in it. -/
  | lockRpc
  | lockCore
  | unlockRpc
  | unlockCore
  /-- With the lock of `rpc_client` taken: what the core client is to do, if there
  is one. -/
  | withCore (job : CoreJob)
  /-- An error leaves the function. -/
  | exit (e : ErrorKind)
  deriving DecidableEq, Repr

/-- An acknowledgement, if it is asked for. -/
def ackIf (c : BrokerClient) (n : ℕ) (opId : List UInt8) (qos : QoS) (code : UInt8) : List Act :=
  if qos.needsAck then [.ack c n opId code qos.isRealtime] else []

/-- The acts a result leads to. -/
def Reply.acts : Reply → Except ErrorKind Unit → List Act
  | .none, _ => []
  | .ack c n opId qos, .ok () => ackIf c n opId qos RESPONSE_OK
  | .ack c n opId qos, .error e => ackIf c n opId qos e.code

/-! ### The plan of a frame -/

/-- A frame as read: the id, the operation, the quality of service, the body. -/
structure Request where
  opId : List UInt8
  op : FrameOp
  qos : QoS
  buf : List UInt8
  opId_length : opId.length = 4
  deriving DecidableEq, Repr

/-- A request whose id is a small number. -/
def Request.numbered (id : UInt8) (op : FrameOp) (qos : QoS) (buf : List UInt8) : Request :=
  ⟨[id, 0, 0, 0], op, qos, buf, rfl⟩

/-- The topics of a body, up to the first that is no text, and whether it got to
the end. -/
def topicsOf : List (List UInt8) → List String × Bool
  | [] => ([], true)
  | t :: ts =>
    match fromUtf8 t with
    | .error _ => ([], false)
    | .ok topic => (topic :: (topicsOf ts).1, (topicsOf ts).2)

/-- Target, and the payload's position, of the other operations' bodies. -/
def targetOf (buf : List UInt8) : Except ErrorKind (String × ℕ) :=
  match fromUtf8 (splitZero buf).1, (splitZero buf).2 with
  | .error e, _ => .error e
  | .ok _, none => .error .data
  | .ok target, some _ => .ok (target, (splitZero buf).1.length + 1)

section Plan

variable (aaa : Option (ClientAaa S)) (c : BrokerClient) (n : ℕ) (r : Request)

/-- The ends of a loop over topics: the acknowledgement, or the error. -/
def finishTopics (complete : Bool) : List Act :=
  if complete then ackIf c n r.opId r.qos RESPONSE_OK else [.exit .data]

/-- The frame that goes out. -/
def Request.frame (kind : FrameKind) (topic : Option String) (payloadPos : ℕ) : Frame :=
  ⟨.op c n, ⟨kind, some c.name, topic, none, r.buf, payloadPos, r.qos.isRealtime⟩⟩

/-- The frame an operation sends, if it is one that does: a message, a broadcast
or a publication. -/
def Request.outgoing : Option Frame :=
  match targetOf r.buf with
  | .error _ => none
  | .ok (target, pos) =>
    match r.op with
    | .message => some (r.frame c n .message none pos)
    | .broadcast => some (r.frame c n .broadcast none pos)
    | .publishTopic => some (r.frame c n .publish (some target) pos)
    | .publishTopicFor =>
      match targetOf (r.buf.drop pos) with
      | .error _ => none
      | .ok (_, pos') => some (r.frame c n .publish (some target) (pos + pos'))
    | _ => none

/-- An operation that needs a right: its acts, or the refusal. -/
def guarded (ok : Bool) (acts : List Act) : List Act :=
  if ok then acts else ackIf c n r.opId r.qos ErrorKind.access.code

/-- The acts of one frame: the branches of `handle_reader`. -/
def plan : List Act :=
  match r.op with
  | .subscribeTopic =>
    let (ts, complete) := topicsOf (splitZeros r.buf)
    let ok := allowed aaa (·.allowSubscribeAny) (·.allowSubscribeTo)
    let denied :=
      (ts.filter fun t => !ok t).flatMap fun _ => ackIf c n r.opId r.qos ErrorKind.access.code
    if complete then denied ++ .subscribe c (ts.filter ok) :: finishTopics c n r true
    else denied ++ finishTopics c n r false
  | .excludeTopic =>
    let (ts, complete) := topicsOf (splitZeros r.buf)
    .exclude c ts complete :: finishTopics c n r complete
  | .unexcludeTopic =>
    let (ts, complete) := topicsOf (splitZeros r.buf)
    .unexclude c ts complete :: finishTopics c n r complete
  | .unsubscribeTopic =>
    let (ts, complete) := topicsOf (splitZeros r.buf)
    .unsubscribe c ts :: finishTopics c n r complete
  | op =>
    match targetOf r.buf with
    | .error e => [.exit e]
    | .ok (target, payloadPos) =>
      match op with
      | .message =>
        guarded c n r (allowed aaa (·.allowP2pAny) (·.allowP2pTo) target)
          [.send target (r.frame c n .message none payloadPos) true (.ack c n r.opId r.qos)]
      | .broadcast =>
        guarded c n r (allowed aaa (·.allowBroadcastAny) (·.allowBroadcastTo) target)
          (.fan (.broadcast target) (r.frame c n .broadcast none payloadPos) true ::
            ackIf c n r.opId r.qos RESPONSE_OK)
      | .publishTopic =>
        guarded c n r (allowed aaa (·.allowPublishAny) (·.allowPublishTo) target)
          (.fan (.publish target) (r.frame c n .publish (some target) payloadPos) true ::
            ackIf c n r.opId r.qos RESPONSE_OK)
      | .publishTopicFor =>
        match targetOf (r.buf.drop payloadPos) with
        | .error e => [.exit e]
        | .ok (receiver, pos) =>
          guarded c n r (allowed aaa (·.allowPublishAny) (·.allowPublishTo) target)
            (.fan (.publishFor target receiver)
              (r.frame c n .publish (some target) (payloadPos + pos)) true ::
              ackIf c n r.opId r.qos RESPONSE_OK)
      | _ => []

theorem mem_ackIf {a : Act} {opId : List UInt8} {qos : QoS} {code : UInt8}
    (h : a ∈ ackIf c n opId qos code) :
    a = .ack c n opId code qos.isRealtime ∧ qos.needsAck = true := by
  unfold ackIf at h
  split at h
  · exact ⟨List.mem_singleton.mp h, ‹_›⟩
  · cases h

/-- A result leads to nothing but the acknowledgement of what it is a result of. -/
theorem mem_reply {reply : Reply} {res : Except ErrorKind Unit} {b : Act}
    (hb : b ∈ reply.acts res) :
    ∃ c n opId qos code, reply = .ack c n opId qos ∧ b = .ack c n opId code qos.isRealtime ∧
      qos.needsAck = true := by
  cases reply with
  | none => cases hb
  | ack c n opId qos =>
    cases res with
    | ok _ =>
      obtain ⟨rfl, hq⟩ := mem_ackIf c n hb
      exact ⟨c, n, opId, qos, _, rfl, rfl, hq⟩
    | error e =>
      obtain ⟨rfl, hq⟩ := mem_ackIf c n hb
      exact ⟨c, n, opId, qos, _, rfl, rfl, hq⟩

/-- The acts a frame may lead to. -/
inductive Planned : Act → Prop
  | ack (code : UInt8) (hq : r.qos.needsAck = true) :
      Planned (.ack c n r.opId code r.qos.isRealtime)
  | exit (e : ErrorKind) : Planned (.exit e)
  | subscribe (hop : r.op = .subscribeTopic) :
      Planned (.subscribe c ((topicsOf (splitZeros r.buf)).1.filter
        (allowed aaa (·.allowSubscribeAny) (·.allowSubscribeTo))))
  | unsubscribe (ts : List String) : Planned (.unsubscribe c ts)
  | exclude (ts : List String) (complete : Bool) : Planned (.exclude c ts complete)
  | unexclude (ts : List String) (complete : Bool) : Planned (.unexclude c ts complete)
  | send (target : String) (pos : ℕ) (hop : r.op = .message)
      (ht : targetOf r.buf = .ok (target, pos)) :
      Planned (.send target (r.frame c n .message none pos) true (.ack c n r.opId r.qos))
  | broadcast (target : String) (pos : ℕ) (hop : r.op = .broadcast)
      (ht : targetOf r.buf = .ok (target, pos))
      (ha : allowed aaa (·.allowBroadcastAny) (·.allowBroadcastTo) target = true) :
      Planned (.fan (.broadcast target) (r.frame c n .broadcast none pos) true)
  | publish (topic : String) (pos : ℕ) (hop : r.op = .publishTopic)
      (ht : targetOf r.buf = .ok (topic, pos)) :
      Planned (.fan (.publish topic) (r.frame c n .publish (some topic) pos) true)
  | publishFor (topic receiver : String) (pos pos' : ℕ) (hop : r.op = .publishTopicFor)
      (ht : targetOf r.buf = .ok (topic, pos))
      (ht' : targetOf (r.buf.drop pos) = .ok (receiver, pos')) :
      Planned (.fan (.publishFor topic receiver)
        (r.frame c n .publish (some topic) (pos + pos')) true)

variable {aaa c n r}

theorem planned_ackIf {a : Act} {code : UInt8} (h : a ∈ ackIf c n r.opId r.qos code) :
    Planned aaa c n r a := by
  obtain ⟨rfl, hq⟩ := mem_ackIf c n h
  exact .ack code hq

theorem planned_finishTopics {a : Act} {complete : Bool} (h : a ∈ finishTopics c n r complete) :
    Planned aaa c n r a := by
  unfold finishTopics at h
  split at h
  · exact planned_ackIf h
  · rw [List.mem_singleton.mp h]; exact .exit _

theorem planned_guarded {a b : Act} {ok : Bool} (hb : ok = true → Planned aaa c n r b)
    (h : a ∈ guarded c n r ok (b :: ackIf c n r.opId r.qos RESPONSE_OK)) : Planned aaa c n r a := by
  unfold guarded at h
  split at h
  · rcases List.mem_cons.mp h with rfl | h
    · exact hb ‹_›
    · exact planned_ackIf h
  · exact planned_ackIf h

theorem planned_of_mem {a : Act} (h : a ∈ plan aaa c n r) : Planned aaa c n r a := by
  unfold plan at h
  split at h
  · rename_i hop
    have hden : ∀ l : List String, a ∈
        l.flatMap (fun _ => ackIf c n r.opId r.qos ErrorKind.access.code) →
        Planned aaa c n r a := fun l hl => by
      obtain ⟨-, -, hl⟩ := List.mem_flatMap.mp hl
      exact planned_ackIf hl
    simp only at h
    split at h
    · rcases List.mem_append.mp h with h | h
      · exact hden _ h
      · rcases List.mem_cons.mp h with rfl | h
        · exact .subscribe hop
        · exact planned_finishTopics h
    · rcases List.mem_append.mp h with h | h
      · exact hden _ h
      · exact planned_finishTopics h
  · rcases List.mem_cons.mp h with rfl | h
    · exact .exclude _ _
    · exact planned_finishTopics h
  · rcases List.mem_cons.mp h with rfl | h
    · exact .unexclude _ _
    · exact planned_finishTopics h
  · rcases List.mem_cons.mp h with rfl | h
    · exact .unsubscribe _
    · exact planned_finishTopics h
  · split at h
    · rw [List.mem_singleton.mp h]; exact .exit _
    · rename_i target pos ht
      split at h
      · rename_i hop
        unfold guarded at h
        split at h
        · rw [List.mem_singleton.mp h]; exact .send _ _ hop ht
        · exact planned_ackIf h
      · rename_i hop
        exact planned_guarded (fun ha => .broadcast target pos hop ht ha) h
      · rename_i hop
        exact planned_guarded (fun _ => .publish target pos hop ht) h
      · rename_i hop
        split at h
        · rw [List.mem_singleton.mp h]; exact .exit _
        · rename_i ht'
          exact planned_guarded (fun _ => .publishFor target _ _ _ hop ht ht') h
      · cases h

/-- The plan of a message. -/
theorem plan_message (aaa : Option (ClientAaa S)) (c : BrokerClient) (n : ℕ)
    (hop : r.op = .message) :
    (∃ e, plan aaa c n r = [.exit e]) ∨
    plan aaa c n r = ackIf c n r.opId r.qos ErrorKind.access.code ∨
    ∃ target f, plan aaa c n r = [.send target f true (.ack c n r.opId r.qos)] := by
  unfold plan
  simp only [hop]
  split
  · exact .inl ⟨_, rfl⟩
  · unfold guarded
    split
    · exact .inr (.inr ⟨_, _, rfl⟩)
    · exact .inr (.inl rfl)

end Plan

end Busrt
