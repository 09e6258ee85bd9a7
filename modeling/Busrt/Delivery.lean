/-
# Delivery: one frame, many queues

The delivery macros of the broker. `safe_send_frame!` has five exits: the
frame is put, the queue is closed, a full internal queue makes the sender
wait (and the enclosing function return when the wait times out), a full
external queue gets its client unregistered. `send!`, `send_broadcast!` and
`publish!` choose the recipients, the last two loop over them.

Unregistering a primary client announces it, and an announcement is itself a
publication, made by the core client under two locks: an announcement that
unregisters one more primary client waits for locks its own task holds. The
macro is therefore one definition, `safeSendFrame`, over what an announcement
does; `announceHeld` is the announcement inside an announcement, `announce`
the one outside.

What the code does not decide is the environment `Env`: in which order a set
is iterated, whether the receiver of a full queue makes room while a sender
waits, and the bytes of an announcement.

Key definitions: `safeSendFrame`, `fanOut`, `publish`, `sendBroadcast`, `announce`, `recipients`.
-/
import Busrt.Registry

namespace Busrt

open Lib

variable {S : Submap}

/-- `BrokerEvent`; its time is set when it is announced. -/
structure BrokerEvent where
  s : String
  d : Option String
  topic : String
  deriving DecidableEq, Repr

namespace BrokerEvent

def shutdown : BrokerEvent := ⟨"shutdown", none, BROKER_WARN_TOPIC⟩
def reg (name : String) : BrokerEvent := ⟨"reg", some name, BROKER_INFO_TOPIC⟩
def unreg (name : String) : BrokerEvent := ⟨"unreg", some name, BROKER_INFO_TOPIC⟩

end BrokerEvent

/-- What the broker does not decide: the order a set of clients is iterated in,
whether the receiver of a full queue takes an item while a sender waits for
room, and the encoding of an event with its time. -/
structure Env (S : Submap) where
  iter : BrokerDb S → List BrokerClient → List BrokerClient
  iter_perm : ∀ db l, (iter db l).Perm l
  drains : BrokerDb S → BrokerClient → Bool
  payload : BrokerDb S → BrokerEvent → List UInt8

/-- How a task stops before its end: the function returns the error, or the task
waits for ever. -/
inductive Stop
  | exit (e : ErrorKind)
  | hang
  deriving DecidableEq, Repr

namespace BrokerDb

/-! ### The delivery macros -/

/-- `BrokerDb::unregister_client`, over what an announcement does. -/
def unregisterClient (ann : BrokerDb S → BrokerEvent → BrokerDb S × Except Stop Unit)
    (db : BrokerDb S) (c : BrokerClient) : BrokerDb S × Except Stop Unit :=
  let wasRegistered := (db.cell c).registered
  let db := db.dropClient c
  if db.brokerRpc && c.primary && wasRegistered then ann db (BrokerEvent.unreg c.name)
  else (db, .ok ())

/-- `safe_send_frame!`, over what an announcement does; `timeout` says whether
one is given. The inner result is the macro's value, the outer one says whether
the macro's `?` left the function it stands in. -/
def safeSendFrame (ann : BrokerDb S → BrokerEvent → BrokerDb S × Except Stop Unit) (env : Env S)
    (timeout : Bool) (db : BrokerDb S) (tgt : BrokerClient) (frame : Frame) :
    BrokerDb S × Except Stop (Except ErrorKind Unit) :=
  let tx := (db.cell tgt).tx
  if tx.isFull then
    if tgt.kind = .internal then
      if tx.closed then (db, .ok (.error .eof))
      else if env.drains db tgt then (db.setTx tgt (·.sendWait frame), .ok (.ok ()))
      else (db, .error (if timeout then .exit .timeout else .hang))
    else
      match unregisterClient ann db tgt with
      | (db, .ok ()) => (db.closeTx tgt, .ok (.error .notDelivered))
      | (db, .error stop) => (db, .error stop)
  else if tx.closed then (db, .ok (.error .eof))
  else (db.setTx tgt (·.push frame), .ok (.ok ()))

/-- The loop over the recipients in `send_broadcast!` and `publish!`: a result is
dropped, a `?` ends the loop. -/
def fanOut (ann : BrokerDb S → BrokerEvent → BrokerDb S × Except Stop Unit) (env : Env S)
    (timeout : Bool) (frame : Frame) :
    BrokerDb S → List BrokerClient → BrokerDb S × Except Stop Unit
  | db, [] => (db, .ok ())
  | db, sub :: subs =>
    match safeSendFrame ann env timeout db sub frame with
    | (db, .ok _) => fanOut ann env timeout frame db subs
    | (db, .error stop) => (db, .error stop)

/-- The client's exclusions let the topic through. -/
def retains (db : BrokerDb S) (topic : String) (sub : BrokerClient) : Bool :=
  !(db.cell sub).hasExclusions || !S.acl.isMatch (db.cell sub).exclusions topic

/-- The recipients of `publish!`. -/
def subscribers (db : BrokerDb S) (topic : String) : List BrokerClient :=
  (S.sub.getSubscribers db.subscriptions topic).filter (db.retains topic)

/-- The recipients of `publish!` with a receiver. -/
def subscribersFor (db : BrokerDb S) (topic receiver : String) : List BrokerClient :=
  (S.sub.getSubscribers db.subscriptions topic).filter fun sub =>
    sub.primaryName == receiver && db.retains topic sub

section Macros

variable (ann : BrokerDb S → BrokerEvent → BrokerDb S × Except Stop Unit) (env : Env S)
  (timeout : Bool)
  (db : BrokerDb S) (client : BrokerClient) (origin : Origin) (header : Option (List UInt8))
  (buf : List UInt8) (payloadPos : ℕ) (realtime : Bool)

/-- `send!`. -/
def send (target : String) : BrokerDb S × Except Stop (Except ErrorKind Unit) :=
  match db.lookup target with
  | some c => safeSendFrame ann env timeout db c
    ⟨origin, ⟨.message, some client.name, none, header, buf, payloadPos, realtime⟩⟩
  | none => (db, .ok (.error .notRegistered))

/-- `send_broadcast!`. -/
def sendBroadcast (target : String) : BrokerDb S × Except Stop Unit :=
  fanOut ann env timeout ⟨origin,
    ⟨.broadcast, some client.name, none, header, buf, payloadPos, realtime⟩⟩
    db (env.iter db (S.bcast.getClientsByMask db.broadcasts target))

/-- `publish!`. -/
def publish (topic : String) : BrokerDb S × Except Stop Unit :=
  fanOut ann env timeout
    ⟨origin, ⟨.publish, some client.name, some topic, header, buf, payloadPos, realtime⟩⟩
    db (env.iter db (db.subscribers topic))

/-- `publish!` with a receiver. -/
def publishFor (topic receiver : String) : BrokerDb S × Except Stop Unit :=
  fanOut ann env timeout
    ⟨origin, ⟨.publish, some client.name, some topic, header, buf, payloadPos, realtime⟩⟩
    db (env.iter db (db.subscribersFor topic receiver))

end Macros

/-- `announce` by a task that holds the locks of an announcement already: it
waits for itself, unless there is no core client. -/
def announceHeld (db : BrokerDb S) (_ : BrokerEvent) : BrokerDb S × Except Stop Unit :=
  match db.core with
  | some _ => (db, .error .hang)
  | none => (db, .ok ())

/-- `BrokerDb::announce`: the core client publishes the event, without a
timeout. -/
def announce (env : Env S) (db : BrokerDb S) (event : BrokerEvent) :
    BrokerDb S × Except Stop Unit :=
  match db.core with
  | some core =>
    publish announceHeld env false db core .broker none (env.payload db event) 0 false event.topic
  | none => (db, .ok ())

/-- The frames of a reader that go out to a set of recipients. -/
inductive FanOp
  | broadcast (target : String)
  | publish (topic : String)
  | publishFor (topic receiver : String)
  deriving DecidableEq, Repr

/-- The kind and the topic of a frame that goes out to a set. -/
def FanOp.kind : FanOp → FrameKind
  | .broadcast _ => .broadcast
  | _ => .publish

def FanOp.topic : FanOp → Option String
  | .broadcast _ => none
  | .publish t => some t
  | .publishFor t _ => some t

/-- The selected recipients. -/
def recipients (db : BrokerDb S) : FanOp → List BrokerClient
  | .broadcast target => S.bcast.getClientsByMask db.broadcasts target
  | .publish topic => db.subscribers topic
  | .publishFor topic receiver => db.subscribersFor topic receiver

theorem nodup_recipients (db : BrokerDb S) (op : FanOp) : (db.recipients op).Nodup := by
  cases op with
  | broadcast target => exact (S.bcast.nodup_getClientsByMask _ _).of_map _
  | publish topic => exact ((S.sub.nodup_getSubscribers _ _).of_map _).filter _
  | publishFor topic receiver => exact ((S.sub.nodup_getSubscribers _ _).of_map _).filter _

end BrokerDb

end Busrt
