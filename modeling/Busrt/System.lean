/-
# The broker as a system of tasks

Every connection, and every call of the broker's API, is a task: a list of
acts it has left to do. A step of the system lets one task do its first act,
lets a reader take the next frame from its peer, lets a receiver take a frame
from its queue, ends a connection, or starts a task. Nothing is assumed of the
order of the steps, so a run of the system (`Run step`) is any interleaving of
its tasks.

An act that has to wait has no step: a `put` into a full queue, a lock that
somebody holds. A registration and a drop are one act each (what happens
inside of them is the subject of `Teardown`).

Key definitions: `Task`, `Sys`, `exec`, `Label`, `step`, `Effect`, `Sys.All`.
Key theorems: `effect_of_steps`, `Sys.Ok.step`, `Sys.All.step`.
-/
import Busrt.Reader
import Busrt.Lib.Run

namespace Busrt

open Lib BrokerDb

variable {S : Submap}

/-- A task's name. -/
abbrev Tid := ℕ

/-- A connection: its client, the frames read so far, and whether its reader goes
on. -/
structure Conn where
  client : BrokerClient
  decoded : List Request
  reading : Bool
  deriving DecidableEq, Repr

/-- A task: the connection it serves, if it is one's, and what it has left to do. -/
structure Task where
  conn : Option Conn
  todo : List Act
  deriving DecidableEq, Repr

/-- The state: the registry and the queues, who holds the two locks of an
announcement, and the tasks. -/
structure Sys (S : Submap) where
  db : BrokerDb S
  rpcLock : Option Tid
  coreLock : Option Tid
  task : Tid → Option Task

namespace Sys

/-- A broker that was just made. -/
def init (S : Submap) (forceRegister brokerRpc : Bool) (queueSize : ℕ+) : Sys S where
  db := BrokerDb.empty S forceRegister brokerRpc queueSize
  rpcLock := none
  coreLock := none
  task _ := none

def setTask (s : Sys S) (t : Tid) (k : Task) : Sys S :=
  { s with task := Function.update s.task t (some k) }

end Sys

/-! ### What an act does -/

/-- What the acts of a task leave to others: the order in which a set is
iterated, the bytes of an announcement, and whether a wait has timed out. -/
structure Choice where
  iter : List BrokerClient → List BrokerClient
  iter_perm : ∀ l, (iter l).Perm l
  payload : List UInt8
  expired : Bool

/-- A set in the order of its list, and no timeouts. -/
def Choice.plain : Choice := ⟨id, fun _ => .refl _, [], false⟩

/-- An act's outcome: the acts it leads to, or the end of the function. -/
inductive Next
  | acts (l : List Act)
  | exit (e : ErrorKind)
  deriving DecidableEq, Repr

/-- `announce`, where the feature is there. -/
def announceActs (db : BrokerDb S) (event : BrokerEvent) : List Act :=
  if db.brokerRpc then [.lockRpc, .withCore (.announce event)] else []

theorem mem_announceActs {db : BrokerDb S} {event : BrokerEvent} {b : Act}
    (hb : b ∈ announceActs db event) :
    b = .lockRpc ∨ b = .withCore (.announce event) := by
  unfold announceActs at hb
  split at hb
  · simpa using hb
  · cases hb

/-- A frame made on the broker's side. -/
def localFrame (kind : FrameKind) (c : BrokerClient) (topic : Option String)
    (header : Option (List UInt8)) (payload : List UInt8) (qos : QoS) : Frame :=
  ⟨.broker, ⟨kind, some c.name, topic, header, payload, 0, qos.isRealtime⟩⟩

/-- The core client's job, without a timeout. -/
def CoreJob.act (core : BrokerClient) (payload : List UInt8) : CoreJob → Act
  | .announce event =>
    .fan (.publish event.topic) (localFrame .publish core (some event.topic) none payload .no) false
  | .fan op payload => .fan op (localFrame op.kind core op.topic none payload .no) false
  | .send target header payload =>
    .send target (localFrame .message core none header payload .no) false .none

/-- `tx.send(frame).await`: nothing while the queue is full, unless a timeout
expires. -/
def execPut (ch : Choice) (db : BrokerDb S) (tgt : BrokerClient) (frame : Frame) (timeout : Bool)
    (done : Except ErrorKind Unit → Next) : Option (BrokerDb S × Next) :=
  let tx := (db.cell tgt).tx
  if tx.closed then some (db, done (.error .eof))
  else if tx.isFull then if timeout && ch.expired then some (db, .exit .timeout) else none
  else some (db.setTx tgt (·.push frame), done (.ok ()))

/-- The frame of `send_ack!`. -/
def ackFrame (c : BrokerClient) (n : ℕ) (opId : List UInt8) (code : UInt8) (realtime : Bool) :
    Frame :=
  ⟨.ack c n, ⟨.prepared, none, none, none, OP_ACK :: opId ++ [code], 0, realtime⟩⟩

/-- The acts on the registry and the queues. -/
def execDb (ch : Choice) (db : BrokerDb S) : Act → Option (BrokerDb S × Next)
  | .ack c n opId code realtime =>
    -- `send_ack!` has no timeout, and its `?` ends the reader
    execPut ch db c (ackFrame c n opId code realtime) false fun
      | .ok () => .acts []
      | .error e => .exit e
  | .subscribe c topics =>
    some ({ db with
      subscriptions := topics.foldl (fun m t => (S.sub.subscribe m t c).1) db.subscriptions },
      .acts [])
  | .unsubscribe c topics =>
    some ({ db with
      subscriptions := topics.foldl (fun m t => (S.sub.unsubscribe m t c).1) db.subscriptions },
      .acts [])
  | .exclude c topics complete =>
    some (db.setCell c fun x => { x with
      exclusions := topics.foldl S.acl.insert x.exclusions
      hasExclusions := if complete && !topics.isEmpty then true else x.hasExclusions }, .acts [])
  | .unexclude c topics complete =>
    some (db.setCell c fun x =>
      let exclusions := topics.foldl S.acl.remove x.exclusions
      { x with
        exclusions := exclusions
        hasExclusions :=
          if complete && S.acl.isEmpty exclusions then false else x.hasExclusions }, .acts [])
  | .send target frame timeout reply =>
    match db.lookup target with
    | some tgt => some (db, .acts [.safeSend tgt frame timeout reply])
    | none => some (db, .acts (reply.acts (.error .notRegistered)))
  | .fan op frame timeout =>
    some (db, .acts ((ch.iter (db.recipients op)).map fun tgt => .safeSend tgt frame timeout .none))
  | .safeSend tgt frame timeout reply =>
    if (db.cell tgt).tx.isFull then
      if tgt.kind = .internal then some (db, .acts [.put tgt frame timeout reply])
      else some (db, .acts [.unregister tgt, .close tgt reply])
    else some (db, .acts [.put tgt frame false reply])
  | .put tgt frame timeout reply => execPut ch db tgt frame timeout fun r => .acts (reply.acts r)
  | .close tgt reply => some (db.closeTx tgt, .acts (reply.acts (.error .notDelivered)))
  | .unregister c =>
    let announced := c.primary && (db.cell c).registered
    let db := db.dropClient c
    some (db, .acts (if announced then announceActs db (BrokerEvent.unreg c.name) else []))
  | .drop c => some (db.dropClient c, .acts [])
  | .withCore job =>
    some (db, .acts (match db.core with
      | some core => [.lockCore, job.act core ch.payload, .unlockCore, .unlockRpc]
      | none => [.unlockRpc]))
  | .exit e => some (db, .exit e)
  | .lockRpc => none
  | .lockCore => none
  | .unlockRpc => none
  | .unlockCore => none

/-- An act of the task `t`. -/
def exec (ch : Choice) (t : Tid) (s : Sys S) : Act → Option (Sys S × Next)
  | .lockRpc => if s.rpcLock = none then some ({ s with rpcLock := some t }, .acts []) else none
  | .lockCore => if s.coreLock = none then some ({ s with coreLock := some t }, .acts []) else none
  | .unlockRpc => some ({ s with rpcLock := none }, .acts [])
  | .unlockCore => some ({ s with coreLock := none }, .acts [])
  | a => (execDb ch s.db a).map fun (db, next) => ({ s with db := db }, next)

/-! ### Entry points -/

/-- The calls of the broker's side that are not connections. A `Client` is an
internal client's handle. -/
inductive Entry
  /-- A `Client`'s call that sends, without a timeout. -/
  | send (c : BrokerClient) (target : String) (header : Option (List UInt8))
      (payload : List UInt8) (qos : QoS)
  | fan (c : BrokerClient) (op : BrokerDb.FanOp) (payload : List UInt8) (qos : QoS)
  /-- A `Client`'s call that changes what it gets. -/
  | subscribe (c : BrokerClient) (topics : List String)
  | unsubscribe (c : BrokerClient) (topics : List String)
  | exclude (c : BrokerClient) (topics : List String)
  | unexclude (c : BrokerClient) (topics : List String)
  /-- `Broker::unregister_client`, the drop of a `Client`. -/
  | unregister (c : BrokerClient)
  | drop (c : BrokerClient)
  /-- `Broker::announce`, of a shutdown too, and `send_fifo_cmd`. -/
  | withCore (job : CoreJob)
  /-- The reply of the core client's RPC processor. -/
  | rpcReply (core : BrokerClient) (target : String) (header : Option (List UInt8))
      (payload : List UInt8) (qos : QoS)
  deriving DecidableEq, Repr

/-- The acts of a call. -/
def Entry.acts : Entry → List Act
  | .send c target header payload qos =>
    [.send target (localFrame .message c none header payload qos) false .none]
  | .fan c op payload qos => [.fan op (localFrame op.kind c op.topic none payload qos) false]
  | .subscribe c topics => [.subscribe c topics]
  | .unsubscribe c topics => [.unsubscribe c topics]
  | .exclude c topics => [.exclude c topics true]
  | .unexclude c topics => [.unexclude c topics true]
  | .unregister c => [.unregister c]
  | .drop c => [.drop c]
  | .withCore job => [.lockRpc, .withCore job]
  | .rpcReply core target header payload qos =>
    [.lockCore, .send target (localFrame .message core none header payload qos) false
      .none, .unlockCore]

/-- The handle a call is made through. -/
def Entry.client : Entry → Option BrokerClient
  | .send c .. | .fan c .. | .subscribe c _ | .unsubscribe c _ | .exclude c _ | .unexclude c _
  | .unregister c | .drop c | .rpcReply c .. => some c
  | .withCore _ => none

/-- A handle is there: its client was made, and it is internal. -/
def Entry.valid (db : BrokerDb S) (e : Entry) : Bool :=
  e.client.all fun c => c.kind == .internal && decide (c.id < db.nextId)

/-- The acts a call may lead to. -/
inductive EntryAct (e : Entry) : Act → Prop
  | send (c : BrokerClient) (target : String) (header : Option (List UInt8))
      (payload : List UInt8) (qos : QoS) :
      EntryAct e (.send target (localFrame .message c none header payload qos) false .none)
  | fan (c : BrokerClient) (op : BrokerDb.FanOp) (payload : List UInt8) (qos : QoS) :
      EntryAct e (.fan op (localFrame op.kind c op.topic none payload qos) false)
  | subscribe (c : BrokerClient) (topics : List String) (hc : e.client = some c) :
      EntryAct e (.subscribe c topics)
  | unsubscribe (c : BrokerClient) (topics : List String) : EntryAct e (.unsubscribe c topics)
  | exclude (c : BrokerClient) (topics : List String) : EntryAct e (.exclude c topics true)
  | unexclude (c : BrokerClient) (topics : List String) : EntryAct e (.unexclude c topics true)
  | unregister (c : BrokerClient) : EntryAct e (.unregister c)
  | drop (c : BrokerClient) : EntryAct e (.drop c)
  | lockRpc : EntryAct e .lockRpc
  | withCore (job : CoreJob) : EntryAct e (.withCore job)
  | lockCore : EntryAct e .lockCore
  | unlockCore : EntryAct e .unlockCore

theorem entryAct_of_mem {e : Entry} {b : Act} (hb : b ∈ e.acts) : EntryAct e b := by
  cases e <;> simp only [Entry.acts, List.mem_cons, List.not_mem_nil, or_false] at hb
  case withCore job => obtain rfl | rfl := hb; exacts [.lockRpc, .withCore job]
  case rpcReply c target header payload qos =>
    obtain rfl | rfl | rfl := hb
    · exact .lockCore
    · exact .send c target header payload qos
    · exact .unlockCore
  all_goals subst hb
  case send c target header payload qos => exact .send c target header payload qos
  case fan c op payload qos => exact .fan c op payload qos
  case subscribe c topics => exact .subscribe c topics rfl
  case unsubscribe c topics => exact .unsubscribe c topics
  case exclude c topics => exact .exclude c topics
  case unexclude c topics => exact .unexclude c topics
  case unregister c => exact .unregister c
  case drop c => exact .drop c

/-! ### Steps -/

/-- The steps of the system. -/
inductive Label
  /-- A connection or `Broker::register_client` registers a new client. -/
  | connect (t : Tid) (name : String) (kind : BusRtClientKind) (source port : Option String)
  /-- `set_core_rpc_client`. -/
  | setCore (c : BrokerClient)
  | spawn (t : Tid) (e : Entry)
  /-- A reader gets the next frame of its peer. -/
  | decode (t : Tid) (r : Request)
  /-- A task does its first act. -/
  | act (t : Tid) (ch : Choice)
  /-- The connection ends: the reader or another of its futures returned, or it
  was told to. -/
  | finish (t : Tid)
  /-- The receiver of a client takes a frame: the writer of a connection, or the
  owner of an internal client. -/
  | recv (c : BrokerClient)
  /-- The pinger of a connection. -/
  | ping (c : BrokerClient)

/-- The end of a connection: the locks its task holds are free, and its client is
unregistered. -/
def Sys.finish (s : Sys S) (t : Tid) (k : Conn) : Sys S :=
  { s with
    rpcLock := if s.rpcLock = some t then none else s.rpcLock
    coreLock := if s.coreLock = some t then none else s.coreLock
    task := Function.update s.task t
      (some ⟨some { k with reading := false }, [.unregister k.client]⟩) }

/-- The task of a client that was just registered: a connection's, or a call's. -/
def newTask (db : BrokerDb S) (c : BrokerClient) : Task where
  conn := if c.isExternal then some ⟨c, [], true⟩ else none
  todo := if c.primary then announceActs db (BrokerEvent.reg c.name) else []

/-- A connection or a call of `Broker::register_client`, up to the registration. -/
def connect (s : Sys S) (t : Tid) (name : String) (kind : BusRtClientKind)
    (source port : Option String) :
    Sys S :=
  let (c, db) := s.db.alloc name kind source port
  match db.registerClient c with
  | (db, .ok ()) => { s with db := db }.setTask t (newTask db c)
  | (db, .error _) => { s with db := db }

/-- The first act of a task. -/
def act (s : Sys S) (t : Tid) (ch : Choice) : Option (Sys S) :=
  match s.task t with
  | some ⟨conn, a :: rest⟩ =>
    match exec ch t s a, conn with
    | some (s, .acts l), _ => some (s.setTask t ⟨conn, l ++ rest⟩)
    | some (s, .exit _), some k => some (s.finish t k)
    | _, _ => none
  | _ => none

/-- A reader gets the next frame of its peer. -/
def decode (rules : BrokerClient → Option (ClientAaa S)) (s : Sys S) (t : Tid) (r : Request) :
    Option (Sys S) :=
  match s.task t with
  | some ⟨some k, []⟩ =>
    if k.reading then
      some (s.setTask t ⟨some { k with decoded := k.decoded ++ [r] },
        plan (rules k.client) k.client k.decoded.length r⟩)
    else none
  | _ => none

/-- One step, if it is possible. `rules` are the access rules `handle_peer` finds
for a client when it connects. -/
def step (rules : BrokerClient → Option (ClientAaa S)) (s : Sys S) : Label → Option (Sys S)
  | .connect t name kind source port =>
    if (s.task t).isNone then some (connect s t name kind source port) else none
  | .setCore c =>
    if s.rpcLock = none ∧ c.kind = .internal ∧ c.id < s.db.nextId then
      some { s with db := { s.db with core := some c } }
    else none
  | .spawn t e =>
    if (s.task t).isNone && e.valid s.db then some (s.setTask t ⟨none, e.acts⟩) else none
  | .decode t r => decode rules s t r
  | .act t ch => act s t ch
  | .finish t =>
    match s.task t with
    | some ⟨some k, _⟩ => if k.reading then some (s.finish t k) else none
    | _ => none
  | .recv c => some { s with db := s.db.setTx c Chan.recv }
  | .ping c =>
    if (s.db.cell c).tx.isFull || (s.db.cell c).tx.closed then none
    else some { s with db := s.db.setTx c (·.push ⟨.broker, FrameData.newNop⟩) }

/-- The steps as a relation. -/
def Steps (rules : BrokerClient → Option (ClientAaa S)) (s : Sys S) (l : Label) (s' : Sys S) :
    Prop :=
  step rules s l = some s'

/-! ### What the steps change -/

section Cases

variable {rules : BrokerClient → Option (ClientAaa S)} {s s' : Sys S} {ch : Choice} {t : Tid}

@[simp] theorem setTask_db (t : Tid) (k : Task) : (s.setTask t k).db = s.db := rfl

theorem setTask_task (t u : Tid) (k : Task) :
    (s.setTask t k).task u = if u = t then some k else s.task u := by
  simp [Sys.setTask, Function.update_apply]

/-- A task does its first act, or its connection ends there. -/
theorem act_cases (h : act s t ch = some s') : ∃ conn a rest s₁ next,
    s.task t = some ⟨conn, a :: rest⟩ ∧ exec ch t s a = some (s₁, next) ∧
    ((∃ l, next = .acts l ∧ s' = s₁.setTask t ⟨conn, l ++ rest⟩) ∨
      ∃ e k, next = .exit e ∧ conn = some k ∧ s' = s₁.finish t k) := by
  unfold act at h
  split at h
  · rename_i conn a rest ht
    rcases he : exec ch t s a with _ | ⟨s₁, l | e⟩
    · simp [he] at h
    · simp only [he, Option.some.injEq] at h
      exact ⟨conn, a, rest, s₁, _, ht, he, .inl ⟨l, rfl, h.symm⟩⟩
    · rcases conn with _ | k
      · simp [he] at h
      · simp only [he, Option.some.injEq] at h
        exact ⟨_, a, rest, s₁, _, ht, he, .inr ⟨e, k, rfl, rfl, h.symm⟩⟩
  · cases h

theorem decode_cases {r : Request} (h : decode rules s t r = some s') : ∃ k,
    s.task t = some ⟨some k, []⟩ ∧ k.reading = true ∧
    s' = s.setTask t ⟨some { k with decoded := k.decoded ++ [r] },
      plan (rules k.client) k.client k.decoded.length r⟩ := by
  unfold decode at h
  split at h
  · rename_i k ht
    split at h
    · exact ⟨k, ht, ‹_›, (Option.some.inj h).symm⟩
    · cases h
  · cases h

/-- Everything a put can do: find the queue closed, run out of time, or put. -/
theorem execPut_cases {db db' : BrokerDb S} {tgt : BrokerClient} {f : Frame} {timeout : Bool}
    {done : Except ErrorKind Unit → Next} {next : Next}
    (h : execPut ch db tgt f timeout done = some (db', next)) :
    (db' = db ∧ next = done (.error .eof)) ∨ (db' = db ∧ next = .exit .timeout) ∨
    ((db.cell tgt).tx.isFull = false ∧ (db.cell tgt).tx.closed = false ∧
      db' = db.setTx tgt (·.push f) ∧ next = done (.ok ())) := by
  unfold execPut at h
  simp only at h
  split at h
  · obtain ⟨rfl, rfl⟩ := Prod.mk.inj (Option.some.inj h)
    exact .inl ⟨rfl, rfl⟩
  · rename_i hc
    split at h
    · split at h
      · obtain ⟨rfl, rfl⟩ := Prod.mk.inj (Option.some.inj h)
        exact .inr (.inl ⟨rfl, rfl⟩)
      · cases h
    · rename_i hf
      obtain ⟨rfl, rfl⟩ := Prod.mk.inj (Option.some.inj h)
      exact .inr (.inr ⟨by simpa using hf, by simpa using hc, rfl, rfl⟩)

/-- The queues: an act puts no frame, or one. -/
def Puts (db db' : BrokerDb S) (tgt : BrokerClient) (f : Frame) : Prop :=
  ∀ c, (db'.cell c).tx.put = if c = tgt then (db.cell c).tx.put ++ [f] else (db.cell c).tx.put

theorem puts_push {db : BrokerDb S} {tgt : BrokerClient} {f : Frame}
    (hf : (db.cell tgt).tx.isFull = false) :
    Puts db (db.setTx tgt (·.push f)) tgt f := by
  intro c
  rw [setTx_tx]
  split
  · rename_i hc; rw [hc, Chan.put_push hf]
  · rfl

theorem setCell_put {db : BrokerDb S} {c : BrokerClient} {f : ClientCell S → ClientCell S}
    (hf : ∀ x, (f x).tx.put = x.tx.put) (d : BrokerClient) :
    ((db.setCell c f).cell d).tx.put = (db.cell d).tx.put := by
  rw [setCell_cell]
  split
  · rename_i hd; rw [hf, hd]
  · rfl

/-- What an act does to the queues, and where the frame comes from. -/
theorem execDb_put {db db' : BrokerDb S} {a : Act} {next : Next}
    (h : execDb ch db a = some (db', next)) :
    (∀ c, (db'.cell c).tx.put = (db.cell c).tx.put) ∨
    (∃ tgt f timeout reply, a = .put tgt f timeout reply ∧ next = .acts (reply.acts (.ok ())) ∧
      Puts db db' tgt f) ∨
    (∃ c n opId code realtime, a = .ack c n opId code realtime ∧ next = .acts [] ∧
      Puts db db' c (ackFrame c n opId code realtime)) := by
  have hsame : ∀ {x y : BrokerDb S × Next}, some x = some y →
      (∀ c, (x.1.cell c).tx.put = (db.cell c).tx.put) →
      ∀ c, (y.1.cell c).tx.put = (db.cell c).tx.put := fun hxy hx => Option.some.inj hxy ▸ hx
  cases a with
  | ack c n opId code realtime =>
    rw [execDb] at h
    rcases execPut_cases h with ⟨rfl, -⟩ | ⟨rfl, -⟩ | ⟨hf, -, rfl, rfl⟩
    · exact .inl fun _ => rfl
    · exact .inl fun _ => rfl
    · exact .inr (.inr ⟨c, n, opId, code, realtime, rfl, rfl, puts_push hf⟩)
  | put tgt f timeout reply =>
    rw [execDb] at h
    rcases execPut_cases h with ⟨rfl, -⟩ | ⟨rfl, -⟩ | ⟨hf, -, rfl, rfl⟩
    · exact .inl fun _ => rfl
    · exact .inl fun _ => rfl
    · exact .inr (.inl ⟨tgt, f, timeout, reply, rfl, rfl, puts_push hf⟩)
  | subscribe c topics => exact .inl (hsame h fun _ => rfl)
  | unsubscribe c topics => exact .inl (hsame h fun _ => rfl)
  | exclude c topics complete =>
    obtain ⟨rfl, -⟩ := Prod.mk.inj (Option.some.inj h)
    exact .inl (setCell_put fun _ => rfl)
  | unexclude c topics complete =>
    obtain ⟨rfl, -⟩ := Prod.mk.inj (Option.some.inj h)
    exact .inl (setCell_put fun _ => rfl)
  | send target frame timeout reply =>
    rw [execDb] at h
    split at h
    · exact .inl (hsame h fun _ => rfl)
    · exact .inl (hsame h fun _ => rfl)
  | fan op frame timeout => exact .inl (hsame h fun _ => rfl)
  | safeSend tgt frame timeout reply =>
    rw [execDb] at h
    split at h
    · split at h
      · exact .inl (hsame h fun _ => rfl)
      · exact .inl (hsame h fun _ => rfl)
    · exact .inl (hsame h fun _ => rfl)
  | close tgt reply => exact .inl (hsame h fun d => by rw [closeTx, setTx_tx]; split <;> simp_all)
  | unregister c => exact .inl (hsame h fun d => by rw [(Keeps.dropClient db c).tx])
  | drop c => exact .inl (hsame h fun d => by rw [(Keeps.dropClient db c).tx])
  | withCore job => exact .inl (hsame h fun _ => rfl)
  | exit e => exact .inl (hsame h fun _ => rfl)
  | lockRpc => cases h
  | lockCore => cases h
  | unlockRpc => cases h
  | unlockCore => cases h

/-- The acts an act may lead to. -/
inductive Leads (db : BrokerDb S) : Act → Act → Prop
  | found {target f timeout reply tgt} (hl : db.lookup target = some tgt) :
      Leads db (.send target f timeout reply) (.safeSend tgt f timeout reply)
  | recipient {op f timeout tgt} (ht : tgt ∈ db.recipients op) :
      Leads db (.fan op f timeout) (.safeSend tgt f timeout .none)
  | room {tgt f timeout timeout' reply} :
      Leads db (.safeSend tgt f timeout reply) (.put tgt f timeout' reply)
  | full {tgt f timeout reply} : Leads db (.safeSend tgt f timeout reply) (.unregister tgt)
  | close {tgt f timeout reply} : Leads db (.safeSend tgt f timeout reply) (.close tgt reply)
  | notRegistered {target f timeout reply res b} (hb : b ∈ Reply.acts reply res) :
      Leads db (.send target f timeout reply) b
  | put {tgt f timeout reply res b} (hb : b ∈ Reply.acts reply res) :
      Leads db (.put tgt f timeout reply) b
  | closed {tgt reply res b} (hb : b ∈ Reply.acts reply res) : Leads db (.close tgt reply) b
  | announce {c db' event b} (hb : b ∈ announceActs (S := S) db' event) : Leads db (.unregister c) b
  | core {job core payload} : Leads db (.withCore job) (job.act core payload)
  | locks {job b} (hb : b = .lockCore ∨ b = .unlockCore ∨ b = .unlockRpc) :
      Leads db (.withCore job) b

theorem leads_of_execDb {db db' : BrokerDb S} {a : Act} {acts : List Act}
    (h : execDb ch db a = some (db', .acts acts)) : ∀ b ∈ acts, Leads db a b := by
  cases a with
  | ack c n opId code realtime =>
    intro b hb
    rw [execDb] at h
    rcases execPut_cases h with ⟨-, hn⟩ | ⟨-, hn⟩ | ⟨-, -, -, hn⟩
    · cases hn
    · cases hn
    · cases hn; cases hb
  | put tgt f timeout reply =>
    intro b hb
    rw [execDb] at h
    rcases execPut_cases h with ⟨-, hn⟩ | ⟨-, hn⟩ | ⟨-, -, -, hn⟩
    · cases hn; exact .put hb
    · cases hn
    · cases hn; exact .put hb
  | subscribe | unsubscribe | exclude | unexclude | drop => cases h; intro b hb; cases hb
  | send target f timeout reply =>
    rw [execDb] at h
    split at h
    · cases h
      intro b hb
      rw [List.mem_singleton.mp hb]
      exact .found ‹_›
    · cases h
      exact fun b hb => .notRegistered hb
  | fan op f timeout =>
    cases h
    intro b hb
    obtain ⟨tgt, ht, rfl⟩ := List.mem_map.mp hb
    exact .recipient ((ch.iter_perm _).mem_iff.mp ht)
  | safeSend tgt f timeout reply =>
    rw [execDb] at h
    split at h
    · split at h
      · cases h
        intro b hb
        rw [List.mem_singleton.mp hb]
        exact .room
      · cases h
        intro b hb
        rcases List.mem_cons.mp hb with rfl | hb
        · exact .full
        · rw [List.mem_singleton.mp hb]; exact .close
    · cases h
      intro b hb
      rw [List.mem_singleton.mp hb]
      exact .room
  | close tgt reply => cases h; exact fun b hb => .closed hb
  | unregister c =>
    cases h
    intro b hb
    split at hb
    · exact .announce hb
    · cases hb
  | withCore job =>
    cases h
    intro b hb
    split at hb
    · simp only [List.mem_cons, List.not_mem_nil, or_false] at hb
      rcases hb with rfl | rfl | rfl | rfl
      · exact .locks (.inl rfl)
      · exact .core
      · exact .locks (.inr (.inl rfl))
      · exact .locks (.inr (.inr rfl))
    · rw [List.mem_singleton.mp hb]; exact .locks (.inr (.inr rfl))
  | exit e => cases h
  | lockRpc | lockCore | unlockRpc | unlockCore => cases h

/-- Everything an act other than a lock's does is done on the registry and the
queues. -/
theorem exec_cases {a : Act} {s₁ : Sys S} {next : Next} (h : exec ch t s a = some (s₁, next)) :
    (∃ db, execDb ch s.db a = some (db, next) ∧ s₁ = { s with db := db }) ∨
    (next = .acts [] ∧ ((a = .lockRpc ∧ s.rpcLock = none ∧ s₁ = { s with rpcLock := some t }) ∨
      (a = .lockCore ∧ s.coreLock = none ∧ s₁ = { s with coreLock := some t }) ∨
      (a = .unlockRpc ∧ s₁ = { s with rpcLock := none }) ∨
      (a = .unlockCore ∧ s₁ = { s with coreLock := none }))) := by
  have hdb : ∀ {a : Act}, (execDb ch s.db a).map
      (fun x : BrokerDb S × Next => ({ s with db := x.1 }, x.2)) =
      some (s₁, next) → ∃ db, execDb ch s.db a = some (db, next) ∧ s₁ = { s with db := db } := by
    intro a h
    obtain ⟨⟨db, nx⟩, hx, he⟩ := Option.map_eq_some_iff.mp h
    obtain ⟨rfl, rfl⟩ := Prod.mk.inj he
    exact ⟨db, hx, rfl⟩
  cases a with
  | lockRpc =>
    rw [exec] at h
    split at h
    · obtain ⟨rfl, rfl⟩ := Prod.mk.inj (Option.some.inj h)
      exact .inr ⟨rfl, .inl ⟨rfl, ‹_›, rfl⟩⟩
    · cases h
  | lockCore =>
    rw [exec] at h
    split at h
    · obtain ⟨rfl, rfl⟩ := Prod.mk.inj (Option.some.inj h)
      exact .inr ⟨rfl, .inr (.inl ⟨rfl, ‹_›, rfl⟩)⟩
    · cases h
  | unlockRpc =>
    obtain ⟨rfl, rfl⟩ := Prod.mk.inj (Option.some.inj h)
    exact .inr ⟨rfl, .inr (.inr (.inl ⟨rfl, rfl⟩))⟩
  | unlockCore =>
    obtain ⟨rfl, rfl⟩ := Prod.mk.inj (Option.some.inj h)
    exact .inr ⟨rfl, .inr (.inr (.inr ⟨rfl, rfl⟩))⟩
  | ack | subscribe | unsubscribe | exclude | unexclude | send | fan | safeSend | put | close
  | unregister | drop | withCore | exit => exact .inl (hdb h)

/-- A list of topics, subscribed or unsubscribed: whether a name is known stays. -/
theorem held_foldl_isSome {f : S.sub.T → String → S.sub.T}
    (hf : ∀ m t k, (S.sub.held (f m t) k).isSome = (S.sub.held m k).isSome) :
    ∀ (topics : List String) (m : S.sub.T) (k : S.Key),
      (S.sub.held (topics.foldl f m) k).isSome = (S.sub.held m k).isSome
  | [], _, _ => rfl
  | t :: topics, m, k => (held_foldl_isSome hf topics (f m t) k).trans (hf m t k)

theorem held_subscribe_isSome (c : BrokerClient) (m : S.sub.T) (t : String) (k : S.Key) :
    (S.sub.held (S.sub.subscribe m t c).1 k).isSome = (S.sub.held m k).isSome := by
  by_cases hk : k = S.key c
  · subst hk; rw [Submap.key, S.sub.held_subscribe, Option.isSome_map]
  · rw [S.sub.held_subscribe_ne _ _ _ _ hk]

theorem held_unsubscribe_isSome (c : BrokerClient) (m : S.sub.T) (t : String) (k : S.Key) :
    (S.sub.held (S.sub.unsubscribe m t c).1 k).isSome = (S.sub.held m k).isSome := by
  by_cases hk : k = S.key c
  · subst hk; rw [Submap.key, S.sub.held_unsubscribe, Option.isSome_map]
  · rw [S.sub.held_unsubscribe_ne _ _ _ _ hk]

/-- A change of the topics alone. -/
theorem BrokerDb.Inv.setSubscriptions {db : BrokerDb S} (h : Inv db) {m : S.sub.T}
    (hm : ∀ k, (S.sub.held m k).isSome = (S.sub.held db.subscriptions k).isSome) :
    Inv { db with subscriptions := m } where
  name_eq := h.name_eq
  registered_iff := h.registered_iff
  broadcasts_eq := h.broadcasts_eq
  subscriptions_iff n := (hm _).trans (h.subscriptions_iff n)
  primary_mem := h.primary_mem
  mem_secondaries := h.mem_secondaries
  secondaries_nodup := h.secondaries_nodup
  fresh := h.fresh

/-- Nothing of the registry is changed: only queues and exclusions. -/
structure SameRegistry (db db' : BrokerDb S) : Prop where
  clients : db'.clients = db.clients
  broadcasts : db'.broadcasts = db.broadcasts
  subscriptions : db'.subscriptions = db.subscriptions
  registered : ∀ c, (db'.cell c).registered = (db.cell c).registered
  secondaries : ∀ c, (db'.cell c).secondaries = (db.cell c).secondaries
  nextId : db'.nextId = db.nextId

namespace SameRegistry

theorem refl (db : BrokerDb S) :
    SameRegistry db db := ⟨rfl, rfl, rfl, fun _ => rfl, fun _ => rfl, rfl⟩

theorem setCell (db : BrokerDb S) (c : BrokerClient) {f : ClientCell S → ClientCell S}
    (hr : ∀ x, (f x).registered = x.registered) (hs : ∀ x, (f x).secondaries = x.secondaries) :
    SameRegistry db (db.setCell c f) := by
  refine ⟨rfl, rfl, rfl, fun d => ?_, fun d => ?_, rfl⟩
  · rw [setCell_cell]; split
    · rename_i hd; rw [hr, hd]
    · rfl
  · rw [setCell_cell]; split
    · rename_i hd; rw [hs, hd]
    · rfl

theorem setTx (db : BrokerDb S) (c : BrokerClient) (f : Chan Frame → Chan Frame) :
    SameRegistry db (db.setTx c f) :=
  setCell db c (fun _ => rfl) fun _ => rfl

theorem lookup {db db' : BrokerDb S} (h : SameRegistry db db') (n : String) :
    db'.lookup n = db.lookup n := by
  rw [BrokerDb.lookup, h.clients]; rfl

theorem inv {db db' : BrokerDb S} (h : SameRegistry db db') (hI : Inv db) : Inv db' :=
  hI.of_eq h.lookup h.registered h.secondaries h.broadcasts h.subscriptions h.nextId.ge

end SameRegistry

/-- The acts on the map of subscriptions. -/
def Act.onTopics : Act → Bool
  | .subscribe _ _ | .unsubscribe _ _ => true
  | _ => false

/-- What an act does to the registry: nothing, the topics of a frame, or a drop. -/
inductive DbEffect (db : BrokerDb S) : Act → BrokerDb S → Prop
  | same {a db'} (ha : a.onTopics = false) (h : SameRegistry db db') : DbEffect db a db'
  | subscribe {c topics} : DbEffect db (.subscribe c topics)
      { db with
        subscriptions := topics.foldl (fun m t => (S.sub.subscribe m t c).1) db.subscriptions }
  | unsubscribe {c topics} : DbEffect db (.unsubscribe c topics)
      { db with
        subscriptions := topics.foldl (fun m t => (S.sub.unsubscribe m t c).1) db.subscriptions }
  | unregister {c} : DbEffect db (.unregister c) (db.dropClient c)
  | drop {c} : DbEffect db (.drop c) (db.dropClient c)

theorem effect_of_execDb {db db' : BrokerDb S} {a : Act} {next : Next}
    (h : execDb ch db a = some (db', next)) :
    DbEffect db a db' := by
  have hput : ∀ {tgt f timeout done}, execPut ch db tgt f timeout done = some (db', next) →
      a.onTopics = false → DbEffect db a db' := by
    intro tgt f timeout done h ha
    rcases execPut_cases h with ⟨rfl, -⟩ | ⟨rfl, -⟩ | ⟨-, -, rfl, -⟩
    · exact .same ha (.refl _)
    · exact .same ha (.refl _)
    · exact .same ha (.setTx db tgt _)
  have hsame : ∀ {x}, some (db, x) = some (db', next) → a.onTopics = false →
      DbEffect db a db' := fun hx ha => by
    obtain ⟨rfl, -⟩ := Prod.mk.inj (Option.some.inj hx)
    exact .same ha (.refl _)
  cases a with
  | ack c n opId code realtime => rw [execDb] at h; exact hput h rfl
  | put tgt f timeout reply => rw [execDb] at h; exact hput h rfl
  | subscribe c topics => obtain ⟨rfl, -⟩ := Prod.mk.inj (Option.some.inj h); exact .subscribe
  | unsubscribe c topics => obtain ⟨rfl, -⟩ := Prod.mk.inj (Option.some.inj h); exact .unsubscribe
  | exclude c topics complete =>
    obtain ⟨rfl, -⟩ := Prod.mk.inj (Option.some.inj h)
    exact .same rfl (.setCell db c (fun _ => rfl) fun _ => rfl)
  | unexclude c topics complete =>
    obtain ⟨rfl, -⟩ := Prod.mk.inj (Option.some.inj h)
    exact .same rfl (.setCell db c (fun _ => rfl) fun _ => rfl)
  | send target frame timeout reply =>
    rw [execDb] at h
    split at h
    · exact hsame h rfl
    · exact hsame h rfl
  | fan op frame timeout => exact hsame h rfl
  | safeSend tgt frame timeout reply =>
    rw [execDb] at h
    split at h
    · split at h
      · exact hsame h rfl
      · exact hsame h rfl
    · exact hsame h rfl
  | close tgt reply =>
    obtain ⟨rfl, -⟩ := Prod.mk.inj (Option.some.inj h)
    exact .same rfl (.setTx db tgt Chan.close)
  | unregister c => obtain ⟨rfl, -⟩ := Prod.mk.inj (Option.some.inj h); exact .unregister
  | drop c => obtain ⟨rfl, -⟩ := Prod.mk.inj (Option.some.inj h); exact .drop
  | withCore job => exact hsame h rfl
  | exit e => exact hsame h rfl
  | lockRpc | lockCore | unlockRpc | unlockCore => cases h

/-- No act breaks the registry's invariant, or makes a client. -/
theorem execDb_inv {db db' : BrokerDb S} {a : Act} {next : Next} (hI : Inv db)
    (h : execDb ch db a = some (db', next)) : Inv db' ∧ db'.nextId = db.nextId := by
  cases effect_of_execDb h with
  | same _ hs => exact ⟨hs.inv hI, hs.nextId⟩
  | @subscribe c topics =>
    exact ⟨hI.setSubscriptions (held_foldl_isSome (held_subscribe_isSome c) topics _), rfl⟩
  | @unsubscribe c topics =>
    exact ⟨hI.setSubscriptions (held_foldl_isSome (held_unsubscribe_isSome c) topics _), rfl⟩
  | unregister => exact ⟨hI.dropClient _, dropClient_nextId hI _⟩
  | drop => exact ⟨hI.dropClient _, dropClient_nextId hI _⟩

end Cases

/-! ### The connections -/

namespace Sys

/-- The connection a task serves. -/
def connOf (s : Sys S) (t : Tid) : Option Conn := (s.task t).bind (·.conn)

theorem connOf_setTask (s : Sys S) (t u : Tid) (k : Task) :
    (s.setTask t k).connOf u = if u = t then k.conn else s.connOf u := by
  rw [connOf, setTask_task]
  split
  · rfl
  · rfl

theorem connOf_of_task {s : Sys S} {t : Tid} {k : Task} (h : s.task t = some k) :
    s.connOf t = k.conn := by
  rw [connOf, h]; rfl

theorem connOf_finish (s : Sys S) (t u : Tid) (k : Conn) :
    (s.finish t k).connOf u = if u = t then some { k with reading := false } else s.connOf u := by
  simp only [connOf, finish, Function.update_apply]
  split
  · rfl
  · rfl

/-- The registry is consistent, and every connection has a client of its own. -/
structure Ok (s : Sys S) : Prop where
  inv : Inv s.db
  fresh : ∀ t k, s.connOf t = some k → k.client.id < s.db.nextId
  external : ∀ t k, s.connOf t = some k → k.client.isExternal = true
  inj : ∀ t u k k', s.connOf t = some k → s.connOf u = some k' → k.client = k'.client → t = u

theorem ok_init (forceRegister brokerRpc : Bool) (queueSize : ℕ+) :
    Ok (init S forceRegister brokerRpc queueSize) where
  inv := inv_empty ..
  fresh t k h := by simp [init, connOf] at h
  external t k h := by simp [init, connOf] at h
  inj t u k k' h := by simp [init, connOf] at h

/-- A step that makes no connection keeps the clients of all of them. -/
theorem Ok.of_client {s s' : Sys S} (h : Ok s) (hI : Inv s'.db) (hn : s.db.nextId ≤ s'.db.nextId)
    (hc : ∀ t k, s'.connOf t = some k → ∃ k₀, s.connOf t = some k₀ ∧ k₀.client = k.client) :
    Ok s' where
  inv := hI
  fresh t k hk := by
    obtain ⟨k₀, h0, he⟩ := hc t k hk
    rw [← he]; exact (h.fresh t k₀ h0).trans_le hn
  external t k hk := by
    obtain ⟨k₀, h0, he⟩ := hc t k hk
    rw [← he]; exact h.external t k₀ h0
  inj t u k k' hk hk' he := by
    obtain ⟨k₀, h0, he0⟩ := hc t k hk
    obtain ⟨k₁, h1, he1⟩ := hc u k' hk'
    exact h.inj t u k₀ k₁ h0 h1 (by rw [he0, he, he1])

end Sys

section Connect

variable {s : Sys S}

/-- The client a connection makes. -/
def newClient (s : Sys S) (name : String) (kind : BusRtClientKind) (source port : Option String) :
    BrokerClient := ⟨s.db.nextId, name, kind, source, port⟩

/-- The registry with the client made, before it is registered. -/
def allocated (s : Sys S) (name : String) (kind : BusRtClientKind) (source port : Option String) :
    BrokerDb S :=
  (s.db.alloc name kind source port).2

/-- Everything a connection can do: join, or leave nothing but a client nobody
has. -/
theorem connect_cases (s : Sys S) (t : Tid) (name : String) (kind : BusRtClientKind)
    (source port : Option String) :
    let c := newClient s name kind source port
    let db := allocated s name kind source port
    (∃ db', db.registerClient c = (db', .ok ()) ∧ connect s t name kind source port =
      { s with db := db' }.setTask t (newTask db' c)) ∨
    (∃ db' e, db.registerClient c = (db', .error e) ∧
      connect s t name kind source port = { s with db := db' }) := by
  intro c db
  rcases hr : db.registerClient c with ⟨db', e | _⟩
  · refine .inr ⟨db', e, rfl, ?_⟩
    change (match db.registerClient c with | (db, .ok ()) => _ | (db, .error _) => _) = _
    rw [hr]
  · refine .inl ⟨db', rfl, ?_⟩
    change (match db.registerClient c with | (db, .ok ()) => _ | (db, .error _) => _) = _
    rw [hr]
    rfl

theorem inv_allocated (h : Inv s.db) (name : String) (kind : BusRtClientKind)
    (source port : Option String) :
    Inv (allocated s name kind source port) := Op.inv_alloc h ..

/-- A connection's registration, accepted or not. -/
theorem inv_registered (h : Inv s.db) {name : String} {kind : BusRtClientKind}
    {source port : Option String} {db' : BrokerDb S} {res : Except Error Unit}
    (hr : (allocated s name kind source port).registerClient
      (newClient s name kind source port) = (db', res)) :
    Inv db' ∧ db'.nextId = s.db.nextId + 1 := by
  have hI := inv_allocated h name kind source port
  have hreg :=
    hI.registerClient (c := newClient s name kind source port) (Nat.lt_succ_self s.db.nextId)
  have hn := registerClient_nextId hI (newClient s name kind source port)
  rw [hr] at hreg hn
  exact ⟨hreg, hn⟩

end Connect

section Ok

variable {rules : BrokerClient → Option (ClientAaa S)} {s s' : Sys S} {ch : Choice} {t : Tid}

theorem exec_task {a : Act} {s₁ : Sys S} {next : Next} (h : exec ch t s a = some (s₁, next)) :
    s₁.task = s.task := by
  rcases exec_cases h with ⟨db, -, rfl⟩ |
    ⟨-, ⟨-, -, rfl⟩ | ⟨-, -, rfl⟩ | ⟨-, rfl⟩ | ⟨-, rfl⟩⟩ <;> rfl

theorem exec_inv {a : Act} {s₁ : Sys S} {next : Next} (hI : Inv s.db)
    (h : exec ch t s a = some (s₁, next)) :
    Inv s₁.db ∧ s₁.db.nextId = s.db.nextId := by
  rcases exec_cases h with ⟨db, hdb, rfl⟩ | ⟨-, ⟨-, -, rfl⟩ | ⟨-, -, rfl⟩ | ⟨-, rfl⟩ | ⟨-, rfl⟩⟩
  · exact execDb_inv hI hdb
  all_goals exact ⟨hI, rfl⟩

/-- Everything a step can do. -/
inductive Effect (rules : BrokerClient → Option (ClientAaa S)) (s : Sys S) : Label → Sys S → Prop
  | connect {t name kind source port db'} (ht : s.task t = none)
      (hr : (allocated s name kind source port).registerClient (newClient s name kind source port) =
        (db', .ok ())) :
      Effect rules s (.connect t name kind source port)
        ({ s with db := db' }.setTask t (newTask db' (newClient s name kind source port)))
  | refuse {t name kind source port db' e}
      (hr : (allocated s name kind source port).registerClient (newClient s name kind source port) =
        (db', .error e)) :
      Effect rules s (.connect t name kind source port) { s with db := db' }
  | setCore {c} (hl : s.rpcLock = none) :
      Effect rules s (.setCore c) { s with db := { s.db with core := some c } }
  | spawn {t e} (ht : s.task t = none) (hv : e.valid s.db = true) :
      Effect rules s (.spawn t e) (s.setTask t ⟨none, e.acts⟩)
  | decode {t r k} (ht : s.task t = some ⟨some k, []⟩) (hk : k.reading = true) :
      Effect rules s (.decode t r) (s.setTask t ⟨some { k with decoded := k.decoded ++ [r] },
        plan (rules k.client) k.client k.decoded.length r⟩)
  | act {t ch conn a rest s₁ l} (ht : s.task t = some ⟨conn, a :: rest⟩)
      (he : exec ch t s a = some (s₁, .acts l)) :
      Effect rules s (.act t ch) (s₁.setTask t ⟨conn, l ++ rest⟩)
  | exit {t ch k a rest s₁ e} (ht : s.task t = some ⟨some k, a :: rest⟩)
      (he : exec ch t s a = some (s₁, .exit e)) : Effect rules s (.act t ch) (s₁.finish t k)
  | finish {t k rest} (ht : s.task t = some ⟨some k, rest⟩) (hk : k.reading = true) :
      Effect rules s (.finish t) (s.finish t k)
  | recv {c} : Effect rules s (.recv c) { s with db := s.db.setTx c Chan.recv }
  | ping {c} (hf : (s.db.cell c).tx.isFull = false) (hc : (s.db.cell c).tx.closed = false) :
      Effect rules s (.ping c) { s with db := s.db.setTx c (·.push ⟨.broker, FrameData.newNop⟩) }

/-- A step has one of the effects. -/
theorem effect_of_steps {l : Label} (hs : Steps rules s l s') : Effect rules s l s' := by
  rw [Steps] at hs
  cases l with
  | connect t name kind source port =>
    rw [step] at hs
    split at hs
    · rename_i ht
      obtain rfl := Option.some.inj hs
      rcases connect_cases s t name kind source port with ⟨db', he, hc⟩ | ⟨db', e, he, hc⟩
      · rw [hc]; exact .connect (Option.isNone_iff_eq_none.mp ht) he
      · rw [hc]; exact .refuse he
    · cases hs
  | setCore c =>
    rw [step] at hs
    split at hs
    · rename_i hc
      obtain rfl := Option.some.inj hs
      exact .setCore hc.1
    · cases hs
  | spawn t e =>
    rw [step] at hs
    split at hs
    · rename_i hv
      obtain rfl := Option.some.inj hs
      rw [Bool.and_eq_true] at hv
      exact .spawn (Option.isNone_iff_eq_none.mp hv.1) hv.2
    · cases hs
  | decode t r =>
    obtain ⟨k, ht, hk, rfl⟩ := decode_cases hs
    exact .decode ht hk
  | act t ch =>
    obtain ⟨conn, a, rest, s₁, next, ht, he, ⟨l, rfl, rfl⟩ | ⟨e, k, rfl, rfl, rfl⟩⟩ := act_cases hs
    · exact .act ht he
    · exact .exit ht he
  | finish t =>
    rw [step] at hs
    split at hs
    · rename_i k rest ht
      split at hs
      · obtain rfl := Option.some.inj hs
        exact .finish ht ‹_›
      · cases hs
    · cases hs
  | recv c =>
    obtain rfl := Option.some.inj hs
    exact .recv
  | ping c =>
    rw [step] at hs
    split at hs
    · cases hs
    · rename_i hf
      rw [Bool.or_eq_true, not_or] at hf
      obtain rfl := Option.some.inj hs
      exact .ping (by simpa using hf.1) (by simpa using hf.2)

/-- Every step keeps the registry consistent and the connections apart. -/
theorem Sys.Ok.step (h : s.Ok) {l : Label} (hs : Steps rules s l s') : s'.Ok := by
  -- a task whose connection keeps its client
  have hset : ∀ {s₁ : Sys S} {t : Tid} {k : Task}, s₁.task = s.task → Inv s₁.db →
      s₁.db.nextId = s.db.nextId →
      (∀ k', k.conn = some k' → ∃ k₀, s.connOf t = some k₀ ∧ k₀.client = k'.client) →
        (s₁.setTask t k).Ok := by
    intro s₁ t k htask hI hn hk
    refine h.of_client hI hn.ge fun u k' hu => ?_
    rw [Sys.connOf_setTask] at hu
    split at hu
    · rename_i hut; rw [hut]; exact hk k' hu
    · rw [Sys.connOf, htask] at hu; exact ⟨k', hu, rfl⟩
  have hfin : ∀ {s₁ : Sys S} {t : Tid} {k : Conn}, s₁.task = s.task → Inv s₁.db →
      s₁.db.nextId = s.db.nextId →
      s.connOf t = some k → (s₁.finish t k).Ok := by
    intro s₁ t k htask hI hn hk
    refine h.of_client hI hn.ge fun u k' hu => ?_
    rw [Sys.connOf_finish] at hu
    split at hu
    · rename_i hut
      obtain rfl := Option.some.inj hu
      exact ⟨k, by rw [hut]; exact hk, rfl⟩
    · rw [Sys.connOf, htask] at hu; exact ⟨k', hu, rfl⟩
  cases effect_of_steps hs with
  | @connect t name kind source port db' ht hr =>
    obtain ⟨hI, hn⟩ := inv_registered h.inv hr
    have hold : ∀ u k, s.connOf u = some k → k.client ≠ newClient s name kind source port := by
      intro u k hk he
      have := h.fresh u k hk
      rw [he] at this
      exact lt_irrefl _ this
    have hcon : ∀ u k,
        Sys.connOf ({ s with db := db' }.setTask t
          (newTask db' (newClient s name kind source port))) u = some k →
        (u = t ∧ k.client = newClient s name kind source port ∧ k.client.isExternal = true) ∨
        s.connOf u = some k := by
      intro u k hk
      rw [Sys.connOf_setTask] at hk
      split at hk
      · rename_i hu
        left
        simp only [newTask] at hk
        split at hk
        · obtain rfl := Option.some.inj hk
          exact ⟨hu, rfl, ‹_›⟩
        · cases hk
      · exact .inr hk
    refine ⟨hI, fun u k hk => ?_, fun u k hk => ?_, fun u v k k' hk hk' he => ?_⟩
    · refine lt_of_lt_of_eq ?_ hn.symm
      rcases hcon u k hk with ⟨-, hk, -⟩ | hk
      · rw [hk]; exact Nat.lt_succ_self _
      · exact (h.fresh u k hk).trans (Nat.lt_succ_self _)
    · rcases hcon u k hk with ⟨-, -, hx⟩ | hk
      · exact hx
      · exact h.external u k hk
    · rcases hcon u k hk with ⟨hu, hkc, -⟩ | hk <;> rcases hcon v k' hk' with ⟨hv, hkc', -⟩ | hk'
      · rw [hu, hv]
      · exact absurd (he.symm.trans hkc) (hold v k' hk')
      · exact absurd (he.trans hkc') (hold u k hk)
      · exact h.inj u v k k' hk hk' he
  | refuse hr =>
    obtain ⟨hI, hn⟩ := inv_registered h.inv hr
    exact h.of_client hI (hn ▸ Nat.le_succ _) fun u k hk => ⟨k, hk, rfl⟩
  | setCore =>
    exact h.of_client (h.inv.of_eq (fun _ => rfl) (fun _ => rfl)
      (fun _ => rfl) rfl rfl le_rfl) le_rfl
      fun t k hk => ⟨k, hk, rfl⟩
  | spawn => exact hset rfl h.inv rfl nofun
  | decode ht hk =>
    refine hset rfl h.inv rfl fun k' hk' => ⟨_, Sys.connOf_of_task ht, ?_⟩
    obtain rfl := Option.some.inj hk'
    rfl
  | act ht he =>
    obtain ⟨hI, hn⟩ := exec_inv h.inv he
    exact hset (exec_task he) hI hn fun k' hk' =>
      ⟨k', by rw [Sys.connOf_of_task ht]; exact hk', rfl⟩
  | exit ht he =>
    obtain ⟨hI, hn⟩ := exec_inv h.inv he
    exact hfin (exec_task he) hI hn (Sys.connOf_of_task ht)
  | finish ht => exact hfin rfl h.inv rfl (Sys.connOf_of_task ht)
  | recv => exact h.of_client (h.inv.setTx _ _) le_rfl fun t k hk => ⟨k, hk, rfl⟩
  | @ping c hf hc =>
    have hI := h.inv.setTx c (·.push ⟨.broker, FrameData.newNop⟩)
    exact h.of_client hI le_rfl fun t k hk => ⟨k, hk, rfl⟩

theorem exec_exit_put {a : Act} {s₁ : Sys S} {e : ErrorKind}
    (he : exec ch t s a = some (s₁, .exit e)) (b : BrokerClient) :
    (s₁.db.cell b).tx.put = (s.db.cell b).tx.put := by
  rcases exec_cases he with ⟨db, hdb, rfl⟩ | ⟨hn, -⟩
  · rcases execDb_put hdb with hp | ⟨tgt, f, timeout, reply, rfl, hn, hp⟩ |
      ⟨d, n, opId, code, rt, rfl, hn, hp⟩
    · exact hp b
    · cases hn
    · cases hn
  · cases hn

/-- A step as a connection's task sees it: it has nothing to do with it, or makes
it, or it reads, does its first act, or ends. -/
inductive View (rules : BrokerClient → Option (ClientAaa S)) (s s' : Sys S) (l : Label) (u : Tid) :
    Conn → List Act → Prop
  | other {k todo} (ht : s.task u = some ⟨some k, todo⟩) (hl : ∀ ch, l ≠ .act u ch)
      (hr : ∀ r, l ≠ .decode u r) : View rules s s' l u k todo
  | opened {name kind source port db'} (hl : l = .connect u name kind source port)
      (hr : (allocated s name kind source port).registerClient (newClient s name kind source port) =
        (db', .ok ()))
      (hs : s'.db = db') (ht : s.task u = none) :
      View rules s s' l u ⟨newClient s name kind source port, [], true⟩
        (newTask db' (newClient s name kind source port)).todo
  | read {k r} (ht : s.task u = some ⟨some k, []⟩) (hk : k.reading = true) (hl : l = .decode u r)
      (hs : s'.db = s.db) :
      View rules s s' l u { k with decoded := k.decoded ++ [r] }
        (plan (rules k.client) k.client k.decoded.length r)
  | acted {ch k a rest s₁ acts} (ht : s.task u = some ⟨some k, a :: rest⟩) (hl : l = .act u ch)
      (he : exec ch u s a = some (s₁, .acts acts)) (hs : s'.db = s₁.db) :
        View rules s s' l u k (acts ++ rest)
  | ended {k rest} (ht : s.task u = some ⟨some k, rest⟩)
      (hs : ∀ b, (s'.db.cell b).tx.put = (s.db.cell b).tx.put) :
      View rules s s' l u { k with reading := false } [.unregister k.client]

theorem view_of_steps {l : Label} (hs : Steps rules s l s') {u : Tid} {k : Conn} {todo : List Act}
    (hu : s'.task u = some ⟨some k, todo⟩) : View rules s s' l u k todo := by
  have hset : ∀ {s₁ : Sys S} {t : Tid} {k' : Task}, s₁.task = s.task →
      (s₁.setTask t k').task u = some ⟨some k, todo⟩ →
      (u = t ∧ k' = ⟨some k, todo⟩) ∨ (u ≠ t ∧ s.task u = some ⟨some k, todo⟩) := by
    intro s₁ t k' htask h
    rw [setTask_task, htask] at h
    split at h
    · exact .inl ⟨‹_›, Option.some.inj h⟩
    · exact .inr ⟨‹_›, h⟩
  have hfin : ∀ {s₁ : Sys S} {t : Tid} {k' : Conn}, s₁.task = s.task →
      (s₁.finish t k').task u = some ⟨some k, todo⟩ →
      (u = t ∧ k = { k' with reading := false } ∧ todo = [.unregister k'.client]) ∨
      (u ≠ t ∧ s.task u = some ⟨some k, todo⟩) := by
    intro s₁ t k' htask h
    simp only [Sys.finish, Function.update_apply, htask] at h
    split at h
    · simp only [Option.some.injEq, Task.mk.injEq] at h
      exact .inl ⟨‹_›, h.1.symm, h.2.symm⟩
    · exact .inr ⟨‹_›, h⟩
  cases effect_of_steps hs with
  | @connect t name kind source port db' ht hr =>
    rcases hset rfl hu with ⟨rfl, hk⟩ | ⟨hne, hk⟩
    · rw [newTask] at hk
      simp only [Task.mk.injEq] at hk
      obtain ⟨hk, rfl⟩ := hk
      split at hk
      · obtain rfl := Option.some.inj hk
        exact .opened rfl hr rfl ht
      · cases hk
    · exact .other hk nofun nofun
  | spawn ht hv =>
    rcases hset rfl hu with ⟨rfl, hk⟩ | ⟨hne, hk⟩
    · cases hk
    · exact .other hk nofun nofun
  | decode ht hk =>
    rcases hset rfl hu with ⟨rfl, h⟩ | ⟨hne, h⟩
    · simp only [Task.mk.injEq, Option.some.injEq] at h
      obtain ⟨rfl, rfl⟩ := h
      exact .read ht hk rfl rfl
    · exact .other h nofun fun r hl => hne (by cases hl; rfl)
  | act ht he =>
    rcases hset (exec_task he) hu with ⟨rfl, hk⟩ | ⟨hne, hk⟩
    · simp only [Task.mk.injEq] at hk
      obtain ⟨rfl, rfl⟩ := hk
      exact .acted ht rfl he rfl
    · exact .other hk (fun ch hl => hne (by cases hl; rfl)) nofun
  | exit ht he =>
    rcases hfin (exec_task he) hu with ⟨rfl, rfl, rfl⟩ | ⟨hne, hk⟩
    · exact .ended ht fun b => exec_exit_put he b
    · exact .other hk (fun ch hl => hne (by cases hl; rfl)) nofun
  | finish ht hk =>
    rcases hfin rfl hu with ⟨rfl, rfl, rfl⟩ | ⟨hne, hk⟩
    · exact .ended ht fun b => rfl
    · exact .other hk nofun nofun
  | refuse | setCore | recv | ping => exact .other hu nofun nofun

/-- A connection stays with its client, and reads on. -/
theorem Steps.conn {l : Label} (hs : Steps rules s l s') {u : Tid} {k : Conn}
    (hk : s.connOf u = some k) :
    ∃ k', s'.connOf u = some k' ∧ k'.client = k.client ∧ k.decoded <+: k'.decoded := by
  have hset : ∀ {s₁ : Sys S} {t : Tid} {k' : Task}, s₁.task = s.task →
      (u = t → ∃ k₁, k'.conn = some k₁ ∧ k₁.client = k.client ∧ k.decoded <+: k₁.decoded) →
      ∃ k₁, (s₁.setTask t k').connOf u = some k₁ ∧ k₁.client = k.client ∧
        k.decoded <+: k₁.decoded := by
    intro s₁ t k' htask ht
    rw [Sys.connOf_setTask]
    split
    · exact ht ‹_›
    · exact ⟨k, by rw [Sys.connOf, htask]; exact hk, rfl, List.prefix_rfl⟩
  have hnew : ∀ {t : Tid}, s.task t = none → u ≠ t := by
    rintro t ht rfl
    rw [Sys.connOf, ht] at hk
    cases hk
  have hfin : ∀ {s₁ : Sys S} {t : Tid} {k' : Conn}, s₁.task = s.task → s.connOf t = some k' →
      ∃ k₁, (s₁.finish t k').connOf u = some k₁ ∧ k₁.client = k.client ∧
        k.decoded <+: k₁.decoded := by
    intro s₁ t k' htask ht
    rw [Sys.connOf_finish]
    split
    · rename_i hu
      subst hu
      obtain rfl := Option.some.inj (hk.symm.trans ht)
      exact ⟨_, rfl, rfl, List.prefix_rfl⟩
    · exact ⟨k, by rw [Sys.connOf, htask]; exact hk, rfl, List.prefix_rfl⟩
  cases effect_of_steps hs with
  | connect ht => exact hset rfl fun hu => absurd hu (hnew ht)
  | spawn ht => exact hset rfl fun hu => absurd hu (hnew ht)
  | decode ht =>
    refine hset rfl fun hu => ?_
    subst hu
    obtain rfl := Option.some.inj (hk.symm.trans (Sys.connOf_of_task ht))
    exact ⟨_, rfl, rfl, List.prefix_append _ _⟩
  | act ht he =>
    refine hset (exec_task he) fun hu => ?_
    subst hu
    exact ⟨k, (Sys.connOf_of_task ht).symm.trans hk, rfl, List.prefix_rfl⟩
  | exit ht he => exact hfin (exec_task he) (Sys.connOf_of_task ht)
  | finish ht => exact hfin rfl (Sys.connOf_of_task ht)
  | refuse | setCore | recv | ping => exact ⟨k, hk, rfl, List.prefix_rfl⟩

theorem Steps.nextId_le {l : Label} (hs : Steps rules s l s') (hI : Inv s.db) :
    s.db.nextId ≤ s'.db.nextId := by
  cases effect_of_steps hs with
  | connect ht hr => exact (inv_registered hI hr).2 ▸ Nat.le_succ _
  | refuse hr => exact (inv_registered hI hr).2 ▸ Nat.le_succ _
  | act ht he => exact (exec_inv hI he).2.ge
  | exit ht he => exact (exec_inv hI he).2.ge
  | setCore | spawn | decode | finish | recv | ping => exact le_rfl

end Ok

/-! ### Where a subscription comes from -/

theorem recorded_foldl_subscribe {c d : BrokerClient} {k : S.Key} {mask : String} :
    ∀ (topics : List String) (m : S.sub.T),
      S.Recorded (topics.foldl (fun m t => (S.sub.subscribe m t c).1) m) k mask d →
        S.Recorded m k mask d ∨ (mask ∈ topics ∧ d = c)
  | [], _, h => .inl h
  | t :: topics, m, h => by
    rcases recorded_foldl_subscribe topics _ h with h | ⟨ht, hd⟩
    · rcases Submap.recorded_of_subscribe h with h | ⟨rfl, hd⟩
      · exact .inl h
      · exact .inr ⟨List.mem_cons_self, hd⟩
    · exact .inr ⟨List.mem_cons_of_mem _ ht, hd⟩

theorem recorded_foldl_unsubscribe {c d : BrokerClient} {k : S.Key} {mask : String} :
    ∀ (topics : List String) (m : S.sub.T),
      S.Recorded (topics.foldl (fun m t => (S.sub.unsubscribe m t c).1) m) k mask d →
        S.Recorded m k mask d
  | [], _, h => h
  | _ :: topics, _, h => Submap.recorded_of_unsubscribe (recorded_foldl_unsubscribe topics _ h)

/-- Only the act of a subscribe frame adds to what is recorded. -/
theorem execDb_recorded {ch : Choice}
    {db db' : BrokerDb S} {a : Act} {next : Next} {d : BrokerClient}
    {k : S.Key} {mask : String} (h : execDb ch db a = some (db', next))
    (hr : S.Recorded db'.subscriptions k mask d) :
    S.Recorded db.subscriptions k mask d ∨ ∃ topics, a = .subscribe d topics ∧ mask ∈ topics := by
  cases effect_of_execDb h with
  | same _ hs => exact .inl (hs.subscriptions ▸ hr)
  | @subscribe c topics =>
    rcases recorded_foldl_subscribe topics _ hr with hr | ⟨hm, rfl⟩
    · exact .inl hr
    · exact .inr ⟨topics, rfl, hm⟩
  | unsubscribe => exact .inl (recorded_foldl_unsubscribe _ _ hr)
  | unregister => exact .inl ((Keeps.dropClient db _).recorded _ _ _ hr)
  | drop => exact .inl ((Keeps.dropClient db _).recorded _ _ _ hr)

/-- A recorded subscription was there, or is the one a new client's registration
makes, or one of a subscribe frame whose act this is. -/
theorem step_recorded {rules : BrokerClient → Option (ClientAaa S)} {s s' : Sys S} {l : Label}
    {d : BrokerClient} {k : S.Key} {mask : String} (hI : Inv s.db) (hs : Steps rules s l s')
    (hr : S.Recorded s'.db.subscriptions k mask d) :
    S.Recorded s.db.subscriptions k mask d ∨ (mask = BROKER_WARN_TOPIC ∧ d.id = s.db.nextId) ∨
    ∃ t ch conn topics rest, l = .act t ch ∧ s.task t = some ⟨conn, .subscribe d topics :: rest⟩ ∧
      mask ∈ topics := by
  have hreg : ∀ {name kind source port db' res}, (allocated s name kind source port).registerClient
      (newClient s name kind source port) = (db', res) → S.Recorded db'.subscriptions k mask d →
      S.Recorded s.db.subscriptions k mask d ∨ (mask = BROKER_WARN_TOPIC ∧ d.id = s.db.nextId) := by
    intro name kind source port db' res he hr
    have hrec : S.Recorded ((allocated s name kind source port).registerClient
        (newClient s name kind source port)).1.subscriptions k mask d := by rw [he]; exact hr
    refine (recorded_of_registerClient (inv_allocated hI name kind source port) hrec).imp_right ?_
    rintro ⟨hm, rfl⟩
    exact ⟨hm, rfl⟩
  have hexec : ∀ {ch t a s₁ next conn rest}, l = .act t ch → s.task t = some ⟨conn, a :: rest⟩ →
      exec ch t s a = some (s₁, next) → S.Recorded s₁.db.subscriptions k mask d →
      S.Recorded s.db.subscriptions k mask d ∨ ∃ t ch conn topics rest, l = .act t ch ∧
        s.task t = some ⟨conn, .subscribe d topics :: rest⟩ ∧ mask ∈ topics := by
    intro ch t a s₁ next conn rest hl ht he hr
    rcases exec_cases he with ⟨db, hdb, rfl⟩ | ⟨-, ⟨-, -, rfl⟩ | ⟨-, -, rfl⟩ | ⟨-, rfl⟩ | ⟨-, rfl⟩⟩
    · rcases execDb_recorded hdb hr with h | ⟨topics, rfl, hm⟩
      · exact .inl h
      · exact .inr ⟨t, ch, conn, topics, rest, hl, ht, hm⟩
    all_goals exact .inl hr
  cases effect_of_steps hs with
  | connect ht he => exact (hreg he hr).imp_right .inl
  | refuse he => exact (hreg he hr).imp_right .inl
  | act ht he => exact (hexec rfl ht he hr).imp_right .inr
  | exit ht he => exact (hexec rfl ht he hr).imp_right .inr
  | setCore | spawn | decode | finish | recv | ping => exact .inl hr

/-! ### Invariants of acts and frames -/

section All

variable {rules : BrokerClient → Option (ClientAaa S)} {s s' : Sys S}

theorem allocated_put (s : Sys S) (name : String) (kind : BusRtClientKind)
    (source port : Option String) (c : BrokerClient) :
    ((allocated s name kind source port).cell c).tx.put =
      if c = newClient s name kind source port then [] else (s.db.cell c).tx.put := by
  change ((s.db.setCell (newClient s name kind source port) fun _ =>
      ClientCell.new S s.db.queueSize).cell c).tx.put = _
  rw [setCell_cell]
  split <;> rfl

/-- A new client has an empty queue, and its registration changes no other. -/
theorem registered_put (h : Inv s.db) {name : String} {kind : BusRtClientKind}
    {source port : Option String} {db' : BrokerDb S} {res : Except Error Unit}
    (hr : (allocated s name kind source port).registerClient
      (newClient s name kind source port) = (db', res))
    (c : BrokerClient) : (db'.cell c).tx.put =
      if c = newClient s name kind source port then [] else (s.db.cell c).tx.put := by
  have htx := registerClient_tx (inv_allocated h name kind source port)
    (newClient s name kind source port) c
  rw [hr] at htx
  rw [← allocated_put]
  exact congrArg _ htx

/-- What was put into a client's queue stays. -/
theorem Steps.put_prefix {l : Label} (hI : Inv s.db) (hs : Steps rules s l s') {b : BrokerClient}
    (hb : b.id < s.db.nextId) : (s.db.cell b).tx.put <+: (s'.db.cell b).tx.put := by
  have hreg : ∀ {name kind source port db' res}, (allocated s name kind source port).registerClient
      (newClient s name kind source port) = (db', res) →
        (s.db.cell b).tx.put <+: (db'.cell b).tx.put := by
    intro name kind source port db' res hr
    rw [registered_put hI hr, if_neg]
    rintro rfl
    exact lt_irrefl _ hb
  have hputs : ∀ {db : BrokerDb S} {tgt : BrokerClient} {f : Frame}, Puts s.db db tgt f →
      (s.db.cell b).tx.put <+: (db.cell b).tx.put := by
    intro db tgt f hp
    rw [hp]
    split
    · exact List.prefix_append _ _
    · exact List.prefix_rfl
  have hexec : ∀ {ch t a s₁ next}, exec ch t s a = some (s₁, next) →
      (s.db.cell b).tx.put <+: (s₁.db.cell b).tx.put := by
    intro ch t a s₁ next he
    rcases exec_cases he with ⟨db, hdb, rfl⟩ | ⟨-, ⟨-, -, rfl⟩ | ⟨-, -, rfl⟩ | ⟨-, rfl⟩ | ⟨-, rfl⟩⟩
    · rcases execDb_put hdb with hp | ⟨tgt, f, timeout, reply, -, -, hp⟩ |
        ⟨d, n, opId, code, rt, -, -, hp⟩
      · rw [hp]
      · exact hputs hp
      · exact hputs hp
    all_goals exact List.prefix_rfl
  cases effect_of_steps hs with
  | connect ht hr => exact hreg hr
  | refuse hr => exact hreg hr
  | act ht he => exact (hexec he :)
  | exit ht he => exact (hexec he :)
  | setCore | spawn | decode | finish => exact List.prefix_rfl
  | @recv c =>
    rw [setTx_tx]
    split
    · rename_i hc; rw [Chan.put_recv, hc]
    · exact List.prefix_rfl
  | ping hf hc => exact hputs (puts_push hf)

/-- Every act left to do is `A`, for its task's connection, and every frame ever
put is `F`. -/
structure Sys.All (A : Option Conn → Act → Prop) (F : BrokerClient → Frame → Prop) (s : Sys S) :
    Prop where
  acts : ∀ t k, s.task t = some k → ∀ a ∈ k.todo, A k.conn a
  frames : ∀ c, ∀ f ∈ (s.db.cell c).tx.put, F c f

/-- What makes a property of acts and frames an invariant: the acts that tasks
start with have it, an act leads to such acts, and puts such frames. -/
structure Closed (rules : BrokerClient → Option (ClientAaa S)) (A : Option Conn → Act → Prop)
    (F : BrokerClient → Frame → Prop) (s : Sys S) (l : Label) : Prop where
  leads : ∀ o a b, A o a → Leads s.db a b → A o b
  put : ∀ t k tgt f timeout reply, s.task t = some k → A k.conn (.put tgt f timeout reply) → F tgt f
  ack : ∀ t k c n opId code realtime, s.task t = some k → A k.conn (.ack c n opId code realtime) →
    F c (ackFrame c n opId code realtime)
  nop : ∀ c, F c ⟨.broker, FrameData.newNop⟩
  unregister : ∀ o c, A o (.unregister c)
  announce : ∀ o name, A o .lockRpc ∧ A o (.withCore (.announce (.reg name)))
  entry : ∀ t e, l = .spawn t e → e.valid s.db = true → ∀ a ∈ e.acts, A none a
  plan : ∀ t r k, l = .decode t r → s.connOf t = some k →
    ∀ a ∈ plan (rules k.client) k.client k.decoded.length r,
      A (some { k with decoded := k.decoded ++ [r] }) a

theorem Sys.all_init {A : Option Conn → Act → Prop} {F : BrokerClient → Frame → Prop}
    (forceRegister brokerRpc : Bool) (queueSize : ℕ+) :
    (Sys.init S forceRegister brokerRpc queueSize).All A F where
  acts t k h := by simp [Sys.init] at h
  frames c f h := by simp [Sys.init, BrokerDb.empty, ClientCell.new] at h

/-- The frames after an act that was `A`. -/
theorem Sys.All.exec_frames {A : Option Conn → Act → Prop} {F : BrokerClient → Frame → Prop}
    {l : Label} {ch : Choice} {t : Tid} {a : Act} {k : Task} {s₁ : Sys S} {next : Next}
    (h : s.All A F) (hc : Closed rules A F s l) (ht : s.task t = some k) (hA : A k.conn a)
    (he : exec ch t s a = some (s₁, next)) :
    ∀ c, ∀ f ∈ (s₁.db.cell c).tx.put, F c f := by
  have hputs : ∀ {db : BrokerDb S} {tgt : BrokerClient} {g : Frame}, Puts s.db db tgt g → F tgt g →
      ∀ c, ∀ f ∈ (db.cell c).tx.put, F c f := by
    intro db tgt g hp hg c f hf
    rw [hp] at hf
    split at hf
    · rename_i hct
      rcases List.mem_append.mp hf with hf | hf
      · exact h.frames c f hf
      · rw [List.mem_singleton.mp hf, hct]; exact hg
    · exact h.frames c f hf
  rcases exec_cases he with ⟨db, hdb, rfl⟩ | ⟨-, ⟨-, -, rfl⟩ | ⟨-, -, rfl⟩ | ⟨-, rfl⟩ | ⟨-, rfl⟩⟩
  · rcases execDb_put hdb with hp | ⟨tgt, g, timeout, reply, rfl, -, hp⟩ |
      ⟨d, n, o', code, rt, rfl, -, hp⟩
    · intro c f hf; rw [hp] at hf; exact h.frames c f hf
    · exact hputs hp (hc.put _ _ _ _ _ _ ht hA)
    · exact hputs hp (hc.ack _ _ _ _ _ _ _ ht hA)
  all_goals exact h.frames

/-- A step keeps what its acts and frames are closed under. -/
theorem Sys.All.step {A : Option Conn → Act → Prop} {F : BrokerClient → Frame → Prop} {l : Label}
    (h : s.All A F) (hI : Inv s.db) (hc : Closed rules A F s l) (hs : Steps rules s l s') :
    s'.All A F := by
  have hset : ∀ {s₁ : Sys S} {t : Tid} {k : Task}, s₁.task = s.task →
      (∀ c, ∀ f ∈ (s₁.db.cell c).tx.put, F c f) → (∀ a ∈ k.todo, A k.conn a) →
        (s₁.setTask t k).All A F := by
    intro s₁ t k htask hF hA
    refine ⟨fun u k' hu => ?_, hF⟩
    rw [setTask_task, htask] at hu
    split at hu
    · obtain rfl := Option.some.inj hu; exact hA
    · exact h.acts u k' hu
  have hfin : ∀ {s₁ : Sys S} {t : Tid} {k : Conn}, s₁.task = s.task →
      (∀ c, ∀ f ∈ (s₁.db.cell c).tx.put, F c f) → (s₁.finish t k).All A F := by
    intro s₁ t k htask hF
    refine ⟨fun u k' hu => ?_, hF⟩
    simp only [Sys.finish, Function.update_apply, htask] at hu
    split at hu
    · obtain rfl := Option.some.inj hu
      intro a ha
      rw [List.mem_singleton.mp ha]
      exact hc.unregister _ _
    · exact h.acts u k' hu
  have hreg : ∀ {name kind source port db' res}, (allocated s name kind source port).registerClient
      (newClient s name kind source port) = (db', res) → ∀ c, ∀ f ∈ (db'.cell c).tx.put, F c f := by
    intro name kind source port db' res hr c f hf
    rw [registered_put hI hr] at hf
    split at hf
    · cases hf
    · exact h.frames c f hf
  cases effect_of_steps hs with
  | connect ht hr =>
    refine hset rfl (hreg hr) fun a ha => ?_
    simp only [newTask] at ha
    split at ha
    · obtain rfl | rfl := mem_announceActs ha
      · exact (hc.announce _ "").1
      · exact (hc.announce _ _).2
    · cases ha
  | refuse hr => exact ⟨h.acts, hreg hr⟩
  | setCore => exact ⟨h.acts, h.frames⟩
  | spawn ht hv => exact hset rfl h.frames (hc.entry _ _ rfl hv)
  | decode ht hk => exact hset rfl h.frames (hc.plan _ _ _ rfl (Sys.connOf_of_task ht))
  | act ht he =>
    have hold := h.acts _ _ ht
    have hA := hold _ List.mem_cons_self
    refine hset (exec_task he) (h.exec_frames hc ht hA he) fun b hb => ?_
    rcases List.mem_append.mp hb with hb | hb
    · rcases exec_cases he with ⟨db, hdb, rfl⟩ | ⟨hn, -⟩
      · exact hc.leads _ _ b hA (leads_of_execDb hdb b hb)
      · rw [Next.acts.injEq] at hn; rw [hn] at hb; cases hb
    · exact hold b (List.mem_cons_of_mem _ hb)
  | exit ht he =>
    exact hfin (exec_task he) (h.exec_frames hc ht (h.acts _ _ ht _ List.mem_cons_self) he)
  | finish ht => exact hfin rfl h.frames
  | @recv c =>
    refine ⟨h.acts, fun d f hf => ?_⟩
    rw [setTx_tx] at hf
    split at hf
    · rename_i hd; rw [Chan.put_recv] at hf; rw [hd]; exact h.frames c f hf
    · exact h.frames d f hf
  | ping hf hc' =>
    refine ⟨h.acts, fun d f hm => ?_⟩
    rw [puts_push hf] at hm
    split at hm
    · rcases List.mem_append.mp hm with hm | hm
      · exact h.frames d f hm
      · rw [List.mem_singleton.mp hm]; exact hc.nop d
    · exact h.frames d f hm

end All

end Busrt
