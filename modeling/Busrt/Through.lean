/-
# From one client's socket to another's

What a client sends goes through four parts of the broker: the reader of its
connection takes requests off the bytes that have come, the broker puts frames into
queues, `handle_writer` takes them out of a queue and writes them, and the client at
the other end reads what has got to its socket. Here all of them run at once, for any
number of connections: bytes come in pieces of any size, the tasks of the broker and
the futures of each writer take turns in any order, writes fail and time out.

What a client has read of another's are things that the other has sent, each at most
once and in their order, with its name, kind, topic and payload; and an
acknowledgement that it has read belongs to a request that it has sent, and says what
became of it (`arrives_through`).

Key definitions: `Hub`, `hubStep`, `Sending`, `Telling`.
Key theorems: `HubInv.step`, `telling_outgoing`, `arrives_through`.
-/
import Busrt.Confirm
import Busrt.Bindings
import Busrt.Room
import Busrt.Outlet

namespace Busrt

open Lib BrokerDb

variable {S : Submap}

/-! ### What the receivers have taken -/

section Taken

variable {rules : BrokerClient → Option (ClientAaa S)} {s s' : Sys S}

/-- Only its receiver takes frames out of a queue. -/
theorem Steps.taken {l : Label} (hI : Inv s.db) (hs : Steps rules s l s') {b : BrokerClient}
    (hb : b.id < s.db.nextId) (hl : l ≠ .recv b) :
    (s'.db.cell b).tx.taken = (s.db.cell b).tx.taken := by
  have hexec : ∀ {ch t a s₁ next}, exec ch t s a = some (s₁, next) →
      (s₁.db.cell b).tx.taken = (s.db.cell b).tx.taken := by
    intro ch t a s₁ next he
    cases exec_tx he b with
    | same h => rw [h]
    | put f ha hf ho h => rw [h, Chan.taken_push]
    | close reply ha h => rw [h, Chan.taken_close]
  have hreg : ∀ {name kind source port db' res}, (allocated s name kind source port).registerClient
      (newClient s name kind source port) = (db', res) →
        (db'.cell b).tx.taken = (s.db.cell b).tx.taken := by
    intro name kind source port db' res hr
    rw [Tested.registered_tx hI hr, if_neg]
    rintro rfl
    exact lt_irrefl _ hb
  cases effect_of_steps hs with
  | connect ht hr => exact hreg hr
  | refuse hr => exact hreg hr
  | act ht he => exact (hexec he :)
  | exit ht he => exact (hexec he :)
  | setCore | spawn | decode | finish => rfl
  | @recv c =>
    have hne : b ≠ c := by
      rintro rfl
      exact hl rfl
    rw [setTx_tx, if_neg hne]
  | @ping c hf hc =>
    rw [setTx_tx]
    split
    · rename_i hb
      rw [Chan.taken_push, hb]
    · rfl

end Taken

/-! ### The frames in the queues -/

/-- A frame that carries data, as the broker makes it: like `Data`, but for the zero bytes of
a topic that the broker's own program has chosen. -/
structure Shaped (f : FrameData) : Prop where
  kind : f.kind = .message ∨ f.kind = .broadcast ∨ f.kind = .publish
  sender : f.sender.isSome = true
  topic : f.topic.isSome = decide (f.kind = .publish)
  pos : f.payloadPos ≤ f.buf.length

theorem Data.shaped {f : FrameData} (h : Data f) : Shaped f := ⟨h.kind, h.sender, h.topic, h.pos⟩

theorem Shaped.data {f : FrameData} (h : Shaped f) (ht : ∀ t, f.topic = some t → NulFree t) :
    Data f :=
  ⟨h.kind, h.sender, h.topic, ht, h.pos⟩

/-- The frame an act is about carries data. -/
def Act.Shaped : Act → Prop
  | .send _ f _ _ | .fan _ f _ | .safeSend _ f _ _ | .put _ f _ _ => Busrt.Shaped f.data
  | _ => True

/-- A frame in a queue is an acknowledgement, a ping, or carries data. -/
def Frame.Made (f : Frame) : Prop :=
  (∃ c n, f.origin = .ack c n) ∨ f.data = .newNop ∨ Busrt.Shaped f.data

section Made

variable {rules : BrokerClient → Option (ClientAaa S)} {s s' : Sys S} {l : Label}

theorem shaped_reply {reply : Reply} {res : Except ErrorKind Unit} {b : Act}
    (hb : b ∈ reply.acts res) : b.Shaped := by
  obtain ⟨c, n, opId, qos, code, -, rfl, -⟩ := mem_reply hb
  trivial

theorem shaped_fan (c : BrokerClient) (op : BrokerDb.FanOp) (payload : List UInt8) (qos : QoS) :
    Shaped (localFrame op.kind c op.topic none payload qos).data := by
  cases op with
  | broadcast target => exact ⟨.inr (.inl rfl), rfl, rfl, Nat.zero_le _⟩
  | publish topic => exact ⟨.inr (.inr rfl), rfl, rfl, Nat.zero_le _⟩
  | publishFor topic receiver => exact ⟨.inr (.inr rfl), rfl, rfl, Nat.zero_le _⟩

theorem shaped_message (c : BrokerClient) (header : Option (List UInt8)) (payload : List UInt8)
    (qos : QoS) :
    Shaped (localFrame .message c none header payload qos).data :=
  ⟨.inl rfl, rfl, rfl, Nat.zero_le _⟩

theorem shaped_leads {db : BrokerDb S} {a b : Act} (ha : a.Shaped) (h : Leads db a b) :
    b.Shaped := by
  cases h with
  | found | recipient | room => exact ha
  | full | close => trivial
  | notRegistered hb => exact shaped_reply hb
  | put hb => exact shaped_reply hb
  | closed hb => exact shaped_reply hb
  | announce hb => obtain rfl | rfl := mem_announceActs hb <;> trivial
  | @core job core payload =>
    cases job with
    | announce event => exact shaped_fan core (.publish event.topic) payload .no
    | fan op payload => exact shaped_fan core op payload .no
    | send target header payload => exact shaped_message core header payload .no
  | locks hb => rcases hb with rfl | rfl | rfl <;> trivial

theorem shaped_entry {e : Entry} {b : Act} (hb : b ∈ e.acts) : b.Shaped := by
  cases entryAct_of_mem hb with
  | fan d op payload qos => exact shaped_fan d op payload qos
  | send c target header payload qos => exact shaped_message c header payload qos
  | subscribe | unsubscribe | exclude | unexclude | unregister | drop => trivial
  | lockRpc | withCore | lockCore | unlockCore => trivial

theorem shaped_plan {aaa : Option (ClientAaa S)} {c : BrokerClient} {n : ℕ} {r : Request} {b : Act}
    (hb : b ∈ plan aaa c n r) : b.Shaped := by
  have hout : ∀ {fr : Frame}, r.outgoing c n = some fr → Shaped fr.data :=
    fun h => (data_outgoing h).1.shaped
  cases planned_of_mem hb with
  | ack | exit | subscribe | unsubscribe | exclude | unexclude => trivial
  | send target pos hop ht => exact hout (by simp only [Request.outgoing, ht, hop])
  | broadcast target pos hop ht => exact hout (by simp only [Request.outgoing, ht, hop])
  | publish topic pos hop ht => exact hout (by simp only [Request.outgoing, ht, hop])
  | publishFor topic receiver pos pos' hop ht ht' =>
    exact hout (by simp only [Request.outgoing, ht, hop, ht'])

/-- No step puts any other frame into a queue. -/
theorem made_step (hI : Inv s.db) (h : s.All (fun _ => Act.Shaped) fun _ => Frame.Made)
    (hs : Steps rules s l s') :
    s'.All (fun _ => Act.Shaped) fun _ => Frame.Made :=
  h.step hI
    { leads := fun _ _ _ => shaped_leads
      put := fun _ _ _ _ _ _ _ ha => .inr (.inr ha)
      ack := fun _ _ c n _ _ _ _ _ => .inl ⟨c, n, rfl⟩
      nop := fun _ => .inr (.inl rfl)
      unregister := fun _ _ => trivial
      announce := fun _ _ => ⟨trivial, trivial⟩
      entry := fun _ _ _ _ _ ha => shaped_entry ha
      plan := fun _ _ _ _ _ _ ha => shaped_plan ha } hs

end Made

/-- A frame that the format can hold: no zero byte in its names, and a length of four bytes. -/
structure FrameData.Writable (f : FrameData) : Prop where
  sender : ∀ s, f.sender = some s → NulFree s
  topic : ∀ t, f.topic = some t → NulFree t
  len : f.frameLen < 2 ^ 32

theorem queued_of_made {s : Sys S} {b : BrokerClient} {f : Frame} (hs : Sent s b f) (hm : f.Made)
    (hw : f.data.Writable) : Queued f.data ∧ (Data f.data → Fits f.data) := by
  refine ⟨?_, fun _ => ⟨hw.sender, hw.len⟩⟩
  rcases hm with ⟨c, n, ho⟩ | hnop | hsh
  · obtain ⟨-, t, k, r, code, -, -, -, -, rfl⟩ := hs.ack c n ho
    exact .ack r.opId r.opId_length code r.qos.isRealtime
  · rw [hnop]
    exact .nop
  · exact .data (hsh.data hw.topic)

/-! ### What clients send -/

/-- What a client sends: an operation of `ipc::Client` or `sync::ipc::Client`, with the id it
takes, or a frame of the clients in Python and JavaScript. -/
inductive Sending
  | ipc (id : UInt32) (o : ClientOp)
  | script (f : ScriptFrame)
  deriving DecidableEq, Repr

/-- What one client gets told by another. -/
structure Telling where
  sender : Option String
  kind : FrameKind
  topic : Option String
  payload : List UInt8
  realtime : Bool
  deriving DecidableEq, Repr

def FrameData.telling (f : FrameData) : Telling :=
  ⟨f.sender, f.kind, f.topic, f.payload, f.realtime⟩

def Incoming.telling : Incoming → Option Telling
  | .frame f => some f.telling
  | .ack _ _ => none

/-- What an operation tells others, if it does: the client's name, and what is meant by its
fields. -/
def Fields.telling (name : String) (op : FrameOp) (qos : QoS) : Fields → Option Telling
  | .topics _ => none
  | .target t payload =>
    match op with
    | .message => some ⟨some name, .message, none, payload, qos.isRealtime⟩
    | .broadcast => some ⟨some name, .broadcast, none, payload, qos.isRealtime⟩
    | .publishTopic => some ⟨some name, .publish, some t, payload, qos.isRealtime⟩
    | _ => none
  | .publishFor t _ payload =>
    match op with
    | .publishTopicFor => some ⟨some name, .publish, some t, payload, qos.isRealtime⟩
    | _ => none

namespace Sending

def bytes : Sending → List UInt8
  | ipc id o => Ipc.bytes id o
  | script f => f.bytes

/-- The request that `handle_reader` is to take; a ping is none. -/
def request : Sending → Option Request
  | ipc id o => if o = .ping then none else some (o.request id)
  | script f => some (f.request f.op)

def telling (name : String) : Sending → Option Telling
  | ipc _ o => o.fields.telling name o.op o.qos
  | script f => f.fields.telling name f.op f.qos

/-- Texts without a zero byte, and a length that the broker allows. -/
def Proper (l : Limits) : Sending → Prop
  | ipc _ o => (∀ t ∈ o.texts, NulFree t) ∧ l.Allows o.body.length
  | script f => f.Proper l

end Sending

/-- The beginning of a request is no request. -/
theorem getRequest_cut {l : Limits} {bs bs' : List UInt8} {o : Option Request}
    (h : getRequest l bs' = .item o []) (hle : bs <+: bs') (hne : bs ≠ bs') :
    getRequest l bs = .more := by
  obtain ⟨i₀, i₁, i₂, i₃, flags, l₀, l₁, l₂, l₃, rest, rfl, hitem⟩ := getRequest_item h
  by_cases hshort : bs.length < 9
  · unfold getRequest
    split
    · simp at hshort
      omega
    · rfl
  · obtain ⟨more, hmore⟩ := hle
    obtain ⟨tail, rfl⟩ : ∃ tail, bs =
        i₀ :: i₁ :: i₂ :: i₃ :: flags :: l₀ :: l₁ :: l₂ :: l₃ :: tail := by
      rcases bs with _ |
        ⟨b₀, _ | ⟨b₁, _ | ⟨b₂, _ | ⟨b₃, _ | ⟨b₄, _ | ⟨b₅, _ | ⟨b₆, _ | ⟨b₇, _ | ⟨b₈, tail⟩⟩⟩⟩⟩⟩⟩⟩⟩
      all_goals simp at hshort hmore
      obtain ⟨rfl, rfl, rfl, rfl, rfl, rfl, rfl, rfl, rfl, -⟩ := hmore
      exact ⟨tail, rfl⟩
    simp only [List.cons_append, List.cons.injEq, true_and] at hmore
    have hlt : tail.length < rest.length := by
      rw [← hmore, List.length_append]
      refine Nat.lt_add_of_pos_right (List.length_pos_iff.mpr fun he => hne ?_)
      rw [← hmore, he, List.append_nil]
    obtain ⟨-, he⟩ | ⟨op, qos, m, hp, hm, -, -, he⟩ := hitem
    · rw [← he] at hlt
      cases hlt
    · have hwait : tail.length < m := hlt.trans_le (List.drop_eq_nil_iff.mp he.symm)
      unfold getRequest at h ⊢
      simp only [hp, hm] at h ⊢
      split at h
      · cases h
      · rename_i hlim
        rw [if_neg hlim, if_pos hwait]

section Sendings

variable {l : Limits} {x : Sending}

/-- What a client sends is read alone. -/
theorem get_sending (hl : l.Exact) (h : x.Proper l) (rest : List UInt8) :
    (requests l).get (x.bytes ++ rest) = .item x.request rest := by
  cases x with
  | ipc id o =>
    by_cases hp : o = .ping
    · subst hp
      exact getRequest_ping l rest
    · have hop : o.op ≠ .nop := by
        cases o with
        | ping => exact absurd rfl hp
        | _ => exact FrameOp.noConfusion
      rw [Sending.bytes, Sending.request, if_neg hp, bytes_frame id hp]
      exact getRequest_frame hl id o.qos hop h.2 rest
  | script f =>
    obtain ⟨ws, hw⟩ := Option.isSome_iff_exists.mp h.written
    obtain ⟨op, hop⟩ := Option.isSome_iff_exists.mp h.known
    rw [Sending.bytes, bytes_scriptFrame hw h.counted hop, Sending.request, ScriptFrame.op, hop,
      Option.getD_some]
    exact getRequest_frame hl f.frameId f.qos (code_of_busOp hop).2.1 h.fits rest

theorem get_sending_cut (hl : l.Exact) (h : x.Proper l) (bs : List UInt8) (hle : bs <+: x.bytes)
    (hne : bs ≠ x.bytes) :
    (requests l).get bs = .more := by
  have hget := get_sending hl h []
  rw [List.append_nil] at hget
  exact getRequest_cut hget hle hne

end Sendings

/-- What a reader at the other end makes of a request's frame. -/
def Request.telling (c : BrokerClient) (r : Request) : Option Telling :=
  (r.outgoing c 0).map (·.data.flat.telling)

theorem telling_outgoing (c : BrokerClient) (n : ℕ) (r : Request) :
    (r.outgoing c n).map (·.data.flat.telling) = r.telling c := by
  unfold Request.telling Request.outgoing
  split
  · rfl
  · split
    · rfl
    · rfl
    · rfl
    · split <;> rfl
    · rfl

/-- Subscriptions tell nobody anything. -/
theorem telling_none (c : BrokerClient) {r : Request} (h : r.op.carries = false) :
    r.telling c = none := by
  unfold Request.telling Request.outgoing
  split
  · rfl
  · split
    all_goals first
      | rfl
      | (rename_i hop
         rw [hop] at h
         cases h)

theorem telling_fields (c : BrokerClient) {r : Request} {f : Fields} (h : r.fields = .ok f) :
    r.telling c = f.telling c.name r.op r.qos := by
  by_cases hop : r.op.carries = true
  · rcases ht : targetOf r.buf with e | ⟨target, pos⟩
    · cases ho : r.op with
      | message | broadcast | publishTopic | publishTopicFor =>
        simp only [Request.fields, ho, ht] at h; cases h
      | _ => rw [ho] at hop; cases hop
    · cases ho : r.op with
      | message | broadcast | publishTopic =>
        simp only [Request.fields, ho, ht] at h
        cases h
        simp [Request.telling, Request.outgoing, ht, ho, Fields.telling, Request.frame,
          FrameData.telling, FrameData.flat, FrameData.payload, FrameData.content]
      | publishTopicFor =>
        simp only [Request.fields, ho, ht] at h
        rcases hr : targetOf (r.buf.drop pos) with e | ⟨receiver, pos'⟩
        · simp only [hr] at h
          cases h
        · simp only [hr] at h
          cases h
          simp [Request.telling, Request.outgoing, ht, hr, ho, Fields.telling, Request.frame,
            FrameData.telling, FrameData.flat, FrameData.payload, FrameData.content]
      | _ => rw [ho] at hop; cases hop
  · rw [Bool.not_eq_true] at hop
    rw [telling_none c hop]
    cases f with
    | topics => rfl
    | target t p => cases ho : r.op <;> first | rfl | (rw [ho] at hop; cases hop)
    | publishFor t rc p => cases ho : r.op <;> first | rfl | (rw [ho] at hop; cases hop)

/-- What a client means is what the broker sends on. -/
theorem telling_request {l : Limits} {x : Sending} (h : x.Proper l) (c : BrokerClient) :
    x.request.bind (Request.telling c) = x.telling c.name := by
  cases x with
  | ipc id o =>
    by_cases hp : o = .ping
    · subst hp
      rfl
    · rw [Sending.request, if_neg hp, Option.bind_some]
      by_cases hb : o.isBulk = true
      · have hop : (o.request id).op.carries = false := by cases o <;> first | rfl | cases hb
        rw [telling_none c hop]
        cases o <;> first | rfl | cases hb
      · exact telling_fields c (fields_body id hp (Bool.not_eq_true _ ▸ hb) h.1).fields
  | script f => exact telling_fields c (fields_scriptFrame h)

/-! ### The broker and its sockets -/

/-- A broker, and for each connection the bytes that have come after the handshake, and its
`handle_writer`. -/
structure Hub (S : Submap) where
  sys : Sys S
  wire : Tid → List UInt8
  outlet : Tid → Outlet

inductive HubLabel
  /-- Bytes come over a connection. -/
  | come (t : Tid) (bs : List UInt8)
  /-- A step of the broker. -/
  | broker (a : Label)
  /-- `handle_writer` takes a frame. -/
  | recv (t : Tid)
  /-- It goes on, or one of the futures of its writer. -/
  | outlet (t : Tid) (m : OutletLabel)

/-- The requests that `handle_reader` takes off the bytes that have come. -/
def requestsIn (l : Limits) (bs : List UInt8) : List Request :=
  ((requests l).readAll bs).1.reduceOption

namespace Hub

def init (S : Submap) (forceRegister brokerRpc : Bool) (queueSize : ℕ+) : Hub S :=
  ⟨.init S forceRegister brokerRpc queueSize, fun _ => [], fun _ => .new⟩

/-- A reader gets the next request when it has come whole, and the queue of a connection is
its `handle_writer`'s. -/
def lets (l : Limits) (s : Hub S) : Label → Bool
  | .decode t r =>
    (s.sys.connOf t).any fun k => (requestsIn l (s.wire t))[k.decoded.length]? == some r
  | .recv c => !c.isExternal
  | _ => true

/-- `rx.recv()`, with the first frame of the queue. -/
def recv (s : Hub S) (t : Tid) (k : Conn) : Option (Hub S) :=
  let tx := (s.sys.db.cell k.client).tx
  tx.put[tx.taken]?.bind fun f =>
    (execList outletStep (s.outlet t) [.queue f.data, .recv]).map fun o =>
      { s with
        sys := { s.sys with db := s.sys.db.setTx k.client Chan.recv }
        outlet := Function.update s.outlet t o }

end Hub

/-- One step; none if it has to wait. -/
def hubStep (rules : BrokerClient → Option (ClientAaa S)) (l : Limits) (s : Hub S) :
    HubLabel → Option (Hub S)
  | .come t bs =>
    if (s.sys.connOf t).isSome then
      some { s with wire := Function.update s.wire t (s.wire t ++ bs) }
    else none
  | .broker a => if s.lets l a then (step rules s.sys a).map fun sys => { s with sys } else none
  | .recv t => (s.sys.connOf t).bind (s.recv t)
  | .outlet t m =>
    if (s.sys.connOf t).isSome ∧ m ≠ .recv ∧ m.queued = none then
      (outletStep (s.outlet t) m).map fun o => { s with outlet := Function.update s.outlet t o }
    else none

def HubSteps (rules : BrokerClient → Option (ClientAaa S)) (l : Limits) (s : Hub S) (a : HubLabel)
    (s' : Hub S) : Prop :=
  hubStep rules l s a = some s'

/-! ### What the runs keep -/

/-- What the broker keeps. -/
structure SysInv (s : Sys S) : Prop where
  ordered : Ordered s
  answers : Answers s
  made : s.All (fun _ => Act.Shaped) fun _ => Frame.Made

theorem SysInv.step {rules : BrokerClient → Option (ClientAaa S)} {s s' : Sys S} {a : Label}
    (h : SysInv s) (hs : Steps rules s a s') : SysInv s' :=
  ⟨h.ordered.step hs, h.answers.step h.ordered hs, made_step h.ordered.ok.inv h.made hs⟩

/-- A reader has read requests of what has come; a writer was given the frames that were
taken out of the queue. -/
structure HubInv (l : Limits) (s : Hub S) : Prop where
  sys : SysInv s.sys
  unconnected : ∀ t, s.sys.connOf t = none → s.outlet t = .new
  decoded : ∀ t k, s.sys.connOf t = some k → k.decoded <+: requestsIn l (s.wire t)
  taken : ∀ t k, s.sys.connOf t = some k → (s.outlet t).taken =
    ((s.sys.db.cell k.client).tx.put.take (s.sys.db.cell k.client).tx.taken).map (·.data)
  rx : ∀ t, (s.outlet t).rx = []
  outlet : ∀ t, (s.outlet t).Inv

/-- A request is the same whatever comes after it. -/
theorem getRequest_append {l : Limits} {bs rest : List UInt8} {o : Option Request}
    (h : getRequest l bs = .item o rest) (more : List UInt8) :
    getRequest l (bs ++ more) = .item o (rest ++ more) := by
  unfold getRequest at h
  split at h
  · rename_i i₀ i₁ i₂ i₃ flags l₀ l₁ l₂ l₃ tail
    simp only [List.cons_append, getRequest]
    split at h
    · cases h
    · cases h
      rfl
    · split at h
      · cases h
      · rename_i hlim
        rw [if_neg hlim]
        split at h
        · cases h
        · rename_i m hm
          split at h
          · cases h
          · rename_i hlen
            cases h
            have hlen' : ¬ (tail ++ more).length < m := by
              rw [List.length_append]
              omega
            rw [if_neg hlen', List.take_append_of_le_length (not_lt.mp hlen),
              List.drop_append_of_le_length (not_lt.mp hlen)]
  · cases h

theorem requestsIn_append (l : Limits) (bs more : List UInt8) :
    requestsIn l bs <+: requestsIn l (bs ++ more) :=
  (Parser.readAll_append (p := requests l) (fun _ _ _ more h => getRequest_append h more) bs
    more).filterMap id

/-- Only `rx.recv()` takes frames. -/
theorem taken_outletStep {o o' : Outlet} {m : OutletLabel} (hs : OutletSteps o m o')
    (hm : m ≠ .recv) (hq : m.queued = none) : o'.taken = o.taken ∧ o'.rx = o.rx := by
  unfold OutletSteps at hs
  cases m <;> simp only [outletStep] at hs
  case queue f => cases hq
  case recv => exact absurd rfl hm
  case call =>
    split at hs
    · split at hs
      · obtain ⟨w, -, rfl⟩ := Option.map_eq_some_iff.mp hs
        exact ⟨rfl, rfl⟩
      · cases hs
    · cases hs
  case future | drop =>
    split at hs
    · obtain ⟨w, -, rfl⟩ := Option.map_eq_some_iff.mp hs
      exact ⟨rfl, rfl⟩
    · cases hs
  all_goals
    split at hs
    · cases hs
      exact ⟨rfl, rfl⟩
    · cases hs

section Step

variable {rules : BrokerClient → Option (ClientAaa S)} {l : Limits} {s : Hub S}

/-- Bytes come. -/
theorem HubInv.come (h : HubInv l s) (t : Tid) (bs : List UInt8) :
    HubInv l { s with wire := Function.update s.wire t (s.wire t ++ bs) } := by
  refine ⟨h.sys, h.unconnected, fun u k hk => ?_, h.taken, h.rx, h.outlet⟩
  simp only [Function.update_apply]
  split
  · rename_i hu
    subst hu
    exact (h.decoded u k hk).trans (requestsIn_append l _ bs)
  · exact h.decoded u k hk

/-- A step of the broker. -/
theorem HubInv.broker (h : HubInv l s) {a : Label} (ha : s.lets l a = true) {sys' : Sys S}
    (hs : Steps rules s.sys a sys') : HubInv l { s with sys := sys' } := by
  have hview : ∀ t k', sys'.connOf t = some k' →
      (s.sys.connOf t = none ∧ k'.decoded = [] ∧ (sys'.db.cell k'.client).tx.put = []) ∨
      ∃ k, s.sys.connOf t = some k ∧ k'.client = k.client ∧
        (k'.decoded = k.decoded ∨ ∃ r, a = .decode t r ∧ k'.decoded = k.decoded ++ [r]) := by
    intro t k' hk'
    obtain ⟨⟨conn, todo⟩, hu, hconn⟩ := Option.bind_eq_some_iff.mp hk'
    obtain rfl : conn = some k' := hconn
    cases view_of_steps hs hu with
    | other ht hl hr => exact .inr ⟨k', Sys.connOf_of_task ht, rfl, .inl rfl⟩
    | opened hl hr hdb ht =>
      refine .inl ⟨by rw [Sys.connOf, ht]; rfl, rfl, ?_⟩
      rw [hdb, registered_put h.sys.ordered.ok.inv hr, if_pos rfl]
    | @read k r ht hk hl hdb => exact .inr ⟨k, Sys.connOf_of_task ht, rfl, .inr ⟨r, hl, rfl⟩⟩
    | acted ht hl he hdb => exact .inr ⟨k', Sys.connOf_of_task ht, rfl, .inl rfl⟩
    | @ended k rest ht hput => exact .inr ⟨k, Sys.connOf_of_task ht, rfl, .inl rfl⟩
  refine ⟨h.sys.step hs, fun t ht => ?_, fun t k' hk' => ?_, fun t k' hk' => ?_, h.rx, h.outlet⟩
  · refine h.unconnected t ?_
    rcases hk : s.sys.connOf t with _ | k
    · rfl
    · obtain ⟨k', hk', -⟩ := hs.conn hk
      rw [show sys'.connOf t = none from ht] at hk'
      cases hk'
  · obtain ⟨-, hnil, -⟩ | ⟨k, hk, -, hdec | ⟨r, rfl, hdec⟩⟩ := hview t k' hk'
    · rw [hnil]
      exact List.nil_prefix
    · rw [hdec]
      exact h.decoded t k hk
    · simp only [Hub.lets, hk, Option.any_some, beq_iff_eq] at ha
      obtain ⟨rest, hrest⟩ := h.decoded t k hk
      rw [← hrest, List.getElem?_append_right le_rfl, Nat.sub_self] at ha
      rcases rest with _ | ⟨r', rest⟩
      · cases ha
      · cases ha
        rw [hdec]
        exact ⟨rest, by rw [← hrest, List.append_assoc]; rfl⟩
  · obtain ⟨hnone, -, hput⟩ | ⟨k, hk, hc, -⟩ := hview t k' hk'
    · simp only [h.unconnected t hnone, hput, List.take_nil]
      rfl
    · have hfresh := h.sys.ordered.ok.fresh t k hk
      have hne : a ≠ .recv k.client := by
        rintro rfl
        rw [Hub.lets, h.sys.ordered.ok.external t k hk] at ha
        cases ha
      obtain ⟨rest, hrest⟩ := hs.put_prefix h.sys.ordered.ok.inv hfresh
      rw [hc, hs.taken h.sys.ordered.ok.inv hfresh hne, ← hrest,
        List.take_append_of_le_length (s.sys.db.cell k.client).tx.taken_le]
      exact h.taken t k hk

section Update

variable {t : Tid} {o : Outlet}

theorem HubInv.unconnected_update (h : HubInv l s) (ht : (s.sys.connOf t).isSome = true)
    (o : Outlet) (u : Tid) (hu : s.sys.connOf u = none) :
    Function.update s.outlet t o u = .new := by
  have hne : u ≠ t := by
    rintro rfl
    rw [hu] at ht
    cases ht
  rw [Function.update_of_ne hne]
  exact h.unconnected u hu

theorem HubInv.rx_update (h : HubInv l s) (t : Tid) (ho : o.rx = []) (u : Tid) :
    (Function.update s.outlet t o u).rx = [] :=
  (Function.forall_update_iff s.outlet fun _ (o : Outlet) => o.rx =
    []).mpr ⟨ho, fun u _ => h.rx u⟩ u

theorem HubInv.outlet_update (h : HubInv l s) (t : Tid) (ho : o.Inv) (u : Tid) :
    (Function.update s.outlet t o u).Inv :=
  (Function.forall_update_iff s.outlet fun _ (o : Outlet) => o.Inv).mpr
    ⟨ho, fun u _ => h.outlet u⟩ u

end Update

/-- `handle_writer` takes a frame. -/
theorem HubInv.recv (h : HubInv l s) {t : Tid} {k : Conn} (hk : s.sys.connOf t = some k)
    {s' : Hub S} (hs : s.recv t k = some s') : HubInv l s' := by
  obtain ⟨f, hf, hs⟩ := Option.bind_eq_some_iff.mp hs
  obtain ⟨o, ho, rfl⟩ := Option.map_eq_some_iff.mp hs
  have hrun := run_of_execList ho
  have hlt := (List.getElem?_eq_some_iff.mp hf).1
  have hq := Outlet.queued_run hrun
  rw [h.rx t, List.append_nil, h.taken t k hk] at hq
  have hsys : Steps (fun _ => none) s.sys (.recv k.client) { s.sys with
      db := s.sys.db.setTx k.client Chan.recv } := rfl
  have hrx : o.rx = [] := by
    simp only [execList, outletStep, h.rx t, List.nil_append, Option.bind_some] at ho
    split at ho
    · cases ho
      rfl
    · cases ho
  rw [hrx, List.append_nil] at hq
  refine ⟨h.sys.step hsys, h.unconnected_update (Option.isSome_iff_exists.mpr ⟨k, hk⟩) o, h.decoded,
    fun u j hj => ?_,
    h.rx_update t hrx,
      h.outlet_update t (hrun.inv (fun _ _ _ hi hst => Outlet.Inv.step hi hst) (h.outlet t))⟩
  by_cases hu : u = t
  · subst hu
    obtain rfl := Option.some.inj (hk.symm.trans hj)
    simp only [Function.update_self, setTx_tx, if_pos, Chan.put_recv, hq]
    rw [Chan.recv, dif_pos hlt]
    simp only [List.take_add_one, hf, List.map_append]
    rfl
  · have hne : j.client ≠ k.client := fun he => hu (h.sys.ordered.ok.inj u t j k hj hk he)
    simp only [Function.update_of_ne hu, setTx_tx, if_neg hne]
    exact h.taken u j hj

/-- `handle_writer` goes on, or a future of its writer. -/
theorem HubInv.goOn (h : HubInv l s) {t : Tid} (ht : (s.sys.connOf t).isSome = true)
    {m : OutletLabel} (hm : m ≠ .recv) (hq : m.queued = none) {o : Outlet}
    (ho : OutletSteps (s.outlet t) m o) :
    HubInv l { s with outlet := Function.update s.outlet t o } := by
  obtain ⟨htaken, hrx⟩ := taken_outletStep ho hm hq
  refine ⟨h.sys, h.unconnected_update ht o, h.decoded, fun u j hj => ?_,
    h.rx_update t (hrx.trans (h.rx t)),
    h.outlet_update t ((h.outlet t).step ho)⟩
  simp only [Function.update_apply]
  split
  · rename_i hu
    subst hu
    rw [htaken]
    exact h.taken u j hj
  · exact h.taken u j hj

theorem HubInv.step (h : HubInv l s) {a : HubLabel} {s' : Hub S} (hs : HubSteps rules l s a s') :
    HubInv l s' := by
  unfold HubSteps hubStep at hs
  cases a with
  | come t bs =>
    simp only at hs
    split at hs
    · cases hs
      exact h.come t bs
    · cases hs
  | broker a =>
    simp only at hs
    split at hs
    · rename_i ha
      obtain ⟨sys', hsys, rfl⟩ := Option.map_eq_some_iff.mp hs
      exact h.broker ha hsys
    · cases hs
  | recv t =>
    obtain ⟨k, hk, hs⟩ := Option.bind_eq_some_iff.mp hs
    exact h.recv hk hs
  | outlet t m =>
    simp only at hs
    split at hs
    · rename_i hm
      obtain ⟨o, ho, rfl⟩ := Option.map_eq_some_iff.mp hs
      exact h.goOn hm.1 hm.2.1 hm.2.2 ho
    · cases hs

end Step

theorem HubInv.init (l : Limits) (forceRegister brokerRpc : Bool) (queueSize : ℕ+) :
    HubInv l (Hub.init S forceRegister brokerRpc queueSize) where
  sys := ⟨ordered_init .., fun t k todo ht => by simp [Hub.init, Sys.init] at ht, Sys.all_init ..⟩
  unconnected _ _ := rfl
  decoded t k hk := by simp [Hub.init, Sys.init, Sys.connOf] at hk
  taken t k hk := by simp [Hub.init, Sys.init, Sys.connOf] at hk
  rx _ := rfl
  outlet _ := .new

/-! ### From socket to socket -/

/-- The items of a list, and their numbers. -/
theorem filterMap_range {α β : Type*} (l : List α) (g : α → Option β) :
    ((List.range l.length).filterMap fun n => l[n]?.bind g) = l.filterMap g := by
  induction l with
  | nil => rfl
  | cons a l ih =>
    rw [List.length_cons, List.range_succ_eq_map, List.filterMap_cons, List.filterMap_map,
      List.filterMap_cons, ← ih]
    rfl

/-- What a connection sends out, as its readers get it. -/
theorem telling_conn (k : Conn) :
    k.outgoing.map (·.data.flat.telling) = k.decoded.filterMap (Request.telling k.client) := by
  rw [← filterMap_range, Conn.outgoing, List.map_filterMap]
  refine List.filterMap_congr fun n _ => ?_
  rw [Option.map_bind]
  exact congrArg _ (funext fun r => telling_outgoing k.client n r)

section Through

variable {l : Limits} {s : Hub S} {t : Tid} {k : Conn}

/-- What has been read is what has been sent first. -/
theorem HubInv.decoded_sends (h : HubInv l s) (hl : l.Exact) (hk : s.sys.connOf t = some k)
    {sends : List Sending} (hp : ∀ x ∈ sends, x.Proper l)
    (hle : s.wire t <+: sends.flatMap Sending.bytes) :
    k.decoded <+: sends.filterMap Sending.request := by
  obtain ⟨i, rest, -, hread, -⟩ :=
    Parser.readAll_broken (p := requests l) sends (fun x hx => get_sending hl (hp x hx))
    (fun x hx => get_sending_cut hl (hp x hx)) (s.wire t) hle
  have hdec := h.decoded t k hk
  rw [requestsIn, hread, List.reduceOption, List.filterMap_map] at hdec
  exact hdec.trans ((List.take_prefix i sends).filterMap _)

/-- The frames of another's that are in a queue, as the reader gets them. -/
theorem HubInv.tellings (h : HubInv l s) (hl : l.Exact) (hk : s.sys.connOf t = some k)
    {sends : List Sending} (hp : ∀ x ∈ sends, x.Proper l)
    (hle : s.wire t <+: sends.flatMap Sending.bytes) (b : BrokerClient) :
    (((s.sys.db.cell b).tx.put.filter fun f => (f.opOf k.client).isSome).map
      (·.data.flat.telling)).Sublist
      (sends.filterMap (Sending.telling k.client.name)) := by
  obtain ⟨todo, ht⟩ : ∃ todo, s.sys.task t = some ⟨some k, todo⟩ := by
    obtain ⟨⟨conn, todo⟩, ht, hc⟩ := Option.bind_eq_some_iff.mp hk
    exact ⟨todo, by rw [ht, ← hc]⟩
  have hord := h.sys.ordered
  have hsorted : ((s.sys.db.cell b).tx.put.filterMap (Frame.opOf k.client)).Pairwise (· < ·) :=
    (hord.order t k todo ht b).sublist (List.sublist_append_left _ _)
  have hout : ((s.sys.db.cell b).tx.put.filter fun f => (f.opOf k.client).isSome).Sublist
      k.outgoing := by
    rw [hord.filter_opOf hk b]
    exact (sublist_range hsorted fun n hn => hord.lt_length hk hn).filterMap _
  have hsends : sends.filterMap (Sending.telling k.client.name) =
      (sends.filterMap Sending.request).filterMap (Request.telling k.client) := by
    rw [List.filterMap_filterMap]
    exact List.filterMap_congr fun x hx => (telling_request (hp x hx) k.client).symm
  calc (((s.sys.db.cell b).tx.put.filter fun f => (f.opOf k.client).isSome).map
    (·.data.flat.telling)).Sublist
        (k.outgoing.map (·.data.flat.telling)) := hout.map _
    _ = k.decoded.filterMap (Request.telling k.client) := telling_conn k
    List.Sublist _ (sends.filterMap (Sending.telling k.client.name)) := by
      rw [hsends]
      exact ((h.decoded_sends hl hk hp hle).filterMap _).sublist

/-- What the client has read are the first frames of its queue. -/
theorem HubInv.read (h : HubInv l s) (hk : s.sys.connOf t = some k)
    (hw : ∀ f ∈ (s.sys.db.cell k.client).tx.put, f.data.Writable) :
    ∃ fs rest, fs <+: (s.sys.db.cell k.client).tx.put ∧
      handleRead (s.outlet t).w.inner = ((fs.map (·.data.arrival)).reduceOption, .ok rest) := by
  have hqueued : ∀ d ∈ (s.sys.db.cell k.client).tx.put.map (·.data), Queued d ∧
      (Data d → Fits d) := by
    intro d hd
    obtain ⟨f, hf, rfl⟩ := List.mem_map.mp hd
    exact queued_of_made (h.sys.ordered.all.frames k.client f hf)
      (h.sys.made.frames k.client f hf) (hw f hf)
  have htaken : (s.outlet t).taken <+: (s.sys.db.cell k.client).tx.put.map (·.data) := by
    rw [h.taken t k hk]
    exact (List.take_prefix _ _).map _
  have hle : (s.outlet t).w.inner <+:
      ((s.sys.db.cell k.client).tx.put.map (·.data)).flatMap FrameData.bytes :=
    (s.outlet t).w.inner_isPrefix.trans ((h.outlet t).given.trans (htaken.flatMap _))
  obtain ⟨i, rest, -, hread, -⟩ := handleRead_cut hqueued hle
  refine ⟨(s.sys.db.cell k.client).tx.put.take i, rest, List.take_prefix _ _, ?_⟩
  rw [hread, ← List.map_take, List.map_map]
  rfl

/-- A frame with an operation's number arrives as data. -/
theorem HubInv.arrival_op (h : HubInv l s) {b c : BrokerClient} {f : Frame}
    (hf : f ∈ (s.sys.db.cell b).tx.put) (hw : f.data.Writable) (ho : (f.opOf c).isSome = true) :
    f.data.arrival.bind Incoming.telling = some f.data.flat.telling := by
  obtain ⟨n, hn⟩ := Option.isSome_iff_exists.mp ho
  obtain ⟨t, k, r, -, -, -, hout⟩ := (h.sys.ordered.all.frames b f hf).op c n (opOf_eq_some.mp hn)
  have hget := get_data (data_outgoing hout).1 ⟨hw.sender, hw.len⟩ []
  rw [List.append_nil] at hget
  simp only [FrameData.arrival, hget]
  rfl

/-- An acknowledgement that arrives was made for a request of the client. -/
theorem HubInv.arrival_ack (h : HubInv l s) (hk : s.sys.connOf t = some k) {f : Frame}
    (hf : f ∈ (s.sys.db.cell k.client).tx.put) (hw : f.data.Writable) {id : ℕ} {code : UInt8}
    (ha : f.data.arrival = some (.ack id code)) : ∃ n r, k.decoded[n]? = some r ∧ ofLe r.opId = id ∧
      r.qos.needsAck = true ∧ (r.op = .message → Right s.sys.db k.client n r code) := by
  rcases h.sys.made.frames k.client f hf with ⟨c, n, ho⟩ | hnop | hsh
  · obtain ⟨rfl, u, j, r, code', hj, hc, hr, hq, rfl⟩ :=
      (h.sys.ordered.all.frames k.client f hf).ack c n ho
    obtain rfl := h.sys.ordered.ok.inj u t j k hj hk hc
    obtain rfl := Option.some.inj (hj.symm.trans hk)
    have hget := getIncoming_ack r.opId_length code' r.qos.isRealtime []
    rw [List.append_nil] at hget
    simp only [FrameData.arrival, ackFrame, hget, Option.some.injEq, Incoming.ack.injEq] at ha
    obtain ⟨rfl, rfl⟩ := ha
    obtain ⟨⟨conn, todo⟩, ht, hconn⟩ := Option.bind_eq_some_iff.mp hk
    obtain rfl : conn = some j := hconn
    exact ⟨n, r, hr, rfl, hq, fun hop => (h.sys.answers u j todo ht n r hr hop hq).put _ _ _ hf⟩
  · rw [hnop] at ha
    cases ha
  · have hget := get_data (hsh.data hw.topic) ⟨hw.sender, hw.len⟩ []
    rw [List.append_nil] at hget
    simp only [FrameData.arrival, hget] at ha
    cases ha

end Through

/-- **From socket to socket**: in every run, what a client has read of another's is a part of
what the other has sent, in its order and as it was meant; and an acknowledgement it has
read is one of a request that it has sent, and tells the truth about it. -/
theorem arrives_through (rules : BrokerClient → Option (ClientAaa S)) (l : Limits) (hl : l.Exact)
    (forceRegister brokerRpc : Bool) (queueSize : ℕ+) (labels : List HubLabel) (s : Hub S)
    (h : Run (HubSteps rules l) (Hub.init S forceRegister brokerRpc queueSize) labels s) (t : Tid)
    (k : Conn) (hk : s.sys.connOf t = some k)
    (hw : ∀ f ∈ (s.sys.db.cell k.client).tx.put, f.data.Writable) :
    ∃ fs rest, fs <+: (s.sys.db.cell k.client).tx.put ∧
      Ipc.handleRead (s.outlet t).w.inner = ((fs.map (·.data.arrival)).reduceOption, .ok rest) ∧
      SyncIpc.handleRead (s.outlet t).w.inner = ((fs.map (·.data.arrival)).reduceOption, .ok rest) ∧
      (∀ u j (sends : List Sending), s.sys.connOf u = some j → (∀ x ∈ sends, x.Proper l) →
        s.wire u <+: sends.flatMap Sending.bytes →
        ((fs.filter fun f => (f.opOf j.client).isSome).map fun f =>
          f.data.arrival.bind Incoming.telling).Sublist
          ((sends.filterMap (Sending.telling j.client.name)).map some)) ∧
      ∀ sends : List Sending, (∀ x ∈ sends, x.Proper l) → s.wire t <+: sends.flatMap Sending.bytes →
        ∀ id code, .ack id code ∈ (Ipc.handleRead (s.outlet t).w.inner).1 →
          ∃ n r, (sends.filterMap Sending.request)[n]? = some r ∧ ofLe r.opId = id ∧
            r.qos.needsAck = true ∧
            (r.op = .message → Right s.sys.db k.client n r code) := by
  have hI : HubInv l s := h.inv (fun _ _ _ hi hs => hi.step hs) (.init ..)
  obtain ⟨fs, rest, hfs, hread⟩ := hI.read hk hw
  have hmem : ∀ f ∈ fs, f ∈ (s.sys.db.cell k.client).tx.put := fun f hf => hfs.subset hf
  refine ⟨fs, rest, hfs, hread, hread, fun u j sends hj hp hle => ?_,
    fun sends hp hle id code ha => ?_⟩
  · have harr : ((fs.filter fun f => (f.opOf j.client).isSome).map fun f =>
        f.data.arrival.bind Incoming.telling) =
        ((fs.filter fun f => (f.opOf j.client).isSome).map (·.data.flat.telling)).map some := by
      rw [List.map_map]
      refine List.map_congr_left fun f hf => ?_
      obtain ⟨hf, ho⟩ := List.mem_filter.mp hf
      exact hI.arrival_op (hmem f hf) (hw f (hmem f hf)) ho
    rw [harr]
    exact (((hfs.sublist.filter _).map _).trans (hI.tellings hl hj hp hle k.client)).map some
  · rw [Ipc.handleRead, hread, List.reduceOption_mem_iff] at ha
    obtain ⟨f, hf, harr⟩ := List.mem_map.mp ha
    obtain ⟨n, r, hr, hid, hq, hright⟩ := hI.arrival_ack hk (hmem f hf) (hw f (hmem f hf)) harr
    obtain ⟨hlt, hget⟩ := List.getElem?_eq_some_iff.mp hr
    have hpre := hI.decoded_sends hl hk hp hle
    refine ⟨n, r, ?_, hid, hq, hright⟩
    rw [List.getElem?_eq_getElem (hlt.trans_le hpre.length_le), ← hpre.getElem hlt, hget]

namespace Sockets

/-- `p` sends a ping, and a message to `w`. -/
def sends : List Sending := [.ipc 0 .ping, .ipc 1 (.send "w" [7] .realtimeProcessed)]

theorem proper_sends : ∀ x ∈ sends, x.Proper {} := by
  intro x hx
  rcases List.mem_pair.mp hx with rfl | rfl
  · exact ⟨by decide, by decide, fun _ h => (by cases h)⟩
  · exact ⟨by decide, by decide, fun _ h => (by cases h)⟩

/-- The writes of a frame whose last write is flushed at once. -/
def writes (t : Tid) (lens : List ℕ) : List HubLabel :=
  lens.flatMap (fun n =>
    [.outlet t .call, .outlet t (.future .lock), .outlet t (.future (.accept n)),
      .outlet t (.future .written)]) ++
  [.outlet t (.future (.spill lens.sum)), .outlet t (.future .flushed)]

/-- The bytes come in two parts; the message is put, answered, and both are written. -/
def labels : List HubLabel :=
  [.broker (.connect 0 "w" .tcp none none), .broker (.connect 1 "p" .tcp none none),
    .come 1 ((sends.flatMap Sending.bytes).take 12),
    .come 1 ((sends.flatMap Sending.bytes).drop 12),
    .broker (.decode 1 (.numbered 1 .message .realtimeProcessed [119, 0, 7])),
    .broker (.act 1 .plain), .broker (.act 1 .plain), .broker (.act 1 .plain),
    .broker (.act 1 .plain), .recv 0] ++
  writes 0 [8, 1] ++ .recv 1 :: writes 1 [6]

def start : Hub reference := .init reference false false 4

def receiver : BrokerClient := ⟨0, "w", .tcp, none, none⟩
def sender : BrokerClient := ⟨1, "p", .tcp, none, none⟩

def tellingFrame : FrameData := ⟨.message, some "p", none, none, [119, 0, 7], 2, true⟩
def answerFrame : FrameData :=
  ⟨.prepared, none, none, none, [OP_ACK, 1, 0, 0, 0, RESPONSE_OK], 0, true⟩

theorem writable_told : tellingFrame.Writable := ⟨by decide, by decide, by decide⟩
theorem writable_answer : answerFrame.Writable := ⟨by decide, by decide, by decide⟩

end Sockets

open Sockets in
/-- `w` reads the message, and `p` that it was put. -/
theorem arrives_through_message : ∃ (s : Hub reference) (k j : Conn) (fs : List Frame),
    Run (HubSteps (fun _ => none) {}) start labels s ∧
    s.sys.connOf 0 = some k ∧ s.sys.connOf 1 = some j ∧
    Ipc.handleRead (s.outlet 0).w.inner = ([.frame tellingFrame.flat], .ok []) ∧
    ((fs.filter fun f => (f.opOf j.client).isSome).map fun f =>
      f.data.arrival.bind Incoming.telling).Sublist
      ((sends.filterMap (Sending.telling j.client.name)).map some) ∧
    Ipc.handleRead (s.outlet 1).w.inner = ([.ack 1 RESPONSE_OK], .ok []) ∧
    ∃ n r, (sends.filterMap Sending.request)[n]? = some r ∧ ofLe r.opId = 1 ∧
      r.qos.needsAck = true ∧
      (r.op = .message → Right s.sys.db j.client n r RESPONSE_OK) := by
  have hrun : (execList (hubStep (fun _ => none) {}) start labels).map (fun s =>
      (s.sys.connOf 0, s.sys.connOf 1, s.wire 1, (s.outlet 0).w.inner, (s.outlet 1).w.inner)) =
      some (some ⟨receiver, [], true⟩,
        some ⟨sender, [.numbered 1 .message .realtimeProcessed [119, 0, 7]], true⟩,
        sends.flatMap Sending.bytes, tellingFrame.bytes, answerFrame.bytes) := by decide
  have hput : (execList (hubStep (fun _ => none) {}) start labels).map (fun s =>
      ((s.sys.db.cell receiver).tx.put.map (·.data), (s.sys.db.cell sender).tx.put.map (·.data))) =
      some ([tellingFrame], [answerFrame]) := by decide
  obtain ⟨s, hs, hobs⟩ := Option.map_eq_some_iff.mp hrun
  rw [hs] at hput
  simp only [Option.map_some, Option.some.injEq, Prod.mk.injEq] at hput hobs
  obtain ⟨h0, h1, hwire, hin0, hin1⟩ := hobs
  have hw0 : ∀ f ∈ (s.sys.db.cell receiver).tx.put, f.data.Writable := by
    intro f hf
    have hd := List.mem_map_of_mem (f := (·.data)) hf
    rw [hput.1, List.mem_singleton] at hd
    exact hd ▸ writable_told
  have hw1 : ∀ f ∈ (s.sys.db.cell sender).tx.put, f.data.Writable := by
    intro f hf
    have hd := List.mem_map_of_mem (f := (·.data)) hf
    rw [hput.2, List.mem_singleton] at hd
    exact hd ▸ writable_answer
  have hr := run_of_execList hs
  obtain ⟨fs, -, -, -, -, htold, -⟩ :=
    arrives_through _ {} (fun _ => rfl) false false 4 labels s hr 0 _ h0 hw0
  obtain ⟨-, -, -, -, -, -, hack⟩ :=
    arrives_through _ {} (fun _ => rfl) false false 4 labels s hr 1 _ h1 hw1
  have hread : Ipc.handleRead (s.outlet 1).w.inner = ([.ack 1 RESPONSE_OK], .ok []) := by
    rw [hin1]
    rfl
  exact ⟨s, _, _, fs, hr, h0,
    h1, by rw [hin0]; rfl, htold 1 _ sends h1 proper_sends (hwire ▸ List.prefix_rfl), hread,
    hack sends proper_sends (hwire ▸ List.prefix_rfl) 1 RESPONSE_OK
      (by rw [hread]; exact List.mem_singleton.mpr rfl)⟩

end Busrt
