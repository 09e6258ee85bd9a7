/-
# Acknowledgements, as the client sees them

A client numbers its frames, keeps a sender for the confirmation of each frame
that asks for one, and hands the acknowledgements it reads to them by the
number they carry. The numbers are of 32 bits: they start again at 1.

Here a client talks to the broker of `System`: its operations are the frames
that the reader of its connection decodes, in their order (`requests_sent`), and it
reads what is put into its queue, in that order. As long as fewer than 2³² - 1 frames are sent
between an operation and an acknowledgement of it, the operation is confirmed
at most once, and with the first acknowledgement the broker made for it
(`confirmed_by_first`).

Key definitions: `Confirms`, `ConfirmSys`, `confirmStep`, `Prompt`.
Key theorems: `receive_ack`, `ConfirmInv.step`, `confirmed_by_first`.
-/
import Busrt.Encode
import Busrt.Order
import Busrt.Writing

namespace Busrt

open Lib BrokerDb

variable {S : Submap}

/-! ### The client -/

/-- The frame of an operation, as the broker reads it. -/
def ClientOp.request (id : UInt32) (o : ClientOp) : Request :=
  ⟨toLe 4 id.toNat, o.op, o.qos, o.body, rfl⟩

/-- The client's side: the counter, who waits for which number (an operation stands
for the sender of its confirmation), the frames sent, how many frames of its queue
have been read, and the confirmations. -/
structure Confirms where
  frameId : UInt32
  responses : UInt32 → Option ℕ
  sent : List Request
  read : ℕ
  resolved : List (ℕ × UInt8)

namespace Confirms

def init : Confirms := ⟨0, fun _ => none, [], 0, []⟩

/-- An operation: the number is taken, the sender entered, the frame written. -/
def send (c : Confirms) (o : ClientOp) : Confirms :=
  let id := incrementFrameId c.frameId
  { c with
    frameId := id
    responses := if o.qos.needsAck then Function.update c.responses id (some c.sent.length)
      else c.responses
    sent := c.sent ++ [o.request id] }

/-- What operations, one after the other, write to the socket. -/
def bytes : Confirms → List ClientOp → List UInt8
  | _, [] => []
  | c, o :: ops => Ipc.bytes (incrementFrameId c.frameId) o ++ (c.send o).bytes ops

/-- With lengths that are allowed the reader of the broker takes the frames sent off these bytes, in
their order. -/
theorem requests_sent {l : Limits} (hl : l.Exact) (rest : List UInt8) :
    ∀ (ops : List ClientOp) (c : Confirms),
    (∀ o ∈ ops, o ≠ .ping ∧ l.Allows o.body.length) → ∃ rs, (ops.foldl send c).sent = c.sent ++ rs ∧
      (requests l).readAll (c.bytes ops ++ rest) =
        (rs.map some ++ ((requests l).readAll rest).1, ((requests l).readAll rest).2)
  | [], c, _ => ⟨[], (List.append_nil _).symm, rfl⟩
  | o :: ops, c, h => by
    obtain ⟨hp, hfit⟩ := h o List.mem_cons_self
    obtain ⟨rs, hsent, hread⟩ :=
      requests_sent hl rest ops (c.send o) fun o' ho => h o' (List.mem_cons_of_mem _ ho)
    have hop : o.op ≠ .nop := by
      cases o with
      | ping => exact absurd rfl hp
      | _ => exact FrameOp.noConfusion
    have hget : getRequest l (Ipc.bytes (incrementFrameId c.frameId) o ++
        ((c.send o).bytes ops ++ rest)) =
        .item (some (o.request (incrementFrameId c.frameId))) ((c.send o).bytes ops ++ rest) := by
      rw [bytes_frame _ hp]
      exact getRequest_frame hl _ o.qos hop hfit _
    refine ⟨o.request (incrementFrameId c.frameId) :: rs, ?_, ?_⟩
    · rw [List.foldl_cons, hsent, send, List.append_assoc, List.singleton_append]
    · rw [bytes, List.append_assoc, Parser.readAll_item (p := requests l) hget, hread]
      rfl

/-- `handle_read` on a frame. -/
def receive (c : Confirms) (f : FrameData) : Confirms :=
  match getIncoming f.bytes with
  | .item (some (.ack id code)) _ =>
    match c.responses (UInt32.ofNat id) with
    | some n =>
      { c with
        responses := Function.update c.responses (UInt32.ofNat id) none
        read := c.read + 1
        resolved := c.resolved ++ [(n, code)] }
    | none => { c with read := c.read + 1 }
  | _ => { c with read := c.read + 1 }

end Confirms

/-! ### The client and the broker -/

/-- A broker, and the client that the task `t` of it serves. -/
structure ConfirmSys (S : Submap) where
  sys : Sys S
  client : Confirms

/-- What can happen: an operation, a step of the broker, a frame read. -/
inductive ConfirmLabel
  | op (o : ClientOp)
  | broker (l : Label)
  | read

/-- The reader of the connection gets the frames in the order they were sent, as it reads them off
their bytes. -/
def deliverable (t : Tid) (s : ConfirmSys S) : Label → Bool
  | .decode u r =>
    if u = t then (s.sys.connOf t).any fun k => s.client.sent[k.decoded.length]? == some r else true
  | _ => true

/-- One step. -/
def confirmStep (rules : BrokerClient → Option (ClientAaa S)) (t : Tid) (s : ConfirmSys S) :
    ConfirmLabel → Option (ConfirmSys S)
  | .op o =>
    -- a ping takes no number
    if o = .ping then some s
    else match s.sys.connOf t with
      | none => none
      | some _ => some { s with client := s.client.send o }
  | .broker l =>
    if deliverable t s l then (step rules s.sys l).map fun sys => { s with sys := sys } else none
  | .read =>
    match s.sys.connOf t with
    | none => none
    | some k =>
      let q := (s.sys.db.cell k.client).tx
      if s.client.read < q.taken then
        q.put[s.client.read]?.map fun f => { s with client := s.client.receive f.data }
      else none

def ConfirmSteps (rules : BrokerClient → Option (ClientAaa S)) (t : Tid) (s : ConfirmSys S)
    (l : ConfirmLabel) (s' : ConfirmSys S) : Prop := confirmStep rules t s l = some s'

/-- Fewer than 2³² - 1 frames are sent between an operation and the reading of an
acknowledgement of it. -/
def Prompt (t : Tid) (s : ConfirmSys S) : ConfirmLabel → Prop
  | .read => ∀ k f n, s.sys.connOf t = some k →
      (s.sys.db.cell k.client).tx.put[s.client.read]? = some f →
      f.origin = .ack k.client n → s.client.sent.length - (n + 1) < 2 ^ 32 - 1
  | _ => True

/-! ### Frames that are not acknowledgements -/

/-- A kind that no reader takes for an acknowledgement. -/
def Unacked (kind : FrameKind) : Prop := kind ≠ .prepared ∧ kind ≠ .acknowledge

/-- The frame an act is about is none. -/
def Act.Unacked : Act → Prop
  | .send _ f _ _ | .fan _ f _ | .safeSend _ f _ _ | .put _ f _ _ => Busrt.Unacked f.data.kind
  | _ => True

/-- A frame in a queue is an acknowledgement of the broker's, or none. -/
def Frame.Told (f : Frame) : Prop := (∃ c n, f.origin = .ack c n) ∨ Busrt.Unacked f.data.kind

section Told

variable {rules : BrokerClient → Option (ClientAaa S)} {s s' : Sys S} {l : Label}

theorem unacked_reply {reply : Reply} {res : Except ErrorKind Unit} {b : Act}
    (hb : b ∈ reply.acts res) :
    b.Unacked := by
  obtain ⟨c, n, opId, qos, code, -, rfl, -⟩ := mem_reply hb
  trivial

theorem unacked_leads {db : BrokerDb S} {a b : Act} (ha : a.Unacked) (h : Leads db a b) :
    b.Unacked := by
  cases h with
  | found | recipient | room => exact ha
  | full | close => trivial
  | notRegistered hb => exact unacked_reply hb
  | put hb => exact unacked_reply hb
  | closed hb => exact unacked_reply hb
  | announce hb => obtain rfl | rfl := mem_announceActs hb <;> trivial
  | @core job core payload =>
    cases job with
    | announce event => exact ⟨nofun, nofun⟩
    | fan op payload => cases op <;> exact ⟨nofun, nofun⟩
    | send target header payload => exact ⟨nofun, nofun⟩
  | locks hb => rcases hb with rfl | rfl | rfl <;> trivial

theorem unacked_entry {e : Entry} {b : Act} (hb : b ∈ e.acts) : b.Unacked := by
  cases entryAct_of_mem hb with
  | fan d op payload qos => cases op <;> exact ⟨nofun, nofun⟩
  | send => exact ⟨nofun, nofun⟩
  | subscribe | unsubscribe | exclude | unexclude | unregister | drop => trivial
  | lockRpc | withCore | lockCore | unlockCore => trivial

theorem unacked_plan {aaa : Option (ClientAaa S)} {c : BrokerClient} {n : ℕ} {r : Request} {b : Act}
    (hb : b ∈ plan aaa c n r) : b.Unacked := by
  cases planned_of_mem hb with
  | ack | exit | subscribe | unsubscribe | exclude | unexclude => trivial
  | send | broadcast | publish | publishFor => exact ⟨nofun, nofun⟩

/-- No step makes a frame that looks like an acknowledgement but is none. -/
theorem told_step (hI : Inv s.db) (h : s.All (fun _ => Act.Unacked) fun _ => Frame.Told)
    (hs : Steps rules s l s') :
    s'.All (fun _ => Act.Unacked) fun _ => Frame.Told :=
  h.step hI
    { leads := fun _ _ _ => unacked_leads
      put := fun _ _ _ _ _ _ _ ha => .inr ha
      ack := fun _ _ c n _ _ _ _ _ => .inl ⟨c, n, rfl⟩
      nop := fun _ => .inr ⟨nofun, nofun⟩
      unregister := fun _ _ => trivial
      announce := fun _ _ => ⟨trivial, trivial⟩
      entry := fun _ _ _ _ _ ha => unacked_entry ha
      plan := fun _ _ _ _ _ _ ha => unacked_plan ha } hs

end Told

/-- A frame that is read as an acknowledgement is one. -/
theorem unacked_getIncoming {f : FrameData} (hf : Unacked f.kind) {id : ℕ} {code : UInt8}
    {rest : List UInt8} :
    getIncoming f.bytes ≠ .item (some (.ack id code)) rest := by
  intro h
  rw [bytes_eq hf.1] at h
  obtain ⟨l₀, l₁, l₂, l₃, hl⟩ := toLe_four f.frameLen
  rw [hl] at h
  simp only [List.cons_append, List.nil_append, getIncoming, tryFrom_code hf.1] at h
  cases hk : f.kind with
  | prepared => exact hf.1 hk
  | acknowledge => exact hf.2 hk
  | nop => rw [hk] at h; cases h
  | _ =>
    rw [hk] at h
    simp only at h
    split at h
    · cases h
    · split at h
      · cases h
      · cases h

/-! ### What is read -/

/-- The codes of the acknowledgements of the operation `n`, in their order. -/
def ackCodes (c : BrokerClient) (n : ℕ) (l : List Frame) : List UInt8 :=
  l.filterMap fun f => if f.origin = .ack c n then f.data.buf[5]? else none

theorem ackCodes_append (c : BrokerClient) (n : ℕ) (l : List Frame) (f : Frame) :
    ackCodes c n (l ++ [f]) =
      ackCodes c n l ++ (if f.origin = .ack c n then f.data.buf[5]? else none).toList := by
  rw [ackCodes, List.filterMap_append, ackCodes]
  rcases h : (if f.origin = .ack c n then f.data.buf[5]? else none) with _ | code
  · simp [h]
  · simp [h]

theorem ackCodes_prefix {c : BrokerClient} {n : ℕ} {l l' : List Frame} (h : l <+: l') :
    ackCodes c n l <+: ackCodes c n l' := by
  obtain ⟨r, rfl⟩ := h
  exact ⟨ackCodes c n r, by rw [ackCodes, ackCodes, ← List.filterMap_append]; rfl⟩

theorem buf_ackFrame (c : BrokerClient) (n : ℕ) {opId : List UInt8} (h : opId.length = 4)
    (code : UInt8) (rt : Bool) :
    (ackFrame c n opId code rt).data.buf[5]? = some code := by
  obtain ⟨l₀, l₁, l₂, l₃, rfl⟩ := List.length_eq_four.mp h
  rfl

namespace Confirms

variable {cl : Confirms} {c : BrokerClient}

/-- The operation asks for an acknowledgement. -/
def Asks (cl : Confirms) (m : ℕ) : Prop :=
  ∃ n r, m = n + 1 ∧ cl.sent[n]? = some r ∧ r.qos.needsAck = true

/-- What follows from the frames read so far: who waits was not acknowledged, and who
was confirmed was so by the first acknowledgement. -/
structure Consumed (cl : Confirms) (c : BrokerClient) (l : List Frame) : Prop where
  unread : ∀ id n, cl.responses id = some n → ackCodes c n l = []
  first : ∀ n code, (n, code) ∈ cl.resolved → (ackCodes c n l).head? = some code
  once : (cl.resolved.map Prod.fst).Nodup

/-- A frame that acknowledges nobody who waits. -/
theorem Consumed.skip {l : List Frame} (h : cl.Consumed c l) {f : Frame}
    (hf : ∀ id n, cl.responses id = some n → f.origin ≠ .ack c n) :
    Consumed { cl with read := cl.read + 1 } c (l ++ [f]) := by
  refine ⟨fun id n hn => ?_, fun n code hn => ?_, h.once⟩
  · rw [ackCodes_append, if_neg (hf id n hn), h.unread id n hn]
    rfl
  · rw [ackCodes_append, List.head?_append, h.first n code hn]
    rfl

/-- The first acknowledgement of an operation that waits. -/
theorem Consumed.confirm {l : List Frame} (h : cl.Consumed c l) {f : Frame} {id : UInt32} {n : ℕ}
    {code : UInt8} (hn : cl.responses id = some n) (ho : f.origin = .ack c n)
    (hcode : f.data.buf[5]? = some code) (hid : ∀ id', cl.responses id' = some n → id' = id) :
    Consumed
      { cl with
        responses := Function.update cl.responses id none
        read := cl.read + 1
        resolved := cl.resolved ++ [(n, code)] } c (l ++ [f]) := by
  have hfirst : ∀ m code', (m, code') ∈ cl.resolved →
      (ackCodes c m (l ++ [f])).head? = some code' := by
    intro m code' hm
    rw [ackCodes_append, List.head?_append, h.first m code' hm]
    rfl
  refine ⟨fun id' m hm => ?_, fun m code' hm => ?_, ?_⟩
  · simp only [Function.update_apply] at hm
    split at hm
    · cases hm
    · rename_i hne
      have hmn : m ≠ n := fun he => hne (hid id' (he ▸ hm))
      rw [ackCodes_append, if_neg, h.unread id' m hm]
      · rfl
      · rw [ho]
        intro he
        cases he
        exact hmn rfl
  · rcases List.mem_append.mp hm with hm | hm
    · exact hfirst m code' hm
    · rw [List.mem_singleton] at hm
      cases hm
      rw [ackCodes_append, h.unread id n hn, if_pos ho, hcode]
      rfl
  · rw [List.map_append, List.nodup_append]
    refine ⟨h.once, by simp, ?_⟩
    rintro m hm m' hm' rfl
    obtain rfl : m = n := by simpa using hm'
    obtain ⟨⟨m, code'⟩, hmem, rfl⟩ := List.mem_map.mp hm
    have hhead := h.first m code' hmem
    rw [h.unread id m hn] at hhead
    cases hhead

/-- A frame that is no acknowledgement. -/
theorem receive_other {f : FrameData}
    (hf : ∀ id code rest, getIncoming f.bytes ≠ .item (some (.ack id code)) rest) :
    cl.receive f = { cl with read := cl.read + 1 } := by
  unfold receive
  split
  · rename_i id code rest h
    exact absurd h (hf id code rest)
  · rfl

/-- An acknowledgement goes to who waits for its number. -/
theorem receive_ack {n : ℕ} {id : UInt32} {code : UInt8} {rt : Bool} :
    cl.receive (ackFrame c n (toLe 4 id.toNat) code rt).data =
      match cl.responses id with
      | some m =>
        { cl with
          responses := Function.update cl.responses id none
          read := cl.read + 1
          resolved := cl.resolved ++ [(m, code)] }
      | none => { cl with read := cl.read + 1 } := by
  have hget : getIncoming (ackFrame c n (toLe 4 id.toNat) code rt).data.bytes =
      .item (some (.ack (ofLe (toLe 4 id.toNat)) code)) [] := by
    have h := @getIncoming_ack (toLe 4 id.toNat) rfl code rt []
    rwa [List.append_nil] at h
  rw [receive, hget]
  simp only [ofNat_ofLe]

end Confirms

/-! ### The invariant -/

/-- The client's numbers and who waits for them; the broker has read a part of what
was sent, and what the client has read is accounted for. -/
structure ConfirmInv (t : Tid) (s : ConfirmSys S) : Prop where
  ok : s.sys.Ok
  owned : s.sys.All (Owned s.sys.db.nextId) (Sent s.sys)
  told : s.sys.All (fun _ => Act.Unacked) fun _ => Frame.Told
  frameId : s.client.frameId = frameIdAt s.client.sent.length
  opIds : ∀ n r, s.client.sent[n]? = some r → r.opId = toLe 4 (frameIdAt (n + 1)).toNat
  pending : Lib.Pending frameIdAt (· + 1) s.client.Asks s.client.sent.length s.client.responses
  unconnected : s.sys.connOf t = none → s.client = .init
  decoded : ∀ k, s.sys.connOf t = some k → k.decoded <+: s.client.sent
  consumed : ∀ k, s.sys.connOf t = some k → s.client.read ≤ (s.sys.db.cell k.client).tx.put.length ∧
    s.client.Consumed k.client ((s.sys.db.cell k.client).tx.put.take s.client.read)

section Step

variable {rules : BrokerClient → Option (ClientAaa S)} {t : Tid} {s : ConfirmSys S}

theorem consumed_init (c : BrokerClient) (l : List Frame) :
    Confirms.init.Consumed c l := ⟨nofun, nofun, .nil⟩

/-- An acknowledgement in the client's queue: of a frame it sent, which asked for it. -/
theorem ConfirmInv.ackOf (hI : ConfirmInv t s) {k : Conn} (hk : s.sys.connOf t = some k) {f : Frame}
    {d : BrokerClient} {n : ℕ} (hf : f ∈ (s.sys.db.cell k.client).tx.put)
    (ho : f.origin = .ack d n) :
    d = k.client ∧ s.client.Asks (n + 1) ∧ n < s.client.sent.length ∧
      ∃ code rt, f = ackFrame k.client n (toLe 4 (frameIdAt (n + 1)).toNat) code rt := by
  obtain ⟨rfl, u, k', r, code, hk', hc, hr, hq, rfl⟩ := (hI.owned.frames k.client f hf).ack d n ho
  obtain rfl := hI.ok.inj u t k' k hk' hk hc
  obtain rfl := Option.some.inj (hk'.symm.trans hk)
  have hsent : s.client.sent[n]? = some r := by
    obtain ⟨hlt, hr⟩ := List.getElem?_eq_some_iff.mp hr
    have hp := hI.decoded k' hk
    exact List.getElem?_eq_some_iff.mpr
      ⟨hlt.trans_le hp.length_le, by rw [← hr]; exact (hp.getElem hlt).symm⟩
  refine ⟨rfl, ⟨n, r, rfl, hsent, hq⟩, (List.getElem?_eq_some_iff.mp hsent).1, code,
    r.qos.isRealtime, ?_⟩
  rw [hI.opIds n r hsent]

/-- An operation. -/
theorem ConfirmInv.op (hI : ConfirmInv t s) {k : Conn} (hk : s.sys.connOf t = some k)
    (o : ClientOp) :
    ConfirmInv t { s with client := s.client.send o } := by
  have hid : incrementFrameId s.client.frameId = frameIdAt (s.client.sent.length + 1) := by
    rw [hI.frameId, frameIdAt_succ]
  have hasks : ∀ m ≤ s.client.sent.length, s.client.Asks m ↔ (s.client.send o).Asks m := by
    intro m hm
    simp only [Confirms.Asks, Confirms.send]
    refine exists_congr fun n => exists_congr fun r => and_congr_right fun hmn => ?_
    rw [List.getElem?_append_left (by omega)]
  have hlast : (s.client.send o).Asks (s.client.sent.length + 1) ↔ o.qos.needsAck = true := by
    constructor
    · rintro ⟨n, r, hn, hr, hq⟩
      obtain rfl : n = s.client.sent.length := by omega
      simp only [Confirms.send, List.getElem?_concat_length, Option.some.injEq] at hr
      rw [← hr] at hq
      exact hq
    · exact fun hq => ⟨_, _, rfl, List.getElem?_concat_length, hq⟩
  refine ⟨hI.ok, hI.owned, hI.told, ?_, fun n r hn => ?_, ?_, fun hc => ?_, fun k' hk' => ?_,
    fun k' hk' => ?_⟩
  · simp only [Confirms.send, List.length_append, List.length_singleton]
    exact hid
  · simp only [Confirms.send, List.getElem?_append] at hn
    split at hn
    · exact hI.opIds n r hn
    · rename_i hlt
      obtain ⟨rfl⟩ : n = s.client.sent.length := by
        have := (List.getElem?_eq_some_iff.mp hn).1
        simp only [List.length_singleton] at this
        omega
      simp only [Nat.sub_self, List.getElem?_cons_zero, Option.some.injEq] at hn
      rw [← hn, hid]
      rfl
  · have hp := hI.pending.congr hasks
    simp only [Confirms.send, List.length_append, List.length_singleton] at hp hlast ⊢
    split
    · rename_i hq
      have hent := hp.enter (a := s.client.sent.length) rfl (hlast.mpr hq)
      rw [← hid] at hent
      exact hent
    · rename_i hq
      exact hp.skip fun h => hq (hlast.mp h)
  · rw [show s.sys.connOf t = none from hc] at hk
    cases hk
  · exact (hI.decoded k' hk').trans (List.prefix_append _ _)
  · obtain ⟨hread, hcons⟩ := hI.consumed k' hk'
    refine ⟨hread, fun id n hn => ?_, hcons.first, hcons.once⟩
    simp only [Confirms.send] at hn
    split at hn
    · rw [Function.update_apply] at hn
      split at hn
      · cases hn
        -- nothing in the queue is about a frame that was not sent yet
        rw [ackCodes, List.filterMap_eq_nil_iff]
        intro f hf
        split
        · rename_i ho
          have hlt := (hI.ackOf hk' (List.mem_of_mem_take hf) ho).2.2.1
          exact absurd hlt (lt_irrefl _)
        · rfl
      · exact hcons.unread id n hn
    · exact hcons.unread id n hn

/-- A step of the broker. -/
theorem ConfirmInv.broker (hI : ConfirmInv t s) {l : Label} (hd : deliverable t s l = true)
    {sys' : Sys S} (hs : Steps rules s.sys l sys') : ConfirmInv t { s with sys := sys' } := by
  have hkeep : ∀ {k k' : Conn}, s.sys.connOf t = some k → k'.client = k.client →
      s.client.read ≤ (sys'.db.cell k'.client).tx.put.length ∧
        s.client.Consumed k'.client ((sys'.db.cell k'.client).tx.put.take s.client.read) := by
    intro k k' hk hc
    obtain ⟨hread, hcons⟩ := hI.consumed k hk
    have hp := hs.put_prefix hI.ok.inv (hI.ok.fresh t k hk)
    obtain ⟨rest, hrest⟩ := hp
    rw [hc, ← hrest, List.take_append_of_le_length hread]
    exact ⟨by rw [List.length_append]; omega, hcons⟩
  have hnew : s.sys.task t = none → s.client = .init := by
    intro ht
    exact hI.unconnected (by rw [Sys.connOf, ht]; rfl)
  have hview : ∀ k', sys'.connOf t = some k' → (s.client = .init ∧ k'.decoded = []) ∨
      ∃ k, s.sys.connOf t = some k ∧ k'.client = k.client ∧
        (k'.decoded = k.decoded ∨ ∃ r, l = .decode t r ∧ k'.decoded = k.decoded ++ [r]) := by
    intro k' hk'
    obtain ⟨⟨conn, todo⟩, hu, hconn⟩ := Option.bind_eq_some_iff.mp hk'
    obtain rfl : conn = some k' := hconn
    cases view_of_steps hs hu with
    | other ht hl hr => exact .inr ⟨k', Sys.connOf_of_task ht, rfl, .inl rfl⟩
    | opened hl hr hs ht => exact .inl ⟨hnew ht, rfl⟩
    | @read k r ht hk hl hs => exact .inr ⟨k, Sys.connOf_of_task ht, rfl, .inr ⟨r, hl, rfl⟩⟩
    | acted ht hl he hs => exact .inr ⟨k', Sys.connOf_of_task ht, rfl, .inl rfl⟩
    | @ended k rest ht hs => exact .inr ⟨k, Sys.connOf_of_task ht, rfl, .inl rfl⟩
  refine ⟨hI.ok.step hs, owned_step hI.ok hI.owned hs, told_step hI.ok.inv hI.told hs, hI.frameId,
    hI.opIds, hI.pending,
    fun hc => ?_, fun k' hk' => ?_, fun k' hk' => ?_⟩
  · refine hI.unconnected ?_
    rcases hk : s.sys.connOf t with _ | k
    · rfl
    · obtain ⟨k', hk', -⟩ := hs.conn hk
      rw [show sys'.connOf t = none from hc] at hk'
      cases hk'
  · obtain ⟨-, hnil⟩ | ⟨k, hk, -, hdec | ⟨r, rfl, hdec⟩⟩ := hview k' hk'
    · rw [hnil]
      exact List.nil_prefix
    · rw [hdec]
      exact hI.decoded k hk
    · simp only [deliverable, if_true, hk, Option.any_some, beq_iff_eq] at hd
      obtain ⟨rest, hrest⟩ := hI.decoded k hk
      rw [← hrest, List.getElem?_append_right le_rfl, Nat.sub_self] at hd
      rcases rest with _ | ⟨r', rest⟩
      · cases hd
      · cases hd
        rw [hdec]
        exact ⟨rest, by rw [← hrest, List.append_assoc]; rfl⟩
  · obtain ⟨hinit, -⟩ | ⟨k, hk, hc, -⟩ := hview k' hk'
    · simp only
      rw [hinit]
      exact ⟨Nat.zero_le _, consumed_init _ _⟩
    · exact hkeep hk hc

/-- A frame is read. -/
theorem ConfirmInv.read (hI : ConfirmInv t s) {k : Conn} (hk : s.sys.connOf t = some k) {f : Frame}
    (hf : (s.sys.db.cell k.client).tx.put[s.client.read]? = some f)
    (hw : ∀ n, f.origin = .ack k.client n → s.client.sent.length - (n + 1) < 2 ^ 32 - 1) :
    ConfirmInv t { s with client := s.client.receive f.data } := by
  obtain ⟨hlt, hget⟩ := List.getElem?_eq_some_iff.mp hf
  obtain ⟨-, hcons⟩ := hI.consumed k hk
  have hmem : f ∈ (s.sys.db.cell k.client).tx.put := List.mem_of_getElem? hf
  have htake : (s.sys.db.cell k.client).tx.put.take (s.client.read + 1) =
      (s.sys.db.cell k.client).tx.put.take s.client.read ++ [f] := by
    rw [List.take_add_one, hf]
    rfl
  -- what a reader changes of the client
  have hof : ∀ {cl : Confirms}, cl.frameId = s.client.frameId → cl.sent = s.client.sent →
      cl.read = s.client.read + 1 →
      Lib.Pending frameIdAt (· + 1) s.client.Asks s.client.sent.length cl.responses →
      cl.Consumed k.client ((s.sys.db.cell k.client).tx.put.take s.client.read ++ [f]) →
      ConfirmInv t { s with client := cl } := by
    intro cl h1 h2 h3 h4 h5
    have hasks : cl.Asks = s.client.Asks := by
      unfold Confirms.Asks
      rw [h2]
    refine ⟨hI.ok, hI.owned, hI.told, ?_, ?_, ?_, fun hc => ?_, ?_, fun k' hk' => ?_⟩
    · simp only [h1, h2]
      exact hI.frameId
    · simp only [h2]
      exact hI.opIds
    · simp only [h2, hasks]
      exact h4
    · rw [show s.sys.connOf t = none from hc] at hk
      cases hk
    · simp only [h2]
      exact hI.decoded
    · obtain rfl := Option.some.inj (hk.symm.trans hk')
      simp only [h3, htake]
      exact ⟨hlt, h5⟩
  have hskip : (∀ id n, s.client.responses id = some n → f.origin ≠ .ack k.client n) →
      ConfirmInv t { s with client := { s.client with read := s.client.read + 1 } } := fun h =>
    hof rfl rfl rfl hI.pending (hcons.skip h)
  by_cases hack : ∃ d n, f.origin = .ack d n
  · obtain ⟨d, n, ho⟩ := hack
    obtain ⟨rfl, hasks, hn, code, rt, rfl⟩ := hI.ackOf hk hmem ho
    rw [Confirms.receive_ack]
    split
    · rename_i m hm
      obtain rfl : m = n := Nat.succ_injective
        (hI.pending.eq_of_window windowed_frameIdAt hasks (by omega) hn (hw n rfl) hm)
      refine hof rfl rfl rfl (hI.pending.remove _)
        (hcons.confirm hm rfl (buf_ackFrame _ _ rfl _ _) fun id' hid' => ?_)
      exact (hI.pending.entry id' m hid').1
    · rename_i hnone
      refine hskip fun id m hm he => ?_
      obtain rfl : n = m := by simpa [ackFrame] using he
      rw [(hI.pending.entry id n hm).1, hnone] at hm
      cases hm
  · have htold : Unacked f.data.kind := (hI.told.frames k.client f hmem).resolve_left hack
    rw [Confirms.receive_other fun _ _ _ => unacked_getIncoming htold]
    exact hskip fun id n _ ho => hack ⟨_, _, ho⟩

theorem ConfirmInv.step (hI : ConfirmInv t s) {l : ConfirmLabel} {s' : ConfirmSys S}
    (hg : Prompt t s l) (hs : ConfirmSteps rules t s l s') : ConfirmInv t s' := by
  cases l with
  | op o =>
    simp only [ConfirmSteps, confirmStep] at hs
    split at hs
    · cases hs
      exact hI
    · split at hs
      · cases hs
      · rename_i k hk
        cases hs
        exact hI.op hk o
  | broker l =>
    simp only [ConfirmSteps, confirmStep] at hs
    split at hs
    · rename_i hd
      obtain ⟨sys', hsys, rfl⟩ := Option.map_eq_some_iff.mp hs
      exact hI.broker hd hsys
    · cases hs
  | read =>
    simp only [ConfirmSteps, confirmStep] at hs
    split at hs
    · cases hs
    · rename_i k hk
      split at hs
      · obtain ⟨f, hf, rfl⟩ := Option.map_eq_some_iff.mp hs
        exact hI.read hk hf fun n ho => hg k f n hk hf ho
      · cases hs

end Step

/-- Before the client connects. -/
def ConfirmSys.init (S : Submap) (forceRegister brokerRpc : Bool) (queueSize : ℕ+) : ConfirmSys S :=
  ⟨.init S forceRegister brokerRpc queueSize, .init⟩

theorem confirmInv_init (t : Tid) (forceRegister brokerRpc : Bool) (queueSize : ℕ+) :
    ConfirmInv t (ConfirmSys.init S forceRegister brokerRpc queueSize) where
  ok := Sys.ok_init ..
  owned := Sys.all_init ..
  told := Sys.all_init ..
  frameId := rfl
  opIds := nofun
  pending := pending_empty
  unconnected _ := rfl
  decoded k hk := by simp [ConfirmSys.init, Sys.init, Sys.connOf] at hk
  consumed k hk := by simp [ConfirmSys.init, Sys.init, Sys.connOf] at hk

/-- **Acknowledgement correlation**: in every run of a client against the broker no frame
has the number 0, an operation is confirmed at most once, and with the code of the
first acknowledgement that was made for its frame. -/
theorem confirmed_by_first (rules : BrokerClient → Option (ClientAaa S)) (t : Tid)
    (forceRegister brokerRpc : Bool) (queueSize : ℕ+) (ls : List ConfirmLabel) (s : ConfirmSys S)
    (h : Run (Guarded (ConfirmSteps rules t) (Prompt t))
      (ConfirmSys.init S forceRegister brokerRpc queueSize) ls s) :
    (∀ r ∈ s.client.sent, ofLe r.opId ≠ 0) ∧ (s.client.resolved.map Prod.fst).Nodup ∧
      ∀ n code, (n, code) ∈ s.client.resolved → ∃ k, s.sys.connOf t = some k ∧
        k.decoded <+: s.client.sent ∧
        (ackCodes k.client n (s.sys.db.cell k.client).tx.put).head? = some code := by
  have hI : ConfirmInv t s := h.inv (fun _ _ _ hI hs => hI.step hs.1 hs.2) (confirmInv_init ..)
  refine ⟨fun r hr => ?_, ?_, fun n code hn => ?_⟩
  · obtain ⟨n, hn⟩ := List.mem_iff_getElem?.mp hr
    rw [hI.opIds n r hn]
    intro hz
    have hid := ofNat_ofLe (frameIdAt (n + 1))
    rw [hz] at hid
    exact frameIdAt_ne_zero (by omega) hid.symm
  · rcases hk : s.sys.connOf t with _ | k
    · rw [hI.unconnected hk]
      exact .nil
    · exact (hI.consumed k hk).2.once
  · rcases hk : s.sys.connOf t with _ | k
    · rw [hI.unconnected hk] at hn
      cases hn
    · refine ⟨k, rfl, hI.decoded k hk, ?_⟩
      have hfirst := (hI.consumed k hk).2.first n code hn
      obtain ⟨rest, hrest⟩ := ackCodes_prefix (c := k.client) (n := n)
        (List.take_prefix s.client.read (s.sys.db.cell k.client).tx.put)
      rw [← hrest, List.head?_append, hfirst]
      rfl

namespace Twice

/-- The client may subscribe to `a`. -/
def rules (_ : BrokerClient) : Option (ClientAaa reference) :=
  some ((ClientAaa.new reference).withSubscribeTo ["a"])

def client : BrokerClient := ⟨0, "w", .tcp, none, none⟩

def start : ConfirmSys reference := .init reference false false 4

/-- It asks for `a` and `b` in one frame, and reads both answers. -/
def labels : List ConfirmLabel :=
  [.broker (.connect 0 "w" .tcp none none), .op .ping, .op (.subscribeBulk ["a", "b"] .processed),
    .broker (.decode 0 ((ClientOp.subscribeBulk ["a", "b"] .processed).request 1)),
    .broker (.act 0 .plain), .broker (.act 0 .plain), .broker (.act 0 .plain),
    .broker (.recv client), .broker (.recv client), .read, .read]

/-- The check of `Prompt`. -/
def prompt (s : ConfirmSys reference) : ConfirmLabel → Bool
  | .read => decide (s.client.sent.length < 2 ^ 32 - 1)
  | _ => true

theorem prompt_sound (s : ConfirmSys reference) (l : ConfirmLabel) (h : prompt s l = true) :
    Prompt 0 s l := by
  cases l with
  | read =>
    intro k f n _ _ _
    have hlen := of_decide_eq_true h
    omega
  | _ => trivial

end Twice

open Twice in
/-- The refusal confirms the operation, and nothing the success after it. -/
theorem confirmed_by_first_refusal :
    ∃ s k, Run (Guarded (ConfirmSteps rules 0) (Prompt 0)) start labels s ∧
    s.client.resolved = [(0, ErrorKind.access.code)] ∧ s.client.read = 2 ∧ s.sys.connOf 0 = some k ∧
    (ackCodes k.client 0 (s.sys.db.cell k.client).tx.put).head? = some ErrorKind.access.code := by
  have hrun :
      (execList (fun s l => if prompt s l then confirmStep rules 0 s l else none)
        start labels).map (fun s => (s.client.resolved, s.client.read)) =
        some ([(0, ErrorKind.access.code)], 2) := by decide
  obtain ⟨s, hs, hobs⟩ := Option.map_eq_some_iff.mp hrun
  obtain ⟨hres, hread⟩ := Prod.mk.inj hobs
  have hr := run_of_checked prompt_sound hs
  obtain ⟨k, hk, -, hfirst⟩ :=
    (confirmed_by_first rules 0 false false 4 labels s hr).2.2 0 ErrorKind.access.code
    (by rw [hres]; exact List.mem_singleton.mpr rfl)
  exact ⟨s, k, hr, hres, hread, hk, hfirst⟩

end Busrt
