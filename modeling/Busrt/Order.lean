/-
# What a sender's frames come to

A connection's reader works on one frame of its peer at a time, and hands what
it makes of it from queue to queue. So, whatever the other tasks do meanwhile,
the frames of one sender are in every queue in the order they were read, each
at most once (`order`), and the answer to a message says whether it was put
(`answers`).

The order is an accounting: the numbers of a sender's operations in a queue,
followed by those its task may yet put there (`Act.due`), only lose members,
but for the number of a frame just read, which is larger than all of them.

Key definitions: `Owned`, `Sent`, `Act.due`, `Ordered`.
Key theorems: `exec_due`, `Ordered.step`, `pair_order`.
-/
import Busrt.System

namespace Busrt

open Lib BrokerDb

variable {S : Submap}

/-! ### Whose acts and frames these are -/

/-- The operation `n` of the client `c`, read as `r`, is the last that the
connection has read. -/
def Current (o : Option Conn) (c : BrokerClient) (n : ℕ) (r : Request) : Prop :=
  ∃ k, o = some k ∧ k.client = c ∧ k.decoded.length = n + 1 ∧ k.decoded[n]? = some r

/-- The answer is to the operation at hand, a message. -/
def Reply.Owned (o : Option Conn) : Reply → Prop
  | .none => True
  | .ack c n opId qos => ∃ r, Current o c n r ∧ r.op = .message ∧ r.opId = opId ∧ r.qos = qos

/-- A frame on its way to a client named `name`, and its answer: both are of the
operation at hand; a message, and only a message, has one. -/
structure Carries (o : Option Conn) (name : String) (f : Frame) (reply : Reply) : Prop where
  not_ack : ∀ c n, f.origin ≠ .ack c n
  frame : ∀ c n, f.origin = .op c n → ∃ r, Current o c n r ∧ r.outgoing c n = some f ∧
    (r.op = .message → reply = .ack c n r.opId r.qos)
  answer : reply.Owned o
  target : ∀ c n opId qos, reply = .ack c n opId qos → f.origin = .op c n ∧
    ∃ r pos, Current o c n r ∧ targetOf r.buf = .ok (name, pos)

/-- The acts of a task concern the operation at hand; a message goes to a client
that was made before `N`. -/
def Owned (N : ℕ) (o : Option Conn) : Act → Prop
  | .send target f _ reply => Carries o target f reply
  | .fan _ f _ => ∀ name, Carries o name f .none
  | .safeSend tgt f _ reply => Carries o tgt.name f reply ∧ (reply ≠ .none → tgt.id < N)
  | .put tgt f _ reply => Carries o tgt.name f reply ∧ (reply ≠ .none → tgt.id < N)
  | .close _ reply => reply.Owned o
  | .ack c n opId _ realtime => ∃ r, Current o c n r ∧ r.opId = opId ∧ r.qos.isRealtime = realtime ∧
    r.qos.needsAck = true
  | _ => True

/-- A frame in the queue of `b` is of an operation that was read, as it was read,
or the acknowledgement of one of its own operations. -/
structure Sent (s : Sys S) (b : BrokerClient) (f : Frame) : Prop where
  op : ∀ c n, f.origin = .op c n → ∃ t k r, s.connOf t = some k ∧ k.client = c ∧
    k.decoded[n]? = some r ∧
    r.outgoing c n = some f
  ack : ∀ c n, f.origin = .ack c n → b = c ∧ ∃ t k r code, s.connOf t = some k ∧ k.client = c ∧
    k.decoded[n]? = some r ∧ r.qos.needsAck = true ∧ f = ackFrame c n r.opId code r.qos.isRealtime

section Owned

variable {N : ℕ} {o : Option Conn}

theorem carries_none {name : String} {f : Frame} (hf : f.origin = .broker) :
    Carries o name f .none where
  not_ack _ _ h := nomatch hf.symm.trans h
  frame _ _ h := nomatch hf.symm.trans h
  answer := trivial
  target _ _ _ _ h := nomatch h

theorem owned_reply {reply : Reply} (hr : reply.Owned o) {res : Except ErrorKind Unit} {b : Act}
    (hb : b ∈ reply.acts res) : Owned N o b := by
  obtain ⟨c, n, opId, qos, code, rfl, rfl, ha⟩ := mem_reply hb
  obtain ⟨r, hcur, -, hid, hq⟩ := hr
  exact ⟨r, hcur, hid, by rw [hq], by rw [hq]; exact ha⟩

theorem owned_local (name : String) (kind : FrameKind) (c : BrokerClient) (topic : Option String)
    (header : Option (List UInt8)) (payload : List UInt8) (qos : QoS) :
    Carries o name (localFrame kind c topic header payload qos) .none :=
  carries_none rfl

theorem owned_announce (db : BrokerDb S) (event : BrokerEvent) {b : Act}
    (hb : b ∈ announceActs db event) :
    Owned N o b := by
  obtain rfl | rfl := mem_announceActs hb <;> trivial

theorem owned_coreJob (core : BrokerClient) (payload : List UInt8) (job : CoreJob) :
    Owned N o (job.act core payload) := by
  cases job with
  | announce event => exact fun name => owned_local ..
  | fan op payload => exact fun name => owned_local ..
  | send target header payload => exact owned_local ..

/-- The acts of the operation at hand lead to such acts. -/
theorem owned_leads {db : BrokerDb S} {a b : Act} (hI : Inv db) (hN : db.nextId ≤ N)
    (ha : Owned N o a) (h : Leads db a b) : Owned N o b := by
  cases h with
  | @found target f timeout reply tgt hl =>
    have hf : Carries o target f reply := ha
    rw [← hI.name_eq _ _ hl] at hf
    exact ⟨hf, fun _ => (hI.fresh _ _ hl).trans_le hN⟩
  | recipient ht => exact ⟨ha _, fun h => absurd rfl h⟩
  | room => exact ha
  | full => trivial
  | close => exact ha.1.answer
  | notRegistered hb => exact owned_reply ha.answer hb
  | put hb => exact owned_reply ha.1.answer hb
  | closed hb => exact owned_reply ha hb
  | announce hb => exact owned_announce _ _ hb
  | core => exact owned_coreJob ..
  | locks hb => rcases hb with rfl | rfl | rfl <;> trivial

theorem owned_entry {e : Entry} {b : Act} (hb : b ∈ e.acts) : Owned N o b := by
  cases entryAct_of_mem hb with
  | fan => exact fun name => owned_local ..
  | send => exact owned_local ..
  | subscribe | unsubscribe | exclude | unexclude | unregister | drop => trivial
  | lockRpc | withCore | lockCore | unlockCore => trivial

/-- The acts of a frame just read concern it. -/
theorem owned_plan {aaa : Option (ClientAaa S)} {c : BrokerClient} {n : ℕ} {r : Request}
    (hcur : Current o c n r) {b : Act} (hb : b ∈ plan aaa c n r) : Owned N o b := by
  have hfan : ∀ {f : Frame}, r.outgoing c n = some f → f.origin = .op c n → r.op ≠ .message →
      ∀ name, Carries o name f .none := by
    intro f hf ho hm name
    refine ⟨fun d m h => (nomatch ho.symm.trans h), fun d m h => ?_, trivial,
      fun _ _ _ _ h => nomatch h⟩
    obtain ⟨rfl, rfl⟩ : c = d ∧ n = m := by simpa [ho] using h
    exact ⟨r, hcur, hf, fun h => absurd h hm⟩
  cases planned_of_mem hb with
  | ack code hq => exact ⟨r, hcur, rfl, rfl, hq⟩
  | exit | subscribe | unsubscribe | exclude | unexclude => trivial
  | send target pos hop ht =>
    refine ⟨fun d m h => (nomatch h), fun d m h => ?_, ⟨r, hcur, hop, rfl, rfl⟩,
      fun d m opId qos h => ?_⟩
    · obtain ⟨rfl, rfl⟩ : c = d ∧ n = m := by simpa [Request.frame] using h
      exact ⟨r, hcur, by simp only [Request.outgoing, ht, hop], fun _ => rfl⟩
    · obtain ⟨rfl, rfl, -⟩ : c = d ∧ n = m ∧ _ := by simpa using h
      exact ⟨rfl, r, pos, hcur, ht⟩
  | broadcast target pos hop ht ha =>
    exact hfan (by simp only [Request.outgoing, ht, hop]) rfl (by rw [hop]; decide)
  | publish topic pos hop ht =>
    exact hfan (by simp only [Request.outgoing, ht, hop]) rfl (by rw [hop]; decide)
  | publishFor topic receiver pos pos' hop ht ht' =>
    exact hfan (by simp only [Request.outgoing, ht, hop, ht']) rfl (by rw [hop]; decide)

end Owned

section Sent

variable {rules : BrokerClient → Option (ClientAaa S)} {s s' : Sys S} {l : Label}

/-- What was read stays read. -/
theorem Sent.mono (hs : Steps rules s l s') {b : BrokerClient} {f : Frame} (h : Sent s b f) :
    Sent s' b f := by
  have hget : ∀ {k k' : Conn} {n : ℕ} {r : Request}, k.decoded <+: k'.decoded →
      k.decoded[n]? = some r →
      k'.decoded[n]? = some r := fun hp hn => List.getElem?_eq_some_iff.mpr (by
    obtain ⟨hlt, hr⟩ := List.getElem?_eq_some_iff.mp hn
    exact ⟨hlt.trans_le hp.length_le, by rw [← hr]; exact (hp.getElem hlt).symm⟩)
  refine ⟨fun c n ho => ?_, fun c n ho => ?_⟩
  · obtain ⟨t, k, r, hk, hc, hr, hf⟩ := h.op c n ho
    obtain ⟨k', hk', hc', hp⟩ := hs.conn hk
    exact ⟨t, k', r, hk', hc'.trans hc, hget hp hr, hf⟩
  · obtain ⟨hb, t, k, r, code, hk, hc, hr, hq, hf⟩ := h.ack c n ho
    obtain ⟨k', hk', hc', hp⟩ := hs.conn hk
    exact ⟨hb, t, k', r, code, hk', hc'.trans hc, hget hp hr, hq, hf⟩

theorem Owned.mono {N N' : ℕ} (hN : N ≤ N') {o : Option Conn} {a : Act} (h : Owned N o a) :
    Owned N' o a := by
  cases a with
  | safeSend | put => exact ⟨h.1, fun hr => (h.2 hr).trans_le hN⟩
  | _ => exact h

theorem Current.of_task {t : Tid} {k : Task} {c : BrokerClient} {n : ℕ} {r : Request}
    (ht : s.task t = some k) (h : Current k.conn c n r) :
    ∃ k₀, s.connOf t = some k₀ ∧ k₀.client = c ∧ k₀.decoded[n]? = some r := by
  obtain ⟨k₀, hk, hc, -, hr⟩ := h
  exact ⟨k₀, (Sys.connOf_of_task ht).trans hk, hc, hr⟩

/-- Every act and every frame is some operation's that was read. -/
theorem owned_step (hok : s.Ok) (h : s.All (Owned s.db.nextId) (Sent s)) (hs : Steps rules s l s') :
    s'.All (Owned s'.db.nextId) (Sent s') := by
  have hN := hs.nextId_le hok.inv
  have hall : s.All (Owned s'.db.nextId) (Sent s') :=
    ⟨fun t k ht a ha => (h.acts t k ht a ha).mono hN, fun b f hf => (h.frames b f hf).mono hs⟩
  refine hall.step hok.inv ?_ hs
  exact
    { leads := fun o a b => owned_leads hok.inv hN
      put := fun t k tgt f timeout reply ht ha => by
        refine .mono hs ⟨fun c n ho => ?_, fun c n ho => absurd ho (ha.1.not_ack c n)⟩
        obtain ⟨r, hcur, hf, -⟩ := ha.1.frame c n ho
        obtain ⟨k₀, hk, hc, hr⟩ := hcur.of_task ht
        exact ⟨t, k₀, r, hk, hc, hr, hf⟩
      ack := fun t k c n opId code realtime ht ha => by
        refine .mono hs ⟨fun _ _ ho => (nomatch ho), fun d m ho => ?_⟩
        obtain ⟨rfl, rfl⟩ : c = d ∧ n = m := by simpa [ackFrame] using ho
        obtain ⟨r, hcur, rfl, rfl, hq⟩ := ha
        obtain ⟨k₀, hk, hc, hr⟩ := hcur.of_task ht
        exact ⟨rfl, t, k₀, r, code, hk, hc, hr, hq, rfl⟩
      nop := fun c => ⟨fun _ _ ho => (nomatch ho), fun _ _ ho => (nomatch ho)⟩
      unregister := fun o c => trivial
      announce := fun o name => ⟨trivial, trivial⟩
      entry := fun t e _ _ a ha => owned_entry ha
      plan := fun t r k _ hk a ha =>
        owned_plan ⟨_, rfl, rfl, by simp, by simp⟩ ha }

end Sent

/-! ### The order in a queue -/

/-- The number of the operation of `c` that made the frame. -/
def Frame.opOf (c : BrokerClient) (f : Frame) : Option ℕ :=
  match f.origin with
  | .op d n => if d = c then some n else none
  | _ => none

/-- The operations of `c` whose frame the act may yet put into the queue of `b`. -/
def Act.due (c b : BrokerClient) : Act → List ℕ
  | .send _ f _ _ => (f.opOf c).toList
  | .fan _ f _ => (f.opOf c).toList
  | .safeSend tgt f _ _ => if tgt = b then (f.opOf c).toList else []
  | .put tgt f _ _ => if tgt = b then (f.opOf c).toList else []
  | _ => []

section Due

variable {ch : Choice} {db db' : BrokerDb S} (c b : BrokerClient)

theorem opOf_eq_some {c : BrokerClient} {f : Frame} {n : ℕ} :
    f.opOf c = some n ↔ f.origin = .op c n := by
  unfold Frame.opOf
  split
  · rename_i d m ho
    rw [ho, Origin.op.injEq]
    constructor
    · intro h
      split at h
      · exact ⟨‹_›, Option.some.inj h⟩
      · cases h
    · rintro ⟨rfl, rfl⟩; simp
  · rename_i ho
    exact ⟨fun h => (nomatch h), fun h => absurd h (ho c n)⟩

theorem due_reply (reply : Reply) (res : Except ErrorKind Unit) :
    (reply.acts res).flatMap (Act.due c b) = [] := by
  refine List.flatMap_eq_nil_iff.mpr fun a ha => ?_
  obtain ⟨d, n, opId, qos, code, -, rfl, -⟩ := mem_reply ha
  rfl

/-- A set of recipients has each at most once. -/
theorem due_safeSends (f : Frame) (timeout : Bool) : ∀ l : List BrokerClient, l.Nodup →
    ((l.map fun tgt => Act.safeSend tgt f timeout .none).flatMap (Act.due c b)).Sublist
      (f.opOf c).toList
  | [], _ => List.nil_sublist _
  | tgt :: l, hn => by
    rw [List.nodup_cons] at hn
    rw [List.map_cons, List.flatMap_cons]
    by_cases ht : tgt = b
    · have hrest :
          (l.map fun tgt => Act.safeSend tgt f timeout .none).flatMap (Act.due c b) = [] := by
        refine List.flatMap_eq_nil_iff.mpr fun a ha => ?_
        obtain ⟨d, hd, rfl⟩ := List.mem_map.mp ha
        exact if_neg fun h => hn.1 (by rw [ht, ← h]; exact hd)
      rw [hrest, List.append_nil, Act.due, if_pos ht]
    · rw [Act.due, if_neg ht, List.nil_append]
      exact due_safeSends f timeout l hn.2

theorem due_announce (event : BrokerEvent) :
    (announceActs db event).flatMap (Act.due c b) = [] := by
  unfold announceActs
  split <;> rfl

theorem due_coreJob (core : BrokerClient) (payload : List UInt8) (job : CoreJob) :
    (job.act core payload).due c b = [] := by
  cases job <;> rfl

/-- No act leads to more than is due. -/
theorem due_execDb {a : Act} {l : List Act} (h : execDb ch db a = some (db', .acts l)) :
    (l.flatMap (Act.due c b)).Sublist (a.due c b) := by
  cases a with
  | ack d n opId code realtime =>
    rw [execDb] at h
    rcases execPut_cases h with ⟨-, hn⟩ | ⟨-, hn⟩ | ⟨-, -, -, hn⟩
    · cases hn
    · cases hn
    · cases hn; exact List.Sublist.refl _
  | put tgt f timeout reply =>
    rw [execDb] at h
    rcases execPut_cases h with ⟨-, hn⟩ | ⟨-, hn⟩ | ⟨-, -, -, hn⟩
    · cases hn; rw [due_reply]; exact List.nil_sublist _
    · cases hn
    · cases hn; rw [due_reply]; exact List.nil_sublist _
  | subscribe | unsubscribe | exclude | unexclude | drop => cases h; exact List.nil_sublist _
  | send target f timeout reply =>
    rw [execDb] at h
    split at h
    · rename_i tgt _
      cases h
      simp only [List.flatMap_singleton, Act.due]
      split
      · exact List.Sublist.refl _
      · exact List.nil_sublist _
    · cases h
      rw [due_reply]
      exact List.nil_sublist _
  | fan op f timeout =>
    cases h
    exact due_safeSends c b f timeout _ ((ch.iter_perm _).nodup_iff.mpr (nodup_recipients db op))
  | safeSend tgt f timeout reply =>
    rw [execDb] at h
    split at h
    · split at h
      · cases h; simp [Act.due]
      · cases h; exact List.nil_sublist _
    · cases h; simp [Act.due]
  | close tgt reply => cases h; rw [due_reply]; exact List.nil_sublist _
  | unregister d =>
    cases h
    split
    · rw [due_announce]; exact List.nil_sublist _
    · exact List.nil_sublist _
  | withCore job =>
    cases h
    split
    · simp only [List.flatMap_cons, due_coreJob]; exact List.nil_sublist _
    · exact List.nil_sublist _
  | exit e => cases h
  | lockRpc | lockCore | unlockRpc | unlockCore => cases h

/-- **The account of a queue**: what is in it and what is due, in order, only
loses members when an act is done. -/
theorem account_exec {s s₁ : Sys S} {t : Tid} {a : Act} {l : List Act}
    (h : exec ch t s a = some (s₁, .acts l)) :
    ((s₁.db.cell b).tx.put.filterMap (Frame.opOf c) ++ l.flatMap (Act.due c b)).Sublist
      ((s.db.cell b).tx.put.filterMap (Frame.opOf c) ++ a.due c b) := by
  rcases exec_cases h with ⟨db, hdb, rfl⟩ | ⟨hn, hlock⟩
  · have hdue := due_execDb c b hdb
    rcases execDb_put hdb with hp | ⟨tgt, f, timeout, reply, rfl, hn, hp⟩ |
      ⟨d, n, opId, code, rt, rfl, hn, hp⟩
    · rw [hp]; exact hdue.append_left _
    · rw [Next.acts.injEq] at hn
      rw [hn, due_reply, List.append_nil, hp]
      split
      · rename_i hb
        rw [List.filterMap_append, Act.due, if_pos hb.symm]
        simp only [List.filterMap_cons, List.filterMap_nil]
        cases f.opOf c <;> exact List.Sublist.refl _
      · exact List.sublist_append_left _ _
    · rw [Next.acts.injEq] at hn
      rw [hn, hp]
      split
      · simp [ackFrame, Frame.opOf, Act.due]
      · exact List.Sublist.refl _
  · rw [Next.acts.injEq] at hn
    rw [hn]
    rcases hlock with ⟨rfl, -, rfl⟩ | ⟨rfl, -, rfl⟩ | ⟨rfl, rfl⟩ |
      ⟨rfl, rfl⟩ <;> exact List.Sublist.refl _

/-- A frame just read is due once. -/
theorem due_plan (aaa : Option (ClientAaa S)) (n : ℕ) (r : Request) :
    ((plan aaa c n r).flatMap (Act.due c b)).Sublist [n] := by
  have hack : ∀ code, (ackIf c n r.opId r.qos code).flatMap (Act.due c b) = [] := fun code =>
    List.flatMap_eq_nil_iff.mpr fun a ha => by rw [(mem_ackIf c n ha).1]; rfl
  have hfin : ∀ complete, (finishTopics c n r complete).flatMap (Act.due c b) = [] := by
    intro complete
    unfold finishTopics
    split
    · exact hack _
    · rfl
  have hden : ∀ l : List String,
      (l.flatMap fun _ => ackIf c n r.opId r.qos ErrorKind.access.code).flatMap
        (Act.due c b) = [] := fun l =>
    List.flatMap_eq_nil_iff.mpr fun a ha => by
      obtain ⟨-, -, ha⟩ := List.mem_flatMap.mp ha
      rw [(mem_ackIf c n ha).1]; rfl
  have hguard : ∀ ok a, (Act.due c b a).Sublist [n] →
      ((guarded c n r ok (a :: ackIf c n r.opId r.qos RESPONSE_OK)).flatMap
        (Act.due c b)).Sublist [n] := by
    intro ok a ha
    unfold guarded
    split
    · rw [List.flatMap_cons, hack, List.append_nil]; exact ha
    · rw [hack]; exact List.nil_sublist _
  have hframe : ∀ kind topic pos, ((r.frame c n kind topic pos).opOf c).toList.Sublist [n] := by
    intro kind topic pos
    simp [Request.frame, Frame.opOf]
  unfold plan
  split
  · simp only
    split
    · rw [List.flatMap_append, hden, List.flatMap_cons, hfin]; exact List.nil_sublist _
    · rw [List.flatMap_append, hden, hfin]; exact List.nil_sublist _
  · rw [List.flatMap_cons, hfin]; exact List.nil_sublist _
  · rw [List.flatMap_cons, hfin]; exact List.nil_sublist _
  · rw [List.flatMap_cons, hfin]; exact List.nil_sublist _
  · split
    · exact List.nil_sublist _
    · split
      · unfold guarded
        split
        · rw [List.flatMap_singleton]; exact hframe _ _ _
        · rw [hack]; exact List.nil_sublist _
      · exact hguard _ _ (hframe _ _ _)
      · exact hguard _ _ (hframe _ _ _)
      · split
        · exact List.nil_sublist _
        · exact hguard _ _ (hframe _ _ _)
      · exact List.nil_sublist _

end Due

/-! ### Steps of others -/

/-- The frame is an operation's of `c`, or an acknowledgement of one. -/
def Frame.mine (c : BrokerClient) (f : Frame) : Bool :=
  match f.origin with
  | .op d _ => d = c
  | .ack d _ => d = c
  | .broker => false

section Foreign

variable {rules : BrokerClient → Option (ClientAaa S)} {s s' : Sys S} {l : Label}
  {ch : Choice} {t : Tid}

theorem mine_of_opOf {c : BrokerClient} {f : Frame} {n : ℕ} (h : f.opOf c = some n) :
    f.mine c = true := by
  simp [Frame.mine, opOf_eq_some.mp h]

theorem filterMap_opOf_mine (c : BrokerClient) (l : List Frame) :
    (l.filter (Frame.mine c)).filterMap (Frame.opOf c) = l.filterMap (Frame.opOf c) := by
  rw [List.filterMap_filter]
  refine List.filterMap_congr fun f _ => ?_
  split
  · rfl
  · rename_i hm
    rcases ho : f.opOf c with _ | n
    · rfl
    · exact absurd (mine_of_opOf ho) hm

/-- An act of somebody else puts no frame of the client. -/
theorem mine_exec {c : BrokerClient} {N : ℕ} {o : Option Conn} {a : Act} {s₁ : Sys S} {next : Next}
    (ha : Owned N o a) (ho : ∀ k, o = some k → k.client ≠ c) (he : exec ch t s a = some (s₁, next))
    (b : BrokerClient) :
    (s₁.db.cell b).tx.put.filter (Frame.mine c) = (s.db.cell b).tx.put.filter (Frame.mine c) := by
  have hcur : ∀ n r, ¬ Current o c n r := by
    rintro n r ⟨k, hk, hc, -⟩
    exact ho k hk hc
  have hpush : ∀ {db : BrokerDb S} {tgt : BrokerClient} {f : Frame}, Puts s.db db tgt f →
      f.mine c = false →
      (db.cell b).tx.put.filter (Frame.mine c) = (s.db.cell b).tx.put.filter (Frame.mine c) := by
    intro db tgt f hp hf
    rw [hp]
    split
    · rw [List.filter_append, List.filter_cons_of_neg (by rw [hf]; decide)]; simp
    · rfl
  rcases exec_cases he with ⟨db, hdb, rfl⟩ | ⟨-, ⟨-, -, rfl⟩ | ⟨-, -, rfl⟩ | ⟨-, rfl⟩ | ⟨-, rfl⟩⟩
  · rcases execDb_put hdb with hp | ⟨tgt, f, timeout, reply, rfl, -, hp⟩ |
      ⟨d, n, opId, code, rt, rfl, -, hp⟩
    · rw [hp]
    · refine hpush hp ?_
      unfold Frame.mine
      split
      · rename_i d n hf
        obtain ⟨r, hr, -⟩ := ha.1.frame d n hf
        exact decide_eq_false fun hd => hcur n r (hd ▸ hr)
      · rename_i d n hf
        exact absurd hf (ha.1.not_ack d n)
      · rfl
    · refine hpush hp (decide_eq_false fun hd => ?_)
      obtain ⟨r, hr, -⟩ := ha
      exact hcur n r (hd ▸ hr)
  all_goals rfl

/-- A step that is not the task's own act puts no frame of its client; a queue
that is not kept is a new client's. -/
theorem mine_step (hok : s.Ok) (hall : s.All (Owned s.db.nextId) (Sent s)) (hs : Steps rules s l s')
    {u : Tid} {k : Conn} (hk : s.connOf u = some k) (hu : ∀ ch, l ≠ .act u ch) (b : BrokerClient) :
    (s'.db.cell b).tx.put.filter (Frame.mine k.client) =
      (s.db.cell b).tx.put.filter (Frame.mine k.client) ∨
      (s'.db.cell b).tx.put = [] ∧ s.db.nextId ≤ b.id := by
  have hreg : ∀ {name kind source port db' res}, (allocated s name kind source port).registerClient
      (newClient s name kind source port) = (db', res) →
      (db'.cell b).tx.put.filter (Frame.mine k.client) =
        (s.db.cell b).tx.put.filter (Frame.mine k.client) ∨
        (db'.cell b).tx.put = [] ∧ s.db.nextId ≤ b.id := by
    intro name kind source port db' res hr
    rw [registered_put hok.inv hr]
    split
    · rename_i hb; exact .inr ⟨rfl, by rw [hb]; exact le_rfl⟩
    · exact .inl rfl
  cases effect_of_steps hs with
  | connect ht hr => exact hreg hr
  | refuse hr => exact hreg hr
  | @act t ch conn a rest s₁ l ht he =>
    have hne : ∀ k', conn = some k' → k'.client ≠ k.client := by
      intro k' hk' hc
      have htu := hok.inj t u k' k ((Sys.connOf_of_task ht).trans hk') hk hc
      exact hu ch (by rw [htu])
    exact .inl (mine_exec (hall.acts _ _ ht _ List.mem_cons_self) hne he b)
  | exit ht he => left; rw [← exec_exit_put he b]; rfl
  | setCore | spawn | decode | finish => exact .inl rfl
  | @recv c =>
    left
    rw [setTx_tx]
    split
    · rename_i hb; rw [Chan.put_recv, hb]
    · rfl
  | @ping c hf hc =>
    left
    rw [puts_push hf]
    split
    · simp [Frame.mine]
    · rfl

theorem mine_sublist (hok : s.Ok) (hall : s.All (Owned s.db.nextId) (Sent s))
    (hs : Steps rules s l s') {u : Tid} {k : Conn} (hk : s.connOf u = some k)
    (hu : ∀ ch, l ≠ .act u ch) (b : BrokerClient) :
    ((s'.db.cell b).tx.put.filter (Frame.mine k.client)).Sublist
      ((s.db.cell b).tx.put.filter (Frame.mine k.client)) := by
  rcases mine_step hok hall hs hk hu b with h | ⟨h, -⟩
  · rw [h]
  · rw [h]; exact List.nil_sublist _

/-- What was put stays, for clients that are made. -/
theorem put_mono (hI : Inv s.db) (hs : Steps rules s l s') {b : BrokerClient}
    (hb : b.id < s.db.nextId) {f : Frame} (hf : f ∈ (s.db.cell b).tx.put) :
    f ∈ (s'.db.cell b).tx.put := by
  have hreg : ∀ {name kind source port db' res}, (allocated s name kind source port).registerClient
      (newClient s name kind source port) = (db', res) → f ∈ (db'.cell b).tx.put := by
    intro name kind source port db' res hr
    rw [registered_put hI hr]
    split
    · rename_i hn; rw [hn] at hb; exact absurd hb (lt_irrefl _)
    · exact hf
  have hexec : ∀ {ch t a s₁ next}, exec ch t s a = some (s₁, next) → f ∈ (s₁.db.cell b).tx.put := by
    intro ch t a s₁ next he
    have hpush : ∀ {db : BrokerDb S} {tgt : BrokerClient} {g : Frame}, Puts s.db db tgt g →
        f ∈ (db.cell b).tx.put := by
      intro db tgt g hp
      rw [hp]
      split
      · exact List.mem_append_left _ hf
      · exact hf
    rcases exec_cases he with ⟨db, hdb, rfl⟩ | ⟨-, ⟨-, -, rfl⟩ | ⟨-, -, rfl⟩ | ⟨-, rfl⟩ | ⟨-, rfl⟩⟩
    · rcases execDb_put hdb with hp | ⟨tgt, g, timeout, reply, rfl, -, hp⟩ |
        ⟨d, n, opId, code, rt, rfl, -, hp⟩
      · rw [hp]; exact hf
      · exact hpush hp
      · exact hpush hp
    all_goals exact hf
  cases effect_of_steps hs with
  | connect ht hr => exact hreg hr
  | refuse hr => exact hreg hr
  | act ht he => have h := hexec he; exact h
  | exit ht he => have h := hexec he; exact h
  | setCore | spawn | decode | finish => exact hf
  | @recv c =>
    rw [setTx_tx]
    split
    · rename_i hb; rw [Chan.put_recv, ← hb]; exact hf
    · exact hf
  | @ping c hc hcl =>
    rw [puts_push hc]
    split
    · exact List.mem_append_left _ hf
    · exact hf

end Foreign

/-! ### Every run -/

/-- The operations of `c` that are in the queue of `b`, and those that are due
there. -/
def account (s : Sys S) (c b : BrokerClient) (todo : List Act) : List ℕ :=
  (s.db.cell b).tx.put.filterMap (Frame.opOf c) ++ todo.flatMap (Act.due c b)

/-- What the runs keep: every account is in order. -/
structure Ordered (s : Sys S) : Prop where
  ok : s.Ok
  all : s.All (Owned s.db.nextId) (Sent s)
  order : ∀ t k todo, s.task t = some ⟨some k, todo⟩ →
    ∀ b, (account s k.client b todo).Pairwise (· < ·)

section Ordered

variable {rules : BrokerClient → Option (ClientAaa S)} {s s' : Sys S} {l : Label}

/-- A new client's operations are in no queue. -/
theorem Ordered.opOf_new (h : Ordered s) (name : String) (kind : BusRtClientKind)
    (source port : Option String) (b : BrokerClient) :
    (s.db.cell b).tx.put.filterMap (Frame.opOf (newClient s name kind source port)) = [] := by
  refine List.filterMap_eq_nil_iff.mpr fun f hf => ?_
  rcases ho : f.opOf (newClient s name kind source port) with _ | n
  · rfl
  · obtain ⟨t, k, r, hk, hc, -⟩ := (h.all.frames b f hf).op _ n (opOf_eq_some.mp ho)
    have hlt := h.ok.fresh t k hk
    rw [hc] at hlt
    exact absurd hlt (lt_irrefl _)

theorem Ordered.lt_length (h : Ordered s) {t : Tid} {k : Conn} (hk : s.connOf t = some k)
    {b : BrokerClient} {n : ℕ} (hn : n ∈ (s.db.cell b).tx.put.filterMap (Frame.opOf k.client)) :
    n < k.decoded.length := by
  obtain ⟨f, hf, ho⟩ := List.mem_filterMap.mp hn
  obtain ⟨t', k', r, hk', hc, hr, -⟩ := (h.all.frames b f hf).op _ n (opOf_eq_some.mp ho)
  obtain rfl := h.ok.inj t' t k' k hk' hk hc
  obtain rfl := Option.some.inj (hk'.symm.trans hk)
  exact (List.getElem?_eq_some_iff.mp hr).1

theorem Ordered.step (h : Ordered s) (hs : Steps rules s l s') : Ordered s' := by
  refine ⟨h.ok.step hs, owned_step h.ok h.all hs, fun t k todo ht' b => ?_⟩
  cases view_of_steps hs ht' with
  | other ht hl _ =>
    have hmine := mine_sublist h.ok h.all hs (Sys.connOf_of_task ht) hl b
    have hsub := hmine.filterMap (Frame.opOf k.client)
    rw [filterMap_opOf_mine, filterMap_opOf_mine] at hsub
    exact (h.order t k todo ht b).sublist (hsub.append_right _)
  | @opened name kind source port db' hl hr hdb =>
    have hput : (s'.db.cell b).tx.put.filterMap
        (Frame.opOf (newClient s name kind source port)) = [] := by
      rw [hdb, registered_put h.ok.inv hr]
      split
      · rfl
      · exact h.opOf_new name kind source port b
    have htodo : (newTask db' (newClient s name kind source port)).todo.flatMap
        (Act.due (newClient s name kind source port) b) = [] := by
      simp only [newTask]
      split
      · exact due_announce ..
      · rfl
    rw [account, hput, htodo]
    exact .nil
  | @read k r ht hk hl hdb =>
    have hold := h.order t k [] ht b
    rw [account, List.flatMap_nil, List.append_nil] at hold
    rw [account, hdb]
    refine List.Pairwise.sublist ((due_plan k.client b _ k.decoded.length r).append_left _) ?_
    refine List.pairwise_append.mpr ⟨hold, List.pairwise_singleton _ _, fun n hn m hm => ?_⟩
    rw [List.mem_singleton.mp hm]
    exact h.lt_length (Sys.connOf_of_task ht) hn
  | @acted ch k a rest s₁ acts ht hl he hdb =>
    have hold := h.order t k _ ht b
    have hacc := (account_exec k.client b he).append_right (rest.flatMap (Act.due k.client b))
    refine hold.sublist ?_
    rw [account, account, hdb, List.flatMap_append, List.flatMap_cons, ← List.append_assoc,
      ← List.append_assoc]
    exact hacc
  | @ended k rest ht hput =>
    have hold := h.order t k rest ht b
    refine hold.sublist ?_
    rw [account, hput b]
    exact (List.nil_sublist _).append_left _

theorem ordered_init (forceRegister brokerRpc : Bool) (queueSize : ℕ+) :
    Ordered (Sys.init S forceRegister brokerRpc queueSize) where
  ok := Sys.ok_init ..
  all := Sys.all_init ..
  order t k todo ht := by simp [Sys.init] at ht

end Ordered

/-! ### The answers to messages -/

/-- The operation an act is to answer. -/
def Act.reply : Act → Reply
  | .send _ _ _ reply => reply
  | .safeSend _ _ _ reply => reply
  | .put _ _ _ reply => reply
  | .close _ reply => reply
  | _ => .none

/-- The acknowledgement a result leads to, by the operation's number. -/
def Reply.acks : Reply → List ℕ
  | .none => []
  | .ack _ n _ qos => if qos.needsAck then [n] else []

/-- The acknowledgements an act is or leads to. -/
def Act.acks : Act → List ℕ
  | .ack _ n _ _ _ => [n]
  | a => a.reply.acks

section Acks

variable {ch : Choice} {db db' : BrokerDb S}

/-- An acknowledgement that an act leads to, and is not, is that of its reply. -/
theorem reply_of_acks {a : Act} {n : ℕ} (hna : ∀ d m opId code rt, a ≠ .ack d m opId code rt)
    (hn : n ∈ a.acks) :
    ∃ d opId qos, a.reply = .ack d n opId qos ∧ qos.needsAck = true := by
  have hno : a.acks = a.reply.acks := by
    cases a with
    | ack d m opId code rt => exact absurd rfl (hna d m opId code rt)
    | _ => rfl
  rw [hno] at hn
  cases hrep : a.reply with
  | none =>
    rw [hrep] at hn
    cases hn
  | ack d m opId qos =>
    rw [hrep, Reply.acks] at hn
    split at hn
    · exact ⟨d, opId, qos, by rw [List.mem_singleton.mp hn], ‹_›⟩
    · cases hn

theorem acks_of_reply {a : Act} {n : ℕ} (h : n ∈ a.reply.acks) : a.acks = a.reply.acks := by
  cases a with
  | ack => simp [Act.reply, Reply.acks] at h
  | _ => rfl

theorem acks_reply (reply : Reply) (res : Except ErrorKind Unit) :
    (reply.acts res).flatMap Act.acks = reply.acks := by
  cases reply with
  | none => rfl
  | ack c n opId qos =>
    cases res <;> (simp only [Reply.acts, ackIf, Reply.acks]; split <;> rfl)

theorem acks_announce (event : BrokerEvent) : (announceActs db event).flatMap Act.acks = [] := by
  unfold announceActs
  split <;> rfl

theorem acks_coreJob (core : BrokerClient) (payload : List UInt8) (job : CoreJob) :
    (job.act core payload).acks = [] := by
  cases job <;> rfl

/-- An act leads to the acknowledgements it is to lead to, unless it is one. -/
theorem acks_execDb {a : Act} {l : List Act} (h : execDb ch db a = some (db', .acts l)) :
    (∃ c n opId code rt, a = .ack c n opId code rt ∧ l = [] ∧
      Puts db db' c (ackFrame c n opId code rt)) ∨
    (∀ c n opId code rt, a ≠ .ack c n opId code rt) ∧ l.flatMap Act.acks = a.acks := by
  cases a with
  | ack d n opId code realtime =>
    rw [execDb] at h
    rcases execPut_cases h with ⟨-, hn⟩ | ⟨-, hn⟩ | ⟨hf, -, rfl, hn⟩
    · cases hn
    · cases hn
    · cases hn; exact .inl ⟨d, n, opId, code, realtime, rfl, rfl, puts_push hf⟩
  | put tgt f timeout reply =>
    rw [execDb] at h
    rcases execPut_cases h with ⟨-, hn⟩ | ⟨-, hn⟩ | ⟨-, -, -, hn⟩
    · cases hn; exact .inr ⟨fun _ _ _ _ _ he => (by cases he), acks_reply ..⟩
    · cases hn
    · cases hn; exact .inr ⟨fun _ _ _ _ _ he => (by cases he), acks_reply ..⟩
  | subscribe | unsubscribe | exclude | unexclude | drop =>
    cases h; exact .inr ⟨fun _ _ _ _ _ he => (by cases he), rfl⟩
  | send target f timeout reply =>
    rw [execDb] at h
    split at h
    · cases h; exact .inr ⟨fun _ _ _ _ _ he => (by cases he), List.append_nil _⟩
    · cases h; exact .inr ⟨fun _ _ _ _ _ he => (by cases he), acks_reply ..⟩
  | fan op f timeout =>
    cases h
    refine .inr ⟨fun _ _ _ _ _ he => (by cases he), List.flatMap_eq_nil_iff.mpr fun a ha => ?_⟩
    obtain ⟨tgt, -, rfl⟩ := List.mem_map.mp ha
    rfl
  | safeSend tgt f timeout reply =>
    rw [execDb] at h
    split at h
    · split at h
      · cases h; exact .inr ⟨fun _ _ _ _ _ he => (by cases he), List.append_nil _⟩
      · cases h; exact .inr ⟨fun _ _ _ _ _ he => (by cases he), List.append_nil _⟩
    · cases h; exact .inr ⟨fun _ _ _ _ _ he => (by cases he), List.append_nil _⟩
  | close tgt reply => cases h; exact .inr ⟨fun _ _ _ _ _ he => (by cases he), acks_reply ..⟩
  | unregister d =>
    cases h
    refine .inr ⟨fun _ _ _ _ _ he => (by cases he), ?_⟩
    split
    · exact acks_announce _
    · rfl
  | withCore job =>
    cases h
    refine .inr ⟨fun _ _ _ _ _ he => (by cases he), ?_⟩
    split
    · simp only [List.flatMap_cons, acks_coreJob]; rfl
    · rfl
  | exit e => cases h
  | lockRpc | lockCore | unlockRpc | unlockCore => cases h

/-- What becomes of an act that is to be answered: it is handed on, it fails, or
its frame is put. -/
theorem reply_execDb {a : Act} {l : List Act} (h : execDb ch db a = some (db', .acts l))
    (ha : a.reply ≠ .none) :
    (∃ b, b.reply = a.reply ∧ (l = [b] ∨ ∃ d, l = [.unregister d, b]) ∧
      ∀ c, (db'.cell c).tx.put = (db.cell c).tx.put) ∨
    (∃ e, l = a.reply.acts (.error e) ∧ ∀ c, (db'.cell c).tx.put = (db.cell c).tx.put) ∨
    (∃ tgt f timeout, a = .put tgt f timeout a.reply ∧ l = a.reply.acts (.ok ()) ∧
      Puts db db' tgt f) := by
  cases a with
  | put tgt f timeout reply =>
    rw [execDb] at h
    rcases execPut_cases h with ⟨rfl, hn⟩ | ⟨-, hn⟩ | ⟨hf, -, rfl, hn⟩
    · cases hn; exact .inr (.inl ⟨_, rfl, fun _ => rfl⟩)
    · cases hn
    · cases hn; exact .inr (.inr ⟨tgt, f, timeout, rfl, rfl, puts_push hf⟩)
  | send target f timeout reply =>
    rw [execDb] at h
    split at h
    · rename_i tgt _
      cases h
      exact .inl ⟨.safeSend tgt f timeout reply, rfl, .inl rfl, fun _ => rfl⟩
    · cases h; exact .inr (.inl ⟨_, rfl, fun _ => rfl⟩)
  | safeSend tgt f timeout reply =>
    rw [execDb] at h
    split at h
    · split at h
      · cases h; exact .inl ⟨.put tgt f timeout reply, rfl, .inl rfl, fun _ => rfl⟩
      · cases h; exact .inl ⟨.close tgt reply, rfl, .inr ⟨tgt, rfl⟩, fun _ => rfl⟩
    · cases h; exact .inl ⟨.put tgt f false reply, rfl, .inl rfl, fun _ => rfl⟩
  | close tgt reply =>
    cases h
    exact .inr (.inl ⟨_, rfl, fun c => by rw [closeTx, setTx_tx]; split <;> simp_all⟩)
  | ack | subscribe | unsubscribe | exclude | unexclude | drop | fan | unregister |
      withCore | exit | lockRpc
  | lockCore | unlockRpc | unlockCore => exact absurd rfl ha

end Acks

theorem acks_mem {a : Act} {todo : List Act} {n : ℕ} (ha : a ∈ todo) (hn : n ∈ a.acks) :
    n ∈ todo.flatMap Act.acks := List.mem_flatMap.mpr ⟨a, ha, hn⟩

/-- The code is the last byte of an acknowledgement. -/
theorem ackFrame_code {c c' : BrokerClient} {n n' : ℕ} {opId opId' : List UInt8}
    {code code' : UInt8} {rt rt' : Bool}
    (h : ackFrame c n opId code rt = ackFrame c' n' opId' code' rt') : code = code' := by
  simp only [ackFrame, Frame.mk.injEq, FrameData.mk.injEq] at h
  exact (List.cons.inj (List.append_inj' h.2.2.2.2.2.1 rfl).2).1

/-- The frame of the operation `n` of `c` was put into the queue of `b`. -/
def Holds (db : BrokerDb S) (c : BrokerClient) (n : ℕ) (b : BrokerClient) : Prop :=
  ∃ f ∈ (db.cell b).tx.put, f.origin = .op c n

/-- The code answers the message as it should: with success if it was put into
the queue of a client of the target's name, and no other, with an error if it
was put nowhere. -/
structure Right (db : BrokerDb S) (c : BrokerClient) (n : ℕ) (r : Request) (code : UInt8) :
    Prop where
  ok : code = RESPONSE_OK → ∃ b pos, b.id < db.nextId ∧ targetOf r.buf = .ok (b.name, pos) ∧
    Holds db c n b ∧
    ∀ b', Holds db c n b' → b' = b
  error : code ≠ RESPONSE_OK → ∀ b, ¬ Holds db c n b

/-- A message that asks for an answer, with what is left to do: there is one
answer at most; before it, the message is in no queue. -/
structure Answer (db : BrokerDb S) (c : BrokerClient) (n : ℕ) (r : Request) (todo : List Act) :
    Prop where
  once : (todo.flatMap Act.acks).count n ≤ 1
  wait : ∀ a ∈ todo, n ∈ a.reply.acks → (∀ b, ¬ Holds db c n b) ∧
    ∀ f ∈ (db.cell c).tx.put, f.origin ≠ .ack c n
  act : ∀ opId code rt, .ack c n opId code rt ∈ todo → Right db c n r code
  put : ∀ opId code rt, ackFrame c n opId code rt ∈ (db.cell c).tx.put → Right db c n r code

/-- What the runs keep of the answers. -/
def Answers (s : Sys S) : Prop :=
  ∀ t k todo, s.task t = some ⟨some k, todo⟩ → ∀ n r, k.decoded[n]? = some r → r.op = .message →
    r.qos.needsAck = true → Answer s.db k.client n r todo

section Answers

variable {db db' : BrokerDb S} {c : BrokerClient} {n : ℕ} {r : Request} {ch : Choice}

theorem Right.mono {code : UInt8} (h : Right db c n r code) (hN : db.nextId ≤ db'.nextId)
    (hsub : ∀ b, Holds db' c n b → Holds db c n b)
    (hsup : ∀ b, b.id < db.nextId → Holds db c n b → Holds db' c n b) : Right db' c n r code where
  ok hc := by
    obtain ⟨b, pos, hb, ht, hh, hu⟩ := h.ok hc
    exact ⟨b, pos, hb.trans_le hN, ht, hsup b hb hh, fun b' hb' => hu b' (hsub b' hb')⟩
  error hc b hb := h.error hc b (hsub b hb)

/-- A change of the queues that puts no frame and no acknowledgement of the
operation. -/
theorem Answer.mono {todo : List Act} (h : Answer db c n r todo) (hN : db.nextId ≤ db'.nextId)
    (hsub : ∀ b, ∀ f ∈ (db'.cell b).tx.put, (f.origin = .op c n ∨ f.origin = .ack c n) →
      f ∈ (db.cell b).tx.put)
    (hsup : ∀ b, b.id < db.nextId → ∀ f ∈ (db.cell b).tx.put, f ∈ (db'.cell b).tx.put) :
    Answer db' c n r todo := by
  have hholds : ∀ b, Holds db' c n b → Holds db c n b :=
    fun b ⟨f, hf, ho⟩ => ⟨f, hsub b f hf (.inl ho), ho⟩
  have hright : ∀ code, Right db c n r code → Right db' c n r code := fun code hr =>
    hr.mono hN hholds fun b hb ⟨f, hf, ho⟩ => ⟨f, hsup b hb f hf, ho⟩
  refine ⟨h.once, fun a ha hn => ?_, fun opId code rt ha => hright _ (h.act opId code rt ha),
    fun opId code rt hf =>
    hright _ (h.put opId code rt (hsub c _ hf (.inr rfl)))⟩
  obtain ⟨h1, h2⟩ := h.wait a ha hn
  exact ⟨fun b hb => h1 b (hholds b hb), fun f hf ho => h2 f (hsub c f hf (.inr ho)) ho⟩

/-- The same with less to do. -/
theorem Answer.of_todo {todo todo' : List Act} (h : Answer db c n r todo)
    (hc : (todo'.flatMap Act.acks).count n ≤ (todo.flatMap Act.acks).count n)
    (hmem : ∀ a ∈ todo', n ∈ a.acks → a ∈ todo) : Answer db c n r todo' where
  once := hc.trans h.once
  wait a ha hn := h.wait a (hmem a ha (by rw [acks_of_reply hn]; exact hn)) hn
  act opId code rt ha := h.act opId code rt (hmem _ ha List.mem_cons_self)
  put := h.put

theorem Owned.reply {N : ℕ} {o : Option Conn} {a : Act} (h : Owned N o a) : a.reply.Owned o := by
  cases a with
  | send => exact Carries.answer h
  | safeSend | put => exact h.1.answer
  | close => exact h
  | _ => trivial

/-- An act that is not to answer the operation puts nothing of it. -/
theorem mine_of_acks {N : ℕ} {a : Act} {k : Conn} {acts : List Act} (ha : Owned N (some k) a)
    (hr : k.decoded[n]? = some r) (hop : r.op = .message) (hq : r.qos.needsAck = true)
    (hn : n ∉ a.acks) (he : execDb ch db a = some (db', .acts acts)) (b : BrokerClient) :
    ∀ f ∈ (db'.cell b).tx.put, (f.origin = .op k.client n ∨ f.origin = .ack k.client n) →
      f ∈ (db.cell b).tx.put := by
  intro f hf ho
  have hpush : ∀ {tgt : BrokerClient} {g : Frame}, Puts db db' tgt g → (f = g → False) →
      f ∈ (db.cell b).tx.put := by
    intro tgt g hp hg
    rw [hp] at hf
    split at hf
    · rcases List.mem_append.mp hf with hf | hf
      · exact hf
      · exact absurd (List.mem_singleton.mp hf) hg
    · exact hf
  rcases execDb_put he with hp | ⟨tgt, g, timeout, reply, rfl, -, hp⟩ |
    ⟨d, m, opId, code, rt, rfl, -, hp⟩
  · rw [hp] at hf; exact hf
  · refine hpush hp ?_
    rintro rfl
    rcases ho with ho | ho
    · obtain ⟨r', ⟨k', hk', -, -, hr'⟩, -, hm⟩ := ha.1.frame _ _ ho
      obtain rfl := Option.some.inj hk'
      obtain rfl := Option.some.inj (hr'.symm.trans hr)
      apply hn
      simp [hm hop, Act.acks, Act.reply, Reply.acks, hq]
    · exact ha.1.not_ack _ _ ho
  · refine hpush hp ?_
    rintro rfl
    rcases ho with ho | ho
    · cases ho
    · obtain ⟨-, rfl⟩ : d = k.client ∧ m = n := by simpa [ackFrame] using ho
      exact hn List.mem_cons_self

theorem put_execDb {a : Act} {next : Next} (he : execDb ch db a = some (db', next))
    (b : BrokerClient) {f : Frame} (hf : f ∈ (db.cell b).tx.put) : f ∈ (db'.cell b).tx.put := by
  have hpush : ∀ {tgt : BrokerClient} {g : Frame}, Puts db db' tgt g → f ∈ (db'.cell b).tx.put := by
    intro tgt g hp
    rw [hp]
    split
    · exact List.mem_append_left _ hf
    · exact hf
  rcases execDb_put he with hp | ⟨tgt, g, timeout, reply, rfl, -, hp⟩ |
    ⟨d, n, opId, code, rt, rfl, -, hp⟩
  · rw [hp]; exact hf
  · exact hpush hp
  · exact hpush hp

/-- The code of an answer. -/
def codeOf : Except ErrorKind Unit → UInt8
  | .ok () => RESPONSE_OK
  | .error e => e.code

theorem acts_ack (opId : List UInt8) (qos : QoS) (res : Except ErrorKind Unit) :
    (Reply.ack c n opId qos).acts res = ackIf c n opId qos (codeOf res) := by
  cases res <;> rfl

/-- With one act to answer the operation, nothing else is. -/
theorem Answer.not_rest {a : Act} {rest : List Act} (h : Answer db c n r (a :: rest))
    (hn : n ∈ a.acks) :
    ∀ x ∈ rest, n ∉ x.acks := by
  have h1 := h.once
  rw [List.flatMap_cons, List.count_append] at h1
  have h2 := List.count_pos_iff.mpr hn
  have h3 : n ∉ rest.flatMap Act.acks := List.count_eq_zero.mp (by omega)
  exact fun x hx hnx => h3 (acks_mem hx hnx)

/-- An acknowledgement is put into the client's queue. -/
theorem Answer.acked {opId : List UInt8} {code : UInt8} {rt : Bool} {rest : List Act}
    (h : Answer db c n r (.ack c n opId code rt :: rest)) (hN : db'.nextId = db.nextId)
    (hp : Puts db db' c (ackFrame c n opId code rt)) : Answer db' c n r rest := by
  have hnone := h.not_rest List.mem_cons_self
  have hold : ∀ b, ∀ f ∈ (db'.cell b).tx.put, f.origin = .op c n → f ∈ (db.cell b).tx.put := by
    intro b f hf ho
    rw [hp] at hf
    split at hf
    · rcases List.mem_append.mp hf with hf | hf
      · exact hf
      · rw [List.mem_singleton.mp hf] at ho; cases ho
    · exact hf
  have hnew : ∀ b, ∀ f ∈ (db.cell b).tx.put, f ∈ (db'.cell b).tx.put := by
    intro b f hf
    rw [hp]
    split
    · exact List.mem_append_left _ hf
    · exact hf
  have hright : ∀ code, Right db c n r code → Right db' c n r code := fun code hr =>
    hr.mono hN.ge (fun b ⟨f, hf, ho⟩ => ⟨f, hold b f hf ho, ho⟩) fun b _ ⟨f, hf, ho⟩ =>
      ⟨f, hnew b f hf, ho⟩
  refine ⟨?_, fun x hx hnx => ?_, fun _ _ _ hx => ?_, fun opId' code' rt' hf => ?_⟩
  · have h1 := h.once
    rw [List.flatMap_cons, List.count_append] at h1
    omega
  · exact absurd (by rw [acks_of_reply hnx]; exact hnx) (hnone x hx)
  · exact absurd List.mem_cons_self (hnone _ hx)
  · rw [hp, if_pos rfl] at hf
    rcases List.mem_append.mp hf with hf | hf
    · exact hright _ (h.put opId' code' rt' hf)
    · rw [ackFrame_code (List.mem_singleton.mp hf)]
      exact hright _ (h.act opId code rt List.mem_cons_self)

/-- A message is handed on: nothing is put. -/
theorem Answer.handed {a x : Act} {rest acts : List Act} (h : Answer db c n r (a :: rest))
    (hn : n ∈ a.reply.acks) (hacks : acts.flatMap Act.acks = a.acks) (hx : x.reply = a.reply)
    (hl : acts = [x] ∨ ∃ d, acts = [.unregister d, x]) : Answer db c n r (acts ++ rest) := by
  have hna : n ∈ a.acks := by rw [acks_of_reply hn]; exact hn
  refine ⟨?_, fun y _ _ => h.wait a List.mem_cons_self hn, fun opId code rt hy => ?_, h.put⟩
  · rw [List.flatMap_append, hacks, ← List.flatMap_cons]; exact h.once
  · rcases List.mem_append.mp hy with hy | hy
    · obtain rfl : .ack c n opId code rt = x := by
        rcases hl with rfl | ⟨d, rfl⟩
        · exact List.mem_singleton.mp hy
        · rcases List.mem_cons.mp hy with hy | hy
          · cases hy
          · exact List.mem_singleton.mp hy
      rw [← hx] at hn
      cases hn
    · exact absurd List.mem_cons_self (h.not_rest hna _ hy)

/-- The fate of a message is known, and its answer next. -/
theorem Answer.known {a : Act} {rest : List Act} {opId : List UInt8} {qos : QoS}
    {res : Except ErrorKind Unit} (h : Answer db c n r (a :: rest))
    (ha : a.reply = .ack c n opId qos) (hq : qos.needsAck = true)
    (hack : ∀ f ∈ (db'.cell c).tx.put, f.origin ≠ .ack c n)
    (hright : Right db' c n r (codeOf res)) :
    Answer db' c n r (a.reply.acts res ++ rest) := by
  have hnr : n ∈ a.reply.acks := by simp [ha, Reply.acks, hq]
  have hna : a.acks = a.reply.acks := acks_of_reply hnr
  have hnone := h.not_rest (by rw [hna]; exact hnr)
  have hmem : ∀ x ∈ a.reply.acts res ++ rest, n ∈ x.acks →
      x = .ack c n opId (codeOf res) qos.isRealtime := by
    intro x hx hn
    rw [ha, acts_ack] at hx
    rcases List.mem_append.mp hx with hx | hx
    · exact (mem_ackIf c n hx).1
    · exact absurd hn (hnone x hx)
  refine ⟨?_, fun x hx hnx => ?_, fun opId' code rt hx => ?_,
    fun _ _ _ hf => absurd rfl (hack _ hf)⟩
  · rw [List.flatMap_append, acks_reply, ← hna, ← List.flatMap_cons]; exact h.once
  · rw [hmem x hx (by rw [acks_of_reply hnx]; exact hnx)] at hnx
    cases hnx
  · have hx := hmem _ hx List.mem_cons_self
    simp only [Act.ack.injEq] at hx
    rw [hx.2.2.2.1]
    exact hright

/-- The act that is to answer the operation, or answers it. -/
theorem Answer.exec {a : Act} {rest acts : List Act} {k : Conn} (hI : Inv db)
    (h : Answer db k.client n r (a :: rest)) (ha : Owned db.nextId (some k) a)
    (hr : k.decoded[n]? = some r) (hn : n ∈ a.acks) (he : execDb ch db a = some (db', .acts acts)) :
    Answer db' k.client n r (acts ++ rest) := by
  have hnext := (execDb_inv hI he).2
  rcases acks_execDb he with ⟨d, m, opId, code, rt, rfl, rfl, hp⟩ | ⟨hna, hacks⟩
  · obtain rfl : n = m := List.mem_singleton.mp hn
    obtain ⟨r', ⟨k', hk', rfl, -⟩, -⟩ := ha
    obtain rfl := Option.some.inj hk'
    exact h.acked hnext hp
  · obtain ⟨d, opId, qos, hrep, hq⟩ := reply_of_acks hna hn
    have hown := ha.reply
    rw [hrep] at hown
    obtain ⟨r', ⟨k', hk', rfl, -⟩, -⟩ := hown
    obtain rfl := Option.some.inj hk'
    have hnr : n ∈ a.reply.acks := by simp [hrep, Reply.acks, hq]
    obtain ⟨hfree, hnoack⟩ := h.wait a List.mem_cons_self hnr
    rcases reply_execDb he (by rw [hrep]; nofun) with ⟨x, hx, hl, hput⟩ | ⟨e, rfl, hput⟩ |
      ⟨tgt, f, timeout, hpa, rfl, hp⟩
    · have hmono : Answer db' k.client n r (a :: rest) :=
        h.mono hnext.ge (fun b f hf _ => by rw [← hput]; exact hf) fun b _ f
          hf => by rw [hput]; exact hf
      exact hmono.handed hnr hacks hx hl
    · refine h.known hrep hq (by rw [hput]; exact hnoack) ⟨fun hc =>
        absurd hc e.code_ne_ok, fun _ b => ?_⟩
      rintro ⟨f, hf, ho⟩
      rw [hput] at hf
      exact hfree b ⟨f, hf, ho⟩
    · rw [hpa, hrep] at ha
      obtain ⟨ho, r', pos, ⟨k', hk', -, -, hr'⟩, htgt⟩ := ha.1.target _ _ _ _ rfl
      obtain rfl := Option.some.inj hk'
      obtain rfl := Option.some.inj (hr'.symm.trans hr)
      refine h.known hrep hq ?_ ⟨fun _ => ⟨tgt, pos, ?_, htgt, ?_, ?_⟩, fun hc => absurd rfl hc⟩
      · intro g hg hog
        rw [hp] at hg
        split at hg
        · rcases List.mem_append.mp hg with hg | hg
          · exact hnoack g hg hog
          · rw [List.mem_singleton.mp hg, ho] at hog; cases hog
        · exact hnoack g hg hog
      · rw [hnext]; exact ha.2 nofun
      · exact ⟨f, by
          rw [hp, if_pos rfl]
          exact List.mem_append_right _ (List.mem_singleton.mpr rfl), ho⟩
      · rintro b ⟨g, hg, hog⟩
        rw [hp] at hg
        split at hg
        · assumption
        · exact absurd ⟨g, hg, hog⟩ (hfree b)

theorem acks_current {N : ℕ} {k : Conn} {a : Act} (h : Owned N (some k) a) (hn : n ∈ a.acks) :
    k.decoded.length = n + 1 := by
  have hcur : ∀ {d : BrokerClient} {m : ℕ} {r : Request}, Current (some k) d m r → n = m →
      k.decoded.length = n + 1 := by
    rintro d m r ⟨k', hk', -, hlen, -⟩ rfl
    rw [Option.some.inj hk']; exact hlen
  by_cases ha : ∃ d m opId code rt, a = .ack d m opId code rt
  · obtain ⟨d, m, opId, code, rt, rfl⟩ := ha
    obtain ⟨r, hr, -⟩ := h
    exact hcur hr (List.mem_singleton.mp hn)
  · obtain ⟨d, opId, qos, hrep, -⟩ :=
      reply_of_acks (fun d m opId code rt he => ha ⟨d, m, opId, code, rt, he⟩) hn
    have hown := h.reply
    rw [hrep] at hown
    obtain ⟨r, hr, -⟩ := hown
    exact hcur hr rfl

/-- A message just read: nothing of it was put. -/
theorem Answer.new {aaa : Option (ClientAaa S)} (hop : r.op = .message)
    (hfree : ∀ b, ¬ Holds db c n b) (hack : ∀ f ∈ (db.cell c).tx.put, f.origin ≠ .ack c n) :
    Answer db c n r (plan aaa c n r) := by
  have hone : ((plan aaa c n r).flatMap Act.acks).length ≤ 1 := by
    rcases plan_message aaa c n hop with ⟨e, hp⟩ | hp | ⟨target, f, hp⟩
    · rw [hp]; exact Nat.zero_le _
    · rw [hp, ackIf]; split <;> simp [Act.acks]
    · rw [hp, List.flatMap_singleton]
      simp only [Act.acks, Act.reply, Reply.acks]
      split <;> simp
  refine ⟨List.count_le_length.trans hone, fun _ _ _ => ⟨hfree, hack⟩, fun opId code rt ha => ?_,
    fun _ _ _ hf => absurd rfl (hack _ hf)⟩
  rcases plan_message aaa c n hop with ⟨e, hp⟩ | hp | ⟨target, f, hp⟩
  · rw [hp] at ha; cases List.mem_singleton.mp ha
  · rw [hp] at ha
    have hc := (mem_ackIf c n ha).1
    simp only [Act.ack.injEq] at hc
    rw [hc.2.2.2.1]
    exact ⟨fun h => absurd h (ErrorKind.code_ne_ok _), fun _ => hfree⟩
  · rw [hp] at ha; cases List.mem_singleton.mp ha

/-- Every step keeps the answers right. -/
theorem Answers.step {rules : BrokerClient → Option (ClientAaa S)} {s s' : Sys S} {l : Label}
    (h : Ordered s) (ha : Answers s) (hs : Steps rules s l s') : Answers s' := by
  intro t k todo ht' n r hr hop hq
  have hN := hs.nextId_le h.ok.inv
  cases view_of_steps hs ht' with
  | other ht hl _ =>
    refine (ha t k todo ht n r hr hop hq).mono hN (fun b f hf ho => ?_) fun b hb f hf =>
      put_mono h.ok.inv hs hb hf
    have hmine : f.mine k.client = true := by rcases ho with ho | ho <;> simp [Frame.mine, ho]
    have hsub := mine_sublist h.ok h.all hs (Sys.connOf_of_task ht) hl b
    exact List.mem_of_mem_filter (hsub.subset (List.mem_filter.mpr ⟨hf, hmine⟩))
  | opened => cases hr
  | @read k r' ht hk hl hdb =>
    rw [hdb]
    have hconn := Sys.connOf_of_task ht
    by_cases hn : n < k.decoded.length
    · rw [List.getElem?_append_left hn] at hr
      have hnot : ∀ a ∈ plan (rules k.client) k.client k.decoded.length r', n ∉ a.acks := by
        intro a hp hna
        have hlen := acks_current ((owned_step h.ok h.all hs).acts t _ ht' a hp) hna
        simp only [List.length_append, List.length_singleton] at hlen
        omega
      refine (ha t k [] ht n r hr hop hq).of_todo ?_ fun a hp hna => absurd hna (hnot a hp)
      rw [List.count_eq_zero.mpr fun hm => ?_]
      · exact Nat.zero_le _
      · obtain ⟨a, hp, hna⟩ := List.mem_flatMap.mp hm
        exact hnot a hp hna
    · obtain ⟨rfl, rfl⟩ : n = k.decoded.length ∧ r' = r := by
        have hlt := (List.getElem?_eq_some_iff.mp hr).1
        rw [List.length_append, List.length_singleton] at hlt
        obtain rfl : n = k.decoded.length := by omega
        exact ⟨rfl, by simpa using hr⟩
      refine .new hop (fun b ⟨f, hf, ho⟩ => ?_) fun f hf ho => ?_
      · exact hn (h.lt_length hconn (List.mem_filterMap.mpr ⟨f, hf, opOf_eq_some.mpr ho⟩))
      · obtain ⟨-, t', k', r'', -, hk', hc, hr'', -⟩ := (h.all.frames _ f hf).ack _ _ ho
        obtain rfl := h.ok.inj t' t k' k hk' hconn hc
        obtain rfl := Option.some.inj (hk'.symm.trans hconn)
        exact hn (List.getElem?_eq_some_iff.mp hr'').1
  | @acted ch k a rest s₁ acts ht hl he hdb =>
    have hown := h.all.acts t _ ht a List.mem_cons_self
    have hold := ha t k _ ht n r hr hop hq
    rw [hdb]
    by_cases hn : n ∈ a.acks
    · rcases exec_cases he with ⟨db, hdb', rfl⟩ | ⟨-, ⟨rfl, -⟩ | ⟨rfl, -⟩ | ⟨rfl, -⟩ | ⟨rfl, -⟩⟩
      · exact hold.exec h.ok.inv hown hr hn hdb'
      all_goals cases hn
    · have hrest : ∀ acts : List Act, n ∉ acts.flatMap Act.acks → ∀ {db : BrokerDb S},
          Answer db k.client n r (a :: rest) → Answer db k.client n r (acts ++ rest) := by
        intro acts hno db hans
        refine hans.of_todo ?_ fun x hx hnx => ?_
        · rw [List.flatMap_append, List.flatMap_cons, List.count_append, List.count_append,
            List.count_eq_zero.mpr hno]
          omega
        · rcases List.mem_append.mp hx with hx | hx
          · exact absurd (acks_mem hx hnx) hno
          · exact List.mem_cons_of_mem _ hx
      rcases exec_cases he with ⟨db, hdb', rfl⟩ | ⟨hnx, hlock⟩
      · refine hrest acts ?_ (hold.mono (execDb_inv h.ok.inv hdb').2.ge
          (fun b => mine_of_acks hown hr hop hq hn hdb' b) fun b _ f hf => put_execDb hdb' b hf)
        rcases acks_execDb hdb' with ⟨d, m, opId, code, rt, rfl, rfl, -⟩ | ⟨-, hacks⟩
        · exact List.not_mem_nil
        · rw [hacks]; exact hn
      · rw [Next.acts.injEq] at hnx
        rw [hnx]
        have hans := hrest [] List.not_mem_nil hold
        rcases hlock with ⟨-, -, rfl⟩ | ⟨-, -, rfl⟩ | ⟨-, rfl⟩ | ⟨-, rfl⟩ <;> exact hans
  | @ended k rest ht hput =>
    have hold := (ha t k rest ht n r hr hop hq).mono hN (fun b f hf _ => by rw [← hput]; exact hf)
      fun b _ f hf => by rw [hput]; exact hf
    refine hold.of_todo (Nat.zero_le _) fun a hx hnx => ?_
    rw [List.mem_singleton.mp hx] at hnx
    cases hnx

end Answers

/-! ### The theorem -/

/-- The frames that the operations read so far send, in order. -/
def Conn.outgoing (k : Conn) : List Frame :=
  (List.range k.decoded.length).filterMap fun n => k.decoded[n]?.bind (·.outgoing k.client n)

section Pair

variable {s : Sys S}

/-- Increasing numbers are a part of all numbers up to a bound. -/
theorem sublist_range {l : List ℕ} {N : ℕ} (hl : l.Pairwise (· < ·)) (hN : ∀ n ∈ l, n < N) :
    l.Sublist (List.range N) :=
  List.sublist_of_subperm_of_pairwise
    (List.subperm_of_subset hl.nodup fun n hn => List.mem_range.mpr (hN n hn)) hl
      List.pairwise_lt_range

/-- The frames of a sender in a queue are those of the numbers found there. -/
theorem Ordered.filter_opOf (h : Ordered s) {t : Tid} {k : Conn} (hk : s.connOf t = some k)
    (b : BrokerClient) :
    (s.db.cell b).tx.put.filter (fun f => (f.opOf k.client).isSome) =
      ((s.db.cell b).tx.put.filterMap (Frame.opOf k.client)).filterMap
        fun n => k.decoded[n]?.bind (·.outgoing k.client n) := by
  rw [List.filterMap_filterMap, ← List.filterMap_eq_filter]
  refine List.filterMap_congr fun f hf => ?_
  rcases ho : f.opOf k.client with _ | n
  · simp [Option.guard, ho]
  · obtain ⟨t', k', r, hk', hc, hr, hout⟩ := (h.all.frames b f hf).op _ n (opOf_eq_some.mp ho)
    obtain rfl := h.ok.inj t' t k' k hk' hk hc
    obtain rfl := Option.some.inj (hk'.symm.trans hk)
    simp [Option.guard, ho, hr, hout]

/-- **Order, no loss, no duplication**: in every run, the frames of a connection
in any queue are a part of what it sent, in order; each operation has at most
one frame there; and a message that was answered is where the answer says. -/
theorem pair_order (rules : BrokerClient → Option (ClientAaa S)) (forceRegister brokerRpc : Bool)
    (queueSize : ℕ+) (labels : List Label) (s : Sys S)
    (h : Run (Steps rules) (Sys.init S forceRegister brokerRpc queueSize) labels s) (t : Tid)
    (k : Conn) (hk : s.connOf t = some k) :
    (∀ b, ((s.db.cell b).tx.put.filter fun f => (f.opOf k.client).isSome).Sublist k.outgoing) ∧
    (∀ b n, ((s.db.cell b).tx.put.filter fun f => f.opOf k.client == some n).length ≤ 1) ∧
    ∀ n r opId code rt, k.decoded[n]? = some r → r.op = .message →
      ackFrame k.client n opId code rt ∈ (s.db.cell k.client).tx.put →
        Right s.db k.client n r code := by
  have hkept : Ordered s ∧ Answers s :=
    Run.inv (I := fun s => Ordered s ∧
      Answers s) (fun _ _ _ hi hs => ⟨hi.1.step hs, hi.2.step hi.1 hs⟩) h
      ⟨ordered_init .., fun t k todo ht => by simp [Sys.init] at ht⟩
  obtain ⟨todo, ht⟩ : ∃ todo, s.task t = some ⟨some k, todo⟩ := by
    obtain ⟨⟨conn, todo⟩, ht, hc⟩ := Option.bind_eq_some_iff.mp hk
    exact ⟨todo, by rw [ht, ← hc]⟩
  have hsorted :
      ∀ b, ((s.db.cell b).tx.put.filterMap (Frame.opOf k.client)).Pairwise (· < ·) := fun b =>
    (hkept.1.order t k todo ht b).sublist (List.sublist_append_left _ _)
  refine ⟨fun b => ?_, fun b n => ?_, fun n r opId code rt hr hop hf => ?_⟩
  · rw [hkept.1.filter_opOf hk b]
    exact (sublist_range (hsorted b) fun n hn => hkept.1.lt_length hk hn).filterMap _
  · rw [← List.countP_eq_length_filter, ← List.count_filterMap]
    exact List.nodup_iff_count_le_one.mp (hsorted b).nodup n
  · obtain ⟨-, t', k', r', -, hk', hc, hr', hq, -⟩ := (hkept.1.all.frames _ _ hf).ack k.client n rfl
    obtain rfl := hkept.1.ok.inj t' t k' k hk' hk hc
    obtain rfl := Option.some.inj (hk'.symm.trans hk)
    obtain rfl := Option.some.inj (hr'.symm.trans hr)
    exact (hkept.2 t' k' todo ht n r' hr hop hq).put opId code rt hf

end Pair

namespace Order

/-- `w` and `p` connect, and `p` sends `w` a message of one byte. -/
def message : Request := .numbered 3 .message .processed [119, 0, 7]

def labels : List Label :=
  [.connect 0 "w" .tcp none none, .connect 1 "p" .tcp none none, .decode 1 message,
    .act 1 .plain, .act 1 .plain, .act 1 .plain, .act 1 .plain]

def receiver : BrokerClient := ⟨0, "w", .tcp, none, none⟩
def sender : BrokerClient := ⟨1, "p", .tcp, none, none⟩

def start : Sys reference := Sys.init reference false false 4

end Order

open Busrt.Order in
/-- The message is put and answered with success. -/
theorem pair_order_message : ∃ s k, Run (Steps fun _ => none) start labels s ∧ s.connOf 1 = some k ∧
    (s.db.cell receiver).tx.put.map (·.origin) = [.op sender 0] ∧
    (s.db.cell sender).tx.put = [ackFrame sender 0 [3, 0, 0, 0] RESPONSE_OK false] ∧
    ((s.db.cell receiver).tx.put.filter fun f => (f.opOf k.client).isSome).Sublist k.outgoing ∧
    Right s.db sender 0 message RESPONSE_OK := by
  have hrun : (execList (step fun _ => none) start labels).map
      (fun s => (s.connOf 1, (s.db.cell receiver).tx.put.map (·.origin),
        (s.db.cell sender).tx.put)) =
        some (some ⟨sender, [message], true⟩, [.op sender 0],
          [ackFrame sender 0 [3, 0, 0, 0] RESPONSE_OK false]) := by decide
  obtain ⟨s, hs, hobs⟩ := Option.map_eq_some_iff.mp hrun
  simp only [Prod.mk.injEq] at hobs
  obtain ⟨hk, hrec, hack⟩ := hobs
  have hr := run_of_execList hs
  obtain ⟨hsub, -, hright⟩ := pair_order _ false false 4 labels s hr 1 _ hk
  exact ⟨s, _, hr, hk, hrec, hack, hsub receiver,
    hright 0 message [3, 0, 0, 0] RESPONSE_OK false rfl rfl
      (by rw [hack]; exact List.mem_singleton.mpr rfl)⟩

end Busrt
