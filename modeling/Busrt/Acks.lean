/-
# One acknowledgement for each operation

As long as a connection is up, the acknowledgements in its queue, followed by
those its task is or is to lead to, are those of the operations it read that
ask for one, in order (`AckInv.acks`). A frame that is refused for one of
several topics breaks this: it is acknowledged once for each topic refused,
and once more with success.

Whether an operation was carried out is kept as a record of the run (`carry`):
the number of each operation whose act was done and, for a subscription, whose
topics the map accepted, all of them. A message was carried out when it was
put. The code of success stands for this if the map still knows the client
when its act is done; nothing in the reader looks at that.

Key definitions: `Conn.expected`, `carry`, `CarriedOut`, `Promised`.
Key theorems: `ack_account`, `AckInv.step`, `acks_exact`.
-/
import Busrt.Order

namespace Busrt

open Lib BrokerDb

variable {S : Submap}

/-! ### What is asked for -/

namespace Request

/-- The topics of a frame with topics. -/
def topics (r : Request) : List String := (topicsOf (splitZeros r.buf)).1

/-- The body is what the operation needs. -/
def wellFormed (r : Request) : Bool :=
  match r.op with
  | .subscribeTopic | .unsubscribeTopic | .excludeTopic | .unexcludeTopic =>
    (topicsOf (splitZeros r.buf)).2
  | .publishTopicFor =>
    match targetOf r.buf with
    | .ok (_, pos) => (targetOf (r.buf.drop pos)).isOk
    | .error _ => false
  | _ => (targetOf r.buf).isOk

/-- The operation is one that is acknowledged, and it asks for it. -/
def answered (r : Request) : Bool := r.qos.needsAck && r.op != .nop

/-- The target of a frame with one. -/
def target (r : Request) : Option String :=
  match targetOf r.buf with
  | .ok (target, _) => some target
  | .error _ => none

/-- Everything that is asked for is allowed. -/
def permitted (aaa : Option (ClientAaa S)) (r : Request) : Bool :=
  match r.op with
  | .subscribeTopic => r.topics.all (allowed aaa (·.allowSubscribeAny) (·.allowSubscribeTo))
  | .message => r.target.any (allowed aaa (·.allowP2pAny) (·.allowP2pTo))
  | .broadcast => r.target.any (allowed aaa (·.allowBroadcastAny) (·.allowBroadcastTo))
  | .publishTopic | .publishTopicFor =>
    r.target.any (allowed aaa (·.allowPublishAny) (·.allowPublishTo))
  | _ => true

end Request

/-- The operations that are to be acknowledged, in order. -/
def Conn.expected (k : Conn) : List ℕ :=
  (List.range k.decoded.length).filter fun n => k.decoded[n]?.any Request.answered

theorem expected_read (k : Conn) (r : Request) :
    Conn.expected { k with decoded := k.decoded ++ [r] } =
      k.expected ++ if r.answered then [k.decoded.length] else [] := by
  rw [Conn.expected, List.length_append, List.length_singleton, List.range_succ, List.filter_append]
  congr 1
  · refine List.filter_congr fun n hn => ?_
    rw [List.getElem?_append_left (List.mem_range.mp hn)]
  · rw [List.filter_singleton]
    simp

/-! ### What is carried out -/

/-- The act that carries the operation out. -/
def Act.works (c : BrokerClient) (n : ℕ) (r : Request) : Act → Bool
  | .subscribe d topics => d == c && topics == r.topics
  | .unsubscribe d topics => d == c && topics == r.topics
  | .exclude d topics complete => d == c && topics == r.topics && complete
  | .unexclude d topics complete => d == c && topics == r.topics && complete
  | .fan _ f _ => f.origin == .op c n
  | _ => false

/-- The calls of the map, one for each topic, and whether all of them did what
they should. -/
def allDone (f : S.sub.T → String → S.sub.T × Bool) (m : S.sub.T) (topics : List String) : Bool :=
  (topics.foldl (fun p t => ((f p.1 t).1, p.2 && (f p.1 t).2)) (m, true)).2

/-- What the act asks of the map is done. -/
def Act.succeeds (db : BrokerDb S) : Act → Bool
  | .subscribe c topics => allDone (fun m t => S.sub.subscribe m t c) db.subscriptions topics
  | .unsubscribe c topics => allDone (fun m t => S.sub.unsubscribe m t c) db.subscriptions topics
  | _ => true

/-- The operation that the step carries out, if it does one. -/
def carried (s : Sys S) (l : Label) : Option (BrokerClient × ℕ) :=
  match l with
  | .act t _ =>
    match s.task t with
    | some ⟨some k, a :: _⟩ =>
      match k.decoded.getLast? with
      | some r =>
        if a.works k.client (k.decoded.length - 1) r && a.succeeds s.db then
          some (k.client, k.decoded.length - 1)
        else none
      | none => none
    | _ => none
  | _ => none

/-- The record of the operations that were carried out. -/
def carry (s : Sys S) (l : Label) (done : List (BrokerClient × ℕ)) : List (BrokerClient × ℕ) :=
  (carried s l).toList ++ done

/-- The operation was carried out: a message was put, for the others the act was
done. -/
def CarriedOut (db : BrokerDb S) (done : List (BrokerClient × ℕ)) (c : BrokerClient) (n : ℕ)
    (r : Request) : Prop :=
  if r.op = .message then ∃ b, Holds db c n b else (c, n) ∈ done

section Map

variable {db : BrokerDb S} {c : BrokerClient}

/-- As long as the map knows the client, every call does what it should. -/
theorem allDone_of_held {f : S.sub.T → String → S.sub.T × Bool} {k : S.Key}
    (hok : ∀ m t, (f m t).2 = (S.sub.held m k).isSome)
    (hkeep : ∀ m t, (S.sub.held (f m t).1 k).isSome = (S.sub.held m k).isSome) :
    ∀ (topics : List String) (m : S.sub.T), (S.sub.held m k).isSome = true →
      allDone f m topics = true
  | [], _, _ => rfl
  | t :: topics, m, hm => by
    have ih := allDone_of_held hok hkeep topics (f m t).1 (by rw [hkeep]; exact hm)
    rw [allDone, List.foldl_cons, hok, hm]
    exact ih

theorem held_of_registered (hI : Inv db) (hr : (db.cell c).registered = true) :
    (S.sub.held db.subscriptions (S.key c)).isSome = true := by
  rw [Submap.key, hI.subscriptions_iff, (hI.registered_iff c).mp hr]
  rfl

/-- A registered client's act succeeds. -/
theorem succeeds_of_registered (hI : Inv db) {a : Act} {n : ℕ} {r : Request}
    (ha : a.works c n r = true)
    (hr : (∃ topics, a = .subscribe c topics ∨ a = .unsubscribe c topics) →
      (db.cell c).registered = true) :
    a.succeeds db = true := by
  cases a with
  | subscribe d topics =>
    simp only [Act.works, Bool.and_eq_true, beq_iff_eq] at ha
    obtain ⟨rfl, -⟩ := ha
    have hheld := held_of_registered hI (hr ⟨topics, .inl rfl⟩)
    exact allDone_of_held (fun m t => S.sub.subscribe_ok m t d)
      (fun m t => held_subscribe_isSome d m t _) topics _
      hheld
  | unsubscribe d topics =>
    simp only [Act.works, Bool.and_eq_true, beq_iff_eq] at ha
    obtain ⟨rfl, -⟩ := ha
    have hheld := held_of_registered hI (hr ⟨topics, .inr rfl⟩)
    exact allDone_of_held (fun m t => S.sub.unsubscribe_ok m t d)
      (fun m t => held_unsubscribe_isSome d m t _)
      topics _ hheld
  | _ => rfl

end Map

/-! ### The plan of a frame and its acknowledgements -/

section Plan

variable {aaa : Option (ClientAaa S)} {c : BrokerClient} {n : ℕ} {r : Request}

/-- A frame that asks for no acknowledgement leads to none. -/
theorem acks_quiet (hq : r.qos.needsAck = false) : (plan aaa c n r).flatMap Act.acks = [] := by
  refine List.flatMap_eq_nil_iff.mpr fun a ha => ?_
  cases planned_of_mem ha with
  | ack code h => rw [hq] at h; cases h
  | send => simp [Act.acks, Act.reply, Reply.acks, hq]
  | _ => rfl

theorem acks_ackIf (hq : r.qos.needsAck = true) (code : UInt8) :
    (ackIf c n r.opId r.qos code).flatMap Act.acks = [n] := by
  rw [ackIf, if_pos hq]; rfl

/-- The plan of an operation that needs a right: refused, or carried out and
acknowledged. -/
theorem guarded_form {ok : Bool} {w : Act} (hw : w.works c n r = true) :
    (ok = false ∧ guarded c n r ok (w :: ackIf c n r.opId r.qos RESPONSE_OK) =
      ackIf c n r.opId r.qos ErrorKind.access.code) ∨
    (ok = true ∧ ∃ w', w'.works c n r = true ∧
      guarded c n r ok (w :: ackIf c n r.opId r.qos RESPONSE_OK) =
        w' :: ackIf c n r.opId r.qos RESPONSE_OK) := by
  cases ok with
  | false => exact .inl ⟨rfl, rfl⟩
  | true => exact .inr ⟨rfl, w, hw, rfl⟩

theorem works_fan (op : FanOp) (kind : FrameKind) (topic : Option String) (pos : ℕ)
    (timeout : Bool) :
    Act.works c n r (.fan op (r.frame c n kind topic pos) timeout) = true := by
  simp [Act.works, Request.frame]

theorem target_of_isOk {buf : List UInt8} (h : (targetOf buf).isOk = true) :
    ∃ p, targetOf buf = .ok p := by
  rcases ht : targetOf buf with e | p
  · rw [ht] at h; cases h
  · exact ⟨p, rfl⟩

/-- The plan of a well-formed frame other than a message: refused, carried out
and acknowledged, or nothing. -/
theorem plan_form (hw : r.wellFormed = true) (hm : r.op ≠ .message)
    (hsub : r.op = .subscribeTopic → r.permitted aaa = true) :
    (r.op = .nop ∧ plan aaa c n r = []) ∨ r.op ≠ .nop ∧
    ((r.permitted aaa = false ∧ plan aaa c n r = ackIf c n r.opId r.qos ErrorKind.access.code) ∨
    (r.permitted aaa = true ∧ ∃ w, w.works c n r = true ∧
      plan aaa c n r = w :: ackIf c n r.opId r.qos RESPONSE_OK)) := by
  cases hop : r.op with
  | nop =>
    obtain ⟨⟨target, pos⟩, ht⟩ := target_of_isOk (by simpa [Request.wellFormed, hop] using hw)
    exact .inl ⟨rfl, by simp only [plan, hop, ht]⟩
  | message => exact absurd hop hm
  | subscribeTopic =>
    have hc : (topicsOf (splitZeros r.buf)).2 = true := by simpa [Request.wellFormed, hop] using hw
    have hp := hsub hop
    have hall : ∀ t ∈ r.topics, allowed aaa (·.allowSubscribeAny)
        (·.allowSubscribeTo) t = true := by
      simpa [Request.permitted, hop] using hp
    have hkeep :
        r.topics.filter (allowed aaa (·.allowSubscribeAny) (·.allowSubscribeTo)) = r.topics :=
      List.filter_eq_self.mpr hall
    have hdrop :
        r.topics.filter (fun t => !allowed aaa (·.allowSubscribeAny) (·.allowSubscribeTo) t) = [] :=
      List.filter_eq_nil_iff.mpr fun t ht => by simp [hall t ht]
    refine .inr ⟨by decide, .inr ⟨hp, .subscribe c r.topics, by simp [Act.works], ?_⟩⟩
    rw [Request.topics] at hkeep hdrop
    simp only [plan, hop, hc, if_true, hkeep, hdrop, finishTopics, Request.topics]
    rfl
  | unsubscribeTopic =>
    have hc : (topicsOf (splitZeros r.buf)).2 = true := by simpa [Request.wellFormed, hop] using hw
    refine .inr ⟨by decide,
      .inr ⟨by simp [Request.permitted, hop], .unsubscribe c r.topics, by simp [Act.works], ?_⟩⟩
    simp only [plan, hop, hc, finishTopics, if_true, Request.topics]
  | excludeTopic =>
    have hc : (topicsOf (splitZeros r.buf)).2 = true := by simpa [Request.wellFormed, hop] using hw
    refine .inr ⟨by decide,
      .inr ⟨by simp [Request.permitted, hop], .exclude c r.topics true, by simp [Act.works], ?_⟩⟩
    simp only [plan, hop, hc, finishTopics, if_true, Request.topics]
  | unexcludeTopic =>
    have hc : (topicsOf (splitZeros r.buf)).2 = true := by simpa [Request.wellFormed, hop] using hw
    refine .inr ⟨by decide,
      .inr ⟨by simp [Request.permitted, hop], .unexclude c r.topics true, by simp [Act.works], ?_⟩⟩
    simp only [plan, hop, hc, finishTopics, if_true, Request.topics]
  | broadcast =>
    obtain ⟨⟨target, pos⟩, ht⟩ := target_of_isOk (by simpa [Request.wellFormed, hop] using hw)
    have hp : r.permitted aaa = allowed aaa (·.allowBroadcastAny) (·.allowBroadcastTo) target := by
      simp [Request.permitted, Request.target, hop, ht]
    refine .inr ⟨by decide, ?_⟩
    simp only [plan, hop, ht, hp]
    exact guarded_form (works_fan ..)
  | publishTopic =>
    obtain ⟨⟨target, pos⟩, ht⟩ := target_of_isOk (by simpa [Request.wellFormed, hop] using hw)
    have hp : r.permitted aaa = allowed aaa (·.allowPublishAny) (·.allowPublishTo) target := by
      simp [Request.permitted, Request.target, hop, ht]
    refine .inr ⟨by decide, ?_⟩
    simp only [plan, hop, ht, hp]
    exact guarded_form (works_fan ..)
  | publishTopicFor =>
    obtain ⟨⟨target, pos⟩, ht⟩ : ∃ p, targetOf r.buf = .ok p := by
      rcases ht : targetOf r.buf with e | p
      · simp [Request.wellFormed, hop, ht] at hw
      · exact ⟨p, rfl⟩
    obtain ⟨⟨receiver, pos'⟩, ht'⟩ :=
      target_of_isOk (by simpa [Request.wellFormed, hop, ht] using hw)
    have hp : r.permitted aaa = allowed aaa (·.allowPublishAny) (·.allowPublishTo) target := by
      simp [Request.permitted, Request.target, hop, ht]
    refine .inr ⟨by decide, ?_⟩
    simp only [plan, hop, ht, ht', hp]
    exact guarded_form (works_fan ..)

/-- The frame is well formed, and, if it subscribes and asks for an
acknowledgement, all its topics are allowed. -/
def Request.Plain (aaa : Option (ClientAaa S)) (r : Request) : Prop :=
  r.wellFormed = true ∧ (r.op = .subscribeTopic → r.qos.needsAck = true → r.permitted aaa = true)

/-- One acknowledgement for each frame that is to have one. -/
theorem acks_plan (h : r.Plain aaa) :
    (plan aaa c n r).flatMap Act.acks = if r.answered then [n] else [] := by
  cases hq : r.qos.needsAck with
  | false => rw [acks_quiet hq, Request.answered, hq]; rfl
  | true =>
    by_cases hm : r.op = .message
    · have hans : r.answered = true := by simp [Request.answered, hq, hm]
      rw [hans, if_pos rfl]
      rcases plan_message aaa c n hm with ⟨e, hp⟩ | hp | ⟨target, f, hp⟩
      · obtain ⟨⟨target, pos⟩, ht⟩ := target_of_isOk (by simpa [Request.wellFormed, hm] using h.1)
        simp only [plan, hm, ht, guarded] at hp
        split at hp
        · cases hp
        · rw [ackIf, if_pos hq] at hp; cases hp
      · rw [hp, acks_ackIf hq]
      · rw [hp, List.flatMap_singleton]
        simp [Act.acks, Act.reply, Reply.acks, hq]
    · rcases plan_form (c := c) (n := n) h.1 hm fun ho => h.2 ho hq with
        ⟨hop, hp⟩ | ⟨hop, ⟨-, hp⟩ | ⟨-, w, hw, hp⟩⟩
      · rw [hp, Request.answered, hop, hq]; rfl
      · rw [hp, acks_ackIf hq, Request.answered, hq]
        simp [hop]
      · have hwa : w.acks = [] := by cases w <;> first | rfl | cases hw
        rw [hp, List.flatMap_cons, hwa, acks_ackIf hq, Request.answered, hq]
        simp [hop]

end Plan

/-! ### The account of acknowledgements -/

/-- The number of the operation of `c` that the frame acknowledges. -/
def Frame.ackOf (c : BrokerClient) (f : Frame) : Option ℕ :=
  match f.origin with
  | .ack d n => if d = c then some n else none
  | _ => none

section Account

variable {s s₁ : Sys S} {c : BrokerClient} {ch : Choice} {t : Tid}

theorem ackOf_eq_some {f : Frame} {n : ℕ} : f.ackOf c = some n ↔ f.origin = .ack c n := by
  unfold Frame.ackOf
  split
  · rename_i d m ho
    rw [ho, Origin.ack.injEq]
    constructor
    · intro h
      split at h
      · exact ⟨‹_›, Option.some.inj h⟩
      · cases h
    · rintro ⟨rfl, rfl⟩; simp
  · rename_i ho
    exact ⟨fun h => (nomatch h), fun h => absurd h (ho c n)⟩

theorem filterMap_ackOf_mine (c : BrokerClient) (l : List Frame) :
    (l.filter (Frame.mine c)).filterMap (Frame.ackOf c) = l.filterMap (Frame.ackOf c) := by
  rw [List.filterMap_filter]
  refine List.filterMap_congr fun f _ => ?_
  split
  · rfl
  · rename_i hm
    rcases ho : f.ackOf c with _ | n
    · rfl
    · exact absurd (by simp [Frame.mine, ackOf_eq_some.mp ho]) hm

/-- **The account of acknowledgements**: an act neither adds nor loses one. -/
theorem ack_account {N : ℕ} {k : Conn} {a : Act} {l : List Act} (ha : Owned N (some k) a)
    (he : exec ch t s a = some (s₁, .acts l)) :
    (s₁.db.cell k.client).tx.put.filterMap (Frame.ackOf k.client) ++ l.flatMap Act.acks =
      (s.db.cell k.client).tx.put.filterMap (Frame.ackOf k.client) ++ a.acks := by
  rcases exec_cases he with ⟨db, hdb, rfl⟩ | ⟨hn, hlock⟩
  · rcases acks_execDb hdb with ⟨d, n, opId, code, rt, rfl, rfl, hp⟩ | ⟨hna, hacks⟩
    · obtain ⟨r, ⟨k', hk', rfl, -⟩, -⟩ := ha
      obtain rfl := Option.some.inj hk'
      rw [hp, if_pos rfl, List.filterMap_append]
      simp [ackFrame, Frame.ackOf, Act.acks]
    · rw [hacks]
      congr 1
      rcases execDb_put hdb with hp | ⟨tgt, f, timeout, reply, rfl, -, hp⟩ |
        ⟨d, n, opId, code, rt, rfl, -, -⟩
      · rw [hp]
      · have hf : f.ackOf k.client = none := Option.eq_none_iff_forall_ne_some.mpr fun n ho =>
          ha.1.not_ack _ n (ackOf_eq_some.mp ho)
        rw [hp]
        split
        · rw [List.filterMap_append, List.filterMap_cons_none hf]; simp
        · rfl
      · exact absurd rfl (hna d n opId code rt)
  · rw [Next.acts.injEq] at hn
    rw [hn]
    rcases hlock with ⟨rfl, -, rfl⟩ | ⟨rfl, -, rfl⟩ | ⟨rfl, rfl⟩ | ⟨rfl, rfl⟩ <;> rfl

/-- No act leads to one that carries an operation out, or to an acknowledgement
of anything but a message. -/
theorem leads_works {N n : ℕ} {r : Request} {k : Conn} {db : BrokerDb S} {a b : Act}
    (ha : Owned N (some k) a) (hr : k.decoded[n]? = some r) (hm : r.op ≠ .message)
    (h : Leads db a b) :
    b.works c n r = false ∧ ∀ opId code rt, b ≠ .ack k.client n opId code rt := by
  have hreply : ∀ {reply : Reply} {res : Except ErrorKind Unit}, reply.Owned (some k) →
      b ∈ reply.acts res →
      b.works c n r = false ∧ ∀ opId code rt, b ≠ .ack k.client n opId code rt := by
    intro reply res hown hb
    cases reply with
    | none => cases hb
    | ack d m opId qos =>
      rw [acts_ack] at hb
      obtain ⟨rfl, -⟩ := mem_ackIf d m hb
      refine ⟨rfl, fun opId' code rt he => ?_⟩
      obtain ⟨r', ⟨k', hk', -, -, hr'⟩, hop, -⟩ := hown
      obtain rfl := Option.some.inj hk'
      obtain rfl : m = n := (Act.ack.inj he).2.1
      obtain rfl := Option.some.inj (hr'.symm.trans hr)
      exact hm hop
  cases h with
  | found | recipient | room | full | close => exact ⟨rfl, fun _ _ _ he => (by cases he)⟩
  | notRegistered hb => exact hreply ha.answer hb
  | put hb => exact hreply ha.1.answer hb
  | closed hb => exact hreply ha hb
  | announce hb =>
    obtain rfl | rfl := mem_announceActs hb <;> exact ⟨rfl, fun _ _ _ he => (by cases he)⟩
  | @core job core payload => cases job <;> exact ⟨rfl, fun _ _ _ he => (by cases he)⟩
  | locks hb => rcases hb with rfl | rfl | rfl <;> exact ⟨rfl, fun _ _ _ he => (by cases he)⟩

end Account

/-! ### Every run -/

/-- What is asked of the steps of a client: its frames are well formed, a
subscription that is to be acknowledged is allowed as a whole, and the client is
registered when the act of a frame with topics that is to be acknowledged is
done. -/
structure Promised (rules : BrokerClient → Option (ClientAaa S)) (c : BrokerClient) (s : Sys S)
    (l : Label) :
    Prop where
  frames : ∀ t r k, l = .decode t r → s.connOf t = some k → k.client = c → r.Plain (rules c)
  known : ∀ t ch k a rest r, l = .act t ch → s.task t = some ⟨some k, a :: rest⟩ → k.client = c →
    (∃ topics, a = .subscribe c topics ∨ a = .unsubscribe c topics) → k.decoded.getLast? = some r →
    r.qos.needsAck = true → (s.db.cell c).registered = true

/-- An operation other than a message that asks for an acknowledgement: a code of
success comes after the act, an error is a refusal. -/
structure Coded (aaa : Option (ClientAaa S)) (db : BrokerDb S) (done : List (BrokerClient × ℕ))
    (k : Conn) (n : ℕ) (r : Request) (todo : List Act) : Prop where
  act : ∀ opId rt, .ack k.client n opId RESPONSE_OK rt ∈ todo →
    (k.client, n) ∈ done ∨ ∃ w rest, todo = w :: rest ∧ w.works k.client n r = true
  put : ∀ opId rt, ackFrame k.client n opId RESPONSE_OK rt ∈ (db.cell k.client).tx.put →
    (k.client, n) ∈ done
  refused : ∀ opId code rt, code ≠ RESPONSE_OK → (.ack k.client n opId code rt ∈ todo ∨
    ackFrame k.client n opId code rt ∈ (db.cell k.client).tx.put) → r.permitted aaa = false
  pending : k.decoded.length = n + 1 → ∀ a ∈ todo, a.works k.client n r = true →
    r.permitted aaa = true
  done : (k.client, n) ∈ done → r.permitted aaa = true

/-- What the runs keep of the acknowledgements of the client `c`. -/
structure AckInv (rules : BrokerClient → Option (ClientAaa S)) (c : BrokerClient)
    (p : Sys S × List (BrokerClient × ℕ)) : Prop where
  ordered : Ordered p.1
  answers : Answers p.1
  made : ∀ d n, (d, n) ∈ p.2 → ∃ t k, p.1.connOf t = some k ∧ k.client = d ∧ n < k.decoded.length
  acks : ∀ t k todo, p.1.task t = some ⟨some k, todo⟩ → k.client = c → k.reading = true →
    (p.1.db.cell k.client).tx.put.filterMap (Frame.ackOf k.client) ++
      todo.flatMap Act.acks = k.expected
  codes : ∀ t k todo, p.1.task t = some ⟨some k, todo⟩ → k.client = c →
    ∀ n r, k.decoded[n]? = some r →
    r.op ≠ .message → r.qos.needsAck = true → Coded (rules c) p.1.db p.2 k n r todo

section Run

variable {rules : BrokerClient → Option (ClientAaa S)} {c : BrokerClient} {s s' : Sys S} {l : Label}
  {done : List (BrokerClient × ℕ)}

/-- What the record of a step says. -/
theorem carried_cases {d : BrokerClient} {n : ℕ} (h : carried s l = some (d, n)) :
    ∃ t ch k a rest r,
    l = .act t ch ∧ s.task t = some ⟨some k, a :: rest⟩ ∧ k.client = d ∧ k.decoded.length = n + 1 ∧
    k.decoded[n]? = some r ∧ a.works d n r = true := by
  unfold carried at h
  split at h
  · rename_i t ch
    split at h
    · rename_i k a rest ht
      split at h
      · rename_i r hr
        split at h
        · rename_i hw
          obtain ⟨rfl, rfl⟩ := Prod.mk.inj (Option.some.inj h)
          rw [Bool.and_eq_true] at hw
          rw [List.getLast?_eq_getElem?] at hr
          have hlt := (List.getElem?_eq_some_iff.mp hr).1
          exact ⟨t, ch, k, a, rest, r, rfl, ht, rfl, by omega, hr, hw.1⟩
        · cases h
      · cases h
    · cases h
  · cases h

theorem carried_of {t : Tid} {ch : Choice} {k : Conn} {a : Act} {rest : List Act} {n : ℕ}
    {r : Request} (ht : s.task t = some ⟨some k, a :: rest⟩) (hn : k.decoded.length = n + 1)
    (hr : k.decoded[n]? = some r) (hw : a.works k.client n r = true) (hs : a.succeeds s.db = true) :
    carried s (.act t ch) = some (k.client, n) := by
  have hl : k.decoded.getLast? = some r := by
    rw [List.getLast?_eq_getElem?, hn]; exact hr
  simp only [carried, ht, hl, hn, Nat.add_sub_cancel, hw, hs, Bool.and_self, if_true]

theorem mem_carry {d : BrokerClient} {n : ℕ} :
    (d, n) ∈ carry s l done ↔ carried s l = some (d, n) ∨ (d, n) ∈ done := by
  rw [carry, List.mem_append, Option.mem_toList]

/-- The steps of others carry nothing of the connection out. -/
theorem carry_other (hok : s.Ok) {t : Tid} {k : Conn} (hk : s.connOf t = some k)
    (hl : ∀ ch, l ≠ .act t ch) (n : ℕ) :
    (k.client, n) ∈ carry s l done ↔ (k.client, n) ∈ done := by
  rw [mem_carry, or_iff_right]
  intro h
  obtain ⟨t', ch, k', a, rest, r, rfl, ht', hc, -⟩ := carried_cases h
  obtain rfl := hok.inj t' t k' k (Sys.connOf_of_task ht') hk hc
  exact hl ch rfl

/-- The same with other queues and more carried out. -/
theorem Coded.mono {aaa : Option (ClientAaa S)} {db db' : BrokerDb S}
    {done' : List (BrokerClient × ℕ)} {k : Conn} {n : ℕ} {r : Request} {todo : List Act}
    (h : Coded aaa db done k n r todo)
    (hput : ∀ f ∈ (db'.cell k.client).tx.put, f.origin = .ack k.client n →
      f ∈ (db.cell k.client).tx.put)
    (hd : (k.client, n) ∈ done' ↔ (k.client, n) ∈ done) : Coded aaa db' done' k n r todo where
  act opId rt ha := (h.act opId rt ha).imp_left hd.mpr
  put opId rt hf := hd.mpr (h.put opId rt (hput _ hf rfl))
  refused opId code rt hc ha := h.refused opId code rt hc (ha.imp_right fun hf => hput _ hf rfl)
  pending := h.pending
  done hm := h.done (hd.mp hm)

/-- A frame just read. -/
theorem Coded.new {aaa : Option (ClientAaa S)} {db : BrokerDb S} {k : Conn} {n : ℕ} {r : Request}
    (hplain : r.Plain aaa) (hm : r.op ≠ .message) (hq : r.qos.needsAck = true)
    (hack : ∀ f ∈ (db.cell k.client).tx.put, f.origin ≠ .ack k.client n)
    (hd : (k.client, n) ∉ done) :
    Coded aaa db done k n r (plan aaa k.client n r) := by
  have hform := plan_form (c := k.client) (n := n) hplain.1 hm fun ho => hplain.2 ho hq
  have hfree : ∀ {opId code rt} {P : Prop}, ackFrame k.client n opId code rt ∈
      (db.cell k.client).tx.put → P :=
    fun hf => absurd rfl (hack _ hf)
  rcases hform with ⟨-, hp⟩ | ⟨-, ⟨hperm, hp⟩ | ⟨hperm, w, hw, hp⟩⟩
  · rw [hp]
    exact ⟨fun _ _ ha => absurd ha List.not_mem_nil, fun _ _ hf => hfree hf,
      fun _ _ _ _ h => h.elim (fun ha => absurd ha List.not_mem_nil) fun hf => hfree hf,
      fun _ _ ha => absurd ha List.not_mem_nil, fun h => absurd h hd⟩
  · rw [hp]
    refine ⟨fun opId rt ha => ?_, fun _ _ hf => hfree hf, fun _ _ _ _ _ => hperm,
      fun _ a ha hw => ?_,
      fun h => absurd h hd⟩
    · have := (mem_ackIf _ _ ha).1
      simp only [Act.ack.injEq] at this
      exact absurd this.2.2.2.1.symm (ErrorKind.code_ne_ok _)
    · rw [(mem_ackIf _ _ ha).1] at hw; cases hw
  · rw [hp]
    refine ⟨fun _ _ _ => .inr ⟨w, _, rfl, hw⟩, fun _ _ hf => hfree hf, fun opId code rt hc h => ?_,
      fun _ _ _ _ => hperm, fun h => absurd h hd⟩
    rcases h with ha | hf
    · rcases List.mem_cons.mp ha with rfl | ha
      · cases hw
      · have := (mem_ackIf _ _ ha).1
        simp only [Act.ack.injEq] at this
        exact absurd this.2.2.2.1 hc
    · exact hfree hf

/-- The client's task does an act. -/
theorem Coded.exec {k : Conn} {n : ℕ} {r : Request} {t : Tid} {ch : Choice} {a : Act}
    {rest acts : List Act} {s₁ : Sys S} (hI : Inv s.db) (ht : s.task t = some ⟨some k, a :: rest⟩)
    (hown : ∀ x ∈ a :: rest, Owned s.db.nextId (some k) x)
    (hP : Promised rules k.client s (.act t ch))
    (h : Coded (rules k.client) s.db done k n r (a :: rest)) (hr : k.decoded[n]? = some r)
    (hm : r.op ≠ .message) (hq : r.qos.needsAck = true)
    (he : exec ch t s a = some (s₁, .acts acts)) :
    Coded (rules k.client) s₁.db (carry s (.act t ch) done) k n r (acts ++ rest) := by
  have ha := hown a List.mem_cons_self
  have hnew : ∀ b ∈ acts, b.works k.client n r = false ∧
      ∀ opId code rt, b ≠ .ack k.client n opId code rt := by
    intro b hb
    rcases exec_cases he with ⟨db, hdb, -⟩ | ⟨hn, -⟩
    · exact leads_works ha hr hm (leads_of_execDb hdb b hb)
    · rw [Next.acts.injEq] at hn; rw [hn] at hb; cases hb
  have hrest : ∀ {opId code rt}, .ack k.client n opId code rt ∈ acts ++ rest →
      .ack k.client n opId code rt ∈ rest := by
    intro opId code rt hb
    rcases List.mem_append.mp hb with hb | hb
    · exact absurd rfl ((hnew _ hb).2 opId code rt)
    · exact hb
  -- an acknowledgement in the queue was there, or it is the act
  have hput : ∀ {opId code rt}, ackFrame k.client n opId code rt ∈ (s₁.db.cell k.client).tx.put →
      ackFrame k.client n opId code rt ∈ (s.db.cell k.client).tx.put ∨
      ∃ opId rt, a = .ack k.client n opId code rt := by
    intro opId code rt hf
    rcases exec_cases he with ⟨db, hdb, rfl⟩ | ⟨-, ⟨-, -, rfl⟩ | ⟨-, -, rfl⟩ | ⟨-, rfl⟩ | ⟨-, rfl⟩⟩
    · rcases execDb_put hdb with hp | ⟨tgt, g, timeout, reply, rfl, -, hp⟩ |
        ⟨d, m, opId', code', rt', rfl, -, hp⟩
      · rw [hp] at hf; exact .inl hf
      · rw [hp] at hf
        split at hf
        · rcases List.mem_append.mp hf with hf | hf
          · exact .inl hf
          · rw [← List.mem_singleton.mp hf] at ha
            exact absurd rfl (ha.1.not_ack k.client n)
        · exact .inl hf
      · rw [hp] at hf
        split at hf
        · rcases List.mem_append.mp hf with hf | hf
          · exact .inl hf
          · have hfe := List.mem_singleton.mp hf
            have hcode := ackFrame_code hfe
            simp only [ackFrame, Frame.mk.injEq, Origin.ack.injEq] at hfe
            obtain ⟨⟨rfl, rfl⟩, -⟩ := hfe
            exact .inr ⟨opId', rt', by rw [hcode]⟩
        · exact .inl hf
    all_goals exact .inl hf
  refine ⟨fun opId rt hb => .inl ?_, fun opId rt hf => ?_, fun opId code rt hc hb => ?_,
    fun hn b hb hw => ?_,
    fun hd => ?_⟩
  · have hb := List.mem_cons_of_mem a (hrest hb)
    rcases h.act opId rt hb with hd | ⟨w, rest', hw, hworks⟩
    · exact mem_carry.mpr (.inr hd)
    · obtain ⟨rfl, -⟩ := List.cons.inj hw
      have hn := acks_current (hown _ hb) List.mem_cons_self
      have hlast : k.decoded.getLast? = some r := by rw [List.getLast?_eq_getElem?, hn]; exact hr
      have hsucc :=
        succeeds_of_registered hI hworks fun hex => hP.known t ch k a rest r rfl ht rfl hex hlast hq
      exact mem_carry.mpr (.inl (carried_of ht hn hr hworks hsucc))
  · rcases hput hf with hf | ⟨opId', rt', rfl⟩
    · exact mem_carry.mpr (.inr (h.put opId rt hf))
    · rcases h.act opId' rt' List.mem_cons_self with hd | ⟨w, rest', hw, hworks⟩
      · exact mem_carry.mpr (.inr hd)
      · obtain ⟨rfl, -⟩ := List.cons.inj hw
        cases hworks
  · rcases hb with hb | hf
    · exact h.refused opId code rt hc (.inl (List.mem_cons_of_mem _ (hrest hb)))
    · rcases hput hf with hf | ⟨opId', rt', rfl⟩
      · exact h.refused opId code rt hc (.inr hf)
      · exact h.refused opId' code rt' hc (.inl List.mem_cons_self)
  · rcases List.mem_append.mp hb with hb | hb
    · rw [(hnew b hb).1] at hw; cases hw
    · exact h.pending hn b (List.mem_cons_of_mem _ hb) hw
  · rcases mem_carry.mp hd with hd | hd
    · obtain ⟨t', ch', k', a', rest', r', hl, ht', -, hn, hr', hw⟩ := carried_cases hd
      obtain ⟨rfl, -⟩ : t = t' ∧ ch = ch' := by simpa using hl
      simp only [ht', Option.some.injEq, Task.mk.injEq] at ht
      obtain ⟨rfl, hl⟩ := ht
      obtain ⟨rfl, -⟩ := List.cons.inj hl
      obtain rfl := Option.some.inj (hr'.symm.trans hr)
      exact h.pending hn _ List.mem_cons_self hw
    · exact h.done hd

/-- What the run has carried out is some connection's that was read. -/
theorem AckInv.made_step (h : AckInv rules c (s, done)) (hs : Steps rules s l s') (d : BrokerClient)
    (n : ℕ) (hd : (d, n) ∈ carry s l done) :
    ∃ t k, s'.connOf t = some k ∧ k.client = d ∧ n < k.decoded.length := by
  obtain ⟨t, k, hk, hc, hn⟩ : ∃ t k, s.connOf t = some k ∧ k.client = d ∧ n < k.decoded.length := by
    rcases mem_carry.mp hd with hd | hd
    · obtain ⟨t, ch, k, a, rest, r, -, ht, hc, hn, -⟩ := carried_cases hd
      exact ⟨t, k, Sys.connOf_of_task ht, hc, by omega⟩
    · exact h.made d n hd
  obtain ⟨k', hk', hc', hp⟩ := hs.conn hk
  exact ⟨t, k', hk', hc'.trans hc, hn.trans_le hp.length_le⟩

/-- Every step keeps one acknowledgement for each operation that is to have
one. -/
theorem AckInv.acks_step (h : AckInv rules c (s, done)) (hP : Promised rules c s l)
    (hs : Steps rules s l s') {t : Tid} {k : Conn} {todo : List Act}
    (ht' : s'.task t = some ⟨some k, todo⟩) (hc : k.client = c) (hread : k.reading = true) :
    (s'.db.cell k.client).tx.put.filterMap (Frame.ackOf k.client) ++ todo.flatMap Act.acks =
      k.expected := by
  have hord := h.ordered
  cases view_of_steps hs ht' with
  | other ht hl _ =>
    have hold := h.acks t k todo ht hc hread
    have hconn := Sys.connOf_of_task ht
    rcases mine_step hord.ok hord.all hs hconn hl k.client with hm | ⟨-, hm⟩
    · rw [← hold, ← filterMap_ackOf_mine, hm, filterMap_ackOf_mine]
    · exact absurd (hord.ok.fresh t k hconn) (by simpa using hm)
  | @opened name kind source port db' hl hr hdb =>
    have hput : (s'.db.cell (newClient s name kind source port)).tx.put = [] := by
      rw [hdb, registered_put hord.ok.inv hr, if_pos rfl]
    have htodo : (newTask db' (newClient s name kind source port)).todo.flatMap Act.acks = [] := by
      simp only [newTask]
      split
      · exact acks_announce _
      · rfl
    rw [hput, htodo]
    rfl
  | @read k r ht hk hl hdb =>
    have hold := h.acks t k [] ht hc hread
    have hplain := hP.frames t r k hl (Sys.connOf_of_task ht) hc
    rw [← hc] at hplain
    rw [List.flatMap_nil, List.append_nil] at hold
    rw [hdb, expected_read, hold, acks_plan hplain]
  | @acted ch k a rest s₁ acts ht hl he hdb =>
    have hold := h.acks t k _ ht hc hread
    have hacc := ack_account (hord.all.acts t _ ht a List.mem_cons_self) he
    rw [← hold, hdb, List.flatMap_append, List.flatMap_cons, ← List.append_assoc, hacc,
      List.append_assoc]
  | ended ht hput => cases hread

/-- Every step keeps the codes true. -/
theorem AckInv.codes_step (h : AckInv rules c (s, done)) (hP : Promised rules c s l)
    (hs : Steps rules s l s') {t : Tid} {k : Conn} {todo : List Act}
    (ht' : s'.task t = some ⟨some k, todo⟩) (hc : k.client = c) (n : ℕ) (r : Request)
    (hr : k.decoded[n]? = some r) (hm : r.op ≠ .message) (hq : r.qos.needsAck = true) :
    Coded (rules c) s'.db (carry s l done) k n r todo := by
  have hord := h.ordered
  cases view_of_steps hs ht' with
  | other ht hl _ =>
    have hconn := Sys.connOf_of_task ht
    refine (h.codes t k todo ht hc n r hr hm hq).mono
      (fun f hf ho => ?_) (carry_other hord.ok hconn hl n)
    have hsub := mine_sublist hord.ok hord.all hs hconn hl k.client
    exact List.mem_of_mem_filter (hsub.subset (List.mem_filter.mpr ⟨hf, by simp [Frame.mine, ho]⟩))
  | opened => cases hr
  | @read k r' ht hk hl hdb =>
    have hconn := Sys.connOf_of_task ht
    have hcarry : ∀ n, (k.client, n) ∈ carry s l done ↔ (k.client, n) ∈ done :=
      carry_other hord.ok hconn fun _ he => by rw [hl] at he; cases he
    have hlt : ∀ {m}, ∀ f ∈ (s.db.cell k.client).tx.put, f.origin = .ack k.client m →
        m < k.decoded.length := by
      intro m f hf ho
      obtain ⟨-, t', k', r'', -, hk', hc', hr'', -⟩ := (hord.all.frames _ f hf).ack _ _ ho
      obtain rfl := hord.ok.inj t' t k' k hk' hconn hc'
      obtain rfl := Option.some.inj (hk'.symm.trans hconn)
      exact (List.getElem?_eq_some_iff.mp hr'').1
    rw [hdb]
    by_cases hn : n < k.decoded.length
    · rw [List.getElem?_append_left hn] at hr
      have hold := h.codes t k [] ht hc n r hr hm hq
      have hnot : ∀ {opId code rt}, .ack k.client n opId code rt ∉
          plan (rules k.client) k.client k.decoded.length r' := by
        intro opId code rt hp
        cases planned_of_mem hp with
        | ack => exact lt_irrefl _ hn
      refine ⟨fun _ _ ha => absurd ha hnot, fun opId rt hf => ?_, fun opId code rt hcode ha => ?_,
        fun hlen => ?_, fun hd => ?_⟩
      · exact (hcarry n).mpr (hold.put opId rt hf)
      · exact hold.refused opId code rt hcode (.inr (ha.resolve_left hnot))
      · simp only [List.length_append, List.length_singleton] at hlen; omega
      · exact hold.done ((hcarry n).mp hd)
    · obtain ⟨rfl, rfl⟩ : n = k.decoded.length ∧ r' = r := by
        have hlen := (List.getElem?_eq_some_iff.mp hr).1
        rw [List.length_append, List.length_singleton] at hlen
        obtain rfl : n = k.decoded.length := by omega
        exact ⟨rfl, by simpa using hr⟩
      have hplain := hP.frames t r' k hl hconn hc
      have hnew : (k.client, k.decoded.length) ∉ done := by
        intro hd
        obtain ⟨t', k', hk', hc', hlen⟩ := h.made _ _ hd
        obtain rfl := hord.ok.inj t' t k' k hk' hconn hc'
        obtain rfl := Option.some.inj (hk'.symm.trans hconn)
        exact lt_irrefl _ hlen
      subst hc
      exact Coded.new hplain hm hq (fun f hf ho => hn (hlt f hf ho)) fun hd =>
        hnew ((hcarry _).mp hd)
  | @acted ch k a rest s₁ acts ht hl he hdb =>
    have hown := hord.all.acts t _ ht
    have hold := h.codes t k _ ht hc n r hr hm hq
    subst hc hl
    rw [hdb]
    exact hold.exec hord.ok.inv ht hown hP hr hm hq he
  | @ended k rest ht hput =>
    have hold := h.codes t k rest ht hc n r hr hm hq
    refine ⟨fun _ _ ha => ?_, fun opId rt hf => ?_, fun opId code rt hcode ha => ?_,
      fun _ a ha hw => ?_, fun hd => ?_⟩
    · cases List.mem_singleton.mp ha
    · rw [hput] at hf
      exact mem_carry.mpr (.inr (hold.put opId rt hf))
    · rcases ha with ha | hf
      · cases List.mem_singleton.mp ha
      · rw [hput] at hf; exact hold.refused opId code rt hcode (.inr hf)
    · rw [List.mem_singleton.mp ha] at hw; cases hw
    · rcases mem_carry.mp hd with hd | hd
      · obtain ⟨u, ch', k', a', rest', r', hl, hu, hc', hn, hr', hw⟩ := carried_cases hd
        obtain rfl := hord.ok.inj u t k' k (Sys.connOf_of_task hu) (Sys.connOf_of_task ht) hc'
        simp only [hu, Option.some.injEq, Task.mk.injEq] at ht
        obtain ⟨rfl, rfl⟩ := ht
        obtain rfl := Option.some.inj (hr'.symm.trans hr)
        exact hold.pending hn a' List.mem_cons_self hw
      · exact hold.done hd

theorem AckInv.step {p q : Sys S × List (BrokerClient × ℕ)} (h : AckInv rules c p)
    (hs : Guarded (Tracked (Steps rules) carry) (fun p l => Promised rules c p.1 l) p l q) :
    AckInv rules c q := by
  obtain ⟨s, done⟩ := p
  obtain ⟨s', done'⟩ := q
  obtain ⟨hP, hs, hd⟩ := hs
  change done' = carry s l done at hd
  subst hd
  exact
    { ordered := h.ordered.step hs
      answers := h.answers.step h.ordered hs
      made := fun d n hd => h.made_step hs d n hd
      acks := fun t k todo ht hc hk => h.acks_step hP hs ht hc hk
      codes := fun t k todo ht hc n r hr hm hq => h.codes_step hP hs ht hc n r hr hm hq }

/-- **Exactly one acknowledgement for each operation**: in every run in which the
client's steps are as promised, as long as its connection is up, the
acknowledgements in its queue are those of the first of the operations that are
to have one, all of them when the task has nothing left to do. Each has six
bytes, the operation's id, and the code of success iff it was carried out. -/
theorem acks_exact (rules : BrokerClient → Option (ClientAaa S)) (forceRegister brokerRpc : Bool)
    (queueSize : ℕ+) (c : BrokerClient) (labels : List Label) (s : Sys S)
    (done : List (BrokerClient × ℕ))
    (h : Run (Guarded (Tracked (Steps rules) carry) fun p l => Promised rules c p.1 l)
      (Sys.init S forceRegister brokerRpc queueSize, []) labels (s, done))
    (t : Tid) (k : Conn) (todo : List Act) (ht : s.task t = some ⟨some k, todo⟩) (hc : k.client = c)
    (hk : k.reading = true) :
    (s.db.cell c).tx.put.filterMap (Frame.ackOf c) <+: k.expected ∧
    (todo = [] → (s.db.cell c).tx.put.filterMap (Frame.ackOf c) = k.expected) ∧
    ∀ f ∈ (s.db.cell c).tx.put, ∀ n, f.ackOf c = some n → ∃ r code, k.decoded[n]? = some r ∧
      f = ackFrame c n r.opId code r.qos.isRealtime ∧ f.data.buf.length = 6 ∧
      (code = RESPONSE_OK ↔ CarriedOut s.db done c n r) := by
  have hinit : AckInv rules c (Sys.init S forceRegister brokerRpc queueSize, []) :=
    { ordered := ordered_init ..
      answers := fun t k todo ht => by simp [Sys.init] at ht
      made := fun d n hd => absurd hd List.not_mem_nil
      acks := fun t k todo ht => by simp [Sys.init] at ht
      codes := fun t k todo ht => by simp [Sys.init] at ht }
  have hinv : AckInv rules c (s, done) := h.inv (fun _ _ _ hp hs => hp.step hs) hinit
  subst hc
  have hacks := hinv.acks t k todo ht rfl hk
  refine ⟨⟨_, hacks⟩, fun htodo => ?_, fun f hf n hn => ?_⟩
  · rw [htodo, List.flatMap_nil, List.append_nil] at hacks
    exact hacks
  · obtain ⟨-, t', k', r, code, hk', hc', hr, hq, rfl⟩ :=
      (hinv.ordered.all.frames _ f hf).ack _ n (ackOf_eq_some.mp hn)
    obtain rfl := hinv.ordered.ok.inj t' t k' k hk' (Sys.connOf_of_task ht) hc'
    obtain rfl := Option.some.inj (hk'.symm.trans (Sys.connOf_of_task ht))
    refine ⟨r, code, hr, rfl, by simp [ackFrame, r.opId_length], ?_⟩
    unfold CarriedOut
    split
    · rename_i hop
      have hright := (hinv.answers _ _ todo ht n r hr hop hq).put _ _ _ hf
      constructor
      · intro hcode
        obtain ⟨b, -, -, -, hb, -⟩ := hright.ok hcode
        exact ⟨b, hb⟩
      · rintro ⟨b, hb⟩
        by_contra hcode
        exact hright.error hcode b hb
    · rename_i hop
      have hcoded := hinv.codes _ _ todo ht rfl n r hr hop hq
      constructor
      · rintro rfl
        exact hcoded.put _ _ hf
      · intro hd
        by_contra hcode
        have hno := hcoded.refused _ _ _ hcode (.inr hf)
        rw [hcoded.done hd] at hno
        cases hno

/-- A check of what is promised, for every client at once. -/
def promised (rules : BrokerClient → Option (ClientAaa S)) (c : BrokerClient) (s : Sys S) :
    Label → Bool
  | .decode _ r =>
    r.wellFormed && (r.op != .subscribeTopic || !r.qos.needsAck || r.permitted (rules c))
  | .act t _ =>
    match s.task t with
    | some ⟨_, .subscribe _ _ :: _⟩ => (s.db.cell c).registered
    | some ⟨_, .unsubscribe _ _ :: _⟩ => (s.db.cell c).registered
    | _ => true
  | _ => true

theorem promised_sound (c : BrokerClient) (s : Sys S) (l : Label)
    (h : promised rules c s l = true) :
    Promised rules c s l where
  frames t r k hl _ _ := by
    subst hl
    simp only [promised, Bool.and_eq_true, Bool.or_eq_true, bne_iff_ne, Bool.not_eq_true',
      ne_eq] at h
    refine ⟨h.1, fun ho hq => ?_⟩
    rcases h.2 with (hn | hn) | hn
    · exact absurd ho hn
    · rw [hq] at hn; cases hn
    · exact hn
  known t ch k a rest r hl ht _ ha _ _ := by
    subst hl
    simp only [promised, ht] at h
    obtain ⟨topics, rfl | rfl⟩ := ha
    · exact h
    · exact h

end Run

/-! ### One peer -/

namespace Acks

/-- The peer may subscribe to `a`. -/
def rules (_ : BrokerClient) : Option (ClientAaa reference) :=
  some ((ClientAaa.new reference).withSubscribeTo ["a"])

def peer : BrokerClient := ⟨0, "w", .tcp, none, none⟩

def subscribe (topics : List UInt8) : Request := .numbered 1 .subscribeTopic .processed topics

def start : Sys reference := Sys.init reference false false 4

/-- The peer connects and subscribes; the acts of the frame are done. -/
def labels (topics : List UInt8) (acts : ℕ) : List Label :=
  .connect 0 "w" .tcp none none :: .decode 0 (subscribe topics) ::
    List.replicate acts (.act 0 .plain)

end Acks

open Acks in
/-- The peer asks for `a`, and gets one acknowledgement. -/
theorem acks_exact_allowed : ∃ s done k,
    Run (Guarded (Tracked (Steps rules) carry) fun p l => Promised rules peer p.1 l)
      (start, []) (labels [97] 2)
      (s, done) ∧
    s.task 0 = some ⟨some k, []⟩ ∧ k.client = peer ∧ k.reading = true ∧ k.expected = [0] ∧
    (s.db.cell peer).tx.put.filterMap (Frame.ackOf peer) = [0] ∧
    CarriedOut s.db done peer 0 (subscribe [97]) := by
  have hrun :
      (execList
        (fun p l => if promised rules peer p.1 l then track (step rules) carry p l else none)
        (start, []) (labels [97] 2)).map (fun p => (p.1.task 0, (p.1.db.cell peer).tx.put)) =
        some (some ⟨some ⟨peer, [subscribe [97]], true⟩, []⟩,
          [ackFrame peer 0 [1, 0, 0, 0] RESPONSE_OK false]) := by decide
  obtain ⟨⟨s, done⟩, hs, hobs⟩ := Option.map_eq_some_iff.mp hrun
  simp only [Prod.mk.injEq] at hobs
  obtain ⟨ht, hput⟩ := hobs
  have hr : Run (Guarded (Tracked (Steps rules) carry) fun p l =>
      Promised rules peer p.1 l) (start, [])
      (labels [97] 2) (s, done) :=
    (run_of_checked (fun p l => promised_sound peer p.1 l) hs).mono fun p l q hpq =>
      ⟨hpq.1, tracked_of_track hpq.2⟩
  obtain ⟨-, hall, hcode⟩ := acks_exact rules false false 4 peer _ s done hr 0 _ _ ht rfl rfl
  obtain ⟨r, code, hdec, hf, -, hiff⟩ :=
    hcode _ (by rw [hput]; exact List.mem_singleton.mpr rfl) 0 rfl
  obtain rfl : subscribe [97] = r := Option.some.inj hdec
  refine ⟨s, done, _, hr, ht, rfl, rfl, by decide, ?_, hiff.mp (ackFrame_code hf).symm⟩
  rw [hput]
  rfl

open Acks in
/-- The peer asks for `a` and `b` in one frame, and gets two acknowledgements: a
refusal, and success. -/
theorem acks_twice :
    ∃ s done k, Run (Tracked (Steps rules) carry) (start, []) (labels [97, 0, 98] 3) (s, done) ∧
    s.task 0 = some ⟨some k, []⟩ ∧ k.client = peer ∧ k.reading = true ∧
    (∀ r ∈ k.decoded, r.wellFormed = true) ∧
    (s.db.cell peer).tx.put = [ackFrame peer 0 [1, 0, 0, 0] ErrorKind.access.code false,
      ackFrame peer 0 [1, 0, 0, 0] RESPONSE_OK false] ∧
    (s.db.cell peer).tx.put.filterMap (Frame.ackOf peer) ≠ k.expected ∧
    ¬ CarriedOut s.db done peer 0 (subscribe [97, 0, 98]) := by
  have hrun : (execList (track (step rules) carry) (start, []) (labels [97, 0, 98] 3)).map
      (fun p => (p.1.task 0, (p.1.db.cell peer).tx.put, p.2)) =
        some (some ⟨some ⟨peer, [subscribe [97, 0, 98]], true⟩, []⟩,
          [ackFrame peer 0 [1, 0, 0, 0] ErrorKind.access.code false,
            ackFrame peer 0 [1, 0, 0, 0] RESPONSE_OK false], []) := by decide
  obtain ⟨⟨s, done⟩, hs, hobs⟩ := Option.map_eq_some_iff.mp hrun
  simp only [Prod.mk.injEq] at hobs
  obtain ⟨ht, hput, rfl⟩ := hobs
  have hr : Run (Tracked (Steps rules) carry) (start, []) (labels [97, 0, 98] 3) (s, []) :=
    (run_of_execList hs).mono fun p l q hpq => tracked_of_track hpq
  refine ⟨s, [], _, hr, ht, rfl, rfl, by decide, hput, ?_, fun h => ?_⟩
  · rw [hput]; decide
  · rw [CarriedOut, if_neg (by decide)] at h
    cases h

end Busrt
