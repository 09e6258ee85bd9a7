/-
# What the access rules bound

A peer's rules are checked once, on what it asks for: the topic of a
subscription, the target of a broadcast, each read as a literal. What it gets
is decided later, when the same string is read as a mask. So the rules bound
what is reached only where the request, as a mask, stands for nothing that the
rules do not match (`Inside`).

`Covered` is a check of the masks that says so: one of them covers the request
for each number of chunks its last wildcard may stand for. The masks are read as
their map reads them, which after a `deny_x` call is not how the subscriptions
are read. A request without wildcards stands for itself, and is inside whatever
admits it.

Key definitions: `Covered`, `Request.Bounded`, `Bounds`.
Key theorems: `Covered.inside`, `access_bounds`.
-/
import Busrt.System

namespace Busrt

open Lib BrokerDb

variable {S : Submap}

/-! ### Masks and requests -/

/-- What the request stands for as a mask of the language `cfg`, the list
matches. -/
def Inside (cfg : Cfg) (acl : S.acl.T) (request : String) : Prop :=
  ∀ s, cfg.isMatch request s = true → S.acl.isMatch acl s = true

/-- There is no wildcard in the request. -/
def Literal (cfg : Cfg) (request : String) : Prop :=
  cfg.any.toList ∉ cfg.chunks request ∧ cfg.many.toList ∉ cfg.chunks request

/-- The request has no wildcards, or it is covered: for each number of chunks its last wildcard
may stand for, by a mask of the list, with the separator of the request and the list's own
wildcards. -/
def Covered (cfg : Cfg) (acl : S.acl.T) (request : String) : Prop :=
  Literal cfg request ∨ (S.acl.cfg acl).sep = cfg.sep ∧
    ∀ n, (cfg.zero = true ∨ 0 < n) →
      ∃ mask, S.acl.mem acl mask ∧ (S.acl.cfg acl).coversAt cfg n mask request = true

/-- A covered request that was admitted is inside. -/
theorem Covered.inside {cfg : Cfg} {acl : S.acl.T} {request : String} (hw : cfg.any ≠ cfg.many)
    (h : Covered cfg acl request) (ha : S.acl.isMatch acl request = true) :
    Inside cfg acl request := by
  intro s hs
  rcases h with ⟨hany, hmany⟩ | ⟨hc, hcov⟩
  · rw [← Cfg.eq_of_literal hany hmany hs]
    exact ha
  · exact (S.acl.isMatch_iff acl s).mpr (Cfg.exists_isMatch hw hc hcov hs)

theorem topicCfg_wild (zero : Bool) :
    (topicCfg zero).any ≠ (topicCfg zero).many := by decide +revert

theorem peerCfg_wild (zero : Bool) : (peerCfg zero).any ≠ (peerCfg zero).many := by decide +revert

theorem literal_warn (zero : Bool) : Literal (topicCfg zero) BROKER_WARN_TOPIC := by
  unfold Literal
  cases zero <;> decide

/-! ### The bounds -/

section Bounds

variable (c : BrokerClient) (a : ClientAaa S)

/-- The frame is within the rules `a` of the client `c`: a publication to it is on
a topic its rules match (or a warning), a broadcast of it goes to a client its
rules match. -/
structure Reached (tgt : BrokerClient) (f : Frame) : Prop where
  publish : tgt = c → f.data.kind = .publish → a.allowSubscribeAny = false →
    ∃ t, f.data.topic = some t ∧ (t = BROKER_WARN_TOPIC ∨ S.acl.isMatch a.allowSubscribeTo t = true)
  broadcast : ∀ n, f.origin = .op c n → f.data.kind = .broadcast → a.allowBroadcastAny = false →
    S.acl.isMatch a.allowBroadcastTo tgt.name = true

/-- Every frame ever put is within the rules. -/
def Bounds (s : Sys S) : Prop := ∀ tgt, ∀ f ∈ (s.db.cell tgt).tx.put, Reached c a tgt f

/-- What is asked for in the frame, if the rules admit it, is covered by them. -/
def Request.Bounded (r : Request) : Prop :=
  (r.op = .subscribeTopic → a.allowSubscribeAny = false → ∀ t ∈ (topicsOf (splitZeros r.buf)).1,
    S.acl.isMatch a.allowSubscribeTo t = true → Covered (topicCfg S.zero) a.allowSubscribeTo t) ∧
  (r.op = .broadcast → a.allowBroadcastAny = false →
    ∀ target pos, targetOf r.buf = .ok (target, pos) →
    S.acl.isMatch a.allowBroadcastTo target = true →
      Covered (peerCfg S.zero) a.allowBroadcastTo target)

/-- The frames the client sends are bounded; nothing is asked of anybody else. -/
def Bounded (s : Sys S) (l : Label) : Prop :=
  ∀ t r k, l = .decode t r → s.connOf t = some k → k.client = c → r.Bounded a

/-- An act within the rules. -/
def Within : Act → Prop
  | .subscribe d topics => d = c → a.allowSubscribeAny = false →
    ∀ t ∈ topics, Inside (topicCfg S.zero) a.allowSubscribeTo t
  | .send _ f _ _ => f.data.kind = .message
  | .fan op f _ => f.data.kind = op.kind ∧ f.data.topic = op.topic ∧
    ∀ target n, op = .broadcast target → f.origin = .op c n → a.allowBroadcastAny = false →
      Inside (peerCfg S.zero) a.allowBroadcastTo target
  | .safeSend tgt f _ _ => Reached c a tgt f
  | .put tgt f _ _ => Reached c a tgt f
  | _ => True

/-- What is recorded for the client is within its rules. -/
def Subscribed (s : Sys S) : Prop :=
  a.allowSubscribeAny = false → ∀ k mask, S.Recorded s.db.subscriptions k mask c →
    mask = BROKER_WARN_TOPIC ∨ Inside (topicCfg S.zero) a.allowSubscribeTo mask

variable {c a}

theorem reached_of_kind {tgt : BrokerClient} {f : Frame} (hp : f.data.kind ≠ .publish)
    (hb : f.data.kind ≠ .broadcast) : Reached c a tgt f :=
  ⟨fun _ h => absurd h hp, fun _ _ h => absurd h hb⟩

theorem within_reply {reply : Reply} {res : Except ErrorKind Unit} {b : Act}
    (hb : b ∈ reply.acts res) :
    Within c a b := by
  obtain ⟨d, n, opId, qos, code, -, rfl, -⟩ := mem_reply hb
  trivial

/-- A selected recipient of a frame within the rules. -/
theorem reached_of_recipients {s : Sys S} (hsub : Subscribed c a s) {op : FanOp} {f : Frame}
    {timeout : Bool} {tgt : BrokerClient} (hf : Within c a (.fan op f timeout))
    (ht : tgt ∈ s.db.recipients op) :
    Reached c a tgt f := by
  obtain ⟨hk, htop, hb⟩ := hf
  have hpub : ∀ t, op.kind = .publish → op.topic = some t →
      tgt ∈ S.sub.getSubscribers s.db.subscriptions t → Reached c a tgt f := by
    intro t hop ht hm
    rw [hop] at hk
    rw [ht] at htop
    refine ⟨?_, fun _ _ h => absurd (hk.symm.trans h) (by decide)⟩
    rintro rfl - hany
    obtain ⟨g, mask, hg, hmask, hmatch⟩ := S.sub.of_mem_getSubscribers _ _ _ hm
    refine ⟨t, htop, ?_⟩
    rcases hsub hany _ mask ⟨g, hg, hmask⟩ with rfl | hin
    · exact .inl (Cfg.eq_of_literal (literal_warn _).1 (literal_warn _).2 hmatch).symm
    · exact .inr (hin t hmatch)
  cases op with
  | broadcast target =>
    refine ⟨fun _ h => absurd (hk.symm.trans h) (by simp [FanOp.kind]), fun n ho _ hany => ?_⟩
    have hm := ((S.bcast.mem_getClientsByMask _ _ _).mp ht).2
    exact hb target n rfl ho hany tgt.name hm
  | publish topic => exact hpub topic rfl rfl (List.mem_of_mem_filter ht)
  | publishFor topic receiver => exact hpub topic rfl rfl (List.mem_of_mem_filter ht)

theorem within_localFan (d : BrokerClient) (op : FanOp) (payload : List UInt8) (qos : QoS) :
    Within c a (.fan op (localFrame op.kind d op.topic none payload qos) false) :=
  ⟨rfl, rfl, fun _ _ _ h => by cases h⟩

theorem within_announce (db : BrokerDb S) (event : BrokerEvent) {b : Act}
    (hb : b ∈ announceActs db event) :
    Within c a b := by
  obtain rfl | rfl := mem_announceActs hb <;> trivial

theorem within_coreJob (core : BrokerClient) (payload : List UInt8) (job : CoreJob) :
    Within c a (job.act core payload) := by
  cases job with
  | announce event => exact within_localFan core (.publish event.topic) payload .no
  | fan op payload => exact within_localFan core op payload .no
  | send target header payload => exact rfl

/-- An act within the rules leads to such acts. -/
theorem within_leads {s : Sys S} (hsub : Subscribed c a s) {x y : Act} (hx : Within c a x)
    (h : Leads s.db x y) : Within c a y := by
  cases h with
  | found hl =>
    have hf : _ = FrameKind.message := hx
    exact reached_of_kind (by rw [hf]; decide) (by rw [hf]; decide)
  | recipient ht => exact reached_of_recipients hsub hx ht
  | room => exact hx
  | full | close => trivial
  | notRegistered hb | put hb | closed hb => exact within_reply hb
  | announce hb => exact within_announce _ _ hb
  | core => exact within_coreJob ..
  | locks hb => rcases hb with rfl | rfl | rfl <;> trivial

/-- A call of the broker's side is within the rules of every connection. -/
theorem within_entry {db : BrokerDb S} (hc : c.isExternal = true) {e : Entry}
    (hv : e.valid db = true) {b : Act} (hb : b ∈ e.acts) : Within c a b := by
  cases entryAct_of_mem hb with
  | subscribe d topics hd =>
    rintro rfl
    simp only [Entry.valid, hd, Option.all_some, Bool.and_eq_true, beq_iff_eq] at hv
    simp [BrokerClient.isExternal, hv.1] at hc
  | fan d op payload qos => exact within_localFan d op payload qos
  | send => exact rfl
  | unsubscribe | exclude | unexclude | unregister | drop | lockRpc | withCore | lockCore |
      unlockCore => trivial

/-- A bounded frame of the client itself, or any frame of somebody else, leads to
acts within the rules. -/
theorem within_plan {aaa : Option (ClientAaa S)} {d : BrokerClient} {n : ℕ} {r : Request}
    (hr : d = c → aaa = some a ∧ r.Bounded a) {b : Act} (hb : b ∈ plan aaa d n r) :
    Within c a b := by
  cases planned_of_mem hb with
  | ack | exit | unsubscribe | exclude | unexclude => trivial
  | subscribe hop =>
    intro hd hany t ht
    obtain ⟨rfl, hbound⟩ := hr hd
    obtain ⟨hmem, hadm⟩ := List.mem_filter.mp ht
    simp only [allowed, hany, Bool.false_or] at hadm
    exact (hbound.1 hop hany t hmem hadm).inside (topicCfg_wild _) hadm
  | send target pos => exact rfl
  | broadcast target pos hop htgt hadm =>
    refine ⟨rfl, rfl, fun target' m ht ho hany => ?_⟩
    obtain rfl : target = target' := by cases ht; rfl
    obtain ⟨rfl, hbound⟩ := hr (by cases ho; rfl)
    simp only [allowed, hany, Bool.false_or] at hadm
    exact (hbound.2 hop hany target pos htgt hadm).inside (peerCfg_wild _) hadm
  | publish => exact ⟨rfl, rfl, fun _ _ h => by cases h⟩
  | publishFor => exact ⟨rfl, rfl, fun _ _ h => by cases h⟩

/-- What the runs keep. -/
structure Kept (c : BrokerClient) (a : ClientAaa S) (s : Sys S) : Prop where
  ok : s.Ok
  all : s.All (fun _ => Within c a) (Reached c a)
  sub : Subscribed c a s

theorem Kept.step {rules : BrokerClient → Option (ClientAaa S)} {s s' : Sys S} {l : Label}
    (h : Kept c a s) (hc : c.isExternal = true) (ha : rules c = some a)
    (hs : Guarded (Steps rules) (Bounded c a) s l s') :
    Kept c a s' := by
  obtain ⟨hb, hs⟩ := hs
  refine ⟨h.ok.step hs, h.all.step h.ok.inv ?_ hs, ?_⟩
  · exact
      { leads := fun _ x y => within_leads h.sub
        put := fun _ _ tgt f timeout reply _ hx => hx
        ack := fun _ _ d n opId code realtime _ _ =>
          reached_of_kind (by simp [ackFrame]) (by simp [ackFrame])
        nop := fun d => reached_of_kind (by decide) (by decide)
        unregister := fun _ d => trivial
        announce := fun _ name => ⟨trivial, trivial⟩
        entry := fun t e _ hv b => within_entry hc hv
        plan := fun t r k hl hk b => within_plan fun hd => by
          rw [hd]; exact ⟨ha, hb t r k hl hk hd⟩ }
  · intro hany k mask hr
    rcases step_recorded h.ok.inv hs hr with hr | ⟨hw, -⟩ | ⟨t, ch, conn, topics, rest, -, ht, hm⟩
    · exact h.sub hany k mask hr
    · exact .inl hw
    · exact .inr (h.all.acts t _ ht _ List.mem_cons_self rfl hany mask hm)

/-- **Rules bound what is reached**: in every run in which the client asks for
nothing that its rules admit and do not cover, every publication it gets is on a
topic its rules match, and every broadcast of it goes to clients they match. -/
theorem access_bounds (rules : BrokerClient → Option (ClientAaa S)) (forceRegister brokerRpc : Bool)
    (queueSize : ℕ+) (hc : c.isExternal = true) (ha : rules c = some a) (labels : List Label)
    (s : Sys S)
    (h : Run (Guarded (Steps rules) (Bounded c a))
      (Sys.init S forceRegister brokerRpc queueSize) labels s) :
    Bounds c a s := by
  have hinit : Kept c a (Sys.init S forceRegister brokerRpc queueSize) :=
    ⟨Sys.ok_init .., Sys.all_init .., fun _ _ _ hr => absurd hr Submap.not_recorded_new⟩
  exact (h.inv (fun _ _ _ hk hs => hk.step hc ha hs) hinit).all.frames

end Bounds

/-! ### Two peers -/

namespace Access

/-- The watcher `w` may subscribe to what the masks allow, the publisher `p` may
do everything. -/
def rules (masks : List String) (c : BrokerClient) : Option (ClientAaa reference) :=
  if c.name = "w" then some ((ClientAaa.new reference).withSubscribeTo masks) else none

def watcher : BrokerClient := ⟨0, "w", .tcp, none, none⟩

def subscribe (topic : List UInt8) : Request := .numbered 1 .subscribeTopic .no topic

/-- The body is the topic `a/b` and one byte. -/
def publish : Request := .numbered 2 .publishTopic .no [97, 47, 98, 0, 7]

/-- `w` subscribes, then `p` publishes. -/
def labels (topic : List UInt8) : List Label :=
  [.connect 0 "w" .tcp none none, .connect 1 "p" .tcp none none,
    .decode 0 (subscribe topic), .act 0 .plain,
    .decode 1 publish, .act 1 .plain, .act 1 .plain, .act 1 .plain]

def start : Sys reference := Sys.init reference false false 4

end Access

open Access in
/-- With the mask `a/+`, `w` asks for `a/+`, and gets `a/b`. -/
theorem access_bounds_covered : ∃ s a, rules ["a/+"] watcher = some a ∧ watcher.isExternal = true ∧
    Run (Guarded (Steps (rules ["a/+"])) (Bounded watcher a)) start (labels [97, 47, 43]) s ∧
    (s.db.cell watcher).tx.put.map (·.data.topic) = [some "a/b"] ∧ Bounds watcher a s := by
  have hrun : (execList (step (rules ["a/+"])) start (labels [97, 47, 43])).map
      (fun s => (s.db.cell watcher).tx.put.map (·.data.topic)) = some [some "a/b"] := by decide
  obtain ⟨s, hs, hput⟩ := Option.map_eq_some_iff.mp hrun
  have hcov : ∀ t ∈ (topicsOf (splitZeros (subscribe [97, 47, 43]).buf)).1,
      Covered (S := reference) (topicCfg false)
        ((ClientAaa.new reference).withSubscribeTo ["a/+"]).allowSubscribeTo t := by
    intro t ht
    obtain rfl : t = "a/+" := by
      have hts : (topicsOf (splitZeros (subscribe [97, 47, 43]).buf)).1 = ["a/+"] := by decide
      rw [hts] at ht
      exact List.mem_singleton.mp ht
    exact .inr ⟨rfl, fun n _ => ⟨"a/+", List.mem_singleton.mpr rfl, rfl⟩⟩
  have hg : Run (Guarded (Steps (rules ["a/+"]))
      (Bounded watcher ((ClientAaa.new reference).withSubscribeTo ["a/+"]))) start
        (labels [97, 47, 43]) s := by
    refine (run_of_execList hs).guarded fun s l hl t r k he _ _ => ?_
    subst he
    simp only [labels, List.mem_cons, reduceCtorEq, Label.decode.injEq, List.not_mem_nil, or_false,
      false_or] at hl
    rcases hl with ⟨-, rfl⟩ | ⟨-, rfl⟩
    · exact ⟨fun _ _ t ht _ => hcov t ht, nofun⟩
    · exact ⟨nofun, nofun⟩
  exact ⟨s, _, rfl, rfl, hg, hput, access_bounds _ false false 4 rfl rfl _ s hg⟩

open Access in
/-- With the mask `+`, which admits the topic `#`, `w` gets `a/b`, which the mask
does not match. -/
theorem access_exceeded : ∃ s a, rules ["+"] watcher = some a ∧ watcher.isExternal = true ∧
    Run (Steps (rules ["+"])) start (labels [35]) s ∧ a.allowSubscribeAny = false ∧
    (∃ f ∈ (s.db.cell watcher).tx.put, f.data.kind = .publish ∧ f.data.topic = some "a/b") ∧
    reference.acl.isMatch a.allowSubscribeTo "a/b" = false ∧ ¬ Bounds watcher a s := by
  have hrun : (execList (step (rules ["+"])) start (labels [35])).map
      (fun s => (s.db.cell watcher).tx.put.map fun f => (f.data.kind, f.data.topic)) =
        some [(.publish, some "a/b")] := by decide
  obtain ⟨s, hs, hput⟩ := Option.map_eq_some_iff.mp hrun
  obtain ⟨f, hf, hd⟩ : ∃ f ∈ (s.db.cell watcher).tx.put, (f.data.kind, f.data.topic) =
      (.publish, some "a/b") :=
    List.mem_map.mp (by rw [hput]; exact List.mem_singleton.mpr rfl)
  obtain ⟨hk, ht⟩ := Prod.mk.inj hd
  have hno : reference.acl.isMatch
      ((ClientAaa.new reference).withSubscribeTo ["+"]).allowSubscribeTo "a/b" =
      false := by decide
  refine ⟨s, _, rfl, rfl, run_of_execList hs, rfl, ⟨f, hf, hk, ht⟩, hno, fun hb => ?_⟩
  obtain ⟨t, ht', hw⟩ := (hb watcher f hf).publish rfl hk rfl
  obtain rfl : "a/b" = t := Option.some.inj (ht.symm.trans ht')
  rcases hw with hw | hw
  · exact absurd hw (by decide)
  · rw [hno] at hw; cases hw

end Busrt
