/-
# Who gets a publication

`publish!` asks the map of subscriptions for the subscribers of the topic and
leaves out those whose exclusions match it, but it looks at the exclusions of a
client only if its flag `has_exclusions` says that there are any. The flag is
set and cleared by the four operations of `broker::Client` on exclusions and by
two branches of `handle_reader`, each in an order of its own.

Here clients come and go and change what they get, in any order, by single and
bulk calls and by frames (`Event`). Next to the registry it is noted what each
client asked for (`Interest`). The map of subscriptions knows clients by their
names, so a call or a frame of an instance whose name another one has taken over
changes what the other gets (`misses_late`). As long as no subscription is changed
by such an instance (`ByHolder`) the notes and the registry agree (`Minded`), and a
publication goes to exactly the registered clients with a mask for it and none
against it (`recipients_exact`).

Key definitions: `Interest`, `TopicOp.note`, `Change`, `Event`, `ByHolder`, `Minded`.
Key theorems: `Minded.topics`, `Minded.step`, `recipients_exact`.
-/
import Busrt.Sections
import Busrt.Stale
import Busrt.Interchange
import Busrt.Rules

namespace Busrt

open Lib BrokerDb

variable {S : Submap}

/-! ### What a client asks for -/

/-- The masks a client holds: for what it gets, and for what it does not. -/
structure Interest where
  subscribed : List String
  excluded : List String
  deriving DecidableEq, Repr

/-- A client is registered with a mask for warnings. -/
def Interest.new : Interest := ⟨[BROKER_WARN_TOPIC], []⟩

namespace TopicOp

/-- What an operation on these masks asks for. -/
def note (topics : List String) (i : Interest) : TopicOp → Interest
  | subscribe => { i with subscribed := i.subscribed ++ topics }
  | unsubscribe => { i with subscribed := i.subscribed.filter (· ∉ topics) }
  | exclude => { i with excluded := i.excluded ++ topics }
  | unexclude => { i with excluded := i.excluded.filter (· ∉ topics) }

/-- The call with one topic, and with many. -/
def one (topic : String) (qos : QoS) : TopicOp → ClientOp
  | subscribe => .subscribe topic qos
  | unsubscribe => .unsubscribe topic qos
  | exclude => .exclude topic qos
  | unexclude => .unexclude topic qos

def many (topics : List String) (qos : QoS) : TopicOp → ClientOp
  | subscribe => .subscribeBulk topics qos
  | unsubscribe => .unsubscribeBulk topics qos
  | exclude => .excludeBulk topics qos
  | unexclude => .unexcludeBulk topics qos

def frameOp : TopicOp → FrameOp
  | subscribe => .subscribeTopic
  | unsubscribe => .unsubscribeTopic
  | exclude => .excludeTopic
  | unexclude => .unexcludeTopic

/-- The topics of a frame that the access rules let through. -/
def admitted (aaa : Option (ClientAaa S)) (topics : List String) : TopicOp → List String
  | subscribe => topics.filter (allowed aaa (·.allowSubscribeAny) (·.allowSubscribeTo))
  | _ => topics

end TopicOp

/-- Acts on the maps one after the other; acknowledgements only go to the queue. -/
def settle (db : BrokerDb S) (acts : List Act) : BrokerDb S :=
  acts.foldl (fun db a => match a with
    | .ack .. => db
    | a => (execDb .plain db a).elim db (·.1)) db

/-- A change of what a client gets: a call of `broker::Client`, or a frame that `handle_reader`
reads to its end. -/
inductive Change (S : Submap)
  | one (op : TopicOp) (topic : String) (qos : QoS)
  | many (op : TopicOp) (topics : List String) (qos : QoS)
  | frame (aaa : Option (ClientAaa S)) (op : TopicOp) (r : Request) (hop : r.op = op.frameOp)
      (complete : (topicsOf (splitZeros r.buf)).2 = true)

namespace Change

def op : Change S → TopicOp
  | one op _ _ | many op _ _ | frame _ op _ _ _ => op

/-- The masks it is about. -/
def topics : Change S → List String
  | one _ t _ => [t]
  | many _ ts _ => ts
  | frame aaa op r _ _ => op.admitted aaa (topicsOf (splitZeros r.buf)).1

def run (env : Env S) (db : BrokerDb S) (c : BrokerClient) : Change S → BrokerDb S
  | one op t qos => (Local.perform env db c (op.one t qos)).1
  | many op ts qos => (Local.perform env db c (op.many ts qos)).1
  | frame aaa _ r _ _ => settle db (plan aaa c 0 r)

end Change

/-- What happens to a broker: an operation on the registry, or a call by a client. -/
inductive Event (S : Submap)
  | registry (op : Op)
  | call (c : BrokerClient) (k : Change S)

/-- No other instance has the name of the client. -/
def Unreplaced (db : BrokerDb S) (c : BrokerClient) : Prop := ∀ d, db.lookup c.name = some d → d = c

instance (db : BrokerDb S) (c : BrokerClient) : Decidable (Unreplaced db c) :=
  decidable_of_iff ((db.lookup c.name).all (· = c)) (by simp [Unreplaced, Option.all_eq_true])

/-- The registry with the notes. -/
def Event.run (env : Env S) (p : BrokerDb S × (BrokerClient → Interest)) :
    Event S → BrokerDb S × (BrokerClient → Interest)
  | .registry op => ((op.exec p.1).1, p.2)
  | .call c k => (k.run env p.1 c, Function.update p.2 c (k.op.note k.topics (p.2 c)))

/-- A call is one of a client that was made. -/
def Event.Possible (db : BrokerDb S) : Event S → Prop
  | .registry _ => True
  | .call c _ => c.id < db.nextId

instance (db : BrokerDb S) : ∀ e : Event S, Decidable (e.Possible db)
  | .registry _ => inferInstanceAs (Decidable True)
  | .call c _ => inferInstanceAs (Decidable (c.id < db.nextId))

/-- What happens, and the notes of it. -/
def Happens (env : Env S) (p : BrokerDb S × (BrokerClient → Interest)) (e : Event S)
    (q : BrokerDb S × (BrokerClient → Interest)) : Prop := e.Possible p.1 ∧ q = e.run env p

/-- The operations on the map of subscriptions, which knows clients by their names. -/
def TopicOp.byName : TopicOp → Bool
  | subscribe | unsubscribe => true
  | exclude | unexclude => false

/-- Whose subscriptions are changed has its name to itself. -/
def ByHolder (p : BrokerDb S × (BrokerClient → Interest)) : Event S → Prop
  | .registry _ => True
  | .call c k => k.op.byName = true → Unreplaced p.1 c

instance (p : BrokerDb S × (BrokerClient → Interest)) : ∀ e : Event S, Decidable (ByHolder p e)
  | .registry _ => inferInstanceAs (Decidable True)
  | .call c k => inferInstanceAs (Decidable (k.op.byName = true → Unreplaced p.1 c))

/-- What happens, as computed. -/
def Event.next (env : Env S) (p : BrokerDb S × (BrokerClient → Interest)) (e : Event S) :
    Option (BrokerDb S × (BrokerClient → Interest)) :=
  if e.Possible p.1 then some (e.run env p) else none

theorem happens_of_next {env : Env S} {p q : BrokerDb S × (BrokerClient → Interest)} {e : Event S}
    (h : e.next env p = some q) : Happens env p e q := by
  unfold Event.next at h
  split at h
  · exact ⟨‹_›, (Option.some.inj h).symm⟩
  · cases h

/-! ### The invariant -/

/-- What is kept of the client's exclusions is what was noted, and the flag is cleared only where
there are none. -/
structure Shuns (i : Interest) (x : ClientCell S) : Prop where
  cfg : S.acl.cfg x.exclusions = topicCfg S.zero
  mem : ∀ m, S.acl.mem x.exclusions m ↔ m ∈ i.excluded
  flag : x.hasExclusions = false → i.excluded = []

structure Minded (ints : BrokerClient → Interest) (db : BrokerDb S) : Prop where
  inv : Inv db
  owns : Owns (fun c => (ints c).subscribed) db
  shuns : ∀ c, (db.cell c).registered = true → Shuns (ints c) (db.cell c)
  unseen : ∀ c, db.nextId ≤ c.id → ints c = .new

theorem Shuns.new (q : ℕ+) : Shuns .new (ClientCell.new S q) where
  cfg := S.acl.cfg_new _
  mem m := ⟨fun h => absurd h (S.acl.mem_new _ m), nofun⟩
  flag _ := rfl

/-- Without the look at the flag the answer is the same. -/
theorem Shuns.retains {i : Interest} {x : ClientCell S} (h : Shuns i x) (t : String) :
    (!x.hasExclusions || !S.acl.isMatch x.exclusions t) = !S.acl.isMatch x.exclusions t := by
  cases hx : x.hasExclusions with
  | true => rfl
  | false =>
    have hno : S.acl.isMatch x.exclusions t = false := by
      refine Bool.eq_false_iff.mpr fun hm => ?_
      obtain ⟨m, hm, -⟩ := (S.acl.isMatch_iff _ t).mp hm
      have hmem := (h.mem m).mp hm
      rw [h.flag hx] at hmem
      cases hmem
    rw [hno]
    rfl

theorem Shuns.isMatch_iff {i : Interest} {x : ClientCell S} (h : Shuns i x) (t : String) :
    S.acl.isMatch x.exclusions t = true ↔
      ∃ m ∈ i.excluded, (topicCfg S.zero).isMatch m t = true := by
  simp only [S.acl.isMatch_iff, h.mem, h.cfg]

/-! ### Exclusions -/

section Exclusions

variable {i : Interest} {x : ClientCell S} {topics : List String}

theorem mem_removeAll (m : String) : ∀ (topics : List String) (acl : S.acl.T),
    S.acl.mem (topics.foldl S.acl.remove acl) m ↔ m ∉ topics ∧ S.acl.mem acl m
  | [], acl => by simp
  | t :: topics, acl => by
    rw [List.foldl_cons, mem_removeAll m topics, S.acl.mem_remove, List.mem_cons, not_or,
      and_left_comm, and_assoc]

theorem cfg_removeAll :
    ∀ (topics : List String)
    (acl : S.acl.T), S.acl.cfg (topics.foldl S.acl.remove acl) = S.acl.cfg acl
  | [], _ => rfl
  | t :: topics, acl => (cfg_removeAll topics (S.acl.remove acl t)).trans (S.acl.cfg_remove acl t)

theorem Shuns.exclude (h : Shuns i x) : Shuns (TopicOp.exclude.note topics i)
    { x with exclusions := topics.foldl S.acl.insert x.exclusions
             hasExclusions := if !topics.isEmpty then true else x.hasExclusions } where
  cfg := (cfg_insertAll topics x.exclusions).trans h.cfg
  mem m := by
    rw [mem_insertAll, h.mem, or_comm]
    exact List.mem_append.symm
  flag hf := by
    cases topics with
    | nil => exact (List.append_nil _).trans (h.flag (by simpa using hf))
    | cons t ts => simp at hf

theorem Shuns.unexclude (h : Shuns i x) : Shuns (TopicOp.unexclude.note topics i)
    { x with exclusions := topics.foldl S.acl.remove x.exclusions
             hasExclusions := if S.acl.isEmpty (topics.foldl S.acl.remove x.exclusions) then false
               else x.hasExclusions } := by
  have hmem : ∀ m, S.acl.mem (topics.foldl S.acl.remove x.exclusions) m ↔
      m ∈ (TopicOp.unexclude.note topics i).excluded := by
    intro m
    rw [mem_removeAll, h.mem]
    simp [TopicOp.note, and_comm]
  refine ⟨(cfg_removeAll topics x.exclusions).trans h.cfg, hmem, fun hf => ?_⟩
  split at hf
  · rename_i he
    exact List.eq_nil_iff_forall_not_mem.mpr fun m hm =>
      (S.acl.isEmpty_iff _).mp he m ((hmem m).mpr hm)
  · rw [TopicOp.note, h.flag hf]
    rfl

end Exclusions

/-! ### One operation -/

section Calls

variable {db : BrokerDb S} {c : BrokerClient} {ints : BrokerClient → Interest} {env : Env S}

theorem TopicOp.execDb_act (op : TopicOp) (ch : Choice) (topics : List String) :
    execDb ch db (op.act c topics) = some (op.onDb db c topics, .acts []) := by
  cases op <;> rfl

/-- What the notes of the subscriptions become. -/
theorem TopicOp.subscribed_note (op : TopicOp) (topics : List String)
    (own : BrokerClient → List String) (hown : own = fun c => (ints c).subscribed) :
    (fun d => (Function.update ints c (op.note topics (ints c)) d).subscribed) =
      ownAct own (op.act c topics) := by
  subst hown
  funext d
  cases op <;> by_cases hd : d = c <;> simp [TopicOp.note, TopicOp.act, ownAct, hd]

theorem TopicOp.lookup_onDb (op : TopicOp) (topics : List String) (n : String) :
    (op.onDb db c topics).lookup n = db.lookup n := by
  cases op <;> rfl

theorem TopicOp.nextId_onDb (op : TopicOp) (topics : List String) :
    (op.onDb db c topics).nextId = db.nextId := by
  cases op <;> rfl

theorem TopicOp.inv_onDb (op : TopicOp) (topics : List String) (h : Inv db) :
    Inv (op.onDb db c topics) :=
  (execDb_inv h (op.execDb_act .plain topics)).1

theorem TopicOp.registered_onDb (op : TopicOp) (topics : List String) (d : BrokerClient) :
    ((op.onDb db c topics).cell d).registered = (db.cell d).registered :=
  Busrt.registered_onDb (.topics op c topics) db d

theorem TopicOp.shuns_onDb (op : TopicOp) (topics : List String) {d : BrokerClient}
    (h : Shuns (ints d) (db.cell d)) :
    Shuns (Function.update ints c (op.note topics (ints c)) d) ((op.onDb db c topics).cell d) := by
  by_cases hd : d = c
  · subst hd
    rw [Function.update_self]
    cases op with
    | subscribe => exact ⟨h.cfg, h.mem, h.flag⟩
    | unsubscribe => exact ⟨h.cfg, h.mem, h.flag⟩
    | exclude =>
      simp only [onDb, act, execDb, Option.elim_some, setCell_cell, if_true, Bool.true_and]
      exact h.exclude
    | unexclude =>
      simp only [onDb, act, execDb, Option.elim_some, setCell_cell, if_true, Bool.true_and]
      exact h.unexclude
  · rw [Function.update_of_ne hd]
    cases op with
    | subscribe => exact h
    | unsubscribe => exact h
    | exclude | unexclude =>
      simp only [onDb, act, execDb, Option.elim_some, setCell_cell, if_neg hd]
      exact h

/-- **An operation on a client's masks does what is noted.** -/
theorem Minded.topics (h : Minded ints db) (hid : c.id < db.nextId) (op : TopicOp)
    (hc : op.byName = true → Unreplaced db c) (topics : List String) :
    Minded (Function.update ints c (op.note topics (ints c))) (op.onDb db c topics) where
  inv := op.inv_onDb topics h.inv
  owns := by
    rw [op.subscribed_note topics _ rfl]
    refine owns_exec h.owns h.inv ?_ (op.execDb_act .plain topics)
    cases op with
    | subscribe | unsubscribe => exact hc rfl
    | exclude | unexclude => trivial
  shuns d hd := op.shuns_onDb topics (h.shuns d (by rw [← op.registered_onDb topics]; exact hd))
  unseen d hd := by
    rw [op.nextId_onDb] at hd
    rw [Function.update_of_ne (by rintro rfl; omega)]
    exact h.unseen d hd

/-! ### Calls and frames -/

/-- A bulk call that stops at the first topic that fails holds what it would hold if it went on. -/
theorem held_each {f : S.sub.T → String → S.sub.T × Bool} {k : S.Key}
    (hok : ∀ m t, (f m t).2 = (S.sub.held m k).isSome)
    (hsome : ∀ m t, (S.sub.held (f m t).1 k).isSome = (S.sub.held m k).isSome)
    (hnone : ∀ m t j, S.sub.held m k = none → S.sub.held (f m t).1 j = S.sub.held m j) (j : S.Key) :
    ∀ (ts : List String) (m : S.sub.T),
      S.sub.held (Local.each f m ts).1 j = S.sub.held (ts.foldl (fun m t => (f m t).1) m) j
  | [], _ => rfl
  | t :: ts, m => by
    have heach : Local.each f m (t :: ts) = if (f m t).2 then Local.each f (f m t).1 ts
        else ((f m t).1, false) := rfl
    rw [heach, List.foldl_cons]
    split
    · exact held_each hok hsome hnone j ts _
    · rename_i hfail
      rw [hok] at hfail
      have hn : S.sub.held (f m t).1 k = none := by
        rw [← Option.not_isSome_iff_eq_none, hsome]
        exact hfail
      clear hfail heach
      generalize (f m t).1 = m' at hn
      induction ts generalizing m' with
      | nil => rfl
      | cons u ts ih =>
        have hj : S.sub.held (f m' u).1 j = S.sub.held m' j := hnone m' u j hn
        have hk : S.sub.held (f m' u).1 k = none := (hnone m' u k hn).trans hn
        rw [List.foldl_cons, ← ih _ hk, hj]

theorem held_subscribe_none {m : S.sub.T} (t : String) (j : S.Key)
    (h : S.sub.held m (S.key c) = none) :
    S.sub.held (S.sub.subscribe m t c).1 j = S.sub.held m j := by
  by_cases hj : j = S.key c
  · rw [hj, Submap.key, S.sub.held_subscribe]
    rw [Submap.key] at h
    rw [h]
    rfl
  · exact S.sub.held_subscribe_ne _ _ _ _ hj

theorem held_unsubscribe_none {m : S.sub.T} (t : String) (j : S.Key)
    (h : S.sub.held m (S.key c) = none) :
    S.sub.held (S.sub.unsubscribe m t c).1 j = S.sub.held m j := by
  by_cases hj : j = S.key c
  · rw [hj, Submap.key, S.sub.held_unsubscribe]
    rw [Submap.key] at h
    rw [h]
    rfl
  · exact S.sub.held_unsubscribe_ne _ _ _ _ hj

/-- Only what is held counts. -/
theorem Minded.congr (h : Minded ints db) {m : S.sub.T}
    (hm : ∀ k, S.sub.held m k = S.sub.held db.subscriptions k) :
    Minded ints { db with subscriptions := m } where
  inv := { h.inv with
    subscriptions_iff := fun n => by rw [hm]; exact h.inv.subscriptions_iff n }
  owns n c hl := by rw [hm]; exact h.owns n c hl
  shuns := h.shuns
  unseen := h.unseen

theorem perform_one (env : Env S) (op : TopicOp) (t : String) (qos : QoS) :
    (Local.perform env db c (op.one t qos)).1 = op.onDb db c [t] := by
  cases op <;> simp [Local.perform, TopicOp.one, TopicOp.onDb, TopicOp.act, execDb, setCell]

/-- Where a call for several topics would stop, it has nothing left to change. -/
theorem perform_many (env : Env S) (op : TopicOp) (ts : List String) (qos : QoS) :
    ∃ m, (Local.perform env db c (op.many ts qos)).1 = { op.onDb db c ts with subscriptions := m } ∧
      ∀ k, S.sub.held m k = S.sub.held (op.onDb db c ts).subscriptions k := by
  cases op with
  | subscribe =>
    refine ⟨_, rfl, fun k => held_each (k := S.key c)
      (fun m t => S.sub.subscribe_ok m t c) (fun m t => ?_)
      (fun m t j => held_subscribe_none t j) k ts db.subscriptions⟩
    rw [Submap.key, S.sub.held_subscribe, Option.isSome_map]
  | unsubscribe =>
    refine ⟨_, rfl, fun k => held_each (k := S.key c)
      (fun m t => S.sub.unsubscribe_ok m t c) (fun m t => ?_)
      (fun m t j => held_unsubscribe_none t j) k ts db.subscriptions⟩
    rw [Submap.key, S.sub.held_unsubscribe, Option.isSome_map]
  | exclude =>
    have heq : (Local.perform env db c (TopicOp.exclude.many ts qos)).1 =
        TopicOp.exclude.onDb db c ts := by
      cases ts <;> simp [Local.perform, TopicOp.many, TopicOp.onDb, TopicOp.act, execDb, setCell]
    exact ⟨_, heq, fun _ => rfl⟩
  | unexclude => exact ⟨_, rfl, fun _ => rfl⟩

theorem Minded.one (h : Minded ints db) (hid : c.id < db.nextId) (op : TopicOp)
    (hc : op.byName = true → Unreplaced db c) (t : String) (qos : QoS) :
    Minded (Function.update ints c (op.note [t] (ints c)))
      (Local.perform env db c (op.one t qos)).1 := by
  rw [perform_one]
  exact h.topics hid op hc [t]

theorem Minded.many (h : Minded ints db) (hid : c.id < db.nextId) (op : TopicOp)
    (hc : op.byName = true → Unreplaced db c) (ts : List String) (qos : QoS) :
    Minded (Function.update ints c (op.note ts (ints c)))
      (Local.perform env db c (op.many ts qos)).1 := by
  obtain ⟨m, hm, hheld⟩ := perform_many env op ts qos
  rw [hm]
  exact (h.topics hid op hc ts).congr hheld

theorem settle_append (db : BrokerDb S) (l l' : List Act) :
    settle db (l ++ l') = settle (settle db l) l' :=
  List.foldl_append ..

theorem settle_ackIf (db : BrokerDb S) (c : BrokerClient) (n : ℕ) (opId : List UInt8) (qos : QoS)
    (code : UInt8) :
    settle db (ackIf c n opId qos code) = db := by
  unfold ackIf
  split <;> rfl

theorem settle_denied (db : BrokerDb S) (c : BrokerClient) (n : ℕ) (opId : List UInt8) (qos : QoS)
    (code : UInt8) :
    ∀ ts : List String, settle db (ts.flatMap fun _ => ackIf c n opId qos code) = db
  | [] => rfl
  | t :: ts =>
    by rw [List.flatMap_cons, settle_append, settle_ackIf, settle_denied db c n opId qos code ts]

theorem settle_act (op : TopicOp) (topics : List String) (l : List Act) :
    settle db (op.act c topics :: l) = settle (op.onDb db c topics) l := by
  cases op <;> rfl

/-- A frame that is read to its end does the operation on the topics that are let through. -/
theorem settle_plan (aaa : Option (ClientAaa S)) (op : TopicOp) {r : Request}
    (hop : r.op = op.frameOp) (complete : (topicsOf (splitZeros r.buf)).2 = true) :
    settle db (plan aaa c 0 r) =
      op.onDb db c (op.admitted aaa (topicsOf (splitZeros r.buf)).1) := by
  cases op <;> simp only [TopicOp.frameOp] at hop <;> simp only [plan, hop, complete,
    finishTopics, if_true]
  case subscribe =>
    rw [settle_append, settle_denied]
    exact (settle_act .subscribe _ _).trans (settle_ackIf ..)
  case unsubscribe => exact (settle_act .unsubscribe _ _).trans (settle_ackIf ..)
  case exclude => exact (settle_act .exclude _ _).trans (settle_ackIf ..)
  case unexclude => exact (settle_act .unexclude _ _).trans (settle_ackIf ..)

/-- A call does what is noted. -/
theorem Minded.call (h : Minded ints db) (hid : c.id < db.nextId) (k : Change S)
    (hc : k.op.byName = true → Unreplaced db c) :
    Minded (Function.update ints c (k.op.note k.topics (ints c))) (k.run env db c) := by
  cases k with
  | one op t qos => exact h.one hid op hc t qos
  | many op ts qos => exact h.many hid op hc ts qos
  | frame aaa op r hop complete =>
    rw [Change.run, settle_plan aaa op hop complete]
    exact h.topics hid op hc _

end Calls

/-! ### Clients come and go -/

section Registry

variable {db : BrokerDb S} {c : BrokerClient} {ints : BrokerClient → Interest}

theorem link_exclusions (db : BrokerDb S) (c d : BrokerClient) (pc : Option BrokerClient) :
    ((db.link c pc).cell d).exclusions = (db.cell d).exclusions ∧
      ((db.link c pc).cell d).hasExclusions = (db.cell d).hasExclusions := by
  have hreg : ∀ db : BrokerDb S,
      ((db.setRegistered c true).cell d).exclusions = (db.cell d).exclusions ∧
      ((db.setRegistered c true).cell d).hasExclusions = (db.cell d).hasExclusions := fun db => by
    rw [setRegistered, setCell_cell]; split <;> simp_all
  cases pc with
  | none => exact hreg _
  | some p =>
    obtain ⟨h1, h2⟩ := hreg { db.mapSecondaries p (·.insert c.name) with
      broadcasts := S.bcast.registerClient db.broadcasts c
      subscriptions :=
        (S.sub.subscribe (S.sub.registerClient db.subscriptions c) BROKER_WARN_TOPIC c).1 }
    exact ⟨h1.trans ((Keeps.mapSecondaries db p _).exclusions d),
      h2.trans ((Keeps.mapSecondaries db p _).hasExclusions d)⟩

theorem registerClient_exclusions (h : Inv db) (c d : BrokerClient) :
    ((db.registerClient c).1.cell d).exclusions = (db.cell d).exclusions ∧
      ((db.registerClient c).1.cell d).hasExclusions = (db.cell d).hasExclusions := by
  rcases registerClient_cases h c with ⟨e, -, he⟩ | ⟨pc, -, -, he⟩ | ⟨pc, prev, -, -, -, he⟩
  · rw [he]; exact ⟨rfl, rfl⟩
  · rw [he]; exact link_exclusions ..
  · rw [he]
    obtain ⟨h1, h2⟩ := link_exclusions ((db.dropClient prev).trigger prev) c d pc
    have hk := Keeps.dropClient db prev
    have ht := Keeps.trigger (db.dropClient prev) prev
    constructor
    · calc ((((db.dropClient prev).trigger prev).link c pc).cell d).exclusions
        _ = (((db.dropClient prev).trigger prev).cell d).exclusions := h1
        _ = ((db.dropClient prev).cell d).exclusions := ht.exclusions d
        _ = (db.cell d).exclusions := hk.exclusions d
    · calc ((((db.dropClient prev).trigger prev).link c pc).cell d).hasExclusions
        _ = (((db.dropClient prev).trigger prev).cell d).hasExclusions := h2
        _ = ((db.dropClient prev).cell d).hasExclusions := ht.hasExclusions d
        _ = (db.cell d).hasExclusions := hk.hasExclusions d

theorem Shuns.congr {i : Interest} {x y : ClientCell S} (h : Shuns i x)
    (he : y.exclusions = x.exclusions) (hf : y.hasExclusions = x.hasExclusions) : Shuns i y :=
  ⟨by rw [he]; exact h.cfg, by rw [he]; exact h.mem, by rw [hf]; exact h.flag⟩

theorem Minded.dropClient (h : Minded ints db) (c : BrokerClient) :
    Minded ints (db.dropClient c) where
  inv := h.inv.dropClient c
  owns n d hl := by
    obtain ⟨hold, hh⟩ := held_dropClient h.inv hl
    rw [hh]
    exact h.owns n d hold
  shuns d hd := by
    have hk := Keeps.dropClient db c
    exact (h.shuns d (hk.registered d hd)).congr (hk.exclusions d) (hk.hasExclusions d)
  unseen d hd := by
    rw [dropClient_nextId h.inv] at hd
    exact h.unseen d hd

/-- Who is registered as new asked for nothing yet. -/
theorem Minded.registerNew (h : Minded ints db) (name : String) (kind : BusRtClientKind)
    (source port : Option String) :
    Minded ints (Op.registerNew db name kind source port).1 := by
  have hI := Op.inv_alloc h.inv name kind source port
  set c : BrokerClient := ⟨db.nextId, name, kind, source, port⟩
  set db₁ : BrokerDb S := (db.alloc name kind source port).2
  have hcell : ∀ d, db₁.cell d = if d = c then ClientCell.new S db.queueSize
      else db.cell d := fun d =>
    setCell_cell db c d fun _ => ClientCell.new S db.queueSize
  have hnext : db₁.nextId = db.nextId + 1 := rfl
  have hint : ints c = .new := h.unseen c le_rfl
  have hI' : Inv (db₁.registerClient c).1 := hI.registerClient (Nat.lt_succ_self _)
  have hexcl := registerClient_exclusions hI c
  have hid := registerClient_nextId hI c
  change Minded ints (db₁.registerClient c).1
  obtain ⟨db', res, hr⟩ : ∃ db' res, db₁.registerClient c = (db', res) := ⟨_, _, rfl⟩
  rw [hr] at hI' hexcl hid ⊢
  refine ⟨hI', fun n d hl => ?_, fun d hd => ?_, fun d hd => ?_⟩
  · rcases held_registerClient hI hr hl with ⟨rfl, hh⟩ | ⟨hold, hh⟩
    · refine ⟨_, hh, fun t => ?_⟩
      simp [hint, Interest.new]
    · rw [hh]
      exact h.owns n d hold
  · obtain ⟨he, hf⟩ := hexcl d
    have hs : Shuns (ints d) (db₁.cell d) := by
      rw [hcell]
      split
      · rename_i hdc
        rw [hdc, hint]
        exact .new _
      · rename_i hdc
        refine h.shuns d ((h.inv.registered_iff d).mpr ?_)
        rcases held_registerClient hI hr ((hI'.registered_iff d).mp hd) with ⟨rfl, -⟩ | ⟨hold, -⟩
        · exact absurd rfl hdc
        · exact hold
    exact hs.congr he hf
  · rw [hid, hnext] at hd
    exact h.unseen d (Nat.le_of_succ_le hd)

theorem Minded.registry (h : Minded ints db) (op : Op) : Minded ints (op.exec db).1 := by
  cases op with
  | register name kind source port => exact h.registerNew name kind source port
  | registerSecondaryFor c k =>
    rw [Op.exec]
    split
    · exact h.registerNew ..
    · exact h
  | unregisterClient c | dropOfClient c | finishPeer c => exact h.dropClient c
  | forceUnregister c =>
    have hd := h.dropClient c
    refine ⟨hd.inv.setTx c _, hd.owns, fun d hr => ?_, hd.unseen⟩
    refine (hd.shuns d (by rw [← setTx_registered]; exact hr)).congr ?_ ?_
    · simp only [Op.exec, forceUnregister, closeTx, setTx, setCell_cell]; split <;> simp_all
    · simp only [Op.exec, forceUnregister, closeTx, setTx, setCell_cell]; split <;> simp_all

/-- **The registry stays what was noted**, whatever happens by holders of names. -/
theorem Minded.step {env : Env S} {p q : BrokerDb S × (BrokerClient → Interest)} {e : Event S}
    (h : Minded p.2 p.1) (he : Guarded (Happens env) ByHolder p e q) : Minded q.2 q.1 := by
  obtain ⟨hholder, hpossible, rfl⟩ := he
  cases e with
  | registry op => exact h.registry op
  | call c k => exact h.call hpossible k hholder

theorem minded_empty (force rpc : Bool) (q : ℕ+) :
    Minded (fun _ => .new) (BrokerDb.empty S force rpc q) where
  inv := inv_empty force rpc q
  owns n c hl := by simp at hl
  shuns c hc := by simp [BrokerDb.empty, ClientCell.new] at hc
  unseen _ _ := rfl

end Registry

/-! ### The recipients -/

section Recipients

variable {db : BrokerDb S} {ints : BrokerClient → Interest}

/-- The client has a mask for the topic, and none against it. -/
def Interest.Wants (zero : Bool) (i : Interest) (t : String) : Prop :=
  (∃ m ∈ i.subscribed, (topicCfg zero).isMatch m t = true) ∧
    ¬ ∃ m ∈ i.excluded, (topicCfg zero).isMatch m t = true

instance (zero : Bool) (i : Interest) (t : String) : Decidable (i.Wants zero t) :=
  inferInstanceAs (Decidable (_ ∧ _))

/-- The subscribers of a topic are registered and have a mask for it. -/
theorem Minded.mem_getSubscribers (h : Minded ints db) (t : String) (c : BrokerClient) :
    c ∈ S.sub.getSubscribers db.subscriptions t ↔
      (db.cell c).registered = true ∧
        ∃ m ∈ (ints c).subscribed, (topicCfg S.zero).isMatch m t = true := by
  have hof : ∀ d, d ∈ S.sub.getSubscribers db.subscriptions t → db.lookup d.name = some d ∧
      ∃ m ∈ (ints d).subscribed, (topicCfg S.zero).isMatch m t = true := by
    intro d hd
    obtain ⟨f, mask, hf, hmask, hm⟩ := S.sub.of_mem_getSubscribers _ _ _ hd
    obtain ⟨e, hl⟩ : ∃ e, db.lookup d.name = some e :=
      Option.isSome_iff_exists.mp (by rw [← h.inv.subscriptions_iff, hf]; rfl)
    obtain ⟨g, hg, hown⟩ := h.owns d.name e hl
    rw [hf] at hg
    obtain rfl := Option.some.inj hg
    rw [hown] at hmask
    split at hmask
    · rename_i hmem
      obtain rfl := Option.some.inj hmask
      exact ⟨hl, mask, hmem, hm⟩
    · cases hmask
  rw [h.inv.registered_iff]
  refine ⟨hof c, fun ⟨hl, mask, hmask, hm⟩ => ?_⟩
  obtain ⟨g, hg, hown⟩ := h.owns c.name c hl
  obtain ⟨d, hd, hk⟩ := S.sub.mem_getSubscribers _ _ _ _ _ _ hg (by rw [hown, if_pos hmask]) hm
  obtain ⟨hdl, -⟩ := hof d hd
  rw [S.sha256_inj _ _ hk, hl] at hdl
  obtain rfl := Option.some.inj hdl
  exact hd

theorem Minded.mem_subscribers (h : Minded ints db) (t : String) (c : BrokerClient) :
    c ∈ db.subscribers t ↔ (db.cell c).registered = true ∧ (ints c).Wants S.zero t := by
  rw [subscribers, List.mem_filter, h.mem_getSubscribers, and_assoc]
  refine and_congr_right fun hr => and_congr_right fun _ => ?_
  have hs := h.shuns c hr
  rw [BrokerDb.retains, hs.retains, Bool.not_eq_true', Bool.eq_false_iff, ne_eq, hs.isMatch_iff]

end Recipients

/-- **A publication goes to the interested**: after every history in which whose subscriptions are
changed has its name to itself, the recipients of `publish` are the registered clients with a mask
for the topic and none against it, those of `publish_for` are those of them with the receiver for
primary name, and that the exclusions are looked at only where the flag is set changes nothing. -/
theorem recipients_exact (env : Env S) (force rpc : Bool) (queueSize : ℕ+) (events : List (Event S))
    (db : BrokerDb S) (ints : BrokerClient → Interest)
    (h : Run (Guarded (Happens env) ByHolder) (BrokerDb.empty S force rpc queueSize,
      fun _ => .new) events (db, ints))
    (topic receiver : String) :
    (∀ c, c ∈ db.recipients (.publish topic) ↔ (db.cell c).registered = true ∧
      (ints c).Wants S.zero topic) ∧
      (∀ c, c ∈ db.recipients (.publishFor topic receiver) ↔
        ((db.cell c).registered = true ∧ (ints c).Wants S.zero topic) ∧ c.primaryName = receiver) ∧
      ((db.recipients (.publish topic)).map (·.name)).Nodup ∧
      db.recipients (.publish topic) = (S.sub.getSubscribers db.subscriptions topic).filter
        fun c => !S.acl.isMatch (db.cell c).exclusions topic := by
  have h : Minded ints db :=
    h.inv (I := fun p => Minded p.2 p.1)
      (fun _ _ _ hp he => hp.step he) (minded_empty force rpc queueSize)
  refine ⟨h.mem_subscribers topic, fun c => ?_, ?_, ?_⟩
  · rw [← h.mem_subscribers topic c]
    simp only [recipients, subscribersFor, subscribers, List.mem_filter, Bool.and_eq_true,
      beq_iff_eq, and_assoc]
    exact and_congr_right fun _ => and_comm
  · refine List.Nodup.of_map S.sha256
      (List.Nodup.sublist ?_ (S.sub.nodup_getSubscribers db.subscriptions topic))
    rw [List.map_map]
    exact List.filter_sublist.map _
  · refine List.filter_congr fun c hc => ?_
    exact (h.shuns c ((h.mem_getSubscribers topic c).mp hc).1).retains topic

namespace Displaced

/-- The first instance of the name `w`, and the one that takes it over. -/
def first : BrokerClient := ⟨0, "w", .tcp, none, none⟩
def second : BrokerClient := ⟨1, "w", .tcp, none, none⟩

/-- Frames with the topic `a`. -/
def subscribe : Change reference :=
  .frame none .subscribe (.numbered 1 .subscribeTopic .no [97]) rfl (by decide)
def unsubscribe : Change reference :=
  .frame none .unsubscribe (.numbered 2 .unsubscribeTopic .no [97]) rfl (by decide)

/-- Both subscribe, the second after it has taken the name over. -/
def takeover : List (Event reference) :=
  [.registry (.register "w" .tcp none none), .call first subscribe,
    .registry (.register "w" .tcp none none), .call second subscribe]

/-- The reader of the first works on a frame it had already got. -/
def late : List (Event reference) := takeover ++ [.call first unsubscribe]

def start : BrokerDb reference × (BrokerClient → Interest) :=
  (BrokerDb.empty reference true false 4, fun _ => .new)

def env : Env reference := ⟨fun _ l => l, fun _ l => .refl l, fun _ _ => true, fun _ _ => []⟩

end Displaced

open Displaced in
/-- Without the late frame, a publication on `a` goes to the second instance. -/
theorem recipients_exact_takeover :
    ∃ db ints, Run (Guarded (Happens env) ByHolder) start takeover (db, ints) ∧
    second ∈ db.recipients (.publish "a") := by
  have hrun : (execList (fun p e => if ByHolder p e then e.next env p else none) start takeover).map
      (fun p => ((p.1.cell second).registered, p.2 second)) =
        some (true, ⟨[BROKER_WARN_TOPIC, "a"], []⟩) := by decide
  obtain ⟨⟨db, ints⟩, hs, hobs⟩ := Option.map_eq_some_iff.mp hrun
  obtain ⟨hreg, hint⟩ := Prod.mk.inj hobs
  have hr : Run (Guarded (Happens env) ByHolder) start takeover (db, ints) :=
    (run_of_checked (g := fun p e => decide (ByHolder p e)) (fun _ _ => of_decide_eq_true)
      (by simpa using hs)).mono
      fun p e q h => ⟨h.1, happens_of_next h.2⟩
  obtain ⟨hpub, -⟩ := recipients_exact env true false 4 takeover db ints hr "a" ""
  refine ⟨db, ints, hr, (hpub second).mpr ⟨hreg, ?_⟩⟩
  have hint : ints second = ⟨[BROKER_WARN_TOPIC, "a"], []⟩ := hint
  rw [hint]
  decide

open Displaced in
/-- The late frame takes the subscription of the second instance away: it is registered and asked
for `a`, and publications on `a` go to nobody. -/
theorem misses_late : ∃ db ints, Run (Happens env) start late (db, ints) ∧
    (db.cell second).registered = true ∧ (ints second).Wants true "a" ∧
      db.recipients (.publish "a") = [] := by
  have hrun : (execList (Event.next env) start late).map
      (fun p => ((p.1.cell second).registered, p.2 second,
      p.1.recipients (.publish "a"))) = some (true, ⟨[BROKER_WARN_TOPIC, "a"], []⟩, []) := by decide
  obtain ⟨⟨db, ints⟩, hs, hobs⟩ := Option.map_eq_some_iff.mp hrun
  simp only [Prod.mk.injEq] at hobs
  obtain ⟨hreg, hint, hnone⟩ := hobs
  refine ⟨db, ints, (run_of_execList hs).mono fun p e q h => happens_of_next h, hreg, ?_, hnone⟩
  rw [hint]
  decide

end Busrt
