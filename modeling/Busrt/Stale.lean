/-
# A connection and its successor

A client that was unregistered by the broker may still have a reader at work,
while another connection has its name. The map of subscriptions knows clients
by the digest of the name, so an act of the old reader is done on what is held
for the new client.

What a registered client should hold is what it asked for itself: its own
topics are a record of the run (`ownTopics`). As long as no reader works on
topics while another instance has its name, this is what is held for the name
(`Owns`), with the client itself as the one who gets the publications.

Key definitions: `ownTopics`, `Owns`, `NotStale`.
Key theorems: `owns_exec`, `held_by_own`.
-/
import Busrt.System

namespace Busrt

open Lib BrokerDb

variable {S : Submap}

/-! ### What is held after a registration or a drop -/

section Held

variable {db db' : BrokerDb S} {c d : BrokerClient} {n : String}

/-- Who is left after a drop was there, and holds what it held. -/
theorem held_dropClient (hI : Inv db) (hl : (db.dropClient c).lookup n = some d) :
    db.lookup n = some d ∧
    S.sub.held (db.dropClient c).subscriptions (S.sha256 n) =
      S.sub.held db.subscriptions (S.sha256 n) := by
  have hI' := hI.dropClient c
  have hkeep := Keeps.dropClient db c
  have hn := hI'.name_eq n d hl
  have hreg : ((db.dropClient c).cell d).registered = true := by
    rw [hI'.registered_iff, hn]; exact hl
  refine ⟨?_, ?_⟩
  · rw [← hn]; exact (hI.registered_iff d).mp (hkeep.registered d hreg)
  · refine (hkeep.held _).resolve_right fun hnone => ?_
    have hs := hI'.subscriptions_iff n
    rw [hnone, hl] at hs
    cases hs

/-- A client just linked holds the topic of warnings, and nobody else is
touched. -/
theorem held_link (hI : Inv db) (hv : db.lookup c.name = none) (pc : Option BrokerClient)
    (hl : (db.link c pc).lookup n = some d) :
    (d = c ∧ S.sub.held (db.link c pc).subscriptions (S.sha256 n) =
      some fun t => if t = BROKER_WARN_TOPIC then some c else none) ∨
    (db.lookup n = some d ∧
      S.sub.held (db.link c pc).subscriptions (S.sha256 n) =
        S.sub.held db.subscriptions (S.sha256 n)) := by
  rw [lookup_link] at hl
  split at hl
  · rename_i hn
    subst hn
    left
    have hnone : S.sub.held db.subscriptions (S.sha256 c.name) = none := by
      have hs := hI.subscriptions_iff c.name
      rw [hv] at hs
      exact Option.not_isSome_iff_eq_none.mp (by rw [hs]; decide)
    refine ⟨(Option.some.inj hl).symm, ?_⟩
    rw [link_subscriptions, S.sub.held_subscribe, S.sub.held_register, hnone]
    rfl
  · rename_i hn
    right
    have hk : S.sha256 n ≠ S.sha256 c.name := fun he => hn (S.sha256_inj _ _ he)
    exact ⟨hl, by rw [link_subscriptions, S.sub.held_subscribe_ne _ _ _ _ hk,
      S.sub.held_register_ne _ _ _ hk]⟩

/-- A registration, accepted or not. -/
theorem held_registerClient (hI : Inv db) {res : Except Error Unit}
    (hr : db.registerClient c = (db', res)) (hl : db'.lookup n = some d) :
    (d = c ∧ S.sub.held db'.subscriptions (S.sha256 n) =
      some fun t => if t = BROKER_WARN_TOPIC then some c else none) ∨
    (db.lookup n = some d ∧
      S.sub.held db'.subscriptions (S.sha256 n) = S.sub.held db.subscriptions (S.sha256 n)) := by
  rcases registerClient_cases hI c with ⟨e, -, he⟩ | ⟨pc, -, hv, he⟩ | ⟨pc, prev, ha, hprev, -, he⟩
  · rw [hr] at he
    obtain ⟨rfl, -⟩ := Prod.mk.inj he
    exact .inr ⟨hl, rfl⟩
  · rw [hr] at he
    obtain ⟨rfl, -⟩ := Prod.mk.inj he
    exact held_link hI hv pc hl
  · rw [hr] at he
    obtain ⟨rfl, -⟩ := Prod.mk.inj he
    obtain ⟨-, hv⟩ := attach_dropClient hI hprev ha
    rcases held_link ((hI.dropClient prev).trigger prev) hv pc hl with h | ⟨hl', hh⟩
    · exact .inl h
    · obtain ⟨hold, hh'⟩ := held_dropClient hI hl'
      exact .inr ⟨hold, hh.trans hh'⟩

end Held

/-! ### A client's own topics -/

/-- An act of a client, on its own topics. -/
def ownAct (own : BrokerClient → List String) : Act → BrokerClient → List String
  | .subscribe c topics => Function.update own c (own c ++ topics)
  | .unsubscribe c topics => Function.update own c ((own c).filter (· ∉ topics))
  | _ => own

/-- The record of the topics that each client asked for: the one of its
registration, and what its acts add and take away. -/
def ownTopics (s : Sys S) (l : Label) (own : BrokerClient → List String) :
    BrokerClient → List String :=
  match l with
  | .connect _ name kind source port =>
    Function.update own (newClient s name kind source port) [BROKER_WARN_TOPIC]
  | .act t _ =>
    match s.task t with
    | some ⟨_, a :: _⟩ => ownAct own a
    | _ => own
  | _ => own

/-- For a registered client its own topics are held, by itself. -/
def Owns (own : BrokerClient → List String) (db : BrokerDb S) : Prop :=
  ∀ n c, db.lookup n = some c → ∃ g, S.sub.held db.subscriptions (S.sha256 n) = some g ∧
    ∀ t, g t = if t ∈ own c then some c else none

/-- The act does not work on the topics of a name that another client has. -/
def Act.NotStale (db : BrokerDb S) : Act → Prop
  | .subscribe c _ => ∀ d, db.lookup c.name = some d → d = c
  | .unsubscribe c _ => ∀ d, db.lookup c.name = some d → d = c
  | _ => True

/-- No step lets a reader work on topics while another client has its name. -/
def NotStale (s : Sys S) (l : Label) : Prop :=
  ∀ t ch conn a rest, l = .act t ch → s.task t = some ⟨conn, a :: rest⟩ → a.NotStale s.db

section Own

variable {own : BrokerClient → List String} {db db' : BrokerDb S} {c : BrokerClient}

/-- The topics of a list, one after the other, for one key. -/
theorem held_foldl_ne {f : S.sub.T → String → S.sub.T} {k : S.Key}
    (hf : ∀ m t, S.sub.held (f m t) k = S.sub.held m k) :
    ∀ (topics : List String) (m : S.sub.T), S.sub.held (topics.foldl f m) k = S.sub.held m k
  | [], _ => rfl
  | t :: topics, m => (held_foldl_ne hf topics (f m t)).trans (hf m t)

theorem held_subscribe_all : ∀ (topics own : List String) (m : S.sub.T),
    (∃ g, S.sub.held m (S.key c) = some g ∧ ∀ t, g t = if t ∈ own then some c else none) →
    ∃ g, S.sub.held (topics.foldl (fun m t => (S.sub.subscribe m t c).1) m) (S.key c) = some g ∧
      ∀ t, g t = if t ∈ own ++ topics then some c else none
  | [], own, m, h => by simpa using h
  | t :: topics, own, m, ⟨g, hg, hown⟩ => by
    have hnext : ∃ g, S.sub.held (S.sub.subscribe m t c).1 (S.key c) = some g ∧
        ∀ x, g x = if x ∈ own ++ [t] then some c else none := by
      refine ⟨fun x => if x = t then some ((g t).getD c) else g x, ?_, fun x => ?_⟩
      · rw [Submap.key, S.sub.held_subscribe]
        rw [Submap.key] at hg
        rw [hg]
        rfl
      · by_cases hx : x = t
        · subst hx
          simp only [hown, if_true, List.mem_append, List.mem_singleton, or_true]
          split <;> rfl
        · simp only [hx, if_false, List.mem_append, List.mem_singleton, or_false]
          exact hown x
    have ih := held_subscribe_all topics (own ++ [t]) _ hnext
    rw [List.append_assoc, List.singleton_append] at ih
    exact ih

theorem held_unsubscribe_all : ∀ (topics own : List String) (m : S.sub.T),
    (∃ g, S.sub.held m (S.key c) = some g ∧ ∀ t, g t = if t ∈ own then some c else none) →
    ∃ g, S.sub.held (topics.foldl (fun m t => (S.sub.unsubscribe m t c).1) m) (S.key c) = some g ∧
      ∀ t, g t = if t ∈ own.filter (· ∉ topics) then some c else none
  | [], own, m, h => by simpa using h
  | t :: topics, own, m, ⟨g, hg, hown⟩ => by
    have hnext : ∃ g, S.sub.held (S.sub.unsubscribe m t c).1 (S.key c) = some g ∧
        ∀ x, g x = if x ∈ own.filter (· ≠ t) then some c else none := by
      refine ⟨fun x => if x = t then none else g x, ?_, fun x => ?_⟩
      · rw [Submap.key, S.sub.held_unsubscribe]
        rw [Submap.key] at hg
        rw [hg]
        rfl
      · by_cases hx : x = t
        · simp [hx]
        · simp [hx, hown]
    obtain ⟨g', hg', hown'⟩ := held_unsubscribe_all topics (own.filter (· ≠ t)) _ hnext
    refine ⟨g', hg', fun x => ?_⟩
    rw [hown' x]
    congr 1
    simp only [List.mem_filter, List.mem_cons, decide_eq_true_eq, not_or, ne_eq]
    exact propext ⟨fun h => ⟨h.1.1, h.1.2, h.2⟩, fun h => ⟨⟨h.1, h.2.1⟩, h.2.2⟩⟩

/-- A change of one key's topics, by the client that has the name. -/
theorem Owns.update {topics : List String} {m : S.sub.T} (h : Owns own db) (hI : Inv db)
    (hc : ∀ d, db.lookup c.name = some d → d = c)
    (hne : ∀ k, k ≠ S.key c → S.sub.held m k = S.sub.held db.subscriptions k)
    (heq : (∃ g, S.sub.held db.subscriptions (S.key c) = some g ∧
      ∀ t, g t = if t ∈ own c then some c else none) → ∃ g, S.sub.held m (S.key c) = some g ∧
      ∀ t, g t = if t ∈ topics then some c else none) :
    Owns (Function.update own c topics) { db with subscriptions := m } := by
  intro n d hl
  have hl : db.lookup n = some d := hl
  by_cases hn : n = c.name
  · subst hn
    obtain rfl := hc d hl
    rw [Function.update_self]
    exact heq (h _ _ hl)
  · have hdc : d ≠ c := fun he => hn (by rw [← he]; exact (hI.name_eq n d hl).symm)
    rw [Function.update_of_ne hdc]
    have hh := hne (S.sha256 n) (S.key_ne hn)
    rw [hh]
    exact h n d hl

/-- Every act keeps a registered client's topics its own, unless it is a stale
one. -/
theorem owns_exec {ch : Choice} {a : Act} {next : Next} (h : Owns own db) (hI : Inv db)
    (ha : a.NotStale db) (he : execDb ch db a = some (db', next)) : Owns (ownAct own a) db' := by
  have hdrop : ∀ c, Owns own (db.dropClient c) := by
    intro c n d hl
    obtain ⟨hold, hh⟩ := held_dropClient hI hl
    rw [hh]
    exact h n d hold
  cases effect_of_execDb he with
  | same ha hs =>
    have hact : ownAct own a = own := by
      cases a with
      | subscribe | unsubscribe => cases ha
      | _ => rfl
    intro n c hn
    rw [hact, hs.subscriptions]
    exact h n c (by rw [← hs.lookup]; exact hn)
  | @subscribe c topics =>
    exact h.update hI ha
      (fun k hk => held_foldl_ne (fun m t => S.sub.held_subscribe_ne _ _ _ _ hk) topics _)
      (held_subscribe_all topics (own c) _)
  | @unsubscribe c topics =>
    exact h.update hI ha
      (fun k hk => held_foldl_ne (fun m t => S.sub.held_unsubscribe_ne _ _ _ _ hk) topics _)
      (held_unsubscribe_all topics (own c) _)
  | unregister => exact hdrop _
  | drop => exact hdrop _

end Own

/-! ### Every run -/

section Run

variable {rules : BrokerClient → Option (ClientAaa S)} {s s' : Sys S} {l : Label}
  {own : BrokerClient → List String}

theorem Owns.step (h : Owns own s.db) (hok : s.Ok) (hn : NotStale s l) (hs : Steps rules s l s') :
    Owns (ownTopics s l own) s'.db := by
  have hreg : ∀ {t name kind source port db' res},
      (allocated s name kind source port).registerClient
      (newClient s name kind source port) = (db', res) →
      Owns (ownTopics s (.connect t name kind source port) own) db' := by
    intro t name kind source port db' res hr n d hl
    have hI := inv_allocated hok.inv name kind source port
    rcases held_registerClient hI hr hl with ⟨rfl, hh⟩ | ⟨hold, hh⟩
    · refine ⟨_, hh, fun t => ?_⟩
      simp [ownTopics]
    · have hne : d ≠ newClient s name kind source port := by
        rintro rfl
        exact absurd (hok.inv.fresh n _ hold) (lt_irrefl _)
      rw [hh, ownTopics, Function.update_of_ne hne]
      exact h n d hold
  have hexec : ∀ {ch t a conn rest s₁ next}, l = .act t ch → s.task t = some ⟨conn, a :: rest⟩ →
      exec ch t s a = some (s₁, next) → Owns (ownTopics s l own) s₁.db := by
    intro ch t a conn rest s₁ next hl ht he
    have hown : ownTopics s l own = ownAct own a := by rw [hl, ownTopics, ht]
    rw [hown]
    rcases exec_cases he with ⟨db, hdb, rfl⟩ | ⟨-, hlock⟩
    · exact owns_exec h hok.inv (hn t ch conn a rest hl ht) hdb
    · rcases hlock with ⟨rfl, -, rfl⟩ | ⟨rfl, -, rfl⟩ | ⟨rfl, rfl⟩ | ⟨rfl, rfl⟩ <;> exact h
  cases effect_of_steps hs with
  | connect ht hr => exact hreg hr
  | refuse hr => exact hreg hr
  | act ht he => have h₁ := hexec rfl ht he; exact h₁
  | exit ht he => have h₁ := hexec rfl ht he; exact h₁
  | setCore | spawn | decode | finish | recv | ping => exact h

/-- **A stale connection does not touch its successor**: in every run in which no
reader works on topics while another instance has its name, a registered client
holds exactly the topics it asked for, and among the instances of its name only
it gets publications, those that its own topics match. -/
theorem held_by_own (rules : BrokerClient → Option (ClientAaa S)) (forceRegister brokerRpc : Bool)
    (queueSize : ℕ+) (labels : List Label) (s : Sys S) (own : BrokerClient → List String)
    (h : Run (Guarded (Tracked (Steps rules) ownTopics) fun p l => NotStale p.1 l)
      (Sys.init S forceRegister brokerRpc queueSize, fun _ => []) labels (s, own))
    (n : String) (c : BrokerClient) (hl : s.db.lookup n = some c) :
    (∃ g, S.sub.held s.db.subscriptions (S.sha256 n) = some g ∧
      ∀ t, g t = if t ∈ own c then some c else none) ∧
    ∀ topic d, d ∈ S.sub.getSubscribers s.db.subscriptions topic ∧ d.name = n ↔
      d = c ∧ ∃ mask ∈ own c, (topicCfg S.zero).isMatch mask topic = true := by
  have hinv : s.Ok ∧ Owns own s.db := by
    refine Run.inv (I := fun p : Sys S × (BrokerClient → List String) => p.1.Ok ∧ Owns p.2 p.1.db)
      (fun p l q hp hq => ?_) h ⟨Sys.ok_init .., fun n c hl => by simp [Sys.init] at hl⟩
    obtain ⟨hn, hs, hq⟩ := hq
    rw [hq]
    exact ⟨hp.1.step hs, hp.2.step hp.1 hn hs⟩
  obtain ⟨hok, howns⟩ := hinv
  obtain ⟨g, hg, hown⟩ := howns n c hl
  have hname := hok.inv.name_eq n c hl
  have hof : ∀ topic d, d ∈ S.sub.getSubscribers s.db.subscriptions topic → d.name = n →
      d = c ∧ ∃ mask ∈ own c, (topicCfg S.zero).isMatch mask topic = true := by
    intro topic d hd hdn
    obtain ⟨f, mask, hf, hmask, hm⟩ := S.sub.of_mem_getSubscribers _ _ _ hd
    simp only [hdn, hg, Option.some.injEq] at hf
    rw [← hf, hown] at hmask
    split at hmask
    · exact ⟨(Option.some.inj hmask).symm, mask, ‹_›, hm⟩
    · cases hmask
  refine ⟨⟨g, hg, hown⟩, fun topic d => ⟨fun hd => hof topic d hd.1 hd.2, ?_⟩⟩
  rintro ⟨rfl, mask, hmask, hm⟩
  obtain ⟨d', hd', hk⟩ := S.sub.mem_getSubscribers _ _ _ _ _ _ hg (by rw [hown, if_pos hmask]) hm
  have hdn : d'.name = n := S.sha256_inj _ _ hk
  obtain ⟨rfl, -⟩ := hof topic d' hd' hdn
  exact ⟨hd', hname⟩

/-- A check that no step is stale. -/
def notStale (s : Sys S) : Label → Bool
  | .act t _ =>
    match s.task t with
    | some ⟨_, .subscribe c _ :: _⟩ => (s.db.lookup c.name).all (· == c)
    | some ⟨_, .unsubscribe c _ :: _⟩ => (s.db.lookup c.name).all (· == c)
    | _ => true
  | _ => true

theorem notStale_sound (s : Sys S) (l : Label) (h : notStale s l = true) : NotStale s l := by
  rintro t ch conn a rest rfl ht
  simp only [notStale, ht] at h
  cases a with
  | subscribe c topics =>
    intro d hd
    simpa [hd] using h
  | unsubscribe c topics =>
    intro d hd
    simpa [hd] using h
  | _ => trivial

end Run

/-! ### A takeover -/

namespace Stale

/-- The first connection of the name `w`, and the one that takes it over. -/
def old : BrokerClient := ⟨0, "w", .tcp, none, none⟩
def new : BrokerClient := ⟨1, "w", .tcp, none, none⟩

def start : Sys reference := Sys.init reference true false 4

/-- A frame with the topic `a`. -/
def frame (op : FrameOp) : Request := .numbered 1 op .no [97]

/-- The old connection subscribes, the new one takes the name over and
subscribes too. -/
def labels : List Label :=
  [.connect 0 "w" .tcp none none, .decode 0 (frame .subscribeTopic), .act 0 .plain,
    .connect 1 "w" .tcp none none, .decode 1 (frame .subscribeTopic), .act 1 .plain]

/-- The old reader works on a frame it had already got. -/
def late : List Label := labels ++ [.decode 0 (frame .unsubscribeTopic), .act 0 .plain]

end Stale

open Stale in
/-- Without a late frame, the new connection gets publications on `a`. -/
theorem held_by_own_takeover : ∃ s own,
    Run (Guarded (Tracked (Steps fun _ => none) ownTopics) fun p l => NotStale p.1 l)
      (start, fun _ => []) labels (s, own) ∧
    s.db.lookup "w" = some new ∧ own new = [BROKER_WARN_TOPIC, "a"] ∧
    new ∈ reference.sub.getSubscribers s.db.subscriptions "a" := by
  have hrun :
      (execList
        (fun p l => if notStale p.1 l then track (step fun _ => none) ownTopics p l else none)
        (start, fun _ => []) labels).map (fun p => (p.1.db.lookup "w", p.2 new)) =
        some (some new, [BROKER_WARN_TOPIC, "a"]) := by decide
  obtain ⟨⟨s, own⟩, hs, hobs⟩ := Option.map_eq_some_iff.mp hrun
  obtain ⟨hl, hown⟩ := Prod.mk.inj hobs
  have hr : Run (Guarded (Tracked (Steps fun _ => none) ownTopics) fun p l => NotStale p.1 l)
      (start, fun _ => [])
      labels (s, own) :=
    (run_of_checked (fun p l => notStale_sound p.1 l) hs).mono fun p l q hpq =>
      ⟨hpq.1, tracked_of_track hpq.2⟩
  obtain ⟨-, hsub⟩ := held_by_own _ true false 4 labels s own hr "w" new hl
  have hown' : own new = [BROKER_WARN_TOPIC, "a"] := hown
  refine ⟨s, own, hr, hl, hown, ((hsub "a" new).mpr ⟨rfl, "a", ?_, by decide⟩).1⟩
  rw [hown']
  decide

open Stale in
/-- The late frame of the old connection takes the subscription of the new one
away. -/
theorem held_by_stale :
    ∃ s own, Run (Tracked (Steps fun _ => none) ownTopics) (start, fun _ => []) late (s, own) ∧
    s.db.lookup "w" = some new ∧ "a" ∈ own new ∧
    reference.sub.getSubscribers s.db.subscriptions "a" = [] ∧
    ¬ ∃ g, reference.sub.held s.db.subscriptions "w" = some g ∧
      ∀ t, g t = if t ∈ own new then some new else none := by
  have hrun : (execList (track (step fun _ => none) ownTopics) (start, fun _ => []) late).map
      (fun p => (p.1.db.lookup "w", p.2 new, reference.sub.getSubscribers p.1.db.subscriptions "a",
        (reference.sub.held p.1.db.subscriptions "w").map fun g => g "a")) =
        some (some new, [BROKER_WARN_TOPIC, "a"], [], some none) := by decide
  obtain ⟨⟨s, own⟩, hs, hobs⟩ := Option.map_eq_some_iff.mp hrun
  simp only [Prod.mk.injEq] at hobs
  obtain ⟨hl, hown, hsub, hheld⟩ := hobs
  have hr : Run (Tracked (Steps fun _ => none) ownTopics) (start, fun _ => []) late (s, own) :=
    (run_of_execList hs).mono fun p l q hpq => tracked_of_track hpq
  have ha : "a" ∈ own new := by rw [hown]; decide
  refine ⟨s, own, hr, hl, ha, hsub, ?_⟩
  rintro ⟨g, hg, hall⟩
  have hga := hall "a"
  rw [if_pos ha] at hga
  rw [hg, Option.map_some, hga] at hheld
  cases hheld

end Busrt
