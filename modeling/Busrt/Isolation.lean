/-
# Fan-out isolation: when one recipient's queue is another's business

A frame goes out to a set of recipients, one after another. A recipient whose
queue is full may stop the loop (an internal client that makes no room in
time), it may be unregistered, and unregistering a primary client announces
it, which puts further frames into queues or never returns. `Isolated` is the
condition on the state and the set of recipients under which none of this
touches anybody else, and it is exact: under it every recipient with room
gets the frame once, whatever the order and the environment
(`fanOut_isolated`), and without it some order and some environment break it
(`isolated_of_forall`).

Key definitions: `received`, `Announced`, `Isolated`, `Undisturbed`.
Key theorems: `fan_isolation_iff`.
-/
import Busrt.Delivery

namespace Busrt

open Lib

variable {S : Submap}

namespace BrokerDb

/-! ### Subscribers after a drop -/

theorem Keeps.retains {db db' : BrokerDb S} (h : Keeps db db') (t : String) (d : BrokerClient) :
    db'.retains t d = db.retains t d := by
  rw [BrokerDb.retains, BrokerDb.retains, h.hasExclusions, h.exclusions]

/-- Who still subscribes after a drop. -/
theorem mem_subscribers_dropClient {db : BrokerDb S} (h : Inv db) {c : BrokerClient}
    (hr : (db.cell c).registered = true) (t : String) (d : BrokerClient) :
    d ∈ (db.dropClient c).subscribers t ↔ d ∈ db.subscribers t ∧ d.name ∉ db.goes c := by
  obtain ⟨_, hd⟩ := dropClient_dropped h hr
  rw [subscribers, subscribers, List.mem_filter, List.mem_filter, hd.subscribers,
    (Keeps.dropClient db c).retains]
  tauto

/-- Nobody is told to end when a secondary is dropped. -/
theorem dropClient_disconnect_secondary {db : BrokerDb S} {c : BrokerClient}
    (hp : c.primary = false) (d : BrokerClient) :
    ((db.dropClient c).cell d).disconnect = (db.cell d).disconnect := by
  simp only [dropClient, dropClientN, hp, Bool.false_eq_true, if_false]
  split
  · split <;> simp
  · rfl

/-- A subscriber's name is registered. -/
theorem Inv.lookup_isSome_of_mem {db : BrokerDb S} (h : Inv db) {t : String} {d : BrokerClient}
    (hd : d ∈ db.subscribers t) : (db.lookup d.name).isSome = true := by
  rcases hl : db.lookup d.name with _ | e
  · exact absurd rfl (h.name_ne_of_mem hl (List.mem_of_mem_filter hd))
  · rfl

/-! ### One recipient -/

/-- What becomes of a recipient's queue when the sender gets past it. -/
def received (c : BrokerClient) (frame : Frame) (q : Chan Frame) : Chan Frame :=
  if q.isFull then
    if c.kind = .internal then if q.closed then q else q.sendWait frame
    else q.close
  else if q.closed then q else q.push frame

/-- A recipient that is unregistered when a frame reaches it. -/
def forced (db : BrokerDb S) (c : BrokerClient) : Bool := (db.cell c).tx.isFull && c.isExternal

/-- A recipient that is unregistered with an announcement when a frame reaches it. -/
def loses (db : BrokerDb S) (c : BrokerClient) : Bool :=
  db.forced c && (db.cell c).registered && c.primary

theorem forced_iff {db : BrokerDb S} {c : BrokerClient} :
    db.forced c = true ↔ (db.cell c).tx.isFull = true ∧ c.kind ≠ .internal := by
  simp [forced, BrokerClient.isExternal]

theorem loses_iff {db : BrokerDb S} {c : BrokerClient} :
    db.loses c = true ↔ db.forced c = true ∧ (db.cell c).registered = true ∧ c.primary = true := by
  simp [loses, and_assoc]

theorem received_of_room {c : BrokerClient} {f : Frame} {q : Chan Frame} (hf : q.isFull = false)
    (hc : q.closed = false) : received c f q = q.push f := by
  simp [received, hf, hc]

theorem received_of_closed {c : BrokerClient} {f : Frame} {q : Chan Frame} (hf : q.isFull = false)
    (hc : q.closed = true) : received c f q = q := by
  simp [received, hf, hc]

theorem received_of_forced {db : BrokerDb S} {c : BrokerClient} (h : db.forced c = true)
    (f : Frame) :
    received c f (db.cell c).tx = (db.cell c).tx.close := by
  obtain ⟨hf, hk⟩ := forced_iff.mp h
  simp [received, hf, hk]

theorem received_closed {c : BrokerClient} {f : Frame} {q : Chan Frame} (hc : q.closed = true) :
    (received c f q).closed = true := by
  unfold received
  split
  · split <;> simp [hc]
  · simp [hc]

/-- A frame is put at most once, behind what is there. -/
theorem put_received (c : BrokerClient) (f : Frame) (q : Chan Frame) :
    ∃ added, (received c f q).put = q.put ++ added ∧ (added = [] ∨ added = [f]) := by
  unfold received
  split
  · split
    · split
      · exact ⟨[], by simp, .inl rfl⟩
      · exact ⟨[f], Chan.put_sendWait q f, .inr rfl⟩
    · exact ⟨[], by simp, .inl rfl⟩
  · rename_i hf
    split
    · exact ⟨[], by simp, .inl rfl⟩
    · exact ⟨[f], Chan.put_push (by simpa using hf) f, .inr rfl⟩

theorem setTx_self {db : BrokerDb S} {c : BrokerClient} {f : Chan Frame → Chan Frame}
    (h : f (db.cell c).tx = (db.cell c).tx) : db.setTx c f = db := by
  rw [setTx, setCell]
  have : ({ db.cell c with tx := f (db.cell c).tx } : ClientCell S) = db.cell c := by rw [h]
  rw [this, Function.update_eq_self]

/-- Everything `safe_send_frame!` can do: get past the recipient, stop at a full
internal queue, or unregister the client. -/
theorem safeSendFrame_cases (ann : BrokerDb S → BrokerEvent → BrokerDb S × Except Stop Unit)
    (env : Env S) (timeout : Bool) (db : BrokerDb S) (c : BrokerClient) (f : Frame) :
    (db.forced c = false ∧ ((db.cell c).tx.isFull = true → (db.cell c).tx.closed = true ∨
      env.drains db c = true) ∧
      ∃ r, safeSendFrame ann env timeout db c f = (db.setTx c (received c f), .ok r)) ∨
    ((db.cell c).tx.isFull = true ∧ c.kind = .internal ∧ (db.cell c).tx.closed = false ∧
      env.drains db c = false ∧
      safeSendFrame ann env timeout db c f =
        (db, .error (if timeout then .exit .timeout else .hang))) ∨
    (db.forced c = true ∧
      ((∃ db', unregisterClient ann db c = (db', .ok ()) ∧
        safeSendFrame ann env timeout db c f = (db'.closeTx c, .ok (.error .notDelivered))) ∨
      ∃ db' stop, unregisterClient ann db c = (db', .error stop) ∧
        safeSendFrame ann env timeout db c f = (db', .error stop))) := by
  rcases hf : (db.cell c).tx.isFull with _ | _
  · -- room, or closed
    refine .inl ⟨by simp [forced, hf], by simp, ?_⟩
    rcases hc : (db.cell c).tx.closed with _ | _
    · refine ⟨.ok (), ?_⟩
      have : db.setTx c (received c f) = db.setTx c (·.push f) := by
        rw [setTx, setTx, setCell, setCell, received_of_room hf hc]
      simp [safeSendFrame, hf, hc, this]
    · exact ⟨.error .eof, by simp [safeSendFrame, hf, hc, setTx_self (received_of_closed hf hc)]⟩
  · by_cases hk : c.kind = .internal
    · rcases hc : (db.cell c).tx.closed with _ | _
      · rcases hd : env.drains db c with _ | _
        · exact .inr (.inl ⟨rfl, hk, rfl, rfl, by simp [safeSendFrame, hf, hc, hd, hk]⟩)
        · refine .inl ⟨by simp [forced, BrokerClient.isExternal, hk], fun _ => .inr rfl, .ok (), ?_⟩
          have : db.setTx c (received c f) = db.setTx c (·.sendWait f) := by
            rw [setTx, setTx, setCell, setCell]; simp [received, hf, hc, hk]
          simp [safeSendFrame, hf, hc, hd, hk, this]
      · refine .inl
          ⟨by simp [forced, BrokerClient.isExternal, hk], fun _ => .inl rfl, .error .eof, ?_⟩
        have : received c f (db.cell c).tx = (db.cell c).tx := by simp [received, hf, hc, hk]
        simp [safeSendFrame, hf, hc, hk, setTx_self this]
    · refine .inr (.inr ⟨forced_iff.mpr ⟨hf, hk⟩, ?_⟩)
      rcases hu : unregisterClient ann db c with ⟨db', stop | _⟩
      · exact .inr ⟨db', stop, rfl, by simp [safeSendFrame, hf, hk, hu]⟩
      · exact .inl ⟨db', rfl, by simp [safeSendFrame, hf, hk, hu]⟩

theorem fanOut_append (ann : BrokerDb S → BrokerEvent → BrokerDb S × Except Stop Unit) (env : Env S)
    (timeout : Bool) (f : Frame) : ∀ (l l' : List BrokerClient) (db : BrokerDb S),
    fanOut ann env timeout f db (l ++ l') = match fanOut ann env timeout f db l with
      | (db, .ok ()) => fanOut ann env timeout f db l'
      | (db, .error stop) => (db, .error stop)
  | [], _, _ => rfl
  | c :: l, l', db => by
    simp only [List.cons_append, fanOut]
    rcases safeSendFrame ann env timeout db c f with ⟨db', _ | r⟩
    · rfl
    · exact fanOut_append ann env timeout f l l' db'

/-- The fan-out's first step, and the rest. -/
theorem fanOut_cons_ok {ann : BrokerDb S → BrokerEvent → BrokerDb S × Except Stop Unit}
    {env : Env S} {timeout : Bool} {f : Frame} {v : BrokerClient} {sel : List BrokerClient}
    {db db' : BrokerDb S} (he : fanOut ann env timeout f db (v :: sel) = (db', .ok ())) :
    ∃ db₁ r, safeSendFrame ann env timeout db v f = (db₁, .ok r) ∧
      fanOut ann env timeout f db₁ sel = (db', .ok ()) := by
  rw [fanOut] at he
  rcases hs : safeSendFrame ann env timeout db v f with ⟨db₁, stop | r⟩
  · rw [hs] at he; simp at he
  · rw [hs] at he; exact ⟨db₁, r, rfl, he⟩

/-! ### Inside an announcement -/

/-- Unregistering a client is announced: the feature is there, and a core client. -/
def announces (db : BrokerDb S) : Bool := db.brokerRpc && db.core.isSome

/-- What an announcement has done when it gets to its end; `subs` are the clients
it reached. -/
structure Announced (f : Frame) (subs : List BrokerClient) (db db' : BrokerDb S) : Prop where
  inv : Inv db'
  announces : db'.announces = db.announces
  retains : ∀ t d, db'.retains t d = db.retains t d
  disconnect : ∀ d, (db'.cell d).disconnect = (db.cell d).disconnect
  tx : ∀ d, (db'.cell d).tx = if d ∈ subs then received d f (db.cell d).tx else (db.cell d).tx
  registered : ∀ d, (db'.cell d).registered = true ↔
    (db.cell d).registered = true ∧ ¬ (d ∈ subs ∧ db.forced d = true)
  subscribers : ∀ t d, d ∈ db'.subscribers t ↔ d ∈ db.subscribers t ∧
    ∀ s ∈ subs, db.forced s = true → (db.cell s).registered = true → d.name ≠ s.name
  passes : ∀ s ∈ subs, db.loses s = false

theorem setTx_retains (db : BrokerDb S) (c : BrokerClient) (f) (t : String) (d : BrokerClient) :
    (db.setTx c f).retains t d = db.retains t d := by
  have : ((db.setTx c f).cell d).hasExclusions = (db.cell d).hasExclusions ∧
      ((db.setTx c f).cell d).exclusions = (db.cell d).exclusions := by
    rw [setTx, setCell_cell]; split <;> simp_all
  rw [BrokerDb.retains, BrokerDb.retains, this.1, this.2]

theorem setTx_subscribers (db : BrokerDb S) (c : BrokerClient) (f) (t : String) :
    (db.setTx c f).subscribers t = db.subscribers t := by
  rw [BrokerDb.subscribers, BrokerDb.subscribers, setTx_subscriptions]
  exact List.filter_congr fun d _ => setTx_retains db c f t d

theorem announced_nil {f : Frame} {db : BrokerDb S} (h : Inv db) : Announced f [] db db :=
  ⟨h, rfl, fun _ _ => rfl, fun _ => rfl, by simp, by simp, by simp, by simp⟩

theorem announced_setTx {f : Frame} {db : BrokerDb S} {c : BrokerClient} (h : Inv db)
    (hf : db.forced c = false) : Announced f [c] db (db.setTx c (received c f)) where
  inv := h.setTx c _
  announces := rfl
  retains := setTx_retains db c _
  disconnect d := setTx_disconnect ..
  tx d := by
    simp only [setTx_tx, List.mem_singleton]
    by_cases hd : d = c
    · rw [if_pos hd, if_pos hd, hd]
    · rw [if_neg hd, if_neg hd]
  registered d := by
    rw [setTx_registered]
    refine ⟨fun hr => ⟨hr, ?_⟩, fun hr => hr.1⟩
    rintro ⟨hd, hd'⟩
    rw [List.mem_singleton.mp hd, hf] at hd'
    cases hd'
  subscribers t d := by
    rw [setTx_subscribers]
    simp [hf]
  passes s hs := by rw [List.mem_singleton.mp hs, loses, hf]; rfl

/-- A client is unregistered without one more announcement. -/
theorem announced_drop {f : Frame} {db : BrokerDb S} {c : BrokerClient} (h : Inv db)
    (hf : db.forced c = true) (hl : db.loses c = false) :
    Announced f [c] db ((db.dropClient c).closeTx c) := by
  have hk := Keeps.dropClient db c
  have htx : ∀ d, (((db.dropClient c).closeTx c).cell d).tx =
      if d ∈ [c] then received d f (db.cell d).tx else (db.cell d).tx := by
    intro d
    simp only [closeTx, setTx_tx, List.mem_singleton, hk.tx]
    by_cases hd : d = c
    · rw [if_pos hd, if_pos hd, hd, received_of_forced hf]
    · rw [if_neg hd, if_neg hd]
  have hret : ∀ t d, ((db.dropClient c).closeTx c).retains t d = db.retains t d := fun t d =>
    (setTx_retains ..).trans (hk.retains t d)
  have hann : ((db.dropClient c).closeTx c).announces = db.announces := by
    change ((db.dropClient c).brokerRpc && _) = _
    rw [hk.brokerRpc, announces]
    exact congrArg _ (congrArg _ hk.core)
  have hpass : ∀ s ∈ [c], db.loses s = false :=
    fun s hs => by rw [List.mem_singleton.mp hs]; exact hl
  rcases hr : (db.cell c).registered with _ | _
  · rw [dropClient_unregistered hr] at htx hret hann ⊢
    refine ⟨h.setTx c _, hann, hret, fun d => setTx_disconnect .., htx, fun d => ?_,
      fun t d => ?_, hpass⟩
    · rw [closeTx, setTx_registered]
      refine ⟨fun hd => ⟨hd, ?_⟩, fun hd => hd.1⟩
      rintro ⟨hdc, -⟩
      rw [List.mem_singleton.mp hdc, hr] at hd
      cases hd
    · rw [closeTx, setTx_subscribers]
      simp [hr]
  · have hp : c.primary = false := by
      rw [loses, hf, hr] at hl
      simpa using hl
    have hgo : db.goes c = [c.name] := goes_secondary hp
    refine ⟨(h.dropClient c).setTx c _, hann, hret, fun d => ?_, htx, fun d => ?_,
      fun t d => ?_, hpass⟩
    · rw [closeTx, setTx_disconnect]
      exact dropClient_disconnect_secondary hp d
    · rw [closeTx, setTx_registered, registered_dropClient h hr, hgo]
      refine and_congr_right fun hdr => ?_
      rw [List.mem_singleton, List.mem_singleton, not_iff_not]
      refine ⟨fun hn => ?_, fun hdc => by rw [hdc.1]⟩
      obtain rfl := h.eq_of_registered hdr hr hn
      exact ⟨rfl, hf⟩
    · rw [closeTx, setTx_subscribers, mem_subscribers_dropClient h hr, hgo]
      simp [hf, hr]

/-- A recipient that an announcement does not get past, unless somebody makes
room: a full internal queue, or a primary client to unregister. -/
def stuck (db : BrokerDb S) (c : BrokerClient) : Bool :=
  db.loses c || ((db.cell c).tx.isFull && decide (c.kind = .internal) && !(db.cell c).tx.closed)

theorem stuck_eq_false {db : BrokerDb S} {c : BrokerClient} : db.stuck c = false ↔
    db.loses c = false ∧
      ((db.cell c).tx.isFull = true → c.kind = .internal → (db.cell c).tx.closed = true) := by
  unfold stuck
  cases db.loses c <;> cases (db.cell c).tx.isFull <;> cases (db.cell c).tx.closed <;> simp

theorem unregister_held {db : BrokerDb S} (ha : db.announces = true) (c : BrokerClient) :
    unregisterClient announceHeld db c =
      (db.dropClient c, if c.primary && (db.cell c).registered then .error .hang else .ok ()) := by
  have hk := Keeps.dropClient db c
  rw [announces, Bool.and_eq_true] at ha
  obtain ⟨k, hc⟩ := Option.isSome_iff_exists.mp ha.2
  have hann : ∀ e, announceHeld (db.dropClient c) e = (db.dropClient c, .error .hang) := fun e => by
    rw [announceHeld, hk.core, hc]
  simp only [unregisterClient, hk.brokerRpc, ha.1, hann, Bool.true_and]
  split <;> rfl

section Held

variable {env : Env S} {timeout : Bool} {f : Frame}

/-- One recipient of an announcement, if it gets past it. -/
theorem held_step {db db' : BrokerDb S} {c : BrokerClient} {r : Except ErrorKind Unit} (h : Inv db)
    (ha : db.announces = true) (hs : safeSendFrame announceHeld env timeout db c f = (db', .ok r)) :
    Announced f [c] db db' := by
  rcases safeSendFrame_cases announceHeld env timeout db c f with
    ⟨hf, -, r', he⟩ | ⟨-, -, -, -, he⟩ | ⟨hf, ⟨db₁, hu, he⟩ | ⟨db₁, stop, -, he⟩⟩
  · rw [he] at hs
    obtain ⟨rfl, -⟩ := Prod.mk.inj hs
    exact announced_setTx h hf
  · rw [he] at hs; simp at hs
  · rw [he] at hs
    obtain ⟨rfl, -⟩ := Prod.mk.inj hs
    rw [unregister_held ha] at hu
    obtain ⟨rfl, hr⟩ := Prod.mk.inj hu
    refine announced_drop h hf ?_
    split at hr
    · cases hr
    · rename_i hn
      rw [Bool.and_eq_true, not_and] at hn
      rw [loses, hf, Bool.true_and, Bool.and_eq_false_iff]
      by_cases hp : c.primary = true
      · exact .inl (by simpa using hn hp)
      · exact .inr (by simpa using hp)
  · rw [he] at hs; simp at hs

/-- An announcement gets past whoever is not stuck. -/
theorem held_step_ok {db : BrokerDb S} {c : BrokerClient} (ha : db.announces = true)
    (hs : db.stuck c = false) :
    ∃ db' r, safeSendFrame announceHeld env timeout db c f = (db', .ok r) := by
  obtain ⟨hl, hfull⟩ := stuck_eq_false.mp hs
  rcases safeSendFrame_cases announceHeld env timeout db c f with
    ⟨-, -, r', he⟩ | ⟨hf, hk, hc, -, -⟩ | ⟨hf, ⟨db₁, -, he⟩ | ⟨db₁, stop, hu, -⟩⟩
  · exact ⟨_, _, he⟩
  · rw [hfull hf hk] at hc; cases hc
  · exact ⟨_, _, he⟩
  · -- the announcement inside is for a registered primary, which is stuck
    rw [unregister_held ha] at hu
    have hn : (c.primary && (db.cell c).registered) = false := by
      rw [loses, hf, Bool.true_and] at hl
      rw [Bool.and_comm]
      exact hl
    simp [hn] at hu

/-- It stops at whoever is stuck, when nobody makes room. -/
theorem held_step_stuck {db db' : BrokerDb S} {c : BrokerClient} {r : Except ErrorKind Unit}
    (ha : db.announces = true) (hd : ∀ db c, env.drains db c = false)
    (he : safeSendFrame announceHeld env timeout db c f = (db', .ok r)) : db.stuck c = false := by
  rcases safeSendFrame_cases announceHeld env timeout db c f with
    ⟨hf, hcl, -⟩ | ⟨-, -, -, -, he'⟩ | ⟨hf, ⟨db₁, hu, -⟩ | ⟨db₁, stop, -, he'⟩⟩
  · refine stuck_eq_false.mpr ⟨by rw [loses, hf]; rfl, fun hfull _ => ?_⟩
    exact (hcl hfull).resolve_right (by simp [hd])
  · rw [he'] at he; simp at he
  · rw [unregister_held ha] at hu
    obtain ⟨-, hr⟩ := Prod.mk.inj hu
    refine stuck_eq_false.mpr ⟨?_, fun _ hk => absurd hk (forced_iff.mp hf).2⟩
    split at hr
    · cases hr
    · rename_i hn
      rw [loses, hf, Bool.true_and, Bool.and_comm]
      simpa using hn
  · rw [he'] at he; simp at he

theorem Announced.forced_eq {subs : List BrokerClient} {db db' : BrokerDb S}
    (h : Announced f subs db db') {c : BrokerClient} (hc : c ∉ subs) :
    db'.forced c = db.forced c := by
  rw [forced, forced, h.tx, if_neg hc]

theorem Announced.registered_eq {subs : List BrokerClient} {db db' : BrokerDb S}
    (h : Announced f subs db db') {c : BrokerClient} (hc : c ∉ subs) :
    (db'.cell c).registered = (db.cell c).registered := by
  have := h.registered c
  simp only [hc, false_and, not_false_eq_true, and_true] at this
  exact Bool.eq_iff_iff.mpr this

theorem Announced.loses_eq {subs : List BrokerClient} {db db' : BrokerDb S}
    (h : Announced f subs db db') {c : BrokerClient} (hc : c ∉ subs) :
    db'.loses c = db.loses c := by
  rw [loses, loses, h.forced_eq hc, h.registered_eq hc]

theorem Announced.stuck_eq {subs : List BrokerClient} {db db' : BrokerDb S}
    (h : Announced f subs db db') {c : BrokerClient} (hc : c ∉ subs) :
    db'.stuck c = db.stuck c := by
  rw [stuck, stuck, h.loses_eq hc, h.tx, if_neg hc]

theorem Announced.cons {subs : List BrokerClient} {c : BrokerClient} {db db₁ db₂ : BrokerDb S}
    (h₁ : Announced f [c] db db₁) (h₂ : Announced f subs db₁ db₂) (hc : c ∉ subs) :
    Announced f (c :: subs) db db₂ where
  inv := h₂.inv
  announces := h₂.announces.trans h₁.announces
  retains t d := (h₂.retains t d).trans (h₁.retains t d)
  disconnect d := (h₂.disconnect d).trans (h₁.disconnect d)
  tx d := by
    rw [h₂.tx, h₁.tx]
    by_cases hd : d = c
    · subst hd; simp [hc]
    · simp [hd]
  registered d := by
    rw [h₂.registered, h₁.registered]
    by_cases hd : d = c
    · subst hd; simp [hc]
    · rw [h₁.forced_eq (by simpa using hd)]
      simp [hd]
  subscribers t d := by
    rw [h₂.subscribers, h₁.subscribers, and_assoc]
    refine and_congr_right fun _ => ?_
    have hsub : ∀ s ∈ subs, s ∉ [c] := fun s hs he => hc (List.mem_singleton.mp he ▸ hs)
    constructor
    · rintro ⟨hl, hr⟩ s hs hf hreg
      rcases List.mem_cons.mp hs with rfl | hs
      · exact hl s (List.mem_singleton_self s) hf hreg
      · exact hr s hs (by rw [h₁.forced_eq (hsub s hs)]; exact hf)
          (by rw [h₁.registered_eq (hsub s hs)]; exact hreg)
    · intro hall
      refine ⟨fun s hs hf hreg => hall s ?_ hf hreg,
        fun s hs hf hreg => hall s (List.mem_cons_of_mem _ hs) ?_ ?_⟩
      · rw [List.mem_singleton.mp hs]; exact List.mem_cons_self
      · rw [← h₁.forced_eq (hsub s hs)]; exact hf
      · rw [← h₁.registered_eq (hsub s hs)]; exact hreg
  passes s hs := by
    rcases List.mem_cons.mp hs with rfl | hs'
    · exact h₁.passes s (List.mem_singleton_self s)
    · rw [← h₁.loses_eq (c := s) fun he => hc (List.mem_singleton.mp he ▸ hs')]
      exact h₂.passes s hs'

/-- A whole announcement, if it gets to its end. -/
theorem held_announced :
    ∀ {subs : List BrokerClient} {db db' : BrokerDb S}, Inv db → db.announces = true →
    subs.Nodup → fanOut announceHeld env timeout f db subs = (db', .ok ()) → Announced f subs db db'
  | [], db, db', h, _, _, he => by
    obtain ⟨rfl, -⟩ := Prod.mk.inj he
    exact announced_nil h
  | c :: subs, db, db', h, ha, hn, he => by
    rw [List.nodup_cons] at hn
    obtain ⟨db₁, r, hs, he⟩ := fanOut_cons_ok he
    have h₁ := held_step h ha hs
    exact h₁.cons (held_announced h₁.inv (h₁.announces.trans ha) hn.2 he) hn.1

/-- An announcement that reaches nobody stuck gets to its end. -/
theorem held_ok : ∀ {subs : List BrokerClient} {db : BrokerDb S}, Inv db → db.announces = true →
    subs.Nodup → (∀ s ∈ subs, db.stuck s = false) →
    ∃ db', fanOut announceHeld env timeout f db subs = (db', .ok ())
  | [], db, _, _, _, _ => ⟨db, rfl⟩
  | c :: subs, db, h, ha, hn, hs => by
    rw [List.nodup_cons] at hn
    obtain ⟨db₁, r, hc⟩ : ∃ db₁ r, safeSendFrame announceHeld env timeout db c f = (db₁, .ok r) :=
      held_step_ok ha (hs c List.mem_cons_self)
    have h₁ := held_step h ha hc
    obtain ⟨db', he⟩ := held_ok h₁.inv (h₁.announces.trans ha) hn.2 fun s hsub => by
      rw [h₁.stuck_eq fun he => hn.1 (List.mem_singleton.mp he ▸ hsub)]
      exact hs s (List.mem_cons_of_mem _ hsub)
    exact ⟨db', by rw [fanOut, hc]; exact he⟩

/-- An announcement that gets to its end though nobody makes room has reached
nobody stuck. -/
theorem held_not_stuck (hd : ∀ db c, env.drains db c = false) :
    ∀ {subs : List BrokerClient} {db db' : BrokerDb S}, Inv db → db.announces = true → subs.Nodup →
    fanOut announceHeld env timeout f db subs = (db', .ok ()) → ∀ s ∈ subs, db.stuck s = false
  | [], _, _, _, _, _, _ => by simp
  | c :: subs, db, db', h, ha, hn, he => by
    rw [List.nodup_cons] at hn
    obtain ⟨db₁, r, hs, he⟩ := fanOut_cons_ok he
    have h₁ := held_step h ha hs
    intro s hsub
    rcases List.mem_cons.mp hsub with rfl | hsub
    · exact held_step_stuck ha hd hs
    · rw [← h₁.stuck_eq fun he => hn.1 (List.mem_singleton.mp he ▸ hsub)]
      exact held_not_stuck hd h₁.inv (h₁.announces.trans ha) hn.2 he s hsub

end Held

/-! ### Outside an announcement -/

theorem nodup_names_subscribers (db : BrokerDb S) (t : String) :
    ((db.subscribers t).map (·.name)).Nodup := by
  refine List.Nodup.of_map S.sha256 ?_
  rw [List.map_map]
  exact (S.sub.nodup_getSubscribers db.subscriptions t).sublist (List.filter_sublist.map _)

theorem nodup_subscribers (db : BrokerDb S) (t : String) : (db.subscribers t).Nodup :=
  (nodup_names_subscribers db t).of_map _

section Outside

variable {env : Env S} {timeout : Bool} {f : Frame} {db db' : BrokerDb S} {c : BrokerClient}

theorem announces_dropClient (db : BrokerDb S) (c : BrokerClient) :
    (db.dropClient c).announces = db.announces := by
  have hk := Keeps.dropClient db c
  rw [announces, announces, hk.brokerRpc, hk.core]

/-- A client that is unregistered quietly. -/
theorem unregister_quiet
    (hq : db.announces = false ∨ (c.primary && (db.cell c).registered) = false) :
    unregisterClient (announce env) db c = (db.dropClient c, .ok ()) := by
  have hk := Keeps.dropClient db c
  unfold unregisterClient
  simp only [hk.brokerRpc, Bool.and_assoc]
  split
  · rename_i hc
    rw [Bool.and_eq_true] at hc
    have hn : (db.dropClient c).core = none := by
      rcases hq with hq | hq
      · rw [announces, hc.1, Bool.true_and] at hq
        rw [hk.core]
        simpa using hq
      · rw [hc.2] at hq; cases hq
    rw [announce, hn]
  · rfl

/-- A client that is unregistered with an announcement. -/
theorem unregister_announced (env : Env S) (ha : db.announces = true)
    (hr : (db.cell c).registered = true) (hp : c.primary = true) : ∃ g subs, g.origin = .broker ∧
      subs.Perm ((db.dropClient c).subscribers BROKER_INFO_TOPIC) ∧
      unregisterClient (announce env) db c =
        fanOut announceHeld env false g (db.dropClient c) subs := by
  have hk := Keeps.dropClient db c
  rw [announces, Bool.and_eq_true] at ha
  obtain ⟨k, hcore⟩ := Option.isSome_iff_exists.mp ha.2
  let data : FrameData := ⟨.publish, some k.name, some BROKER_INFO_TOPIC, none,
    env.payload (db.dropClient c) (BrokerEvent.unreg c.name), 0, false⟩
  refine ⟨⟨.broker, data⟩, _, rfl, env.iter_perm (db.dropClient c) _, ?_⟩
  unfold unregisterClient
  simp only [hk.brokerRpc, ha.1, hr, hp, Bool.and_self, if_true]
  rw [announce, hk.core, hcore]
  rfl

/-- Everything one recipient can do to a sender that gets past it. -/
theorem step_cases {r : Except ErrorKind Unit} (h : Inv db)
    (hs : safeSendFrame (announce env) env timeout db c f = (db', .ok r)) :
    (db.forced c = false ∧ ((db.cell c).tx.isFull = true → (db.cell c).tx.closed = true ∨
      env.drains db c = true) ∧
      db' = db.setTx c (received c f)) ∨
    (db.forced c = true ∧ (db.announces = false ∨ db.loses c = false) ∧
      db' = (db.dropClient c).closeTx c) ∨
    (db.announces = true ∧ db.loses c = true ∧ ∃ g subs db₂, g.origin = .broker ∧
      subs.Perm ((db.dropClient c).subscribers BROKER_INFO_TOPIC) ∧
      Announced g subs (db.dropClient c) db₂ ∧
      ((∀ db c, env.drains db c = false) → ∀ s ∈ subs, (db.dropClient c).stuck s = false) ∧
      db' = db₂.closeTx c) := by
  rcases safeSendFrame_cases (announce env) env timeout db c f with
    ⟨hf, hcl, r', he⟩ | ⟨-, -, -, -, he⟩ | ⟨hf, ⟨db₁, hu, he⟩ | ⟨db₁, stop, -, he⟩⟩
  · rw [he] at hs
    exact .inl ⟨hf, hcl, (Prod.mk.inj hs).1.symm⟩
  · rw [he] at hs; simp at hs
  · rw [he] at hs
    obtain ⟨rfl, -⟩ := Prod.mk.inj hs
    have hloses : db.loses c = ((db.cell c).registered && c.primary) := by
      rw [loses, hf, Bool.true_and]
    rcases ha : db.announces with _ | _
    · rw [unregister_quiet (.inl ha)] at hu
      obtain ⟨rfl, -⟩ := Prod.mk.inj hu
      exact .inr (.inl ⟨hf, .inl rfl, rfl⟩)
    · rcases hl : db.loses c with _ | _
      · rw [unregister_quiet (.inr (by rw [Bool.and_comm, ← hloses, hl]))] at hu
        obtain ⟨rfl, -⟩ := Prod.mk.inj hu
        exact .inr (.inl ⟨hf, .inr rfl, rfl⟩)
      · obtain ⟨-, hr, hp⟩ := loses_iff.mp hl
        obtain ⟨g, subs, hg, hsub, hu'⟩ := unregister_announced env ha hr hp
        rw [hu'] at hu
        have hn := hsub.nodup_iff.mpr (nodup_subscribers _ _)
        have ha' := (announces_dropClient db c).trans ha
        exact .inr (.inr ⟨rfl, rfl, g, subs, db₁, hg, hsub,
          held_announced (h.dropClient c) ha' hn hu,
          fun hd => held_not_stuck hd (h.dropClient c) ha' hn hu, rfl⟩)
  · rw [he] at hs; simp at hs

/-- A sender gets past a recipient that is no full internal client and whose
unregistration, if it is announced, reaches nobody stuck. -/
theorem step_ok (h : Inv db)
    (hi : c.kind = .internal → (db.cell c).tx.closed = false → (db.cell c).tx.isFull = false)
    (hn : db.announces = true → db.loses c = true →
      ∀ s ∈ (db.dropClient c).subscribers BROKER_INFO_TOPIC, (db.dropClient c).stuck s = false) :
    ∃ db' r, safeSendFrame (announce env) env timeout db c f = (db', .ok r) := by
  rcases safeSendFrame_cases (announce env) env timeout db c f with
    ⟨-, -, r', he⟩ | ⟨hf, hk, hc, -, -⟩ | ⟨hf, ⟨db₁, -, he⟩ | ⟨db₁, stop, hu, -⟩⟩
  · exact ⟨_, _, he⟩
  · rw [hi hk hc] at hf; cases hf
  · exact ⟨_, _, he⟩
  · exfalso
    have hloses : db.loses c = ((db.cell c).registered && c.primary) := by
      rw [loses, hf, Bool.true_and]
    rcases ha : db.announces with _ | _
    · rw [unregister_quiet (.inl ha)] at hu; simp at hu
    · rcases hl : db.loses c with _ | _
      · rw [unregister_quiet (.inr (by rw [Bool.and_comm, ← hloses, hl]))] at hu; simp at hu
      · obtain ⟨-, hr, hp⟩ := loses_iff.mp hl
        obtain ⟨g, subs, hg, hsub, hu'⟩ := unregister_announced env ha hr hp
        obtain ⟨db₂, hok⟩ : ∃ db₂, fanOut announceHeld env false g (db.dropClient c) subs =
            (db₂, .ok ()) :=
          held_ok (h.dropClient c) ((announces_dropClient db c).trans ha)
            (hsub.nodup_iff.mpr (nodup_subscribers _ _)) fun s hs => hn ha hl s (hsub.mem_iff.mp hs)
        rw [hu', hok] at hu
        simp at hu

end Outside

/-! ### The condition -/

/-- The queue is open and has room. -/
def takes (db : BrokerDb S) (c : BrokerClient) : Bool :=
  !(db.cell c).tx.isFull && !(db.cell c).tx.closed

/-- The client's connection goes on: it is registered, its queue is open, and
nobody told it to end. -/
def up (db : BrokerDb S) (c : BrokerClient) : Bool :=
  (db.cell c).registered && !(db.cell c).tx.closed && !(db.cell c).disconnect

/-- The announcements that reach the client `b` when the recipients `sel` are
served: those of other primary names than its own. -/
def announcements (db : BrokerDb S) (sel : List BrokerClient) (b : BrokerClient) : ℕ :=
  (sel.filter fun v => db.loses v && v.name != b.primaryName).length

/-- A subscriber of announcements that no announcement may find full: an open
internal queue, a primary client, or the sender itself. -/
def mustTake (db : BrokerDb S) (client b : BrokerClient) : Prop :=
  (b.kind = .internal ∧ (db.cell b).tx.closed = false) ∨
  (b.kind ≠ .internal ∧ (db.cell b).registered = true ∧ b.primary = true ∧
    ((db.cell b).tx.closed = false ∨ (db.cell b).tx.isFull = true)) ∨
  (b = client ∧ db.up client = true)

/-- The state and the set of recipients under which nobody's full queue is
another's business. -/
structure Isolated (db : BrokerDb S) (client : BrokerClient) (sel : List BrokerClient) : Prop where
  /-- No internal recipient has a full queue. -/
  internal : ∀ b ∈ sel, b.kind = .internal → (db.cell b).tx.closed = false →
    (db.cell b).tx.isFull = false
  /-- The sender, and its primary, are not among those to be unregistered. -/
  sender : db.up client = true → ∀ v ∈ sel, db.forced v = true →
    v ≠ client ∧ (db.loses v = true → v.name ≠ client.primaryName)
  /-- A recipient's room is for its announcements and the frame. -/
  room : db.announces = true → ∀ b ∈ db.subscribers BROKER_INFO_TOPIC, b ∈ sel → db.takes b = true →
    db.announcements sel b + 1 ≤ (db.cell b).tx.free
  /-- Announcements fit into the queues that must take them. -/
  fits : db.announces = true → ∀ b ∈ db.subscribers BROKER_INFO_TOPIC, db.mustTake client b →
    db.announcements sel b ≤ (db.cell b).tx.free

theorem takes_iff {db : BrokerDb S} {c : BrokerClient} :
    db.takes c = true ↔ (db.cell c).tx.isFull = false ∧ (db.cell c).tx.closed = false := by
  simp [takes]

theorem up_iff {db : BrokerDb S} {c : BrokerClient} : db.up c = true ↔
    (db.cell c).registered = true ∧ (db.cell c).tx.closed = false ∧
      (db.cell c).disconnect = false := by
  simp [up, and_assoc]

theorem Isolated.perm {db : BrokerDb S} {client : BrokerClient} {sel sel' : List BrokerClient}
    (h : Isolated db client sel) (hp : sel'.Perm sel) : Isolated db client sel' := by
  have ha : ∀ b, db.announcements sel' b = db.announcements sel b :=
    fun b => (hp.filter _).length_eq
  exact ⟨fun b hb => h.internal b (hp.mem_iff.mp hb),
    fun hu v hv => h.sender hu v (hp.mem_iff.mp hv),
    fun hann b hb hs => ha b ▸ h.room hann b hb (hp.mem_iff.mp hs),
      fun hann b hb => ha b ▸ h.fits hann b hb⟩

theorem announcements_cons (db : BrokerDb S) (v : BrokerClient) (sel : List BrokerClient)
    (b : BrokerClient) :
    db.announcements (v :: sel) b =
      (if db.loses v && v.name != b.primaryName then 1 else 0) + db.announcements sel b := by
  unfold announcements
  rw [List.filter_cons]
  split
  · rw [List.length_cons, Nat.add_comm]
  · rw [Nat.zero_add]

theorem announcements_le_cons (db : BrokerDb S) (v : BrokerClient) (sel : List BrokerClient)
    (b : BrokerClient) :
    db.announcements sel b ≤ db.announcements (v :: sel) b := by
  rw [announcements_cons]; exact Nat.le_add_left _ _

theorem announcements_mono {db db' : BrokerDb S} {sel : List BrokerClient}
    (h : ∀ v ∈ sel, db'.loses v = true → db.loses v = true) (b : BrokerClient) :
    db'.announcements sel b ≤ db.announcements sel b := by
  unfold announcements
  refine (List.Sublist.length_le ?_)
  induction sel with
  | nil => exact List.Sublist.refl _
  | cons v sel ih =>
    have ih := ih fun w hw => h w (List.mem_cons_of_mem _ hw)
    rw [List.filter_cons, List.filter_cons]
    split
    · rename_i hv
      rw [Bool.and_eq_true] at hv
      rw [if_pos (by rw [h v List.mem_cons_self hv.1, hv.2]; rfl)]
      exact ih.cons_cons v
    · split
      · exact ih.cons v
      · exact ih

theorem Isolated.tail {db : BrokerDb S} {client v : BrokerClient} {sel : List BrokerClient}
    (h : Isolated db client (v :: sel)) : Isolated db client sel where
  internal b hb := h.internal b (List.mem_cons_of_mem _ hb)
  sender hu w hw := h.sender hu w (List.mem_cons_of_mem _ hw)
  room ha b hb hs ht := by
    have := h.room ha b hb (List.mem_cons_of_mem _ hs) ht
    have := announcements_le_cons db v sel b
    omega
  fits ha b hb hm := (announcements_le_cons db v sel b).trans (h.fits ha b hb hm)

/-! ### Under the condition nobody is disturbed -/

/-- What serving the recipient `v` leaves for the others. -/
structure Served (client : BrokerClient) (f : Frame) (v : BrokerClient) (sel : List BrokerClient)
    (db db' : BrokerDb S) : Prop where
  inv : Inv db'
  isolated : Isolated db' client sel
  up : db.up client = true → db'.up client = true
  takes : ∀ b ∈ sel, db'.takes b = db.takes b
  put : ∀ b, ∃ added, (db'.cell b).tx.put = (db.cell b).tx.put ++ added ∧
    added.count f = if b = v ∧ db.takes v = true then 1 else 0

section Served

variable {client v : BrokerClient} {f : Frame} {sel : List BrokerClient} {db db' : BrokerDb S}

/-- A recipient with room gets the frame. -/
theorem served_push (h : Inv db) (hv : v ∉ sel) (hI : Isolated db client (v :: sel))
    (ht : db.takes v = true) :
    Served client f v sel db (db.setTx v (·.push f)) := by
  obtain ⟨hfull, hopen⟩ := takes_iff.mp ht
  have htx : ∀ b, b ≠ v → ((db.setTx v (·.push f)).cell b).tx = (db.cell b).tx := fun b hb => by
    rw [setTx_tx, if_neg hb]
  have htxv : ((db.setTx v (·.push f)).cell v).tx = (db.cell v).tx.push f := by
    rw [setTx_tx, if_pos rfl]
  have hne : ∀ b ∈ sel, b ≠ v := fun b hb he => hv (he ▸ hb)
  have hforced : ∀ b ∈ sel, (db.setTx v (·.push f)).forced b = db.forced b := fun b hb => by
    rw [forced, forced, htx b (hne b hb)]
  have hloses : ∀ b ∈ sel, (db.setTx v (·.push f)).loses b = db.loses b := fun b hb => by
    rw [loses, loses, hforced b hb, setTx_registered]
  have hann : ∀ b, (db.setTx v (·.push f)).announcements sel b ≤ db.announcements sel b :=
    announcements_mono fun b hb hl => by rw [← hloses b hb]; exact hl
  have hclosed : ∀ b, ((db.setTx v (·.push f)).cell b).tx.closed =
      (db.cell b).tx.closed := fun b => by
    rw [setTx_tx]; split <;> simp_all
  have hup : ∀ b, (db.setTx v (·.push f)).up b = db.up b := fun b => by
    rw [BrokerDb.up, BrokerDb.up, setTx_registered, hclosed, setTx_disconnect]
  have htakes : ∀ b ∈ sel, (db.setTx v (·.push f)).takes b = db.takes b := fun b hb => by
    rw [BrokerDb.takes, BrokerDb.takes, htx b (hne b hb)]
  refine ⟨h.setTx v _, ⟨fun b hb => ?_, fun hu w hw => ?_, fun ha b hb hs hbt => ?_,
    fun ha b hb hm => ?_⟩,
    fun hu => (hup client).trans hu, htakes, fun b => ?_⟩
  · rw [htx b (hne b hb)]; exact hI.tail.internal b hb
  · rw [hup] at hu; rw [hforced w hw, hloses w hw]; exact hI.tail.sender hu w hw
  · rw [setTx_subscribers] at hb
    rw [htx b (hne b hs)]
    have := hI.tail.room ha b hb hs (by rw [← htakes b hs]; exact hbt)
    have := hann b
    omega
  · rw [setTx_subscribers] at hb
    by_cases hbv : b = v
    · subst hbv
      have h1 := hI.room ha b hb List.mem_cons_self ht
      have h2 := announcements_le_cons db b sel b
      have h3 := Chan.free_push hfull f
      have h4 := hann b
      rw [htxv]
      omega
    · rw [htx b hbv]
      have hm' : db.mustTake client b := by
        simpa only [mustTake, setTx_registered, htx b hbv, hup] using hm
      calc (db.setTx v (·.push f)).announcements sel b
        _ ≤ db.announcements sel b := hann b
        _ ≤ (db.cell b).tx.free := hI.tail.fits ha b hb hm'
  · by_cases hbv : b = v
    · subst hbv
      exact ⟨[f], by rw [htxv, Chan.put_push hfull], by simp [ht]⟩
    · exact ⟨[], by rw [htx b hbv]; simp, by simp [hbv]⟩

/-- A recipient that cannot take it, and is not unregistered. -/
theorem served_skip (h : Inv db) (hI : Isolated db client (v :: sel)) (ht : db.takes v = false) :
    Served client f v sel db db :=
  ⟨h, hI.tail, id, fun _ _ => rfl, fun b => ⟨[], by simp, by simp [ht]⟩⟩

/-- The sender is not among those who leave with a recipient. -/
theorem sender_stays (h : Inv db) (hI : Isolated db client (v :: sel)) (hu : db.up client = true)
    (hf : db.forced v = true) (hr : (db.cell v).registered = true) : client.name ∉ db.goes v := by
  obtain ⟨hne, hl⟩ := hI.sender hu v List.mem_cons_self hf
  have hcr := (up_iff.mp hu).1
  rcases hp : v.primary with _ | _
  · rw [goes_secondary hp, List.mem_singleton]
    exact fun hn => hne (h.eq_of_registered hr hcr hn.symm)
  · rw [mem_goes_primary h hr hp (by rw [(h.registered_iff client).mp hcr]; rfl)]
    exact fun hn => hl (loses_iff.mpr ⟨hf, hr, hp⟩) hn.symm

theorem up_dropClient (h : Inv db) (hu : db.up client = true)
    (hn : (db.cell v).registered = true → client.name ∉ db.goes v) :
    (db.dropClient v).up client = true := by
  rcases hr : (db.cell v).registered with _ | _
  · rw [dropClient_unregistered hr]; exact hu
  · obtain ⟨_, hd⟩ := dropClient_dropped h hr
    obtain ⟨h1, h2, h3⟩ := up_iff.mp hu
    refine up_iff.mpr ⟨(registered_dropClient h hr client).mpr ⟨h1, hn hr⟩, ?_, ?_⟩
    · rw [(Keeps.dropClient db v).tx]; exact h2
    · rw [hd.disconnect client (hn hr)]; exact h3

theorem Inv.dropClient_registered_self (h : Inv db) (v : BrokerClient) :
    ((db.dropClient v).cell v).registered = false := by
  rcases hr : (db.cell v).registered with _ | _
  · rw [dropClient_unregistered hr]; exact hr
  · rw [← Bool.not_eq_true, registered_dropClient h hr]
    simp [goes]

/-- A recipient that is unregistered without an announcement. -/
theorem served_quiet (h : Inv db) (hv : v ∉ sel) (hI : Isolated db client (v :: sel))
    (hf : db.forced v = true) : Served client f v sel db ((db.dropClient v).closeTx v) := by
  have hk := Keeps.dropClient db v
  set db' := (db.dropClient v).closeTx v with hdb'
  have hnt : db.takes v = false := by simp [BrokerDb.takes, (forced_iff.mp hf).1]
  have htx : ∀ b, b ≠ v → (db'.cell b).tx = (db.cell b).tx := fun b hb => by
    rw [hdb', closeTx, setTx_tx, if_neg hb, hk.tx]
  have htxv : (db'.cell v).tx = (db.cell v).tx.close := by
    rw [hdb', closeTx, setTx_tx, if_pos rfl, hk.tx]
  have hreg : ∀ b, (db'.cell b).registered = true → (db.cell b).registered = true := fun b hb =>
    hk.registered b (by rw [hdb', closeTx, setTx_registered] at hb; exact hb)
  have hregv : (db'.cell v).registered = false := by
    rw [hdb', closeTx, setTx_registered]; exact h.dropClient_registered_self v
  have hne : ∀ b ∈ sel, b ≠ v := fun b hb he => hv (he ▸ hb)
  have hforced : ∀ b ∈ sel, db'.forced b = db.forced b := fun b hb => by
    rw [forced, forced, htx b (hne b hb)]
  have hloses : ∀ b ∈ sel, db'.loses b = true → db.loses b = true := fun b hb hl => by
    obtain ⟨h1, h2, h3⟩ := loses_iff.mp hl
    exact loses_iff.mpr ⟨by rw [← hforced b hb]; exact h1, hreg b h2, h3⟩
  have hann : ∀ b, db'.announcements sel b ≤ db.announcements sel b := announcements_mono hloses
  have hclosed : ∀ b, (db.cell b).tx.closed = true → (db'.cell b).tx.closed = true := fun b hb => by
    by_cases hbv : b = v
    · subst hbv; rw [htxv]; rfl
    · rw [htx b hbv]; exact hb
  have hup : ∀ b, db'.up b = true → db.up b = true := fun b hb => by
    obtain ⟨h1, h2, h3⟩ := up_iff.mp hb
    refine up_iff.mpr ⟨hreg b h1, ?_, ?_⟩
    · rw [← Bool.not_eq_true]; exact fun hc => by rw [hclosed b hc] at h2; cases h2
    · rw [← Bool.not_eq_true]
      exact fun hc => by rw [hdb', closeTx, setTx_disconnect, hk.disconnect b hc] at h3; cases h3
  have hsub : ∀ b, b ∈ db'.subscribers BROKER_INFO_TOPIC →
      b ∈ db.subscribers BROKER_INFO_TOPIC := fun b hb => by
    rw [hdb', closeTx, setTx_subscribers] at hb
    rcases hr : (db.cell v).registered with _ | _
    · rw [dropClient_unregistered hr] at hb; exact hb
    · exact ((mem_subscribers_dropClient h hr _ b).mp hb).1
  have hannounces : db'.announces = db.announces := announces_dropClient db v
  have htakes : ∀ b ∈ sel, db'.takes b = db.takes b := fun b hb => by
    rw [BrokerDb.takes, BrokerDb.takes, htx b (hne b hb)]
  refine ⟨(h.dropClient v).setTx v _,
    ⟨fun b hb => ?_, fun hu w hw hwf => ?_, fun ha b hb hs hbt => ?_,
    fun ha b hb hm => ?_⟩, fun hu => ?_, htakes, fun b => ?_⟩
  · rw [htx b (hne b hb)]; exact hI.tail.internal b hb
  · have := hI.tail.sender (hup _ hu) w hw (by rw [← hforced w hw]; exact hwf)
    exact ⟨this.1, fun hl => this.2 (hloses w hw hl)⟩
  · rw [htx b (hne b hs)]
    have := hI.tail.room (hannounces ▸ ha) b (hsub b hb) hs (by rw [← htakes b hs]; exact hbt)
    have := hann b
    omega
  · by_cases hbv : b = v
    · -- it is closed and no longer registered, so nobody waits for it
      subst hbv
      exfalso
      rcases hm with ⟨hi, -⟩ | ⟨-, hr, -⟩ | ⟨hc, hu⟩
      · exact (forced_iff.mp hf).2 hi
      · rw [hregv] at hr; cases hr
      · rw [← hc] at hu
        rw [(up_iff.mp hu).1] at hregv; cases hregv
    · rw [htx b hbv]
      have hm' : db.mustTake client b := by
        rcases hm with hi | ⟨h1, h2, h3⟩ | ⟨h1, h2⟩
        · rw [htx b hbv] at hi; exact .inl hi
        · rw [htx b hbv] at h3; exact .inr (.inl ⟨h1, hreg b h2, h3⟩)
        · exact .inr (.inr ⟨h1, hup _ h2⟩)
      calc db'.announcements sel b
        _ ≤ db.announcements sel b := hann b
        _ ≤ (db.cell b).tx.free := hI.tail.fits (hannounces ▸ ha) b (hsub b hb) hm'
  · have hne' := (hI.sender hu v List.mem_cons_self hf).1
    have hu' := up_dropClient h hu (sender_stays h hI hu hf)
    obtain ⟨h1, h2, h3⟩ := up_iff.mp hu'
    refine up_iff.mpr ⟨by rw [hdb', closeTx, setTx_registered]; exact h1, ?_, ?_⟩
    · rw [htx client (Ne.symm hne'), ← hk.tx]; exact h2
    · rw [hdb', closeTx, setTx_disconnect]; exact h3
  · refine ⟨[], ?_, by simp [hnt]⟩
    by_cases hbv : b = v
    · subst hbv; rw [htxv]; simp
    · rw [htx b hbv]; simp

/-- A subscriber left after a primary was dropped has another primary name, so
the announcement of the drop counts for it. -/
theorem announced_counts (h : Inv db) (hl : db.loses v = true) {b : BrokerClient}
    (hb : b ∈ (db.dropClient v).subscribers BROKER_INFO_TOPIC) :
    b ∈ db.subscribers BROKER_INFO_TOPIC ∧
      ∀ sel, db.announcements (v :: sel) b = 1 + db.announcements sel b := by
  obtain ⟨-, hr, hp⟩ := loses_iff.mp hl
  obtain ⟨hb', hgo⟩ := (mem_subscribers_dropClient h hr _ b).mp hb
  rw [mem_goes_primary h hr hp (h.lookup_isSome_of_mem hb')] at hgo
  refine ⟨hb', fun sel => ?_⟩
  rw [announcements_cons, hl, Bool.true_and, if_pos (bne_iff_ne.mpr (Ne.symm hgo))]

/-- Nobody the announcement reaches is stuck. -/
theorem isolated_not_stuck (h : Inv db) (hI : Isolated db client (v :: sel))
    (ha : db.announces = true) (hl : db.loses v = true) :
    ∀ s ∈ (db.dropClient v).subscribers BROKER_INFO_TOPIC, (db.dropClient v).stuck s = false := by
  intro s hs
  have hk := Keeps.dropClient db v
  obtain ⟨hs', hcount⟩ := announced_counts h hl hs
  have hfit : db.mustTake client s → (db.cell s).tx.isFull = false := fun hm => by
    have := hI.fits ha s hs' hm
    rw [hcount] at this
    exact (Chan.isFull_eq_false _).mpr (by omega)
  refine stuck_eq_false.mpr ⟨?_, fun hfull hi => ?_⟩
  · rw [← Bool.not_eq_true, loses_iff, forced_iff, hk.tx]
    rintro ⟨⟨hfull, hext⟩, hr, hp⟩
    rw [hfit (.inr (.inl ⟨hext, hk.registered s hr, hp, .inr hfull⟩))] at hfull
    cases hfull
  · rw [hk.tx] at hfull ⊢
    rw [← Bool.not_eq_false]
    intro hc
    rw [hfit (.inl ⟨hi, hc⟩)] at hfull
    cases hfull

/-- A recipient that is unregistered with an announcement. -/
theorem served_announced {g : Frame} {subs : List BrokerClient} {db₂ : BrokerDb S} (h : Inv db)
    (hv : v ∉ sel) (hI : Isolated db client (v :: sel)) (ha : db.announces = true)
    (hl : db.loses v = true) (hg : g.origin = .broker) (hf : f.origin ≠ .broker)
    (hsubs : subs.Perm ((db.dropClient v).subscribers BROKER_INFO_TOPIC))
    (hA : Announced g subs (db.dropClient v) db₂) : Served client f v sel db (db₂.closeTx v) := by
  obtain ⟨hfv, hrv, hpv⟩ := loses_iff.mp hl
  have hk := Keeps.dropClient db v
  set db' := db₂.closeTx v with hdb'
  have hnt : db.takes v = false := by simp [BrokerDb.takes, (forced_iff.mp hfv).1]
  have hvs : v ∉ subs := fun hm => by
    have := ((mem_subscribers_dropClient h hrv _ v).mp (hsubs.mem_iff.mp hm)).2
    exact this (by simp [goes])
  have htx : ∀ b, b ≠ v → (db'.cell b).tx =
      if b ∈ subs then received b g (db.cell b).tx else (db.cell b).tx := fun b hb => by
    rw [hdb', closeTx, setTx_tx, if_neg hb, hA.tx, hk.tx]
  have htxv : (db'.cell v).tx = (db.cell v).tx.close := by
    rw [hdb', closeTx, setTx_tx, if_pos rfl, hA.tx, if_neg hvs, hk.tx]
  have hne : ∀ b ∈ sel, b ≠ v := fun b hb he => hv (he ▸ hb)
  have hreg : ∀ b, (db'.cell b).registered = true → (db.cell b).registered = true := fun b hb => by
    rw [hdb', closeTx, setTx_registered] at hb
    exact hk.registered b ((hA.registered b).mp hb).1
  have hclosed : ∀ b, (db.cell b).tx.closed = true → (db'.cell b).tx.closed = true := fun b hb => by
    by_cases hbv : b = v
    · subst hbv; rw [htxv]; rfl
    · rw [htx b hbv]
      split
      · exact received_closed hb
      · exact hb
  have hopen : ∀ b, (db'.cell b).tx.closed = false → (db.cell b).tx.closed = false := fun b hb => by
    rw [← Bool.not_eq_true]; exact fun hc => by rw [hclosed b hc] at hb; cases hb
  have hup : ∀ b, db'.up b = true → db.up b = true := fun b hb => by
    obtain ⟨h1, h2, h3⟩ := up_iff.mp hb
    refine up_iff.mpr ⟨hreg b h1, hopen b h2, ?_⟩
    rw [← Bool.not_eq_true]
    exact fun hc => by
      rw [hdb', closeTx, setTx_disconnect, hA.disconnect, hk.disconnect b hc] at h3; cases h3
  -- what the condition says of the clients the announcement reaches
  have hsub : ∀ b ∈ subs, b ∈ db.subscribers BROKER_INFO_TOPIC ∧
      ∀ sel, db.announcements (v :: sel) b = 1 + db.announcements sel b :=
    fun b hb => announced_counts h hl (hsubs.mem_iff.mp hb)
  have hroom : ∀ b ∈ subs, b ∈ sel → db.takes b = true →
      db.announcements sel b + 2 ≤ (db.cell b).tx.free := fun b hb hs ht => by
    have := hI.room ha b (hsub b hb).1 (List.mem_cons_of_mem _ hs) ht
    rw [(hsub b hb).2] at this
    omega
  have hfits : ∀ b ∈ subs, db.mustTake client b →
      db.announcements sel b + 1 ≤ (db.cell b).tx.free := fun b hb hm => by
    have := hI.fits ha b (hsub b hb).1 hm
    rw [(hsub b hb).2] at this
    omega
  have htakes : ∀ b ∈ sel, db'.takes b = db.takes b := fun b hb => by
    rw [BrokerDb.takes, BrokerDb.takes, htx b (hne b hb)]
    split
    · rename_i hbs
      rcases ht : db.takes b with _ | _
      · -- closed or full, and it stays so
        rcases hfull : (db.cell b).tx.isFull with _ | _
        · have hc : (db.cell b).tx.closed = true := by simpa [BrokerDb.takes, hfull] using ht
          simp [received_closed hc, hc]
        · by_cases hi : b.kind = .internal
          · have hc : (db.cell b).tx.closed = true := by
              rw [← Bool.not_eq_false]
              exact fun hc => by
                rw [hI.internal b (List.mem_cons_of_mem _ hb) hi hc] at hfull; cases hfull
            simp [received_closed hc]
          · simp [received, hfull, hi]
      · obtain ⟨h1, h2⟩ := takes_iff.mp ht
        have h3 := hroom b hbs hb ht
        have h4 := Chan.free_push h1 g
        have h5 : ((db.cell b).tx.push g).isFull = false := (Chan.isFull_eq_false _).mpr (by omega)
        simp [received_of_room h1 h2, h1, h2, h5]
    · rfl
  have hfull : ∀ b ∈ sel, (db'.cell b).tx.isFull = true →
      (db.cell b).tx.isFull = true := fun b hb hbf => by
    rw [← Bool.not_eq_false]
    intro hn
    rcases hc : (db.cell b).tx.closed with _ | _
    · have ht : db'.takes b = true := by rw [htakes b hb]; exact takes_iff.mpr ⟨hn, hc⟩
      rw [(takes_iff.mp ht).1] at hbf; cases hbf
    · rw [htx b (hne b hb), received_of_closed hn hc, ite_self, hn] at hbf; cases hbf
  have hforced : ∀ b ∈ sel, db'.forced b = true → db.forced b = true := fun b hb hbf => by
    obtain ⟨h1, h2⟩ := forced_iff.mp hbf
    exact forced_iff.mpr ⟨hfull b hb h1, h2⟩
  have hloses : ∀ b ∈ sel, db'.loses b = true → db.loses b = true := fun b hb hbl => by
    obtain ⟨h1, h2, h3⟩ := loses_iff.mp hbl
    exact loses_iff.mpr ⟨hforced b hb h1, hreg b h2, h3⟩
  have hann : ∀ b, db'.announcements sel b ≤ db.announcements sel b := announcements_mono hloses
  have hmem : ∀ b ∈ db'.subscribers BROKER_INFO_TOPIC, b ∈ subs := fun b hb => by
    rw [hdb', closeTx, setTx_subscribers] at hb
    exact hsubs.mem_iff.mpr ((hA.subscribers _ b).mp hb).1
  have hpush : ∀ b ∈ subs, 0 < (db.cell b).tx.free →
      (db.cell b).tx.free ≤ (db'.cell b).tx.free + 1 := by
    intro b hb hpos
    have hnf := (Chan.isFull_eq_false _).mpr hpos
    rw [htx b (fun he => hvs (he ▸ hb)), if_pos hb]
    rcases hc : (db.cell b).tx.closed with _ | _
    · rw [received_of_room hnf hc]
      have := Chan.free_push hnf g
      omega
    · rw [received_of_closed hnf hc]; omega
  refine ⟨hA.inv.setTx v _, ⟨fun b hb hi hc => ?_, fun hu w hw hwf => ?_, fun _ b hb hs hbt => ?_,
    fun _ b hb hm => ?_⟩, fun hu => ?_, htakes, fun b => ?_⟩
  · have hcb := hopen b hc
    have ht : db'.takes b = true := by
      rw [htakes b hb]
      exact takes_iff.mpr ⟨hI.tail.internal b hb hi hcb, hcb⟩
    exact (takes_iff.mp ht).1
  · have := hI.tail.sender (hup _ hu) w hw (hforced w hw hwf)
    exact ⟨this.1, fun hl => this.2 (hloses w hw hl)⟩
  · have hbs := hmem b hb
    have h1 := hroom b hbs hs (by rw [← htakes b hs]; exact hbt)
    have h2 := hpush b hbs (by omega)
    have h3 := hann b
    omega
  · have hbs := hmem b hb
    have hbv : b ≠ v := fun he => hvs (he ▸ hbs)
    have hm' : db.mustTake client b := by
      rcases hm with ⟨hi, hc⟩ | ⟨h1, h2, h3, h4⟩ | ⟨h1, h2⟩
      · exact .inl ⟨hi, hopen b hc⟩
      · refine .inr (.inl ⟨h1, hreg b h2, h3, ?_⟩)
        rcases h4 with h4 | h4
        · exact .inl (hopen b h4)
        · rcases hc : (db.cell b).tx.closed with _ | _
          · exact .inl rfl
          · refine .inr ?_
            rw [← Bool.not_eq_false]
            intro hn
            rw [htx b hbv, received_of_closed hn hc, ite_self, hn] at h4; cases h4
      · exact .inr (.inr ⟨h1, hup _ h2⟩)
    have h1 := hfits b hbs hm'
    have h2 := hpush b hbs (by omega)
    have h3 := hann b
    omega
  · have hne' := (hI.sender hu v List.mem_cons_self hfv).1
    have hu' := up_dropClient h hu (sender_stays h hI hu hfv)
    obtain ⟨h1, h2, h3⟩ := up_iff.mp hu'
    have hnf : client ∈ subs → (db.cell client).tx.isFull = false := fun hc => by
      have := hfits client hc (.inr (.inr ⟨rfl, hu⟩))
      exact (Chan.isFull_eq_false _).mpr (by omega)
    refine up_iff.mpr ⟨?_, ?_, ?_⟩
    · rw [hdb', closeTx, setTx_registered, hA.registered]
      refine ⟨h1, fun hcf => ?_⟩
      have := (forced_iff.mp hcf.2).1
      rw [hk.tx, hnf hcf.1] at this
      cases this
    · rw [hk.tx] at h2
      rw [htx client (Ne.symm hne')]
      split
      · rename_i hc
        rw [received_of_room (hnf hc) h2, Chan.closed_push, h2]
      · exact h2
    · rw [hdb', closeTx, setTx_disconnect, hA.disconnect]; exact h3
  · by_cases hbv : b = v
    · subst hbv; exact ⟨[], by rw [htxv]; simp, by simp [hnt]⟩
    · rw [htx b hbv]
      split
      · obtain ⟨added, hput, hadd⟩ := put_received b g (db.cell b).tx
        refine ⟨added, hput, ?_⟩
        have hgf : g ≠ f := fun he => hf (he ▸ hg)
        rcases hadd with rfl | rfl <;> simp [hbv, hgf]
      · exact ⟨[], by simp, by simp [hbv]⟩

/-- **Under the condition the fan-out gets to its end**, every recipient with room
gets the frame once, and the sender's connection goes on. -/
theorem fanOut_isolated (env : Env S) (timeout : Bool) (hf : f.origin ≠ .broker) :
    ∀ {sel : List BrokerClient} {db : BrokerDb S}, Inv db → sel.Nodup → Isolated db client sel →
    ∃ db', fanOut (announce env) env timeout f db sel = (db', .ok ()) ∧
      (db.up client = true → db'.up client = true) ∧
      ∀ b, ∃ added, (db'.cell b).tx.put = (db.cell b).tx.put ++ added ∧
        added.count f = if b ∈ sel ∧ db.takes b = true then 1 else 0
  | [], db, _, _, _ => ⟨db, rfl, id, fun b => ⟨[], by simp, by simp⟩⟩
  | v :: sel, db, h, hn, hI => by
    rw [List.nodup_cons] at hn
    obtain ⟨db₁, r, hs⟩ : ∃ db₁ r, safeSendFrame (announce env) env timeout db v f = (db₁, .ok r) :=
      step_ok h (hI.internal v List.mem_cons_self) (isolated_not_stuck h hI)
    have hserved : Served client f v sel db db₁ := by
      rcases step_cases h hs with ⟨hfv, hcl, rfl⟩ | ⟨hfv, -, rfl⟩ |
        ⟨ha, hl, g, subs, db₂, hg, hsub, hA, -, rfl⟩
      · rcases ht : db.takes v with _ | _
        · have hsame : received v f (db.cell v).tx = (db.cell v).tx := by
            rcases hfull : (db.cell v).tx.isFull with _ | _
            · exact received_of_closed hfull (by simpa [BrokerDb.takes, hfull] using ht)
            · have hi : v.kind = .internal := by
                simpa [forced, hfull, BrokerClient.isExternal] using hfv
              have hc : (db.cell v).tx.closed = true := by
                rw [← Bool.not_eq_false]
                exact fun hc => by rw [hI.internal v List.mem_cons_self hi hc] at hfull; cases hfull
              simp [received, hfull, hi, hc]
          rw [setTx_self hsame]
          exact served_skip h hI ht
        · obtain ⟨h1, h2⟩ := takes_iff.mp ht
          have : db.setTx v (received v f) = db.setTx v (·.push f) := by
            rw [setTx, setTx, setCell, setCell, received_of_room h1 h2]
          rw [this]
          exact served_push h hn.1 hI ht
      · exact served_quiet h hn.1 hI hfv
      · exact served_announced h hn.1 hI ha hl hg hf hsub hA
    obtain ⟨db', he, hup, hput⟩ := fanOut_isolated env timeout hf hserved.inv hn.2 hserved.isolated
    refine ⟨db', by rw [fanOut, hs]; exact he, fun hu => hup (hserved.up hu), fun b => ?_⟩
    obtain ⟨a₁, hp₁, hc₁⟩ := hserved.put b
    obtain ⟨a₂, hp₂, hc₂⟩ := hput b
    refine ⟨a₁ ++ a₂, by rw [hp₂, hp₁, List.append_assoc], ?_⟩
    rw [List.count_append, hc₁, hc₂]
    by_cases hbv : b = v
    · subst hbv; simp [hn.1]
    · by_cases hbs : b ∈ sel
      · simp [hbv, hbs, hserved.takes b hbs]
      · simp [hbv, hbs]

end Served

/-! ### Without the condition somebody is -/

/-- What a step that gets past the recipient `v` never undoes. -/
structure Passed (f : Frame) (v : BrokerClient) (db db' : BrokerDb S) : Prop where
  inv : Inv db'
  announces : db'.announces = db.announces
  closed : ∀ b, (db.cell b).tx.closed = true → (db'.cell b).tx.closed = true
  up : ∀ b, db'.up b = true → db.up b = true
  forced : ∀ b, b ≠ v → db.forced b = true → db'.forced b = true
  registered : ∀ b, b ≠ v → (db.cell b).registered = true → b.primary = true →
    (db'.cell b).registered = true
  put : ∀ b, b ≠ v → ∃ added, (db'.cell b).tx.put = (db.cell b).tx.put ++ added ∧ added.count f = 0

section Passed

variable {client v : BrokerClient} {f : Frame} {sel : List BrokerClient} {db db' : BrokerDb S}
  {env : Env S} {timeout : Bool}

theorem isFull_received_of_forced {b : BrokerClient} {q : Chan Frame} (hq : q.isFull = true)
    (hk : b.kind ≠ .internal) (g : Frame) : (received b g q).isFull = true := by
  simp [received, hq, hk]

theorem up_mono (hr : ∀ b, (db'.cell b).registered = true → (db.cell b).registered = true)
    (hc : ∀ b, (db.cell b).tx.closed = true → (db'.cell b).tx.closed = true)
    (hd : ∀ b, (db.cell b).disconnect = true → (db'.cell b).disconnect = true) (b : BrokerClient)
    (hu : db'.up b = true) : db.up b = true := by
  obtain ⟨h1, h2, h3⟩ := up_iff.mp hu
  refine up_iff.mpr ⟨hr b h1, ?_, ?_⟩
  · rw [← Bool.not_eq_true]; exact fun h => by rw [hc b h] at h2; cases h2
  · rw [← Bool.not_eq_true]; exact fun h => by rw [hd b h] at h3; cases h3

/-- A registered primary stays when another client is dropped. -/
theorem registered_primary_dropClient (h : Inv db) {b : BrokerClient} (hbv : b ≠ v)
    (hr : (db.cell b).registered = true) (hp : b.primary = true) :
    ((db.dropClient v).cell b).registered = true := by
  rcases hrv : (db.cell v).registered with _ | _
  · rw [dropClient_unregistered hrv]; exact hr
  · refine (registered_dropClient h hrv b).mpr ⟨hr, fun hm => hbv (h.eq_of_registered hr hrv ?_)⟩
    rcases hpv : v.primary with _ | _
    · rw [goes_secondary hpv] at hm; exact List.mem_singleton.mp hm
    · rw [mem_goes_primary h hrv hpv (by rw [(h.registered_iff b).mp hr]; rfl)] at hm
      rw [← hm]; exact ((BrokerClient.primary_iff b).mp hp).symm

theorem step_passed {r : Except ErrorKind Unit} (h : Inv db) (hf : f.origin ≠ .broker)
    (hs : safeSendFrame (announce env) env timeout db v f = (db', .ok r)) : Passed f v db db' := by
  have hk := Keeps.dropClient db v
  rcases step_cases h hs with ⟨-, -, rfl⟩ | ⟨-, -, rfl⟩ |
    ⟨ha, hl, g, subs, db₂, hg, hsub, hA, -, rfl⟩
  · have htx : ∀ b, b ≠ v → ((db.setTx v (received v f)).cell b).tx =
        (db.cell b).tx := fun b hb => by
      rw [setTx_tx, if_neg hb]
    have hc : ∀ b, (db.cell b).tx.closed = true →
        ((db.setTx v (received v f)).cell b).tx.closed = true :=
      fun b hb => by
        rw [setTx_tx]
        split
        · rename_i he; rw [he] at hb; exact received_closed hb
        · exact hb
    refine ⟨h.setTx v _, rfl, hc, up_mono (fun b hb => ?_) hc fun b hb => ?_, fun b hb hbf => ?_,
      fun b _ hbr _ => ?_, fun b hb => ⟨[], by rw [htx b hb]; simp, rfl⟩⟩
    · rw [setTx_registered] at hb; exact hb
    · rw [setTx_disconnect]; exact hb
    · rw [BrokerDb.forced, htx b hb]; exact hbf
    · rw [setTx_registered]; exact hbr
  · have htx : ∀ b, b ≠ v → (((db.dropClient v).closeTx v).cell b).tx =
        (db.cell b).tx := fun b hb => by
      rw [closeTx, setTx_tx, if_neg hb, hk.tx]
    have hc : ∀ b, (db.cell b).tx.closed = true →
        (((db.dropClient v).closeTx v).cell b).tx.closed = true := fun b hb => by
      rw [closeTx, setTx_tx]
      split
      · rfl
      · rw [hk.tx]; exact hb
    refine ⟨(h.dropClient v).setTx v _, announces_dropClient db v, hc,
      up_mono (fun b hb => ?_) hc fun b hb => ?_,
      fun b hb hbf => ?_, fun b hb hbr hbp => ?_, fun b hb => ⟨[], by rw [htx b hb]; simp, rfl⟩⟩
    · rw [closeTx, setTx_registered] at hb; exact hk.registered b hb
    · rw [closeTx, setTx_disconnect]; exact hk.disconnect b hb
    · rw [BrokerDb.forced, htx b hb]; exact hbf
    · rw [closeTx, setTx_registered]; exact registered_primary_dropClient h hb hbr hbp
  · have htx : ∀ b, b ≠ v → ((db₂.closeTx v).cell b).tx =
        if b ∈ subs then received b g (db.cell b).tx else (db.cell b).tx := fun b hb => by
      rw [closeTx, setTx_tx, if_neg hb, hA.tx, hk.tx]
    have hc : ∀ b, (db.cell b).tx.closed = true →
        ((db₂.closeTx v).cell b).tx.closed = true := fun b hb => by
      by_cases hbv : b = v
      · rw [closeTx, setTx_tx, if_pos hbv]; rfl
      · rw [htx b hbv]
        split
        · exact received_closed hb
        · exact hb
    refine ⟨hA.inv.setTx v _, hA.announces.trans (announces_dropClient db v), hc,
      up_mono (fun b hb => ?_) hc fun b hb => ?_, fun b hb hbf => ?_,
        fun b hb hbr hbp => ?_, fun b hb => ?_⟩
    · rw [closeTx, setTx_registered] at hb; exact hk.registered b ((hA.registered b).mp hb).1
    · rw [closeTx, setTx_disconnect, hA.disconnect]; exact hk.disconnect b hb
    · obtain ⟨h1, h2⟩ := forced_iff.mp hbf
      refine forced_iff.mpr ⟨?_, h2⟩
      rw [htx b hb]
      split
      · exact isFull_received_of_forced h1 h2 g
      · exact h1
    · have hr' := registered_primary_dropClient h hb hbr hbp
      rw [closeTx, setTx_registered, hA.registered]
      refine ⟨hr', fun ⟨hm, hbf⟩ => ?_⟩
      have := hA.passes b hm
      rw [loses_iff.mpr ⟨hbf, hr', hbp⟩] at this
      cases this
    · rw [htx b hb]
      split
      · obtain ⟨added, hput, hadd⟩ := put_received b g (db.cell b).tx
        refine ⟨added, hput, ?_⟩
        have hgf : g ≠ f := fun he => hf (he ▸ hg)
        rcases hadd with rfl | rfl <;> simp [hgf]
      · exact ⟨[], by simp, rfl⟩

theorem Passed.loses (hp : Passed f v db db') {b : BrokerClient} (hb : b ≠ v)
    (hl : db.loses b = true) :
    db'.loses b = true := by
  obtain ⟨h1, h2, h3⟩ := loses_iff.mp hl
  exact loses_iff.mpr ⟨hp.forced b hb h1, hp.registered b hb h2 h3, h3⟩

/-- A queue that cannot take a frame, and that nobody makes room in. -/
theorem received_idle (c : BrokerClient) {q : Chan Frame} (g : Frame)
    (hq : q.isFull = false → q.closed = true)
    (hi : q.isFull = true → c.kind = .internal → q.closed = true) :
    (received c g q).put = q.put ∧
      ((received c g q).isFull = false → (received c g q).closed = true) := by
  rcases hf : q.isFull with _ | _
  · rw [received_of_closed hf (hq hf)]; exact ⟨rfl, fun _ => hq hf⟩
  · by_cases hk : c.kind = .internal
    · have : received c g q = q := by simp [received, hf, hk, hi hf hk]
      rw [this]; exact ⟨rfl, hq⟩
    · have : received c g q = q.close := by simp [received, hf, hk]
      rw [this]; exact ⟨rfl, fun _ => rfl⟩

theorem takes_eq_false {b : BrokerClient} :
    db.takes b = false ↔ ((db.cell b).tx.isFull = false → (db.cell b).tx.closed = true) := by
  rw [← Bool.not_eq_true, takes_iff]
  cases (db.cell b).tx.isFull <;> cases (db.cell b).tx.closed <;> simp

/-- Where nobody makes room, a queue that cannot take a frame stays as it is. -/
theorem step_idle {r : Except ErrorKind Unit} (hd : ∀ db c, env.drains db c = false) (h : Inv db)
    (hs : safeSendFrame (announce env) env timeout db v f = (db', .ok r)) {b : BrokerClient}
    (hb : db.takes b = false) : db'.takes b = false ∧ (db'.cell b).tx.put = (db.cell b).tx.put := by
  have hk := Keeps.dropClient db v
  have hq := takes_eq_false.mp hb
  rw [takes_eq_false]
  rcases step_cases h hs with ⟨-, hcl, rfl⟩ | ⟨-, -, rfl⟩ |
    ⟨ha, hl, g, subs, db₂, -, hsub, hA, hstuck, rfl⟩
  · rw [setTx_tx]
    split
    · rename_i he
      subst he
      have := received_idle b f hq fun hf _ => (hcl hf).resolve_right (by simp [hd])
      exact ⟨this.2, this.1⟩
    · exact ⟨hq, rfl⟩
  · rw [closeTx, setTx_tx, hk.tx, hk.tx]
    split
    · rename_i he; subst he; exact ⟨fun _ => rfl, rfl⟩
    · exact ⟨hq, rfl⟩
  · have htx : (db₂.cell b).tx.put = (db.cell b).tx.put ∧
        ((db₂.cell b).tx.isFull = false → (db₂.cell b).tx.closed = true) := by
      rw [hA.tx, hk.tx]
      split
      · rename_i hm
        have := (stuck_eq_false.mp (hstuck hd b hm)).2
        rw [hk.tx] at this
        exact received_idle b g hq this
      · exact ⟨rfl, hq⟩
    rw [closeTx, setTx_tx]
    split
    · rename_i he; subst he; exact ⟨fun _ => rfl, htx.1⟩
    · exact ⟨htx.2, htx.1⟩

/-- A full internal queue is still full after others were served. -/
theorem step_internal {r : Except ErrorKind Unit} (hd : ∀ db c, env.drains db c = false)
    (h : Inv db) (hs : safeSendFrame (announce env) env timeout db v f = (db', .ok r))
    {b : BrokerClient} (hi : b.kind = .internal) (hc : (db.cell b).tx.closed = false)
    (hfull : (db.cell b).tx.isFull = true) :
    b ≠ v ∧ (db'.cell b).tx = (db.cell b).tx := by
  have hk := Keeps.dropClient db v
  have hnf : db.forced b = false := by simp [BrokerDb.forced, BrokerClient.isExternal, hi]
  have hbv : b ≠ v := by
    rintro rfl
    rcases step_cases h hs with ⟨-, hcl, -⟩ | ⟨hf, -, -⟩ | ⟨-, hl, -⟩
    · have := (hcl hfull).resolve_right (by simp [hd])
      rw [hc] at this; cases this
    · rw [hnf] at hf; cases hf
    · rw [(loses_iff.mp hl).1] at hnf; cases hnf
  refine ⟨hbv, ?_⟩
  rcases step_cases h hs with ⟨-, -, rfl⟩ | ⟨-, -, rfl⟩ |
    ⟨-, -, g, subs, db₂, -, hsub, hA, hstuck, rfl⟩
  · rw [setTx_tx, if_neg hbv]
  · rw [closeTx, setTx_tx, if_neg hbv, hk.tx]
  · rw [closeTx, setTx_tx, if_neg hbv, hA.tx, hk.tx, if_neg]
    intro hm
    have := (stuck_eq_false.mp (hstuck hd b hm)).2
    rw [hk.tx] at this
    rw [this hfull hi] at hc
    cases hc

/-- A fan-out gets to its end only past internal recipients with room. -/
theorem internal_of_ok (hd : ∀ db c, env.drains db c = false) (hf : f.origin ≠ .broker) :
    ∀ {sel : List BrokerClient} {db : BrokerDb S}, Inv db →
    fanOut (announce env) env timeout f db sel = (db', .ok ()) →
    ∀ b ∈ sel, b.kind = .internal → (db.cell b).tx.closed = false → (db.cell b).tx.isFull = false
  | [], _, _, _ => by simp
  | v :: sel, db, h, he => by
    obtain ⟨db₁, r, hs, he⟩ := fanOut_cons_ok he
    intro b hb hi hc
    rw [← Bool.not_eq_true]
    intro hfull
    obtain ⟨hbv, htx⟩ := step_internal hd h hs hi hc hfull
    have hb' := (List.mem_cons.mp hb).resolve_left hbv
    have := internal_of_ok hd hf (step_passed h hf hs).inv he b hb' hi (by rw [htx]; exact hc)
    rw [htx, hfull] at this
    cases this

theorem up_of_fanOut (hf : f.origin ≠ .broker) :
    ∀ {sel : List BrokerClient} {db : BrokerDb S}, Inv db →
    fanOut (announce env) env timeout f db sel = (db', .ok ()) →
    db'.up client = true → db.up client = true
  | [], _, _, he => by obtain ⟨rfl, -⟩ := Prod.mk.inj he; exact id
  | v :: sel, db, h, he => by
    obtain ⟨db₁, r, hs, he⟩ := fanOut_cons_ok he
    have hp := step_passed h hf hs
    exact fun hu => hp.up client (up_of_fanOut hf hp.inv he hu)

theorem inv_of_fanOut (hf : f.origin ≠ .broker) :
    ∀ {sel : List BrokerClient} {db : BrokerDb S}, Inv db →
    fanOut (announce env) env timeout f db sel = (db', .ok ()) → Inv db'
  | [], _, h, he => by obtain ⟨rfl, -⟩ := Prod.mk.inj he; exact h
  | v :: sel, db, h, he => by
    obtain ⟨db₁, r, hs, he⟩ := fanOut_cons_ok he
    exact inv_of_fanOut hf (step_passed h hf hs).inv he

theorem closed_of_fanOut (hf : f.origin ≠ .broker) {b : BrokerClient} :
    ∀ {sel : List BrokerClient} {db : BrokerDb S}, Inv db →
    fanOut (announce env) env timeout f db sel = (db', .ok ()) →
    (db.cell b).tx.closed = true → (db'.cell b).tx.closed = true
  | [], _, _, he => by obtain ⟨rfl, -⟩ := Prod.mk.inj he; exact id
  | v :: sel, db, h, he => by
    obtain ⟨db₁, r, hs, he⟩ := fanOut_cons_ok he
    have hp := step_passed h hf hs
    exact fun hc => closed_of_fanOut hf hp.inv he (hp.closed b hc)

/-- A sender whose connection goes on was not among those who left. -/
theorem sender_of_ok (hf : f.origin ≠ .broker) :
    ∀ {sel : List BrokerClient} {db : BrokerDb S}, Inv db →
    sel.Nodup → fanOut (announce env) env timeout f db sel = (db', .ok ()) → db'.up client = true →
    ∀ v ∈ sel, db.forced v = true → v ≠ client ∧ (db.loses v = true → v.name ≠ client.primaryName)
  | [], _, _, _, _, _ => by simp
  | w :: sel, db, h, hn, he, hu => by
    rw [List.nodup_cons] at hn
    obtain ⟨db₁, r, hs, he⟩ := fanOut_cons_ok he
    have hp := step_passed h hf hs
    have hu₁ := up_of_fanOut hf hp.inv he hu
    obtain ⟨hr₁, hc₁, -⟩ := up_iff.mp hu₁
    have hu₀ := hp.up client hu₁
    intro v hv hfv
    rcases List.mem_cons.mp hv with rfl | hv
    · have hk := Keeps.dropClient db v
      -- unregistered first: it is closed, and those of its name are gone
      have hleft : (db₁.cell v).tx.closed = true ∧
          (∀ b, (db₁.cell b).registered = true → ((db.dropClient v).cell b).registered = true) := by
        rcases step_cases h hs with ⟨hnf, -, -⟩ | ⟨-, -, rfl⟩ |
          ⟨-, -, g, subs, db₂, -, -, hA, -, rfl⟩
        · rw [hfv] at hnf; cases hnf
        · refine ⟨by rw [closeTx, setTx_tx, if_pos rfl]; rfl, fun b hb => ?_⟩
          rw [closeTx, setTx_registered] at hb; exact hb
        · refine ⟨by rw [closeTx, setTx_tx, if_pos rfl]; rfl, fun b hb => ?_⟩
          rw [closeTx, setTx_registered] at hb; exact ((hA.registered b).mp hb).1
      refine ⟨fun hvc => ?_, fun hl hname => ?_⟩
      · rw [hvc, hc₁] at hleft; cases hleft.1
      · obtain ⟨-, hr, hpv⟩ := loses_iff.mp hl
        obtain ⟨hcr, hgo⟩ := (registered_dropClient h hr client).mp (hleft.2 client hr₁)
        exact hgo ((mem_goes_primary h hr hpv
          (by rw [(h.registered_iff client).mp hcr]; rfl)).mpr hname.symm)
    · have hvw : v ≠ w := fun hvw => hn.1 (hvw ▸ hv)
      have := sender_of_ok hf hp.inv hn.2 he hu v hv (hp.forced v hvw hfv)
      exact ⟨this.1, fun hl => this.2 (hp.loses hvw hl)⟩

/-- Who cannot take the frame does not get it. -/
theorem put_of_idle (hd : ∀ db c, env.drains db c = false) (hf : f.origin ≠ .broker)
    {b : BrokerClient} :
    ∀ {sel : List BrokerClient} {db : BrokerDb S}, Inv db →
    fanOut (announce env) env timeout f db sel = (db', .ok ()) → db.takes b = false →
    (db'.cell b).tx.put = (db.cell b).tx.put
  | [], _, _, he, _ => by obtain ⟨rfl, -⟩ := Prod.mk.inj he; rfl
  | v :: sel, db, h, he, hb => by
    obtain ⟨db₁, r, hs, he⟩ := fanOut_cons_ok he
    obtain ⟨hb₁, hput⟩ := step_idle hd h hs hb
    rw [put_of_idle hd hf (step_passed h hf hs).inv he hb₁, hput]

/-- Who is not a recipient gets announcements only. -/
theorem put_of_not_mem (hf : f.origin ≠ .broker) {b : BrokerClient} :
    ∀ {sel : List BrokerClient} {db : BrokerDb S}, Inv db → b ∉ sel →
    fanOut (announce env) env timeout f db sel = (db', .ok ()) →
    ∃ added, (db'.cell b).tx.put = (db.cell b).tx.put ++ added ∧ added.count f = 0
  | [], _, _, _, he => by obtain ⟨rfl, -⟩ := Prod.mk.inj he; exact ⟨[], by simp, rfl⟩
  | v :: sel, db, h, hb, he => by
    rw [List.mem_cons, not_or] at hb
    obtain ⟨db₁, r, hs, he⟩ := fanOut_cons_ok he
    have hp := step_passed h hf hs
    obtain ⟨a₁, hp₁, hc₁⟩ := hp.put b hb.1
    obtain ⟨a₂, hp₂, hc₂⟩ := put_of_not_mem hf hp.inv hb.2 he
    exact ⟨a₁ ++ a₂, by rw [hp₂, hp₁, List.append_assoc], by rw [List.count_append, hc₁, hc₂]⟩

/-- A subscriber of announcements, as the clients `ks` are unregistered one after
another: it takes them all, or it is closed on the way, which happens to an
external client that is no registered primary. -/
theorem announced_room (hd : ∀ db c, env.drains db c = false) (hf : f.origin ≠ .broker)
    {b : BrokerClient} :
    ∀ {ks : List BrokerClient} {db : BrokerDb S}, Inv db → db.announces = true → ks.Nodup →
    (∀ v ∈ ks, db.loses v = true ∧ v.name ≠ b.primaryName) →
    b ∈ db.subscribers BROKER_INFO_TOPIC →
    ((db.cell b).tx.closed = false ∨ ((db.cell b).tx.isFull = true ∧ b.kind ≠ .internal)) →
    fanOut (announce env) env timeout f db ks = (db', .ok ()) →
    ((db'.cell b).tx.closed = (db.cell b).tx.closed ∧
      (db'.cell b).tx.free + ks.length = (db.cell b).tx.free) ∨
    ((db'.cell b).tx.closed = true ∧ b.kind ≠ .internal ∧
      ¬ ((db.cell b).registered = true ∧ b.primary = true))
  | [], _, _, _, _, _, _, _, he => by obtain ⟨rfl, -⟩ := Prod.mk.inj he; exact .inl ⟨rfl, rfl⟩
  | v :: ks, db, h, ha, hn, hks, hb, hopen, he => by
    rw [List.nodup_cons] at hn
    obtain ⟨db₁, r, hs, he⟩ := fanOut_cons_ok he
    have hp := step_passed h hf hs
    obtain ⟨hl, hname⟩ := hks v List.mem_cons_self
    obtain ⟨hfv, hrv, hpv⟩ := loses_iff.mp hl
    have hk := Keeps.dropClient db v
    have hbv : b ≠ v := fun he => hname (by rw [he, (BrokerClient.primary_iff v).mp hpv])
    -- the announcement of `v` reaches `b`
    rcases step_cases h hs with ⟨hnf, -, -⟩ | ⟨-, hq, -⟩ |
      ⟨-, -, g, subs, db₂, -, hsub, hA, hstuck, hdb₁⟩
    · rw [hfv] at hnf; cases hnf
    · rcases hq with hq | hq
      · rw [ha] at hq; cases hq
      · rw [hl] at hq; cases hq
    have hgo : b.name ∉ db.goes v := by
      rw [mem_goes_primary h hrv hpv (h.lookup_isSome_of_mem hb)]; exact Ne.symm hname
    have hb₁ : b ∈ (db.dropClient v).subscribers BROKER_INFO_TOPIC :=
      (mem_subscribers_dropClient h hrv _ b).mpr ⟨hb, hgo⟩
    have hbs : b ∈ subs := hsub.mem_iff.mpr hb₁
    have htx : (db₁.cell b).tx = received b g (db.cell b).tx := by
      rw [hdb₁, closeTx, setTx_tx, if_neg hbv, hA.tx, if_pos hbs, hk.tx]
    obtain ⟨hnl, hni⟩ := stuck_eq_false.mp (hstuck hd b hbs)
    rw [hk.tx] at hni
    rcases hfull : (db.cell b).tx.isFull with _ | _
    · -- it takes the announcement and is there for the next
      have hc : (db.cell b).tx.closed = false := hopen.resolve_right (by simp [hfull])
      rw [received_of_room hfull hc] at htx
      have hfree := Chan.free_push hfull g
      have hsubs₁ : b ∈ db₁.subscribers BROKER_INFO_TOPIC := by
        rw [hdb₁, closeTx, setTx_subscribers, hA.subscribers]
        refine ⟨hb₁, fun s hs hsf _ hsn => ?_⟩
        have hsb : s = b := by
          have hnd := (hsub.map (·.name)).nodup_iff.mpr (nodup_names_subscribers _ _)
          exact List.inj_on_of_nodup_map hnd hs hbs hsn.symm
        rw [hsb] at hsf
        have := (forced_iff.mp hsf).1
        rw [hk.tx, hfull] at this
        cases this
      have hcl₁ : (db₁.cell b).tx.closed = false := by rw [htx, Chan.closed_push, hc]
      have hks₁ : ∀ w ∈ ks, db₁.loses w = true ∧ w.name ≠ b.primaryName := fun w hw => by
        have := hks w (List.mem_cons_of_mem _ hw)
        exact ⟨hp.loses (fun he => hn.1 (he ▸ hw)) this.1, this.2⟩
      rcases announced_room hd hf hp.inv (hp.announces.trans ha) hn.2 hks₁ hsubs₁
        (.inl hcl₁) he with
        ⟨h1, h2⟩ | ⟨h1, h2, h3⟩
      · refine .inl ⟨by rw [h1, hcl₁, hc], ?_⟩
        rw [htx] at h2
        rw [List.length_cons]
        omega
      · exact .inr ⟨h1, h2, fun hrp => h3 ⟨hp.registered b hbv hrp.1 hrp.2, hrp.2⟩⟩
    · -- it is full: it is closed, and stays so
      have hext : b.kind ≠ .internal := fun hi => by
        rcases hopen with hc | hc
        · rw [hni hfull hi] at hc; cases hc
        · exact hc.2 hi
      have hcl₁ : (db₁.cell b).tx.closed = true := by rw [htx]; simp [received, hfull, hext]
      refine .inr ⟨closed_of_fanOut hf hp.inv he hcl₁, hext, fun hrp => ?_⟩
      have hr₁ : ((db.dropClient v).cell b).registered = true :=
        (registered_dropClient h hrv b).mpr ⟨hrp.1, hgo⟩
      rw [loses_iff.mpr ⟨forced_iff.mpr ⟨by rw [hk.tx]; exact hfull, hext⟩, hr₁, hrp.2⟩] at hnl
      cases hnl

end Passed

/-! ### The three fan-outs of the reader -/

section Fan

variable (client : BrokerClient) (n : ℕ) (buf : List UInt8) (payloadPos : ℕ) (realtime : Bool)

/-- The frame of the client's operation `n`. -/
def fanFrame : FanOp → Frame
  | .broadcast _ =>
    ⟨.op client n, ⟨.broadcast, some client.name, none, none, buf, payloadPos, realtime⟩⟩
  | .publish topic =>
    ⟨.op client n, ⟨.publish, some client.name, some topic, none, buf, payloadPos, realtime⟩⟩
  | .publishFor topic _ =>
    ⟨.op client n, ⟨.publish, some client.name, some topic, none, buf, payloadPos, realtime⟩⟩

/-- What the reader does with it: the macros with the reader's timeout. -/
def fan (env : Env S) (db : BrokerDb S) : FanOp → BrokerDb S × Except Stop Unit
  | .broadcast target =>
    sendBroadcast (announce env) env true db client (.op client n) none buf
      payloadPos realtime target
  | .publish topic =>
    publish (announce env) env true db client (.op client n) none buf payloadPos realtime topic
  | .publishFor topic receiver =>
    publishFor (announce env) env true db client (.op client n) none buf payloadPos
      realtime topic receiver

theorem fan_eq (env : Env S) (db : BrokerDb S) (op : FanOp) :
    fan client n buf payloadPos realtime env db op =
    fanOut (announce env) env true (fanFrame client n buf payloadPos realtime op) db
      (env.iter db (db.recipients op)) := by
  cases op <;> rfl

/-- The fan-out gets to its end, every selected recipient with room gets the
frame exactly once, and the sender's connection goes on. -/
def Undisturbed (env : Env S) (db : BrokerDb S) (op : FanOp) : Prop :=
  (fan client n buf payloadPos realtime env db op).2 = .ok () ∧
  (∀ b ∈ db.recipients op, db.takes b = true →
    ∃ added, ((fan client n buf payloadPos realtime env db op).1.cell b).tx.put =
      (db.cell b).tx.put ++ added ∧
      added.count (fanFrame client n buf payloadPos realtime op) = 1) ∧
  (db.up client = true → (fan client n buf payloadPos realtime env db op).1.up client = true)

variable {client n buf payloadPos realtime}

theorem fanFrame_origin (op : FanOp) :
    (fanFrame client n buf payloadPos realtime op).origin ≠ .broker := by
  cases op <;> simp [fanFrame]

/-- An environment in which nobody makes room, and a set is iterated with the
clients `p` first. -/
def firstEnv (S : Submap) (p : BrokerClient → Bool) : Env S where
  iter _ l := l.filter p ++ l.filter fun c => !p c
  iter_perm _ l := List.filter_append_perm p l
  drains _ _ := false
  payload _ _ := []

/-- The fan-out in two parts, the clients `p` first. -/
theorem fan_split {db : BrokerDb S} {op : FanOp} (p : BrokerClient → Bool)
    (h : Undisturbed client n buf payloadPos realtime (firstEnv S p) db op) :
    ∃ db₁ db' : BrokerDb S,
      fanOut (announce (firstEnv S p)) (firstEnv S p) true
        (fanFrame client n buf payloadPos realtime op) db
        ((db.recipients op).filter p) = (db₁, .ok ()) ∧
      fanOut (announce (firstEnv S p)) (firstEnv S p) true
        (fanFrame client n buf payloadPos realtime op) db₁
        ((db.recipients op).filter fun c => !p c) = (db', .ok ()) ∧
      (∀ b ∈ db.recipients op, db.takes b = true →
        ∃ added, (db'.cell b).tx.put = (db.cell b).tx.put ++ added ∧
          added.count (fanFrame client n buf payloadPos realtime op) = 1) ∧
      (db.up client = true → db'.up client = true) := by
  rw [Undisturbed, fan_eq] at h
  obtain ⟨hok, hrest⟩ := h
  set f := fanFrame client n buf payloadPos realtime op
  change (fanOut _ _ true f db ((db.recipients op).filter p ++ (db.recipients op).filter fun c =>
      !p c)).2 = _ at hok
  have heq := fanOut_append (announce (firstEnv S p)) (firstEnv S p) true f
    ((db.recipients op).filter p) ((db.recipients op).filter fun c => !p c) db
  rcases hfst : fanOut (announce (firstEnv S p)) (firstEnv S p) true f db
    ((db.recipients op).filter p)
    with ⟨db₁, stop | _⟩
  · rw [heq, hfst] at hok; simp at hok
  · rw [hfst] at heq
    refine ⟨db₁, _, rfl, Prod.ext rfl ?_, ?_⟩
    · rw [heq] at hok; exact hok
    · simp only at heq
      rw [← heq]; exact hrest

/-- Where no order and no environment disturb anybody, the condition holds. -/
theorem isolated_of_forall {db : BrokerDb S} {op : FanOp} (h : Inv db)
    (hall : ∀ env, Undisturbed client n buf payloadPos realtime env db op) :
    Isolated db client (db.recipients op) := by
  have hf : (fanFrame client n buf payloadPos realtime op).origin ≠ .broker := fanFrame_origin op
  have hnd := nodup_recipients db op
  obtain ⟨db₀, _, hfst, he, -, hup₀⟩ := fan_split (fun _ => true) (hall _)
  simp only [List.filter_true, Bool.not_true, List.filter_false, fanOut] at hfst he
  obtain ⟨rfl, -⟩ := Prod.mk.inj he
  -- the clients whose announcements reach `b` are served first
  have hks : ∀ b : BrokerClient, ∀ v ∈ (db.recipients op).filter fun v => db.loses v &&
      v.name != b.primaryName,
      db.loses v = true ∧ v.name ≠ b.primaryName := fun b v hv => by
    have := (List.mem_filter.mp hv).2
    rw [Bool.and_eq_true, bne_iff_ne] at this
    exact this
  refine ⟨internal_of_ok (fun _ _ => rfl) hf h hfst, fun hu => sender_of_ok hf h hnd hfst (hup₀ hu),
    fun ha b hb hs ht => ?_, fun ha b hb hm => ?_⟩
  · obtain ⟨db₁, db', hfst, he, hput, -⟩ :=
      fan_split (fun v => db.loses v && v.name != b.primaryName) (hall _)
    have hbk : b ∉ (db.recipients op).filter fun v => db.loses v &&
        v.name != b.primaryName := fun hm => by
      obtain ⟨hl, hne⟩ := hks b b hm
      exact hne ((BrokerClient.primary_iff b).mp (loses_iff.mp hl).2.2).symm
    obtain ⟨a₁, hp₁, hc₁⟩ := put_of_not_mem hf h hbk hfst
    have hroom := announced_room (fun _ _ => rfl) hf h ha (hnd.filter _) (hks b) hb
      (.inl (takes_iff.mp ht).2) hfst
    by_contra hlt
    -- its room is used up when the frame would reach it
    have hnt : db₁.takes b = false := by
      refine takes_eq_false.mpr fun hnf₁ => ?_
      rcases hroom with ⟨-, hfree⟩ | ⟨hcl, -⟩
      · have := (Chan.isFull_eq_false _).mp hnf₁
        rw [announcements] at hlt
        omega
      · exact hcl
    obtain ⟨a₂, hp₂, hc₂⟩ := hput b hs ht
    rw [put_of_idle (fun _ _ => rfl) hf (inv_of_fanOut hf h hfst) he hnt, hp₁] at hp₂
    rw [← List.append_cancel_left hp₂, hc₁] at hc₂
    cases hc₂
  · have hopen : (db.cell b).tx.closed = false ∨
        ((db.cell b).tx.isFull = true ∧ b.kind ≠ .internal) := by
      rcases hm with ⟨-, hc⟩ | ⟨hext, -, -, hc | hfull⟩ | ⟨rfl, hu⟩
      · exact .inl hc
      · exact .inl hc
      · exact .inr ⟨hfull, hext⟩
      · exact .inl (up_iff.mp hu).2.1
    obtain ⟨db₁, db', hfst, he, -, hup⟩ :=
      fan_split (fun v => db.loses v && v.name != b.primaryName) (hall _)
    rcases announced_room (fun _ _ => rfl) hf h ha (hnd.filter _) (hks b) hb hopen hfst with
      ⟨-, hfree⟩ | ⟨hcl, hext, hnr⟩
    · rw [announcements]; omega
    · exfalso
      rcases hm with ⟨hi, -⟩ | ⟨-, hr, hpr, -⟩ | ⟨rfl, hu⟩
      · exact hext hi
      · exact hnr ⟨hr, hpr⟩
      · have := (up_iff.mp (up_of_fanOut hf (inv_of_fanOut hf h hfst) he (hup hu))).2.1
        rw [hcl] at this
        cases this

/-- **Fan-out isolation, exactly**: every order and every environment leave every
recipient with room its one copy and the sender its connection iff the state is
isolated for the set of recipients. -/
theorem fan_isolation_iff {db : BrokerDb S} (h : Inv db) (client : BrokerClient) (n : ℕ)
    (buf : List UInt8) (payloadPos : ℕ) (realtime : Bool) (op : FanOp) :
    (∀ env, Undisturbed client n buf payloadPos realtime env db op) ↔
      Isolated db client (db.recipients op) := by
  refine ⟨isolated_of_forall h, fun hI env => ?_⟩
  have hp := env.iter_perm db (db.recipients op)
  have hf : (fanFrame client n buf payloadPos realtime op).origin ≠ .broker := fanFrame_origin op
  obtain ⟨db', he, hup, hput⟩ :=
    fanOut_isolated env true hf h (hp.nodup_iff.mpr (nodup_recipients db op))
    (hI.perm hp)
  rw [Undisturbed, fan_eq, he]
  refine ⟨rfl, fun b hb ht => ?_, hup⟩
  obtain ⟨added, h1, h2⟩ := hput b
  exact ⟨added, h1, by rw [h2, if_pos ⟨hp.mem_iff.mpr hb, ht⟩]⟩

end Fan

/-- An external sender, the third client to connect. -/
def thirdClient : BrokerClient := ⟨2, "s", .tcp, none, none⟩

/-- Two external clients and one of the kind given, with queues of one frame. -/
def threeClients (kind : BusRtClientKind) : BrokerDb reference :=
  Op.run (BrokerDb.empty reference false false 1)
    [.register "i" kind none none, .register "a" .tcp none none, .register "s" .tcp none none]

theorem fan_isolation_three : ((threeClients .tcp).recipients (.broadcast "*")).length = 3 ∧ ∀ env,
    Undisturbed thirdClient 0 [42, 0, 7] 2 false env (threeClients .tcp) (.broadcast "*") :=
  ⟨by decide, (fan_isolation_iff (Op.inv_run _ (inv_empty false false 1)) thirdClient 0
    [42, 0, 7] 2 false (.broadcast "*")).mpr
      ⟨by decide, by decide, fun h => absurd h (by decide), fun h => absurd h (by decide)⟩⟩

/-- The internal client of three has been sent a message, which fills its queue. -/
def crowded : BrokerDb reference :=
  let env := firstEnv reference fun c => c.kind == .internal
  (send (announce env) env true (threeClients .internal) thirdClient (.op thirdClient 0) none
    [105, 0, 1] 2 false "i").1

/-- The broadcast that reaches the full internal client first ends there, with the
sender's reader. -/
theorem fan_crowded : ¬ ∀ env,
    Undisturbed thirdClient 1 [42, 0, 7] 2 false env crowded (.broadcast "*") := by
  intro h
  have hok := (h (firstEnv reference fun c => c.kind == .internal)).1
  revert hok
  decide

end BrokerDb

end Busrt
