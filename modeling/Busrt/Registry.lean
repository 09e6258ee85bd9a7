/-
# The broker's registry

`BrokerDb` and the operations that change who is registered:
`insert_client`, `register_client` (plain and forced), `drop_client` with its
recursion over secondaries, `unregister_client`, `register_secondary_for`,
and `client_list` which reports on them. An operation is run to its end here,
as one step of the registry (`Op`); the steps inside it are the subject of
`Teardown`. An announcement does not change the registry by itself: what it
may do is force a client out whose queue is full, which is one more operation.

Four maps and a flag have to agree. `Inv` says how: the key of a client is its
name, the flag says whether the client is the one in `clients`, `broadcasts`
and `subscriptions` know exactly the names in `clients`, and the secondaries
of a registered primary are exactly the registered clients of its name. Every
operation keeps it (`Op.inv`), and a registration that fails changes nothing
(`registerClient_error`).

Key definitions: `BrokerDb`, `insertClient`, `registerClient`, `dropClient`, `clientList`, `Inv`.
Key theorems: `registry_invariant`, `registerClient_error`, `mem_clientList`.
-/
import Busrt.Submap
import Busrt.Lib.Chan
import Mathlib.Data.List.Sort

namespace Busrt

open Lib

/-- The part of `BusRtClient` that changes: the `registered` flag, the names of
its secondaries, its exclusions, its queue, and whether its connection was
told to end (`disconnect_trig`). -/
structure ClientCell (S : Submap) where
  registered : Bool
  secondaries : List String
  hasExclusions : Bool
  exclusions : S.acl.T
  tx : Chan Frame
  disconnect : Bool

/-- `BrokerDb`, with the mutable part of every client. `core` is the client
wrapped in `rpc_client`, `brokerRpc` the cargo feature `broker-rpc`,
`queueSize` the `queue_size` of `Broker`; `nextId` is the next allocation. -/
structure BrokerDb (S : Submap) where
  clients : AList fun _ : String => BrokerClient
  broadcasts : S.bcast.T
  subscriptions : S.sub.T
  cell : BrokerClient → ClientCell S
  core : Option BrokerClient
  forceRegister : Bool
  brokerRpc : Bool
  queueSize : ℕ+
  nextId : ℕ

variable {S : Submap}

-- sizes of queues that definitions give as numerals
instance neZero_one : NeZero 1 := ⟨by decide⟩
instance neZero_four : NeZero 4 := ⟨by decide⟩

/-- The mutable part as `BusRtClient::new` makes it. -/
def ClientCell.new (S : Submap) (queueSize : ℕ+) : ClientCell S where
  registered := false
  secondaries := []
  hasExclusions := false
  exclusions := S.acl.new (topicCfg S.zero)
  tx := Chan.bounded queueSize
  disconnect := false

namespace BrokerDb

/-- `BrokerDb::default` with the given options: nobody is registered. -/
def empty (S : Submap) (forceRegister brokerRpc : Bool) (queueSize : ℕ+) : BrokerDb S where
  clients := ∅
  broadcasts := S.bcast.new
  subscriptions := S.sub.new
  cell _ := ClientCell.new S queueSize
  core := none
  forceRegister := forceRegister
  brokerRpc := brokerRpc
  queueSize := queueSize
  nextId := 0

/-- The client registered under a name. -/
def lookup (db : BrokerDb S) (n : String) : Option BrokerClient := db.clients.lookup n

/-- All registered clients: `clients.values()`. -/
def values (db : BrokerDb S) : List BrokerClient := db.clients.entries.map (·.2)

def setCell (db : BrokerDb S) (c : BrokerClient) (f : ClientCell S → ClientCell S) : BrokerDb S :=
  { db with cell := Function.update db.cell c (f (db.cell c)) }

def setRegistered (db : BrokerDb S) (c : BrokerClient) (b : Bool) : BrokerDb S :=
  db.setCell c fun x => { x with registered := b }

/-- Under the lock of `secondaries`. -/
def mapSecondaries (db : BrokerDb S) (c : BrokerClient) (f : List String → List String) :
    BrokerDb S :=
  db.setCell c fun x => { x with secondaries := f x.secondaries }

/-- `disconnect_trig.trigger()`. -/
def trigger (db : BrokerDb S) (c : BrokerClient) : BrokerDb S :=
  db.setCell c fun x => { x with disconnect := true }

/-- `BusRtClient::new`: a client nobody has seen before. -/
def alloc (db : BrokerDb S) (name : String) (kind : BusRtClientKind) (source port : Option String) :
    BrokerClient × BrokerDb S :=
  let c : BrokerClient := ⟨db.nextId, name, kind, source, port⟩
  (c, { db.setCell c fun _ => ClientCell.new S db.queueSize with nextId := db.nextId + 1 })

/-! ### Registration -/

/-- The vacant branch of `insert_client`: the name joins its primary's
secondaries, both maps and `clients`, and the flag is set. -/
def link (db : BrokerDb S) (c : BrokerClient) (primary : Option BrokerClient) : BrokerDb S :=
  let db := match primary with
    | some pc => db.mapSecondaries pc (·.insert c.name)
    | none => db
  let db := { db with broadcasts := S.bcast.registerClient db.broadcasts c }
  let sdb := S.sub.registerClient db.subscriptions c
  let db := { db with subscriptions := (S.sub.subscribe sdb BROKER_WARN_TOPIC c).1 }
  let db := db.setRegistered c true
  { db with clients := db.clients.insert c.name c }

/-- `BrokerDb::insert_client`. -/
def insertClient (db : BrokerDb S) (c : BrokerClient) : BrokerDb S × Except Error Unit :=
  let primaryClient : Except Error (Option BrokerClient) :=
    if c.primary then .ok none
    else match db.lookup c.primaryName with
      | some pc => .ok (some pc)
      | none => .error Error.notRegistered
  match primaryClient with
  | .error e => (db, .error e)
  | .ok pc =>
    match db.lookup c.name with
    | none => (db.link c pc, .ok ())
    | some _ => (db, .error (Error.busy ("the client is already registred: " ++ c.name)))

/-- The removals of `drop_client`: the flag, both maps, `clients`. -/
def unlink (db : BrokerDb S) (c : BrokerClient) : BrokerDb S :=
  let db := db.setRegistered c false
  let db := { db with subscriptions := S.sub.unregisterClient db.subscriptions c }
  let db := { db with broadcasts := S.bcast.unregisterClient db.broadcasts c }
  { db with clients := db.clients.erase c.name }

/-- The body of the loop over `secondaries` in `drop_client`; `drop` is the
recursive call. -/
def dropEach (drop : BrokerDb S → BrokerClient → BrokerDb S) (db : BrokerDb S)
    (secondary : String) :
    BrokerDb S :=
  match db.lookup secondary with
  | some sec => drop (if sec.kind = .internal then db else db.trigger sec) sec
  | none => db

/-- `BrokerDb::drop_client`, to a depth of calls. A secondary has no
secondaries of its own, so two calls deep is as far as it goes
(`dropClientN_eq`). -/
def dropClientN : ℕ → BrokerDb S → BrokerClient → BrokerDb S
  | 0, db, _ => db
  | n + 1, db, c =>
    if (db.cell c).registered then
      let db := db.unlink c
      if c.primary then
        let db := (db.cell c).secondaries.foldl (dropEach (dropClientN n)) db
        db.mapSecondaries c fun _ => []
      else match db.lookup c.primaryName with
        | some primary => db.mapSecondaries primary (·.erase c.name)
        | none => db
    else db

/-- `BrokerDb::drop_client`. -/
def dropClient (db : BrokerDb S) (c : BrokerClient) : BrokerDb S := dropClientN 2 db c

/-- `allow_force` of `register_client`. -/
def allowForce (db : BrokerDb S) (c : BrokerClient) : Bool :=
  if db.brokerRpc then c.primary && db.forceRegister else db.forceRegister

/-- `BrokerDb::register_client`, less the announcement. -/
def registerClient (db : BrokerDb S) (c : BrokerClient) : BrokerDb S × Except Error Unit :=
  match db.insertClient c with
  | (db, .ok ()) => (db, .ok ())
  | (db, .error e) =>
    if e.kind = .busy ∧ db.allowForce c = true then
      let db' := { db with clients := db.clients.erase c.name }
      let db' := match db.lookup c.name with
        | some prev => (db'.dropClient prev).trigger prev
        | none => db'
      db'.insertClient c
    else (db, .error e)

/-- What happens to the queue of a client. -/
def setTx (db : BrokerDb S) (c : BrokerClient) (f : Chan Frame → Chan Frame) : BrokerDb S :=
  db.setCell c fun x => { x with tx := f x.tx }

/-- `tx.close()`. -/
def closeTx (db : BrokerDb S) (c : BrokerClient) : BrokerDb S := db.setTx c Chan.close

/-- The forced unregistration of `safe_send_frame!`, less the announcement. -/
def forceUnregister (db : BrokerDb S) (c : BrokerClient) : BrokerDb S := (db.dropClient c).closeTx c

/-! ### What is reported -/

/-- `ClientInfo`, less the traffic counters. -/
structure ClientInfo where
  name : String
  kind : String
  source : Option String
  port : Option String
  queue : ℕ
  instances : ℕ
  deriving DecidableEq, Repr

def clientInfo (db : BrokerDb S) (v : BrokerClient) : ClientInfo where
  name := v.name
  kind := v.kind.asStr
  source := v.source
  port := v.port
  queue := (db.cell v).tx.len
  instances := (db.cell v).secondaries.length + 1

/-- `BrokerRpcHandlers::client_list`: `filter` is the regular expression's test,
true of every name when no filter is given. -/
def clientList (db : BrokerDb S) (filter : String → Bool) : List ClientInfo :=
  ((db.values.filter fun c => c.primary && filter c.name).map db.clientInfo).mergeSort
    fun a b => a.name ≤ b.name

/-! ### How the operations change each field -/

section Fields

variable (db : BrokerDb S) (c d : BrokerClient)

@[simp] theorem setCell_clients (f) : (db.setCell c f).clients = db.clients := rfl
@[simp] theorem setCell_broadcasts (f) : (db.setCell c f).broadcasts = db.broadcasts := rfl
@[simp] theorem setCell_subscriptions (f) : (db.setCell c f).subscriptions = db.subscriptions := rfl
@[simp] theorem lookup_setCell (f) (n : String) : (db.setCell c f).lookup n = db.lookup n := rfl
@[simp] theorem setCell_nextId (f) : (db.setCell c f).nextId = db.nextId := rfl

theorem setCell_cell (f) :
    (db.setCell c f).cell d = if d = c then f (db.cell c) else db.cell d := by
  simp [setCell, Function.update_apply]

@[simp] theorem trigger_clients : (db.trigger c).clients = db.clients := rfl
@[simp] theorem trigger_broadcasts : (db.trigger c).broadcasts = db.broadcasts := rfl
@[simp] theorem trigger_subscriptions : (db.trigger c).subscriptions = db.subscriptions := rfl
@[simp] theorem lookup_trigger (n : String) : (db.trigger c).lookup n = db.lookup n := rfl
@[simp] theorem trigger_nextId : (db.trigger c).nextId = db.nextId := rfl

@[simp] theorem trigger_registered :
    ((db.trigger c).cell d).registered = (db.cell d).registered := by
  rw [trigger, setCell_cell]; split <;> simp_all

@[simp] theorem trigger_secondaries :
    ((db.trigger c).cell d).secondaries = (db.cell d).secondaries := by
  rw [trigger, setCell_cell]; split <;> simp_all

theorem trigger_disconnect_ne (h : d ≠ c) :
    ((db.trigger c).cell d).disconnect = (db.cell d).disconnect := by
  rw [trigger, setCell_cell, if_neg h]

theorem setRegistered_registered (b : Bool) : ((db.setRegistered c b).cell d).registered =
    if d = c then b else (db.cell d).registered := by
  rw [setRegistered, setCell_cell]; split <;> simp_all

@[simp] theorem setRegistered_secondaries (b : Bool) :
    ((db.setRegistered c b).cell d).secondaries = (db.cell d).secondaries := by
  rw [setRegistered, setCell_cell]; split <;> simp_all

@[simp] theorem lookup_mapSecondaries (f) (n : String) :
    (db.mapSecondaries c f).lookup n = db.lookup n := rfl

@[simp] theorem mapSecondaries_registered (f) :
    ((db.mapSecondaries c f).cell d).registered = (db.cell d).registered := by
  rw [mapSecondaries, setCell_cell]; split <;> simp_all

@[simp] theorem mapSecondaries_subscriptions (f) :
    (db.mapSecondaries c f).subscriptions = db.subscriptions := rfl

@[simp] theorem mapSecondaries_disconnect (f) :
    ((db.mapSecondaries c f).cell d).disconnect = (db.cell d).disconnect := by
  rw [mapSecondaries, setCell_cell]; split <;> simp_all

theorem mapSecondaries_secondaries (f) : ((db.mapSecondaries c f).cell d).secondaries =
    if d = c then f (db.cell d).secondaries else (db.cell d).secondaries := by
  rw [mapSecondaries, setCell_cell]; split <;> simp_all

@[simp] theorem lookup_setTx (f) (n : String) : (db.setTx c f).lookup n = db.lookup n := rfl
@[simp] theorem setTx_subscriptions (f) : (db.setTx c f).subscriptions = db.subscriptions := rfl

@[simp] theorem setTx_registered (f) :
    ((db.setTx c f).cell d).registered = (db.cell d).registered := by
  rw [setTx, setCell_cell]; split <;> simp_all

@[simp] theorem setTx_secondaries (f) :
    ((db.setTx c f).cell d).secondaries = (db.cell d).secondaries := by
  rw [setTx, setCell_cell]; split <;> simp_all

@[simp] theorem setTx_disconnect (f) :
    ((db.setTx c f).cell d).disconnect = (db.cell d).disconnect := by
  rw [setTx, setCell_cell]; split <;> simp_all

theorem setTx_tx (f) :
    ((db.setTx c f).cell d).tx = if d = c then f (db.cell c).tx else (db.cell d).tx := by
  rw [setTx, setCell_cell]; split <;> rfl

variable (pc : Option BrokerClient)

@[simp] theorem link_clients : (db.link c pc).clients = db.clients.insert c.name c := by
  cases pc <;> rfl

@[simp] theorem link_broadcasts :
    (db.link c pc).broadcasts = S.bcast.registerClient db.broadcasts c := by
  cases pc <;> rfl

@[simp] theorem link_subscriptions : (db.link c pc).subscriptions =
    (S.sub.subscribe (S.sub.registerClient db.subscriptions c) BROKER_WARN_TOPIC c).1 := by
  cases pc <;> rfl

@[simp] theorem link_nextId : (db.link c pc).nextId = db.nextId := by cases pc <;> rfl

theorem lookup_link (n : String) :
    (db.link c pc).lookup n = if n = c.name then some c else db.lookup n := by
  rw [lookup, link_clients]
  split
  · subst_vars; exact AList.lookup_insert _
  · exact AList.lookup_insert_ne ‹_›

theorem link_registered :
    ((db.link c pc).cell d).registered = if d = c then true else (db.cell d).registered := by
  cases pc with
  | none => exact setRegistered_registered ..
  | some p => exact (setRegistered_registered ..).trans (by rw [mapSecondaries_registered])

theorem link_secondaries : ((db.link c pc).cell d).secondaries =
    if pc = some d then (db.cell d).secondaries.insert c.name else (db.cell d).secondaries := by
  cases pc with
  | none => exact setRegistered_secondaries ..
  | some p =>
    calc ((db.link c (some p)).cell d).secondaries
      _ = ((db.mapSecondaries p (·.insert c.name)).cell d).secondaries :=
        setRegistered_secondaries ..
      _ = if d = p then (db.cell d).secondaries.insert c.name else (db.cell d).secondaries :=
        mapSecondaries_secondaries ..
      _ = if some p = some d then (db.cell d).secondaries.insert c.name
        else (db.cell d).secondaries := by
        simp only [Option.some.injEq, eq_comm]

@[simp] theorem unlink_clients : (db.unlink c).clients = db.clients.erase c.name := rfl
@[simp] theorem unlink_broadcasts :
    (db.unlink c).broadcasts = S.bcast.unregisterClient db.broadcasts c := rfl
@[simp] theorem unlink_subscriptions :
    (db.unlink c).subscriptions = S.sub.unregisterClient db.subscriptions c := rfl
@[simp] theorem unlink_nextId : (db.unlink c).nextId = db.nextId := rfl

theorem lookup_unlink (n : String) :
    (db.unlink c).lookup n = if n = c.name then none else db.lookup n := by
  rw [lookup, unlink_clients]
  split
  · subst_vars; exact AList.lookup_erase _ _
  · exact AList.lookup_erase_ne ‹_›

theorem unlink_registered :
    ((db.unlink c).cell d).registered = if d = c then false else (db.cell d).registered :=
  setRegistered_registered ..

@[simp] theorem unlink_secondaries : ((db.unlink c).cell d).secondaries = (db.cell d).secondaries :=
  setRegistered_secondaries ..

@[simp] theorem unlink_disconnect : ((db.unlink c).cell d).disconnect = (db.cell d).disconnect := by
  change ((db.setRegistered c false).cell d).disconnect = _
  rw [setRegistered, setCell_cell]; split <;> simp_all

/-- The name a client is taken out of `clients` under is taken out again by
`unlink`: a forced registration may remove it before. -/
theorem unlink_erase :
    ({ db with clients := db.clients.erase c.name } : BrokerDb S).unlink c = db.unlink c := by
  have : (db.clients.erase c.name).erase c.name = db.clients.erase c.name := by
    apply AList.ext
    refine List.kerase_of_notMem_keys fun h => ?_
    exact (AList.mem_erase.mp (AList.mem_keys.mpr h)).1 rfl
  simp only [unlink, setRegistered, setCell, this]

end Fields

/-! ### The invariant -/

/-- The maps and the flag agree: a client is kept under its own name, it has the
flag iff it is the one kept there, and both maps know exactly those names. -/
structure Consistent (db : BrokerDb S) : Prop where
  name_eq : ∀ n c, db.lookup n = some c → c.name = n
  registered_iff : ∀ c, (db.cell c).registered = true ↔ db.lookup c.name = some c
  broadcasts_eq : ∀ n, S.bcast.held db.broadcasts (S.sha256 n) = db.lookup n
  subscriptions_iff : ∀ n, (S.sub.held db.subscriptions (S.sha256 n)).isSome = (db.lookup n).isSome

/-- The registry's invariant: the maps and the flag agree, every secondary has
its primary, and every primary knows exactly its secondaries. -/
structure Inv (db : BrokerDb S) : Prop extends Consistent db where
  primary_mem : ∀ n c, db.lookup n = some c → c.primary = false → (db.lookup c.primaryName).isSome
  mem_secondaries : ∀ p s, s ∈ (db.cell p).secondaries ↔
    (db.lookup p.name = some p ∧ p.primary = true) ∧
      ∃ c, db.lookup s = some c ∧ c.primary = false ∧ c.primaryName = p.name
  secondaries_nodup : ∀ p, ((db.cell p).secondaries).Nodup
  fresh : ∀ n c, db.lookup n = some c → c.id < db.nextId

@[simp] theorem lookup_empty (force rpc : Bool) (q : ℕ+) (n : String) :
    (BrokerDb.empty S force rpc q).lookup n = none := AList.lookup_empty n

theorem inv_empty (force rpc : Bool) (q : ℕ+) : Inv (BrokerDb.empty S force rpc q) where
  name_eq n c h := by simp at h
  registered_iff c := by rw [lookup_empty]; simp [empty, ClientCell.new]
  broadcasts_eq n := by rw [lookup_empty]; exact S.bcast.held_new _
  subscriptions_iff n := by rw [lookup_empty]; simp [empty, S.sub.held_new]
  primary_mem n c h := by simp at h
  mem_secondaries p s := by rw [lookup_empty]; simp [empty, ClientCell.new]
  secondaries_nodup p := by simp [empty, ClientCell.new]
  fresh n c h := by simp at h

/-! ### Each operation keeps the invariant -/

namespace Consistent

variable {db db' : BrokerDb S} {c : BrokerClient}

/-- A change that none of the maps and flags sees. -/
theorem of_eq (h : Consistent db) (hl : ∀ n, db'.lookup n = db.lookup n)
    (hr : ∀ c, (db'.cell c).registered = (db.cell c).registered)
    (hb : db'.broadcasts = db.broadcasts) (hs : db'.subscriptions = db.subscriptions) :
    Consistent db' where
  name_eq n c hn := h.name_eq n c (hl n ▸ hn)
  registered_iff c := by rw [hr, hl]; exact h.registered_iff c
  broadcasts_eq n := by rw [hb, hl]; exact h.broadcasts_eq n
  subscriptions_iff n := by rw [hs, hl]; exact h.subscriptions_iff n

theorem trigger (h : Consistent db) : Consistent (db.trigger c) :=
  h.of_eq (fun _ => rfl) (fun _ => trigger_registered ..) rfl rfl

theorem mapSecondaries (h : Consistent db) (f) : Consistent (db.mapSecondaries c f) :=
  h.of_eq (fun _ => rfl) (fun _ => mapSecondaries_registered ..) rfl rfl

/-- Two clients of one name cannot both have the flag. -/
theorem eq_of_registered (h : Consistent db) {d : BrokerClient} (hc : (db.cell c).registered = true)
    (hd : (db.cell d).registered = true) (hn : c.name = d.name) : c = d := by
  have h1 := (h.registered_iff c).mp hc
  rw [hn, (h.registered_iff d).mp hd] at h1
  exact (Option.some.inj h1).symm

theorem link (h : Consistent db) (hv : db.lookup c.name = none) (pc) :
    Consistent (db.link c pc) where
  name_eq n d hd := by
    rw [lookup_link] at hd
    split at hd
    · rw [← Option.some.inj hd]; exact Eq.symm ‹_›
    · exact h.name_eq n d hd
  registered_iff d := by
    rw [link_registered, lookup_link]
    by_cases hd : d = c
    · simp [hd]
    · rw [if_neg hd, h.registered_iff]
      by_cases hn : d.name = c.name
      · rw [if_pos hn, hn, hv]
        simp [Ne.symm hd]
      · rw [if_neg hn]
  broadcasts_eq n := by
    rw [link_broadcasts, lookup_link]
    by_cases hn : n = c.name
    · subst hn
      have hb := h.broadcasts_eq c.name
      rw [hv] at hb
      rw [if_pos rfl, S.bcast.held_register, hb]
      rfl
    · rw [if_neg hn, S.bcast.held_register_ne _ _ _ (S.key_ne hn)]
      exact h.broadcasts_eq n
  subscriptions_iff n := by
    rw [link_subscriptions, lookup_link]
    by_cases hn : n = c.name
    · subst hn
      rw [S.sub.held_subscribe, S.sub.held_register]
      simp
    · rw [if_neg hn, S.sub.held_subscribe_ne _ _ _ _ (S.key_ne hn),
        S.sub.held_register_ne _ _ _ (S.key_ne hn)]
      exact h.subscriptions_iff n

theorem unlink (h : Consistent db) (hc : (db.cell c).registered = true) :
    Consistent (db.unlink c) where
  name_eq n d hd := by
    rw [lookup_unlink] at hd
    split at hd
    · cases hd
    · exact h.name_eq n d hd
  registered_iff d := by
    rw [unlink_registered, lookup_unlink]
    by_cases hd : d = c
    · simp [hd]
    · rw [if_neg hd]
      by_cases hn : d.name = c.name
      · rw [if_pos hn]
        simp only [reduceCtorEq, iff_false]
        exact fun hr => hd (h.eq_of_registered hr hc hn)
      · rw [if_neg hn, h.registered_iff]
  broadcasts_eq n := by
    rw [unlink_broadcasts, lookup_unlink]
    by_cases hn : n = c.name
    · subst hn; rw [if_pos rfl]; exact S.bcast.held_unregister _ _
    · rw [if_neg hn, S.bcast.held_unregister_ne _ _ _ (S.key_ne hn)]
      exact h.broadcasts_eq n
  subscriptions_iff n := by
    rw [unlink_subscriptions, lookup_unlink]
    by_cases hn : n = c.name
    · subst hn; rw [if_pos rfl, S.sub.held_unregister]; rfl
    · rw [if_neg hn, S.sub.held_unregister_ne _ _ _ (S.key_ne hn)]
      exact h.subscriptions_iff n

end Consistent

/-- Dropping a registered secondary whose primary is gone. -/
theorem dropClientN_orphan {db : BrokerDb S} {c : BrokerClient} (n : ℕ)
    (hr : (db.cell c).registered = true) (hp : c.primary = false)
    (hl : db.lookup c.primaryName = none) :
    dropClientN (n + 1) db c = db.unlink c := by
  have hl' : (db.unlink c).lookup c.primaryName = none := by rw [lookup_unlink, hl]; simp
  simp only [dropClientN, hr, hp, hl', if_true, Bool.false_eq_true, if_false]

/-- What dropping the clients called `names` does; `sec` is what it leaves of the
secondaries. -/
structure Dropped (names : List String) (sec : BrokerClient → List String) (db db' : BrokerDb S) :
    Prop where
  consistent : Consistent db'
  lookup : ∀ m, db'.lookup m = if m ∈ names then none else db.lookup m
  subscribers : ∀ t d, d ∈ S.sub.getSubscribers db'.subscriptions t ↔
    d ∈ S.sub.getSubscribers db.subscriptions t ∧ d.name ∉ names
  disconnect : ∀ d, d.name ∉ names → (db'.cell d).disconnect = (db.cell d).disconnect
  secondaries : ∀ d, (db'.cell d).secondaries = sec d
  nextId : db'.nextId = db.nextId

theorem dropped_cons {names : List String} {s : String} {db db₁ db₂ : BrokerDb S}
    (h₁ : Dropped [s] (fun d => (db.cell d).secondaries) db db₁)
    (h₂ : Dropped names (fun d => (db₁.cell d).secondaries) db₁ db₂) :
    Dropped (s :: names) (fun d => (db.cell d).secondaries) db db₂ where
  consistent := h₂.consistent
  lookup m := by
    rw [h₂.lookup, h₁.lookup]
    by_cases hs : m = s <;> by_cases hm : m ∈ names <;> simp [hs, hm]
  subscribers t d := by
    rw [h₂.subscribers, h₁.subscribers, List.mem_singleton, List.mem_cons, and_assoc, not_or]
  disconnect d hd := by
    rw [List.mem_cons, not_or] at hd
    rw [h₂.disconnect d hd.2, h₁.disconnect d (by simpa using hd.1)]
  secondaries d := (h₂.secondaries d).trans (h₁.secondaries d)
  nextId := h₂.nextId.trans h₁.nextId

/-- A name that nobody is registered under has no subscriptions. -/
theorem Consistent.name_ne_of_mem {db : BrokerDb S} (h : Consistent db) {s t : String}
    (hs : db.lookup s = none) {d : BrokerClient}
    (hd : d ∈ S.sub.getSubscribers db.subscriptions t) :
    d.name ≠ s := by
  rintro rfl
  obtain ⟨f, -, hf, -⟩ := S.sub.of_mem_getSubscribers _ t d hd
  have hi := h.subscriptions_iff d.name
  rw [hs, hf] at hi
  cases hi

theorem dropEach_dropped {db : BrokerDb S} {p s : String} (n : ℕ) (h : Consistent db)
    (hp : db.lookup p = none)
    (hs : ∀ d, db.lookup s = some d → d.primary = false ∧ d.primaryName = p) :
    Dropped [s] (fun d => (db.cell d).secondaries) db (dropEach (dropClientN (n + 1)) db s) := by
  unfold dropEach
  rcases hd : db.lookup s with _ | sec
  · refine ⟨h, fun m => by by_cases hm : m = s <;> simp [hm, hd], fun t d => ?_, fun _ _ => rfl,
      fun _ => rfl, rfl⟩
    exact ⟨fun hm => ⟨hm, by simpa using h.name_ne_of_mem hd hm⟩, fun hm => hm.1⟩
  · obtain ⟨hsec, hpn⟩ := hs sec hd
    have hname := h.name_eq s sec hd
    set db₁ := if sec.kind = .internal then db else db.trigger sec with hdb₁
    have hl₁ : ∀ m, db₁.lookup m = db.lookup m := fun m => by rw [hdb₁]; split <;> rfl
    have hc₁ : Consistent db₁ := by rw [hdb₁]; split; exacts [h, h.trigger]
    have hr₁ : (db₁.cell sec).registered = true := by
      rw [hc₁.registered_iff, hl₁, hname, hd]
    simp only
    rw [dropClientN_orphan n hr₁ hsec (by rw [hl₁, hpn, hp])]
    refine ⟨hc₁.unlink hr₁, fun m => ?_, fun t d => ?_, fun d hdn => ?_, fun d => ?_, ?_⟩
    · rw [lookup_unlink, hl₁, hname]; simp
    · rw [unlink_subscriptions, S.mem_getSubscribers_unregister, hname, hdb₁, List.mem_singleton]
      split <;> rfl
    · have hne : d ≠ sec := by rintro rfl; exact hdn (by simp [hname])
      rw [unlink_disconnect, hdb₁]
      split
      · rfl
      · rw [trigger_disconnect_ne _ _ _ hne]
    · rw [unlink_secondaries, hdb₁]; split <;> simp
    · rw [unlink_nextId, hdb₁]; split <;> rfl

theorem foldl_dropEach (p : String) (n : ℕ) :
    ∀ (names : List String) (db : BrokerDb S), Consistent db →
    db.lookup p = none →
    (∀ s ∈ names, ∀ d, db.lookup s = some d → d.primary = false ∧ d.primaryName = p) →
    Dropped names (fun d => (db.cell d).secondaries) db
      (names.foldl (dropEach (dropClientN (n + 1))) db)
  | [], db, h, _, _ => ⟨h, fun m => by simp, fun t d => by simp, fun _ _ => rfl, fun _ => rfl, rfl⟩
  | s :: names, db, h, hp, hs => by
    have h₁ := dropEach_dropped n h hp (hs s List.mem_cons_self)
    refine dropped_cons h₁ (foldl_dropEach p n names _ h₁.consistent ?_ fun x hx d hd => ?_)
    · rw [h₁.lookup, hp]; simp
    · rw [h₁.lookup] at hd
      split at hd
      · cases hd
      · exact hs x (List.mem_cons_of_mem _ hx) d hd

/-- A registered primary knows exactly its registered secondaries. -/
theorem Inv.secondaries_iff {db : BrokerDb S} (h : Inv db) {p : BrokerClient}
    (hl : db.lookup p.name = some p) (hp : p.primary = true) (s : String) :
    s ∈ (db.cell p).secondaries ↔
      ∃ c, db.lookup s = some c ∧ c.primary = false ∧ c.primaryName = p.name := by
  rw [h.mem_secondaries, and_iff_right ⟨hl, hp⟩]

/-- The names that leave `clients` with `c`: its own, and its secondaries' if it
is primary. -/
def goes (db : BrokerDb S) (c : BrokerClient) : List String :=
  c.name :: if c.primary then (db.cell c).secondaries else []

theorem Inv.secondary {db : BrokerDb S} (h : Inv db) {c d : BrokerClient} {s : String}
    (hr : (db.cell c).registered = true) (hp : c.primary = true) (hs : s ∈ (db.cell c).secondaries)
    (hd : db.lookup s = some d) : d.primary = false ∧ d.primaryName = c.name := by
  obtain ⟨e, he, h1, h2⟩ := (h.secondaries_iff ((h.registered_iff c).mp hr) hp s).mp hs
  rw [hd] at he
  obtain rfl := Option.some.inj he
  exact ⟨h1, h2⟩

/-- The names that leave with a registered primary are those of its primary name. -/
theorem mem_goes_primary {db : BrokerDb S} (h : Inv db) {c d : BrokerClient}
    (hr : (db.cell c).registered = true) (hp : c.primary = true)
    (hd : (db.lookup d.name).isSome = true) :
    d.name ∈ db.goes c ↔ d.primaryName = c.name := by
  obtain ⟨e, he⟩ := Option.isSome_iff_exists.mp hd
  have hen := h.name_eq _ _ he
  have hlc := (h.registered_iff c).mp hr
  have hpn : d.primaryName = e.primaryName := by
    rw [BrokerClient.primaryName, BrokerClient.primaryName, hen]
  rw [goes, if_pos hp, List.mem_cons, h.secondaries_iff hlc hp, hpn]
  constructor
  · rintro (hn | ⟨e', he', -, h2⟩)
    · rw [hn, hlc] at he
      obtain rfl := Option.some.inj he
      exact (BrokerClient.primary_iff c).mp hp
    · rw [he] at he'
      obtain rfl := Option.some.inj he'
      exact h2
  · intro hn
    rcases hep : e.primary with _ | _
    · exact .inr ⟨e, he, hep, hn⟩
    · left; rw [← hen, ← hn]; exact ((BrokerClient.primary_iff e).mp hep).symm

theorem goes_secondary {db : BrokerDb S} {c : BrokerClient} (hp : c.primary = false) :
    db.goes c = [c.name] := by
  simp [goes, hp]

theorem dropClientN_unregistered (n : ℕ) {db : BrokerDb S} {c : BrokerClient}
    (hr : (db.cell c).registered = false) : dropClientN n db c = db := by
  cases n <;> simp [dropClientN, hr]

theorem dropClientN_of_primary (n : ℕ) {db : BrokerDb S} {c : BrokerClient}
    (hr : (db.cell c).registered = true) (hp : c.primary = true) : dropClientN (n + 1) db c =
      ((db.cell c).secondaries.foldl (dropEach (dropClientN n)) (db.unlink c)).mapSecondaries c
        fun _ => [] := by
  rw [dropClientN, if_pos hr]
  simp only [hp, if_true, unlink_secondaries]

/-- Dropping a registered primary takes it and its secondaries out, and empties
its set of secondaries. -/
theorem dropClientN_primary (n : ℕ) {db : BrokerDb S} {c : BrokerClient} (h : Inv db)
    (hr : (db.cell c).registered = true) (hp : c.primary = true) :
    Dropped (db.goes c) (fun d => if d = c then [] else (db.cell d).secondaries) db
      (dropClientN (n + 2) db c) := by
  have hu := h.unlink hr
  have hloop := foldl_dropEach c.name n (db.cell c).secondaries (db.unlink c) hu
    (by rw [lookup_unlink, if_pos rfl]) fun s hs d hd => by
      rw [lookup_unlink] at hd
      split at hd
      · cases hd
      · exact h.secondary hr hp hs hd
  have hgo : ∀ m, m ∈ db.goes c ↔ m = c.name ∨ m ∈ (db.cell c).secondaries := fun m => by
    rw [goes, if_pos hp, List.mem_cons]
  rw [dropClientN_of_primary (n + 1) hr hp]
  refine ⟨hloop.consistent.mapSecondaries _, fun m => ?_, fun t d => ?_,
    fun d hd => ?_, fun d => ?_,
    hloop.nextId⟩
  · rw [lookup_mapSecondaries, hloop.lookup, lookup_unlink]
    simp only [hgo]
    by_cases h1 : m = c.name <;> by_cases h2 : m ∈ (db.cell c).secondaries <;> simp [h1, h2]
  · rw [mapSecondaries_subscriptions, hloop.subscribers, unlink_subscriptions,
      S.mem_getSubscribers_unregister, hgo, not_or, and_assoc]
  · rw [hgo, not_or] at hd
    rw [mapSecondaries_disconnect, hloop.disconnect d hd.2, unlink_disconnect]
  · rw [mapSecondaries_secondaries, hloop.secondaries, unlink_secondaries]

/-- Dropping a registered secondary takes it out, also of its primary's set. -/
theorem dropClientN_secondary (n : ℕ) {db : BrokerDb S} {c : BrokerClient} (h : Inv db)
    (hr : (db.cell c).registered = true) (hp : c.primary = false) :
    Dropped (db.goes c) (fun d => if db.lookup c.primaryName = some d
        then (db.cell d).secondaries.erase c.name else (db.cell d).secondaries) db
      (dropClientN (n + 1) db c) := by
  have hu := h.unlink hr
  have hne : c.primaryName ≠ c.name := (c.primary_eq_false).mp hp
  have hl : (db.unlink c).lookup c.primaryName = db.lookup c.primaryName := by
    rw [lookup_unlink, if_neg hne]
  have hgo : ∀ m, m ∈ db.goes c ↔ m = c.name := fun m => by simp [goes, hp]
  have hlook : ∀ m, (db.unlink c).lookup m = if m ∈ db.goes c then none else db.lookup m := by
    intro m; simp only [lookup_unlink, hgo]
  have hsub : ∀ t d, d ∈ S.sub.getSubscribers (db.unlink c).subscriptions t ↔
      d ∈ S.sub.getSubscribers db.subscriptions t ∧ d.name ∉ db.goes c := by
    intro t d; rw [unlink_subscriptions, S.mem_getSubscribers_unregister, hgo]
  simp only [dropClientN, hr, hp, hl, if_true, Bool.false_eq_true, if_false]
  rcases hpl : db.lookup c.primaryName with _ | q
  · exact ⟨hu, hlook, hsub, fun d _ => unlink_disconnect .., fun d => by simp, rfl⟩
  · refine ⟨hu.mapSecondaries _, hlook, hsub, fun d _ => ?_, fun d => ?_, rfl⟩
    · rw [mapSecondaries_disconnect, unlink_disconnect]
    · simp only [mapSecondaries_secondaries, unlink_secondaries, Option.some.injEq, eq_comm]

theorem inv_dropClientN {db : BrokerDb S} (h : Inv db) (n : ℕ) (c : BrokerClient) :
    Inv (dropClientN (n + 2) db c) := by
  rcases hr : (db.cell c).registered with _ | _
  · rw [dropClientN_unregistered _ hr]; exact h
  have hlc := (h.registered_iff c).mp hr
  rcases hp : c.primary with _ | _
  · -- a secondary: its primary stays, and forgets it
    obtain ⟨hC, hl, -, -, hs, hn⟩ := dropClientN_secondary (n + 1) h hr hp
    have hgo : ∀ m, m ∈ db.goes c ↔ m = c.name := fun m => by simp [goes, hp]
    simp only [hgo] at hl
    have hsome : ∀ {m d}, (dropClientN (n + 2) db c).lookup m = some d → db.lookup m = some d ∧
        m ≠ c.name := by
      intro m d hd
      rw [hl] at hd
      split at hd
      · cases hd
      · exact ⟨hd, ‹_›⟩
    refine ⟨hC, fun m d hd hdp => ?_, fun p s => ?_, fun p => ?_, fun m d hd => ?_⟩
    · have hd := hsome hd
      rw [hl, if_neg fun he => ?_]
      · exact h.primary_mem m d hd.1 hdp
      · have := BrokerClient.primary_of_name_eq (c := d) (p := c) he.symm
        rw [hp] at this; cases this
    · -- the only name that left is `c`'s, and only its own primary lists it
      have hpc : p.primary = true → p.name ≠ c.name := fun hpp he => by
        have h1 := (BrokerClient.primary_iff p).mp hpp
        rw [BrokerClient.primaryName, he] at h1
        exact (BrokerClient.primary_eq_false c).mp hp h1
      have hold := h.mem_secondaries p s
      have hnd := h.secondaries_nodup p
      simp only [hs, hl]
      constructor
      · intro hmem
        have hmem' : s ∈ (db.cell p).secondaries := by
          split at hmem
          · exact List.mem_of_mem_erase hmem
          · exact hmem
        obtain ⟨⟨hpl, hpp⟩, d, hd, h1, h2⟩ := hold.mp hmem'
        refine ⟨⟨by rw [if_neg (hpc hpp)]; exact hpl, hpp⟩, d, ?_, h1, h2⟩
        rw [if_neg fun he => ?_]
        · exact hd
        · rw [he, hlc] at hd
          obtain rfl := Option.some.inj hd
          rw [h2, if_pos hpl, he] at hmem
          exact ((hnd.mem_erase_iff).mp hmem).1 rfl
      · rintro ⟨⟨hpl, hpp⟩, d, hd, h1, h2⟩
        rw [if_neg (hpc hpp)] at hpl
        split at hd
        · cases hd
        · have hmem := hold.mpr ⟨⟨hpl, hpp⟩, d, hd, h1, h2⟩
          split
          · exact (hnd.mem_erase_iff).mpr ⟨‹_›, hmem⟩
          · exact hmem
    · rw [hs]; split
      · exact (h.secondaries_nodup p).erase _
      · exact h.secondaries_nodup p
    · rw [hn]; exact h.fresh m d (hsome hd).1
  · -- a primary: everyone of its name leaves with it
    obtain ⟨hC, hl, -, -, hs, hn⟩ := dropClientN_primary n h hr hp
    have hgo : ∀ m d, db.lookup m = some d → (m ∈ db.goes c ↔ d.primaryName = c.name) := by
      intro m d hd
      obtain rfl := h.name_eq m d hd
      exact mem_goes_primary h hr hp (by rw [hd]; rfl)
    have hsome : ∀ {m d}, (dropClientN (n + 2) db c).lookup m = some d →
        db.lookup m = some d ∧ m ∉ db.goes c := by
      intro m d hd
      rw [hl] at hd
      split at hd
      · cases hd
      · exact ⟨hd, ‹_›⟩
    refine ⟨hC, fun m d hd hdp => ?_, fun p s => ?_, fun p => ?_, fun m d hd => ?_⟩
    · obtain ⟨hd, hm⟩ := hsome hd
      obtain ⟨q, hq⟩ := Option.isSome_iff_exists.mp (h.primary_mem m d hd hdp)
      have hqn := h.name_eq _ _ hq
      rw [hl, if_neg fun he => ?_, hq]
      · rfl
      · apply hm
        rw [hgo m d hd]
        have hqp := BrokerClient.primary_of_name_eq hqn
        rw [← hqn, ← (BrokerClient.primary_iff q).mp hqp]
        exact (hgo _ q hq).mp he
    · rw [hs]
      by_cases hpc : p = c
      · subst hpc
        simp [hl, goes]
      · have hpn : db.lookup p.name = some p → p.primary = true → p.name ∉ db.goes c :=
          fun hpl hpp he => by
            have h1 := (hgo _ p hpl).mp he
            rw [(BrokerClient.primary_iff p).mp hpp] at h1
            rw [h1, hlc] at hpl
            exact hpc (Option.some.inj hpl).symm
        rw [if_neg hpc, h.mem_secondaries]
        constructor
        · rintro ⟨⟨hpl, hpp⟩, d, hd, h1, h2⟩
          refine ⟨⟨by rw [hl, if_neg (hpn hpl hpp)]; exact hpl, hpp⟩, d, ?_, h1, h2⟩
          rw [hl, if_neg fun he => ?_]
          · exact hd
          · have h3 := (hgo s d hd).mp he
            rw [h2] at h3
            exact hpn hpl hpp (by rw [h3]; simp [goes])
        · rintro ⟨⟨hpl, hpp⟩, d, hd, h1, h2⟩
          exact ⟨⟨(hsome hpl).1, hpp⟩, d, (hsome hd).1, h1, h2⟩
    · rw [hs]; split
      · simp
      · exact h.secondaries_nodup p
    · rw [hn]; exact h.fresh m d (hsome hd).1

theorem Inv.dropClient {db : BrokerDb S} (h : Inv db) (c : BrokerClient) : Inv (db.dropClient c) :=
  inv_dropClientN h 0 c

/-- Two calls are deep enough: a deeper recursion gives the same. -/
theorem dropClientN_eq {db : BrokerDb S} (h : Inv db) (n : ℕ) (c : BrokerClient) :
    dropClientN (n + 2) db c = db.dropClient c := by
  rcases hr : (db.cell c).registered with _ | _
  · rw [dropClientN_unregistered _ hr, BrokerDb.dropClient, dropClientN_unregistered _ hr]
  rcases hp : c.primary with _ | _
  · simp only [BrokerDb.dropClient, dropClientN, hr, hp, if_true, Bool.false_eq_true, if_false]
  have hfold : ∀ (names : List String) (db : BrokerDb S), Consistent db → db.lookup c.name = none →
      (∀ s ∈ names, ∀ d, db.lookup s = some d → d.primary = false ∧ d.primaryName = c.name) →
      names.foldl (dropEach (dropClientN (n + 1))) db =
        names.foldl (dropEach (dropClientN 1)) db := by
    intro names
    induction names with
    | nil => intro _ _ _ _; rfl
    | cons s names ih =>
      intro db hC hc hs
      have h1 := dropEach_dropped 0 hC hc (hs s List.mem_cons_self)
      have hstep : dropEach (dropClientN (n + 1)) db s = dropEach (dropClientN 1) db s := by
        unfold dropEach
        rcases hd : db.lookup s with _ | sec
        · rfl
        · obtain ⟨h2, h3⟩ := hs s List.mem_cons_self sec hd
          have hr' :
              ((if sec.kind = .internal then db else db.trigger sec).cell sec).registered =
                true := by
            have : (db.cell sec).registered = true := by
              rw [hC.registered_iff, hC.name_eq s sec hd, hd]
            split
            · exact this
            · rw [trigger_registered]; exact this
          have hl' : (if sec.kind = .internal then db
              else db.trigger sec).lookup sec.primaryName = none := by
            rw [h3]; split
            · exact hc
            · exact hc
          simp only
          rw [dropClientN_orphan n hr' h2 hl', dropClientN_orphan 0 hr' h2 hl']
      rw [List.foldl_cons, List.foldl_cons, hstep]
      refine ih _ h1.consistent (by rw [h1.lookup, hc]; simp) fun x hx d hd => ?_
      rw [h1.lookup] at hd
      split at hd
      · cases hd
      · exact hs x (List.mem_cons_of_mem _ hx) d hd
  rw [dropClientN_of_primary (n + 1) hr hp, BrokerDb.dropClient, dropClientN_of_primary 1 hr hp,
    hfold _ _ (h.unlink hr) (by rw [lookup_unlink, if_pos rfl])]
  intro s hs d hd
  rw [lookup_unlink] at hd
  split at hd
  · cases hd
  · exact h.secondary hr hp hs hd

/-- The primary `insert_client` attaches the client to. -/
def Attach (db : BrokerDb S) (c : BrokerClient) (pc : Option BrokerClient) : Prop :=
  (c.primary = true ∧ pc = none) ∨
    (c.primary = false ∧ ∃ p, db.lookup c.primaryName = some p ∧ pc = some p)

/-- Everything `insert_client` can do. -/
theorem insertClient_cases (db : BrokerDb S) (c : BrokerClient) :
    (c.primary = false ∧ db.lookup c.primaryName = none ∧
      db.insertClient c = (db, .error Error.notRegistered)) ∨
    (∃ pc d, Attach db c pc ∧ db.lookup c.name = some d ∧
      db.insertClient c =
        (db, .error (Error.busy ("the client is already registred: " ++ c.name)))) ∨
    (∃ pc, Attach db c pc ∧ db.lookup c.name = none ∧
      db.insertClient c = (db.link c pc, .ok ())) := by
  rcases hp : c.primary with _ | _
  · rcases hl : db.lookup c.primaryName with _ | p
    · exact .inl ⟨rfl, rfl, by simp [insertClient, hp, hl]⟩
    · have ha : Attach db c (some p) := .inr ⟨hp, p, hl, rfl⟩
      rcases hn : db.lookup c.name with _ | d
      · exact .inr (.inr ⟨_, ha, rfl, by simp [insertClient, hp, hl, hn]⟩)
      · exact .inr (.inl ⟨_, d, ha, rfl, by simp [insertClient, hp, hl, hn]⟩)
  · have ha : Attach db c none := .inl ⟨hp, rfl⟩
    rcases hn : db.lookup c.name with _ | d
    · exact .inr (.inr ⟨_, ha, rfl, by simp [insertClient, hp, hn]⟩)
    · exact .inr (.inl ⟨_, d, ha, rfl, by simp [insertClient, hp, hn]⟩)

theorem Inv.link {db : BrokerDb S} (h : Inv db) {c : BrokerClient} {pc : Option BrokerClient}
    (ha : Attach db c pc) (hv : db.lookup c.name = none) (hid : c.id < db.nextId) :
    Inv (db.link c pc) := by
  have hno : ∀ p s, s ∈ (db.cell p).secondaries → s ≠ c.name := by
    rintro p s hs rfl
    obtain ⟨-, d, hd, -⟩ := (h.mem_secondaries p _).mp hs
    rw [hv] at hd; cases hd
  refine ⟨h.toConsistent.link hv pc, fun n d hd hdp => ?_, fun p s => ?_, fun p => ?_,
    fun n d hd => ?_⟩
  · rw [lookup_link] at hd ⊢
    split
    · rfl
    · split at hd
      · obtain rfl := Option.some.inj hd
        rcases ha with ⟨hp, -⟩ | ⟨-, p, hpl, -⟩
        · rw [hdp] at hp; cases hp
        · rw [hpl]; rfl
      · exact h.primary_mem n d hd hdp
  · simp only [link_secondaries, lookup_link]
    by_cases hpc : pc = some p
    · -- the new client is a secondary of `p`
      obtain ⟨hcp, q, hq, hqp⟩ : c.primary = false ∧ ∃ q, db.lookup c.primaryName = some q ∧
          pc = some q := by
        rcases ha with ⟨-, hn⟩ | hs
        · rw [hn] at hpc; cases hpc
        · exact hs
      obtain rfl : p = q := by rw [hqp] at hpc; exact (Option.some.inj hpc).symm
      have hpn := h.name_eq _ _ hq
      have hpp := BrokerClient.primary_of_name_eq hpn
      have hne : p.name ≠ c.name := fun he => by rw [← hpn, he, hv] at hq; cases hq
      have hpl : db.lookup p.name = some p := by rw [hpn]; exact hq
      rw [if_pos hpc, List.mem_insert_iff, h.mem_secondaries, if_neg hne]
      constructor
      · rintro (rfl | ⟨-, d, hd, h1, h2⟩)
        · exact ⟨⟨hpl, hpp⟩, c, by simp, hcp, hpn.symm⟩
        · refine ⟨⟨hpl, hpp⟩, d, ?_, h1, h2⟩
          rw [if_neg fun he => ?_]
          · exact hd
          · rw [he, hv] at hd; cases hd
      · rintro ⟨-, d, hd, h1, h2⟩
        split at hd
        · exact .inl ‹_›
        · exact .inr ⟨⟨hpl, hpp⟩, d, hd, h1, h2⟩
    · rw [if_neg hpc, h.mem_secondaries]
      constructor
      · rintro ⟨⟨hpl, hpp⟩, d, hd, h1, h2⟩
        have hne : p.name ≠ c.name := fun he => by rw [he, hv] at hpl; cases hpl
        refine ⟨⟨by rw [if_neg hne]; exact hpl, hpp⟩, d, ?_, h1, h2⟩
        rw [if_neg fun he => ?_]
        · exact hd
        · rw [he, hv] at hd; cases hd
      · rintro ⟨⟨hpl, hpp⟩, d, hd, h1, h2⟩
        -- a secondary of `p` cannot be new, nor can `p` have had one before it was there
        have hd' : db.lookup s = some d := by
          split at hd
          · obtain rfl := Option.some.inj hd
            exfalso
            rcases ha with ⟨hp, -⟩ | ⟨-, q, hq, hqp⟩
            · rw [h1] at hp; cases hp
            · apply hpc
              rw [hqp]
              rw [h2] at hq
              split at hpl
              · rename_i hpn; rw [hpn, hv] at hq; cases hq
              · rw [hpl] at hq; exact hq.symm
          · exact hd
        have hpr := h.primary_mem s d hd' h1
        rw [h2] at hpr
        split at hpl
        · rename_i hpn; rw [hpn, hv] at hpr; cases hpr
        · exact ⟨⟨hpl, hpp⟩, d, hd', h1, h2⟩
  · rw [link_secondaries]; split
    · exact (h.secondaries_nodup p).insert
    · exact h.secondaries_nodup p
  · rw [link_nextId]
    rw [lookup_link] at hd
    split at hd
    · rw [← Option.some.inj hd]; exact hid
    · exact h.fresh n d hd

/-- A change that the registry does not see. -/
theorem Inv.of_eq {db db' : BrokerDb S} (h : Inv db) (hl : ∀ n, db'.lookup n = db.lookup n)
    (hr : ∀ c, (db'.cell c).registered = (db.cell c).registered)
    (hs : ∀ c, (db'.cell c).secondaries = (db.cell c).secondaries)
    (hb : db'.broadcasts = db.broadcasts) (hsub : db'.subscriptions = db.subscriptions)
    (hn : db.nextId ≤ db'.nextId) : Inv db' where
  toConsistent := h.toConsistent.of_eq hl hr hb hsub
  primary_mem n c hc hp := by rw [hl] at hc ⊢; exact h.primary_mem n c hc hp
  mem_secondaries p s := by simp only [hs, hl]; exact h.mem_secondaries p s
  secondaries_nodup p := by rw [hs]; exact h.secondaries_nodup p
  fresh n c hc := (h.fresh n c (hl n ▸ hc)).trans_le hn

theorem Inv.trigger {db : BrokerDb S} (h : Inv db) (c : BrokerClient) : Inv (db.trigger c) :=
  h.of_eq (fun _ => rfl) (fun _ => trigger_registered ..)
    (fun _ => trigger_secondaries ..) rfl rfl le_rfl

theorem Inv.setTx {db : BrokerDb S} (h : Inv db) (c : BrokerClient) (f) : Inv (db.setTx c f) :=
  h.of_eq (fun _ => rfl) (fun _ => setTx_registered ..)
    (fun _ => setTx_secondaries ..) rfl rfl le_rfl

/-- After a drop the client's names are free, and nobody else has gone. -/
theorem dropClient_dropped {db : BrokerDb S} (h : Inv db) {c : BrokerClient}
    (hr : (db.cell c).registered = true) : ∃ sec, Dropped (db.goes c) sec db (db.dropClient c) := by
  rcases hp : c.primary with _ | _
  · exact ⟨_, dropClientN_secondary 1 h hr hp⟩
  · exact ⟨_, dropClientN_primary 0 h hr hp⟩

theorem lookup_dropClient {db : BrokerDb S} (h : Inv db) {c : BrokerClient}
    (hr : (db.cell c).registered = true) (m : String) :
    (db.dropClient c).lookup m = if m ∈ db.goes c then none else db.lookup m := by
  obtain ⟨_, hd⟩ := dropClient_dropped h hr
  exact hd.lookup m

theorem dropClient_unregistered {db : BrokerDb S} {c : BrokerClient}
    (hr : (db.cell c).registered = false) :
    db.dropClient c = db := dropClientN_unregistered 2 hr

theorem dropClient_nextId {db : BrokerDb S} (h : Inv db) (c : BrokerClient) :
    (db.dropClient c).nextId = db.nextId := by
  rcases hr : (db.cell c).registered with _ | _
  · rw [dropClient_unregistered hr]
  · obtain ⟨_, hd⟩ := dropClient_dropped h hr
    exact hd.nextId

/-- Who is still registered after a drop. -/
theorem registered_dropClient {db : BrokerDb S} (h : Inv db) {c : BrokerClient}
    (hr : (db.cell c).registered = true) (d : BrokerClient) :
    ((db.dropClient c).cell d).registered = true ↔ (db.cell d).registered = true ∧
      d.name ∉ db.goes c := by
  rw [(h.dropClient c).registered_iff, lookup_dropClient h hr, h.registered_iff]
  by_cases hd : d.name ∈ db.goes c <;> simp [hd]

/-! ### What dropping clients leaves alone -/

/-- What no drop of a client changes, and what it changes in one direction only. -/
structure Keeps (db db' : BrokerDb S) : Prop where
  tx : ∀ d, (db'.cell d).tx = (db.cell d).tx
  hasExclusions : ∀ d, (db'.cell d).hasExclusions = (db.cell d).hasExclusions
  exclusions : ∀ d, (db'.cell d).exclusions = (db.cell d).exclusions
  core : db'.core = db.core
  brokerRpc : db'.brokerRpc = db.brokerRpc
  registered : ∀ d, (db'.cell d).registered = true → (db.cell d).registered = true
  disconnect : ∀ d, (db.cell d).disconnect = true → (db'.cell d).disconnect = true
  held : ∀ k, S.sub.held db'.subscriptions k = S.sub.held db.subscriptions k ∨
    S.sub.held db'.subscriptions k = none

namespace Keeps

variable {db db' db'' : BrokerDb S}

theorem refl (db : BrokerDb S) : Keeps db db :=
  ⟨fun _ => rfl, fun _ => rfl, fun _ => rfl, rfl, rfl, fun _ h => h, fun _ h => h,
    fun _ => .inl rfl⟩

theorem trans (h : Keeps db db') (h' : Keeps db' db'') : Keeps db db'' where
  tx d := (h'.tx d).trans (h.tx d)
  hasExclusions d := (h'.hasExclusions d).trans (h.hasExclusions d)
  exclusions d := (h'.exclusions d).trans (h.exclusions d)
  core := h'.core.trans h.core
  brokerRpc := h'.brokerRpc.trans h.brokerRpc
  registered d hd := h.registered d (h'.registered d hd)
  disconnect d hd := h'.disconnect d (h.disconnect d hd)
  held k := by
    rcases h'.held k with he | he
    · rw [he]; exact h.held k
    · exact .inr he

/-- A change of one client's cell. -/
theorem setCell (db : BrokerDb S) (c : BrokerClient) (f : ClientCell S → ClientCell S)
    (htx : ∀ x, (f x).tx = x.tx) (hh : ∀ x, (f x).hasExclusions = x.hasExclusions)
    (he : ∀ x, (f x).exclusions = x.exclusions)
    (hr : ∀ x, (f x).registered = true → x.registered = true)
    (hd : ∀ x, x.disconnect = true → (f x).disconnect = true) : Keeps db (db.setCell c f) where
  tx d := by rw [setCell_cell]; split; exacts [by rw [htx, ‹d = c›], rfl]
  hasExclusions d := by rw [setCell_cell]; split; exacts [by rw [hh, ‹d = c›], rfl]
  exclusions d := by rw [setCell_cell]; split; exacts [by rw [he, ‹d = c›], rfl]
  core := rfl
  brokerRpc := rfl
  registered d h := by
    rw [setCell_cell] at h
    split at h
    · rw [‹d = c›]; exact hr _ h
    · exact h
  disconnect d h := by
    rw [setCell_cell]
    split
    · rw [‹d = c›] at h; exact hd _ h
    · exact h
  held _ := .inl rfl

theorem recorded (h : Keeps db db') (k : S.Key) (mask : String) (d : BrokerClient)
    (hr : S.Recorded db'.subscriptions k mask d) : S.Recorded db.subscriptions k mask d := by
  obtain ⟨g, hg, hd⟩ := hr
  rcases h.held k with he | he
  · exact ⟨g, he ▸ hg, hd⟩
  · rw [he] at hg; cases hg

theorem unlink (db : BrokerDb S) (c : BrokerClient) : Keeps db (db.unlink c) := by
  have h := setCell db c (fun x => { x with registered := false }) (fun _ => rfl) (fun _ => rfl)
    (fun _ => rfl) (fun _ h => by cases h) (fun _ h => h)
  exact ⟨h.tx, h.hasExclusions, h.exclusions, rfl, rfl, h.registered, h.disconnect,
    fun k => S.held_unregister_or db.subscriptions c k⟩

theorem mapSecondaries (db : BrokerDb S) (c : BrokerClient) (f) :
    Keeps db (db.mapSecondaries c f) :=
  setCell db c _ (fun _ => rfl) (fun _ => rfl) (fun _ => rfl) (fun _ h => h) (fun _ h => h)

theorem trigger (db : BrokerDb S) (c : BrokerClient) : Keeps db (db.trigger c) :=
  setCell db c _ (fun _ => rfl) (fun _ => rfl) (fun _ => rfl) (fun _ h => h) (fun _ _ => rfl)

theorem foldl {drop : BrokerDb S → BrokerClient → BrokerDb S}
    (hdrop : ∀ db c, Keeps db (drop db c)) :
    ∀ (names : List String) (db : BrokerDb S), Keeps db (names.foldl (dropEach drop) db)
  | [], db => refl db
  | s :: names, db => by
    refine trans ?_ (foldl hdrop names (dropEach drop db s))
    unfold dropEach
    split
    · refine trans ?_ (hdrop _ _)
      split
      · exact refl db
      · exact trigger db _
    · exact refl db

theorem dropClientN : ∀ (n : ℕ) (db : BrokerDb S) (c : BrokerClient), Keeps db (dropClientN n db c)
  | 0, db, _ => refl db
  | n + 1, db, c => by
    rw [BrokerDb.dropClientN]
    split
    · refine (unlink db c).trans ?_
      simp only
      split
      · exact (foldl (fun db c => dropClientN n db c) _ _).trans (mapSecondaries ..)
      · split
        · exact mapSecondaries ..
        · exact refl _
    · exact refl db

theorem dropClient (db : BrokerDb S) (c : BrokerClient) : Keeps db (db.dropClient c) :=
  dropClientN 2 db c

end Keeps

/-! ### Forced registration -/

/-- The forced path takes the previous instance out of `clients` first, which
`drop_client` does anyway. -/
theorem dropClient_erase {db : BrokerDb S} {prev : BrokerClient}
    (hr : (db.cell prev).registered = true) :
    ({ db with clients := db.clients.erase prev.name } : BrokerDb S).dropClient prev =
      db.dropClient prev := by
  simp only [dropClient, dropClientN, hr, if_true, unlink_erase]

theorem Attach.of_lookup {db db' : BrokerDb S} {c : BrokerClient} {pc : Option BrokerClient}
    (ha : Attach db c pc)
    (hl : c.primary = false → db'.lookup c.primaryName = db.lookup c.primaryName) :
    Attach db' c pc := by
  rcases ha with h | ⟨hp, p, hpl, rfl⟩
  · exact .inl h
  · exact .inr ⟨hp, p, by rw [hl hp]; exact hpl, rfl⟩

/-- Where the client's primary can be found and its name is free, it is linked. -/
theorem insertClient_link {db : BrokerDb S} {c : BrokerClient} {pc : Option BrokerClient}
    (ha : Attach db c pc) (hv : db.lookup c.name = none) :
    db.insertClient c = (db.link c pc, .ok ()) := by
  rcases ha with ⟨hp, rfl⟩ | ⟨hp, p, hl, rfl⟩
  · simp [insertClient, hp, hv]
  · simp [insertClient, hp, hl, hv]

/-- After the previous instance was dropped its name is free, and the primary of
a secondary of that name is still there. -/
theorem attach_dropClient {db : BrokerDb S} {c prev : BrokerClient} {pc : Option BrokerClient}
    (h : Inv db) (hprev : db.lookup c.name = some prev) (ha : Attach db c pc) :
    Attach ((db.dropClient prev).trigger prev) c pc ∧
      ((db.dropClient prev).trigger prev).lookup c.name = none := by
  have hn := h.name_eq _ _ hprev
  have hr : (db.cell prev).registered = true := by rw [h.registered_iff, hn, hprev]
  have hprim : prev.primary = c.primary := by
    rw [BrokerClient.primary, BrokerClient.primary, BrokerClient.primaryName, hn,
      BrokerClient.primaryName]
  refine ⟨ha.of_lookup fun hp => ?_, ?_⟩
  · have hne := (BrokerClient.primary_eq_false c).mp hp
    rw [lookup_trigger, lookup_dropClient h hr, goes, hprim, hp, hn]
    simp [hne]
  · rw [lookup_trigger, lookup_dropClient h hr, goes, hn]
    simp

/-- Everything `register_client` can do: fail and change nothing, join where the
name is free, or take the name over. -/
theorem registerClient_cases {db : BrokerDb S} (h : Inv db) (c : BrokerClient) :
    (∃ e, (e = Error.notRegistered ∨
      e = Error.busy ("the client is already registred: " ++ c.name)) ∧
      db.registerClient c = (db, .error e)) ∨
    (∃ pc, Attach db c pc ∧ db.lookup c.name = none ∧
      db.registerClient c = (db.link c pc, .ok ())) ∨
    (∃ pc prev, Attach db c pc ∧ db.lookup c.name = some prev ∧ db.allowForce c = true ∧
      db.registerClient c = (((db.dropClient prev).trigger prev).link c pc, .ok ())) := by
  rcases insertClient_cases db c with ⟨hp, hl, hi⟩ | ⟨pc, prev, ha, hprev, hi⟩ | ⟨pc, ha, hv, hi⟩
  · exact .inl ⟨_, .inl rfl, by simp [registerClient, hi, Error.notRegistered]⟩
  · rcases hf : db.allowForce c with _ | _
    · exact .inl ⟨_, .inr rfl, by simp [registerClient, hi, hf]⟩
    · refine .inr (.inr ⟨pc, prev, ha, hprev, rfl, ?_⟩)
      have hn := h.name_eq _ _ hprev
      have hr : (db.cell prev).registered = true := by rw [h.registered_iff, hn, hprev]
      have hd := dropClient_erase hr
      rw [hn] at hd
      obtain ⟨ha', hv'⟩ := attach_dropClient h hprev ha
      simp only [registerClient, hi, Error.busy, hf, and_self, if_true, hprev, hd]
      exact insertClient_link ha' hv'
  · exact .inr (.inl ⟨pc, ha, hv, by simp [registerClient, hi]⟩)

theorem Inv.registerClient {db : BrokerDb S} (h : Inv db) {c : BrokerClient}
    (hid : c.id < db.nextId) :
    Inv (db.registerClient c).1 := by
  rcases registerClient_cases h c with ⟨e, -, he⟩ | ⟨pc, ha, hv, he⟩ | ⟨pc, prev, ha, hprev, -, he⟩
  · rw [he]; exact h
  · rw [he]; exact h.link ha hv hid
  · rw [he]
    obtain ⟨ha', hv'⟩ := attach_dropClient h hprev ha
    refine ((h.dropClient prev).trigger prev).link ha' hv' ?_
    rw [trigger_nextId, dropClient_nextId h]
    exact hid

theorem link_tx (db : BrokerDb S) (c d : BrokerClient) (pc : Option BrokerClient) :
    ((db.link c pc).cell d).tx = (db.cell d).tx := by
  have hreg : ∀ (db : BrokerDb S), ((db.setRegistered c true).cell d).tx =
      (db.cell d).tx := fun db => by
    rw [setRegistered, setCell_cell]; split <;> simp_all
  cases pc with
  | none => exact hreg _
  | some p => exact (hreg _).trans ((Keeps.mapSecondaries db p _).tx d)

/-- A registration touches no queue. -/
theorem registerClient_tx {db : BrokerDb S} (h : Inv db) (c d : BrokerClient) :
    ((db.registerClient c).1.cell d).tx = (db.cell d).tx := by
  rcases registerClient_cases h c with ⟨e, -, he⟩ | ⟨pc, -, -, he⟩ | ⟨pc, prev, -, -, -, he⟩
  · rw [he]
  · rw [he, link_tx]
  · rw [he, link_tx, (Keeps.trigger _ _).tx, (Keeps.dropClient db prev).tx]

/-- A registration records nothing but the topic of warnings, for the client. -/
theorem recorded_of_registerClient {db : BrokerDb S} (h : Inv db) {c d : BrokerClient} {k : S.Key}
    {mask : String} (hr : S.Recorded (db.registerClient c).1.subscriptions k mask d) :
    S.Recorded db.subscriptions k mask d ∨ (mask = BROKER_WARN_TOPIC ∧ d = c) := by
  have hlink : ∀ (db : BrokerDb S) pc, S.Recorded (db.link c pc).subscriptions k mask d →
      S.Recorded db.subscriptions k mask d ∨ (mask = BROKER_WARN_TOPIC ∧ d = c) := by
    intro db pc hl
    rw [link_subscriptions] at hl
    exact (Submap.recorded_of_subscribe hl).imp_left Submap.recorded_of_register
  rcases registerClient_cases h c with ⟨e, -, he⟩ | ⟨pc, -, -, he⟩ | ⟨pc, prev, -, -, -, he⟩
  · rw [he] at hr; exact .inl hr
  · rw [he] at hr; exact hlink db pc hr
  · rw [he] at hr
    refine (hlink _ pc hr).imp_left fun hd => (Keeps.dropClient db prev).recorded _ _ _ ?_
    exact hd

theorem registerClient_nextId {db : BrokerDb S} (h : Inv db) (c : BrokerClient) :
    (db.registerClient c).1.nextId = db.nextId := by
  rcases registerClient_cases h c with ⟨e, -, he⟩ | ⟨pc, -, -, he⟩ | ⟨pc, prev, -, -, -, he⟩
  · rw [he]
  · rw [he, link_nextId]
  · rw [he, link_nextId, trigger_nextId, dropClient_nextId h]

/-- A registration that fails is refused with `Busy` or `NotRegistered` and
changes nothing. -/
theorem registerClient_error {db : BrokerDb S} (h : Inv db) {c : BrokerClient} {e : Error}
    (he : (db.registerClient c).2 = .error e) :
    (e.kind = .busy ∨ e.kind = .notRegistered) ∧ (db.registerClient c).1 = db := by
  rcases registerClient_cases h c with ⟨e', hk, hc⟩ | ⟨pc, -, -, hc⟩ | ⟨pc, prev, -, -, -, hc⟩
  · rw [hc] at he ⊢
    obtain rfl : e' = e := by simpa using he
    refine ⟨?_, rfl⟩
    rcases hk with rfl | rfl
    · exact .inr rfl
    · exact .inl rfl
  · rw [hc] at he; cases he
  · rw [hc] at he; cases he

/-! ### What `client_list` reports -/

theorem mem_values {db : BrokerDb S} (h : Consistent db) {c : BrokerClient} :
    c ∈ db.values ↔ db.lookup c.name = some c := by
  rw [values, List.mem_map]
  constructor
  · rintro ⟨⟨n, d⟩, he, rfl⟩
    have hl : db.lookup n = some d := AList.mem_lookup_iff.mpr he
    have hn := h.name_eq n d hl
    simp only at hn ⊢
    rw [hn, hl]
  · intro hl
    exact ⟨⟨c.name, c⟩, AList.mem_lookup_iff.mp hl, rfl⟩

theorem nodup_values {db : BrokerDb S} (h : Consistent db) : (db.values.map (·.name)).Nodup := by
  have hk : db.values.map (·.name) = db.clients.keys := by
    rw [values, List.map_map, AList.keys, List.keys]
    refine List.map_congr_left fun e he => ?_
    exact h.name_eq e.1 e.2 (AList.mem_lookup_iff.mpr he)
  rw [hk]
  exact db.clients.keys_nodup

/-- The registered clients of a primary name. -/
def instancesOf (db : BrokerDb S) (n : String) : List BrokerClient :=
  db.values.filter fun c => c.primaryName = n

/-- The number of instances reported is the number of registered clients of the
primary's name. -/
theorem instances_eq {db : BrokerDb S} (h : Inv db) {p : BrokerClient}
    (hl : db.lookup p.name = some p) (hp : p.primary = true) :
    (db.clientInfo p).instances = (db.instancesOf p.name).length := by
  have hnd : ((db.instancesOf p.name).map (·.name)).Nodup :=
    (nodup_values h.toConsistent).sublist (List.filter_sublist.map _)
  have hnd' : (p.name :: (db.cell p).secondaries).Nodup := by
    refine List.nodup_cons.mpr ⟨fun hm => ?_, h.secondaries_nodup p⟩
    obtain ⟨c, hc, hcp, -⟩ := (h.secondaries_iff hl hp _).mp hm
    rw [hl] at hc
    obtain rfl := Option.some.inj hc
    rw [hp] at hcp; cases hcp
  have hperm : ((db.instancesOf p.name).map (·.name)).Perm (p.name :: (db.cell p).secondaries) := by
    refine (List.perm_ext_iff_of_nodup hnd hnd').mpr fun n => ?_
    simp only [instancesOf, List.mem_map, List.mem_filter, mem_values h.toConsistent,
      decide_eq_true_eq, List.mem_cons, h.secondaries_iff hl hp]
    constructor
    · rintro ⟨c, ⟨hc, hcn⟩, rfl⟩
      rcases hcp : c.primary with _ | _
      · exact .inr ⟨c, hc, hcp, hcn⟩
      · exact .inl (by rw [← (BrokerClient.primary_iff c).mp hcp, hcn])
    · rintro (rfl | ⟨c, hc, -, hcn⟩)
      · exact ⟨p, ⟨hl, (BrokerClient.primary_iff p).mp hp⟩, rfl⟩
      · have hn := h.name_eq _ _ hc
        exact ⟨c, ⟨by rw [hn, hc], hcn⟩, hn⟩
  have hlen := hperm.length_eq
  rw [List.length_map, List.length_cons] at hlen
  rw [clientInfo, hlen]

/-- What is listed: the registered primaries that pass the filter. -/
theorem mem_clientList {db : BrokerDb S} (h : Consistent db) (filter : String → Bool)
    (i : ClientInfo) :
    i ∈ db.clientList filter ↔
      ∃ p, db.lookup p.name = some p ∧ p.primary = true ∧ filter p.name = true ∧
        i = db.clientInfo p := by
  simp only [clientList, List.mem_mergeSort, List.mem_map, List.mem_filter, mem_values h,
    Bool.and_eq_true, and_assoc]
  exact ⟨fun ⟨p, h1, h2, h3, h4⟩ => ⟨p, h1, h2, h3, h4.symm⟩,
    fun ⟨p, h1, h2, h3, h4⟩ => ⟨p, h1, h2, h3, h4.symm⟩⟩

/-- No name is listed twice. -/
theorem nodup_clientList {db : BrokerDb S} (h : Consistent db) (filter : String → Bool) :
    ((db.clientList filter).map (·.name)).Nodup := by
  have hp := (List.mergeSort_perm
    ((db.values.filter fun c => c.primary && filter c.name).map db.clientInfo)
    fun a b => a.name ≤ b.name).map (·.name)
  refine hp.nodup_iff.mpr ?_
  rw [List.map_map]
  exact (nodup_values h).sublist (List.filter_sublist.map _)

/-! ### Runs of the registry -/

/-- The complete operations on the registry. `secondaryId` is the value of the
handle's `secondary_counter`. -/
inductive Op
  | register (name : String) (kind : BusRtClientKind) (source port : Option String)
  | registerSecondaryFor (c : BrokerClient) (secondaryId : ℕ)
  | unregisterClient (c : BrokerClient)
  | dropOfClient (c : BrokerClient)
  | finishPeer (c : BrokerClient)
  | forceUnregister (c : BrokerClient)

namespace Op

/-- `BusRtClient::new` and `register_client`, as the broker and a peer do it. -/
def registerNew (db : BrokerDb S) (name : String) (kind : BusRtClientKind)
    (source port : Option String) :
    BrokerDb S × Except Error Unit :=
  let (c, db) := db.alloc name kind source port
  db.registerClient c

/-- One operation, with what it returns. -/
def exec (db : BrokerDb S) : Op → BrokerDb S × Except Error Unit
  | register name kind source port => registerNew db name kind source port
  | registerSecondaryFor c secondaryId =>
    if c.primary then
      registerNew db (c.name ++ SECONDARY_SEP ++ toString secondaryId) .internal none none
    else (db, .error (Error.notSupported "not a primary client"))
  | unregisterClient c => (db.dropClient c, .ok ())
  | dropOfClient c => (db.dropClient c, .ok ())
  | finishPeer c => (db.dropClient c, .ok ())
  | forceUnregister c => (db.forceUnregister c, .ok ())

/-- The state after a sequence of operations. -/
def run (db : BrokerDb S) (ops : List Op) : BrokerDb S := ops.foldl (fun db op => (op.exec db).1) db

theorem inv_alloc {db : BrokerDb S} (h : Inv db) (name kind source port) :
    Inv (db.alloc name kind source port).2 := by
  have hno : db.lookup name ≠ some ⟨db.nextId, name, kind, source, port⟩ := fun he =>
    absurd (h.fresh _ _ he) (lt_irrefl _)
  refine h.of_eq (fun _ => rfl) (fun c => ?_) (fun c => ?_) rfl rfl (Nat.le_succ _)
  · simp only [alloc, setCell_cell]
    split
    · rename_i hc
      subst hc
      have hr := (h.registered_iff ⟨db.nextId, name, kind, source, port⟩).not.mpr hno
      simpa [ClientCell.new] using hr
    · rfl
  · simp only [alloc, setCell_cell]
    split
    · rename_i hc
      subst hc
      refine (List.eq_nil_iff_forall_not_mem.mpr fun s hs => ?_).symm
      exact hno ((h.mem_secondaries _ s).mp hs).1.1
    · rfl

theorem inv_registerNew {db : BrokerDb S} (h : Inv db) (name kind source port) :
    Inv (registerNew db name kind source port).1 :=
  (inv_alloc h name kind source port).registerClient (Nat.lt_succ_self db.nextId)

/-- Every operation keeps the invariant. -/
theorem inv {db : BrokerDb S} (h : Inv db) (op : Op) : Inv (op.exec db).1 := by
  cases op with
  | register name kind source port => exact inv_registerNew h name kind source port
  | registerSecondaryFor c k =>
    rw [exec]
    split
    · exact inv_registerNew h ..
    · exact h
  | unregisterClient c => exact h.dropClient c
  | dropOfClient c => exact h.dropClient c
  | finishPeer c => exact h.dropClient c
  | forceUnregister c => exact (h.dropClient c).setTx c _

/-- Every sequence of operations keeps the invariant. -/
theorem inv_run : ∀ (ops : List Op) {db : BrokerDb S}, Inv db → Inv (run db ops)
  | [], _, h => h
  | op :: ops, _, h => inv_run ops (inv h op)

end Op

/-- **The registry is consistent in every reachable state**, what `client_list`
reports of it is right, and a registration that fails changes nothing. -/
theorem registry_invariant (S : Submap) (force rpc : Bool) (q : ℕ+) (ops : List Op) :
    let db := Op.run (BrokerDb.empty S force rpc q) ops
    -- a client is kept under its name, and has the flag iff it is the one kept
    ((∀ n c, db.lookup n = some c → c.name = n) ∧
      ∀ c, (db.cell c).registered = true ↔ db.lookup c.name = some c) ∧
    -- the other two maps know exactly the names of `clients`
    (∀ n, ((S.bcast.held db.broadcasts (S.sha256 n)).isSome ↔ n ∈ db.clients) ∧
      ((S.sub.held db.subscriptions (S.sha256 n)).isSome ↔ n ∈ db.clients)) ∧
    -- secondaries have their primary, and a primary has exactly its secondaries
    ((∀ n c, db.lookup n = some c → c.primary = false →
        ∃ p, db.lookup c.primaryName = some p ∧ p.primary = true) ∧
      ∀ p, db.lookup p.name = some p → p.primary = true → (db.cell p).secondaries.Nodup ∧
        ∀ s, s ∈ (db.cell p).secondaries ↔
          ∃ c, db.lookup s = some c ∧ c.primary = false ∧ c.primaryName = p.name) ∧
    -- each registered primary is listed once, with the number of its instances
    (∀ filter, ((db.clientList filter).map (·.name)).Nodup ∧
      (∀ p, db.lookup p.name = some p → p.primary = true → filter p.name = true →
        ∃ i ∈ db.clientList filter, i.name = p.name) ∧
      ∀ i ∈ db.clientList filter, ∃ p, db.lookup i.name = some p ∧ p.primary = true ∧
        filter i.name = true ∧ i.instances = (db.instancesOf i.name).length) ∧
    -- a registration that is refused leaves everything as it was
    (∀ c e, (db.registerClient c).2 = .error e →
      (e.kind = .busy ∨ e.kind = .notRegistered) ∧ (db.registerClient c).1 = db) := by
  intro db
  have h : Inv db := Op.inv_run ops (inv_empty force rpc q)
  have hkey : ∀ n, (db.lookup n).isSome ↔ n ∈ db.clients := fun n => AList.lookup_isSome
  refine ⟨⟨h.name_eq, h.registered_iff⟩, fun n => ⟨?_, ?_⟩,
    ⟨fun n c hc hp => ?_, fun p hl hp => ?_⟩,
    fun filter => ⟨nodup_clientList h.toConsistent filter, fun p hl hp hf => ?_, fun i hi => ?_⟩,
    fun c e he => registerClient_error h he⟩
  · rw [h.broadcasts_eq]; exact hkey n
  · rw [h.subscriptions_iff]; exact hkey n
  · obtain ⟨p, hpl⟩ := Option.isSome_iff_exists.mp (h.primary_mem n c hc hp)
    exact ⟨p, hpl, BrokerClient.primary_of_name_eq (h.name_eq _ _ hpl)⟩
  · exact ⟨h.secondaries_nodup p, h.secondaries_iff hl hp⟩
  · exact ⟨_, (mem_clientList h.toConsistent filter _).mpr ⟨p, hl, hp, hf, rfl⟩, rfl⟩
  · obtain ⟨p, hl, hp, hf, rfl⟩ := (mem_clientList h.toConsistent filter i).mp hi
    exact ⟨p, hl, hp, hf, instances_eq h hl hp⟩

end BrokerDb

end Busrt
