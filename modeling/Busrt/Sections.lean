/-
# The registry, one lock at a time

`insert_client`, `register_client`, `drop_client`, `unregister_client` and what
else works on the registry take the mutexes of the broker one after the other:
`clients`, `broadcasts`, `subscriptions`, and of each client `secondaries` and
`exclusions`. Here every acquisition and every release is a step of its own, and
so is every load and store of a `registered` flag; what a task has left to do is
a list of instructions, and an instruction may lead to others (`Instr.leads`).
What the queues hold is left open: a queue may be full whenever a frame is put in.

`LeadsTo` says once what an instruction can lead to, and `lookup_onDb`,
`registered_onDb` and `secondaries_onDb` what it does to the registry; the
invariants over all interleavings rest on these.

Key definitions: `Mutex`, `Instr`, `Instr.onDb`, `Instr.leads`, `Mach`, `machStep`, `LeadsTo`.
Key theorems: `leadsTo_of_mem`, `machStep_effect`, `mem_ran`.
-/
import Busrt.System

namespace Busrt

open Lib BrokerDb

variable {S : Submap}

/-! ### Instructions -/

/-- The blocking mutexes of the broker. -/
inductive Mutex
  | clients
  | broadcasts
  | subscriptions
  | secondaries (c : BrokerClient)
  | exclusions (c : BrokerClient)
  deriving DecidableEq, Repr

/-- The operations on what a client gets. -/
inductive TopicOp
  | subscribe | unsubscribe | exclude | unexclude
  deriving DecidableEq, Repr

namespace TopicOp

/-- The mutex of such an operation. -/
def mutex (c : BrokerClient) : TopicOp → Mutex
  | subscribe | unsubscribe => .subscriptions
  | exclude | unexclude => .exclusions c

def act (c : BrokerClient) (topics : List String) : TopicOp → Act
  | subscribe => .subscribe c topics
  | unsubscribe => .unsubscribe c topics
  | exclude => .exclude c topics true
  | unexclude => .unexclude c topics true

/-- Under its mutex. -/
def onDb (db : BrokerDb S) (c : BrokerClient) (topics : List String) (op : TopicOp) : BrokerDb S :=
  (execDb .plain db (op.act c topics)).elim db (·.1)

end TopicOp

/-- What a task does next. -/
inductive Instr
  | lock (m : Mutex)
  /-- `secondaries.lock()` of a client found under the lock of `clients`. -/
  | lockSecondaries (p : BrokerClient)
  | unlock (m : Mutex)
  /-- `insert_client`, under `clients`; `second` after the previous instance was removed. -/
  | insert (c : BrokerClient) (second : Bool)
  | join (p c : BrokerClient)
  | enterBroadcasts (c : BrokerClient)
  | enterSubscriptions (c : BrokerClient)
  | flag (c : BrokerClient)
  | place (c : BrokerClient)
  /-- `register_client` returns `Ok`. -/
  | ok (c : BrokerClient)
  /-- `clients.lock().remove(&name)` of `register_client`. -/
  | displace (c : BrokerClient)
  /-- `unregister_client`. -/
  | wasRegistered (c : BrokerClient)
  /-- `drop_client`, in the loop of the primary's or not. -/
  | drop (c : BrokerClient) (primary : Option BrokerClient)
  | unflag (c : BrokerClient)
  | leaveSubscriptions (c : BrokerClient)
  | leaveBroadcasts (c : BrokerClient)
  | remove (c : BrokerClient)
  /-- The loop over the secondaries. -/
  | secondaries (c : BrokerClient)
  | find (p : BrokerClient) (name : String)
  | clear (c : BrokerClient)
  /-- The end of `drop_client` of a secondary. -/
  | leave (c : BrokerClient)
  | erase (p : BrokerClient) (name : String)
  | trigger (c : BrokerClient)
  | announce (event : BrokerEvent)
  /-- The guard of `rpc_client` is dropped. -/
  | announced
  | topics (op : TopicOp) (c : BrokerClient) (topics : List String)
  /-- `send!`, `send_broadcast!` and `publish!`. -/
  | lookup (target : String)
  | mask (mask : String)
  | topic (topic : String) (receiver : Option String)
  /-- `subs.retain` of `publish!`: who is left to ask, and who is kept. -/
  | retain (topic : String) (receiver : Option String) (subs kept : List BrokerClient)
  | excluded (topic : String) (receiver : Option String) (sub : BrokerClient)
      (subs kept : List BrokerClient)
  /-- `safe_send_frame!`. -/
  | deliver (tgt : BrokerClient)
  /-- `trigger_disconnect`. -/
  | triggerName (name : String)
  /-- `client_list`. -/
  | list
  deriving DecidableEq

/-- What is left open: the order of sets, and whether a queue is full. -/
structure Pick where
  names : List String → List String
  names_perm : ∀ l, (names l).Perm l
  iter : List BrokerClient → List BrokerClient
  iter_perm : ∀ l, (iter l).Perm l
  full : Bool

theorem perm_id {α : Type*} (l : List α) : (id l).Perm l := .refl l

/-- Sets in the order they are kept, and a queue that is full or not. -/
def Pick.plain (full : Bool) : Pick := ⟨id, perm_id, id, perm_id, full⟩

/-- `primary_client` of `insert_client`, `none` when it is not there. -/
def primaryClient (db : BrokerDb S) (c : BrokerClient) : Option (Option BrokerClient) :=
  if c.primary then some none else (db.lookup c.primaryName).map some

/-- The primary with which `insert_client` takes its vacant branch, if it does. -/
def vacant (db : BrokerDb S) (c : BrokerClient) : Option (Option BrokerClient) :=
  if db.lookup c.name = none then primaryClient db c else none

/-- The name joins the secondaries of the primary. -/
def joining (c : BrokerClient) : Option BrokerClient → List Instr
  | some p => [.lockSecondaries p, .join p c, .unlock (.secondaries p)]
  | none => []

/-- The vacant branch of `insert_client` and the rest of `register_client`. -/
def insertion (db : BrokerDb S) (c : BrokerClient) (pc : Option BrokerClient) : List Instr :=
  joining c pc ++
  [.lock .broadcasts, .enterBroadcasts c, .unlock .broadcasts, .lock .subscriptions,
    .enterSubscriptions c, .unlock .subscriptions, .flag c, .place c, .unlock .clients] ++
  (if db.brokerRpc && c.primary then [.announce (BrokerEvent.reg c.name)] else []) ++ [.ok c]

/-- The removals of `drop_client`. -/
def removals (c : BrokerClient) : List Instr :=
  [.unflag c, .lock .subscriptions, .leaveSubscriptions c, .unlock .subscriptions,
    .lock .broadcasts, .leaveBroadcasts c, .unlock .broadcasts, .lock .clients, .remove c,
    .unlock .clients]

/-- `drop_client` of a registered client. -/
def dismantling (c : BrokerClient) : List Instr :=
  removals c ++
  if c.primary then [.lock (.secondaries c), .secondaries c] else [.lock .clients, .leave c]

namespace Instr

/-- What an instruction does to the registry. -/
def onDb (db : BrokerDb S) : Instr → BrokerDb S
  | .join p c => db.mapSecondaries p (·.insert c.name)
  | .enterBroadcasts c => { db with broadcasts := S.bcast.registerClient db.broadcasts c }
  | .enterSubscriptions c =>
    let sdb := S.sub.registerClient db.subscriptions c
    { db with subscriptions := (S.sub.subscribe sdb BROKER_WARN_TOPIC c).1 }
  | .flag c => db.setRegistered c true
  | .place c => { db with clients := db.clients.insert c.name c }
  | .displace c => { db with clients := db.clients.erase c.name }
  | .unflag c => db.setRegistered c false
  | .leaveSubscriptions c => { db with subscriptions := S.sub.unregisterClient db.subscriptions c }
  | .leaveBroadcasts c => { db with broadcasts := S.bcast.unregisterClient db.broadcasts c }
  | .remove c => { db with clients := db.clients.erase c.name }
  | .clear c => db.mapSecondaries c fun _ => []
  | .erase p n => db.mapSecondaries p (·.erase n)
  | .trigger c => db.trigger c
  | .topics op c ts => op.onDb db c ts
  | .triggerName n =>
    match db.lookup n with
    | some c => if c.kind = .internal then db else db.trigger c
    | none => db
  | _ => db

/-- What an instruction leads to. -/
def leads (pk : Pick) (db : BrokerDb S) : Instr → List Instr
  | .insert c second =>
    match primaryClient db c, db.lookup c.name with
    | none, _ => [.unlock .clients]
    | some pc, none => insertion db c pc
    | some _, some _ =>
      .unlock .clients :: if !second && db.allowForce c then [.lock .clients, .displace c] else []
  | .displace c =>
    match db.lookup c.name with
    | some prev =>
      [.unlock .clients, .drop prev none, .trigger prev, .lock .clients, .insert c true]
    | none => [.unlock .clients, .lock .clients, .insert c true]
  | .wasRegistered c =>
    .drop c none ::
      if db.brokerRpc && (c.primary && (db.cell c).registered) then
        [.announce (BrokerEvent.unreg c.name)]
      else []
  | .drop c _ => if (db.cell c).registered then dismantling c else []
  | .secondaries c =>
    (pk.names (db.cell c).secondaries).flatMap (fun n => [.lock .clients, .find c n]) ++
      [.clear c, .unlock (.secondaries c)]
  | .find p n =>
    match db.lookup n with
    | some sec =>
      .unlock .clients :: (if sec.kind = .internal then [] else [.trigger sec]) ++
      [.drop sec (some p)]
    | none => [.unlock .clients]
  | .leave c =>
    match db.lookup c.primaryName with
    | some p => [.lockSecondaries p, .erase p c.name, .unlock (.secondaries p), .unlock .clients]
    | none => [.unlock .clients]
  | .announce event =>
    if db.core.isSome then [.lock .subscriptions, .topic event.topic none, .announced] else []
  | .lookup target => .unlock .clients :: (db.lookup target).toList.map .deliver
  | .mask m =>
    .unlock .broadcasts :: (pk.iter (S.bcast.getClientsByMask db.broadcasts m)).map .deliver
  | .topic t receiver =>
    [.unlock .subscriptions,
      .retain t receiver (pk.iter (S.sub.getSubscribers db.subscriptions t)) []]
  | .retain _ _ [] kept => kept.map .deliver
  | .retain t receiver (sub :: subs) kept =>
    if receiver.any (sub.primaryName != ·) then [.retain t receiver subs kept]
    else if (db.cell sub).hasExclusions then
      [.lock (.exclusions sub), .excluded t receiver sub subs kept]
    else [.retain t receiver subs (kept ++ [sub])]
  | .excluded t receiver sub subs kept =>
    [.unlock (.exclusions sub), .retain t receiver subs
      (if S.acl.isMatch (db.cell sub).exclusions t then kept else kept ++ [sub])]
  | .deliver tgt => if pk.full && tgt.isExternal then [.wasRegistered tgt] else []
  | .triggerName _ => [.unlock .clients]
  | .list =>
    (db.values.filter (·.primary)).flatMap
      (fun v => [.lockSecondaries v, .unlock (.secondaries v)]) ++
      [.unlock .clients]
  | _ => []

/-- The mutex an instruction takes. -/
def takes : Instr → Option Mutex
  | .lock m => some m
  | .lockSecondaries p => some (.secondaries p)
  | _ => none

/-- The mutex an instruction releases. -/
def releases : Instr → Option Mutex
  | .unlock m => some m
  | _ => none

/-- A task may be cancelled here: it waits for something else than a mutex. -/
def awaits : Instr → Bool
  | .announce _ | .deliver _ => true
  | _ => false

end Instr

/-! ### Steps -/

/-- The registry, who holds which mutex, who is in an announcement, what every task has left
to do, and the events published. -/
structure Mach (S : Submap) where
  db : BrokerDb S
  lock : Mutex → Option Tid
  /-- The holder of `rpc_client`, which is no blocking mutex. -/
  rpcClient : Option Tid
  proc : Tid → List Instr
  events : List BrokerEvent

namespace Mach

/-- Nobody does anything. -/
def start (db : BrokerDb S) : Mach S where
  db := db
  lock _ := none
  rpcClient := none
  proc _ := []
  events := []

def setProc (s : Mach S) (t : Tid) (l : List Instr) : Mach S :=
  { s with proc := Function.update s.proc t l }

/-- The task has to wait. -/
def blocked (s : Mach S) : Instr → Bool
  | .announce _ => s.rpcClient.isSome
  | i => i.takes.any fun m => (s.lock m).isSome

/-- The task `t` does an instruction. -/
def after (s : Mach S) (t : Tid) (i : Instr) : Mach S where
  db := i.onDb s.db
  lock m := if i.takes = some m then some t else if i.releases = some m then none else s.lock m
  rpcClient := match i with
    | .announce _ => if s.db.core.isSome then some t else none
    | .announced => none
    | _ => s.rpcClient
  proc := s.proc
  events := match i with
    | .announce event => if s.db.core.isSome then s.events ++ [event] else s.events
    | _ => s.events

end Mach

/-- What a task may be started for, besides a registration. -/
inductive Errand
  | unregister (c : BrokerClient)
  /-- The drop of a `Client`. -/
  | drop (c : BrokerClient)
  | triggerDisconnect (name : String)
  | clientList
  | send (target : String)
  | broadcast (mask : String)
  | publish (topic : String) (receiver : Option String)
  | topics (op : TopicOp) (c : BrokerClient) (topics : List String)
  deriving DecidableEq

def Errand.prog : Errand → List Instr
  | .unregister c => [.wasRegistered c]
  | .drop c => [.drop c none]
  | .triggerDisconnect n => [.lock .clients, .triggerName n]
  | .clientList => [.lock .clients, .list]
  | .send target => [.lock .clients, .lookup target]
  | .broadcast mask => [.lock .broadcasts, .mask mask]
  | .publish topic receiver => [.lock .subscriptions, .topic topic receiver]
  | .topics op c ts => [.lock (op.mutex c), .topics op c ts, .unlock (op.mutex c)]

inductive MachLabel
  /-- A task calls `register_client` with a client made for it. -/
  | register (t : Tid) (name : String) (kind : BusRtClientKind) (source port : Option String)
  | spawn (t : Tid) (errand : Errand)
  /-- A task does its first instruction. -/
  | run (t : Tid) (pk : Pick)
  | cancel (t : Tid)

/-- One step. -/
def machStep (s : Mach S) : MachLabel → Option (Mach S)
  | .register t name kind source port =>
    if s.proc t = [] then
      let (c, db) := s.db.alloc name kind source port
      some ({ s with db := db }.setProc t [.lock .clients, .insert c false])
    else none
  | .spawn t errand => if s.proc t = [] then some (s.setProc t errand.prog) else none
  | .run t pk =>
    match s.proc t with
    | i :: rest =>
      if s.blocked i then none else some ((s.after t i).setProc t (i.leads pk s.db ++ rest))
    | [] => none
  | .cancel t =>
    match s.proc t with
    | i :: _ =>
      if i.awaits then
        some ({ s with
          rpcClient := if s.rpcClient = some t then none else s.rpcClient }.setProc t [])
      else none
    | [] => none

def MachSteps (s : Mach S) (l : MachLabel) (s' : Mach S) : Prop := machStep s l = some s'

/-! ### What a step changes -/

section Effects

variable (s : Mach S) (t : Tid) (i : Instr) (pk : Pick) (l : List Instr)

@[simp] theorem Mach.setProc_db : (s.setProc t l).db = s.db := rfl
@[simp] theorem Mach.setProc_lock : (s.setProc t l).lock = s.lock := rfl
@[simp] theorem Mach.setProc_events : (s.setProc t l).events = s.events := rfl
@[simp] theorem Mach.after_db : (s.after t i).db = i.onDb s.db := rfl
@[simp] theorem Mach.after_proc : (s.after t i).proc = s.proc := rfl

theorem Mach.setProc_proc (u : Tid) : (s.setProc t l).proc u = if u = t then l else s.proc u :=
  Function.update_apply ..

/-- The names of `clients` after an instruction. -/
theorem lookup_onDb (db : BrokerDb S) (n : String) : (i.onDb db).lookup n =
    match i with
    | .place c => if n = c.name then some c else db.lookup n
    | .displace c | .remove c => if n = c.name then none else db.lookup n
    | _ => db.lookup n := by
  cases i
  case place c =>
    by_cases h : n = c.name
    · subst h; simp [Instr.onDb, lookup]
    · simp [Instr.onDb, lookup, h, AList.lookup_insert_ne h]
  case displace c =>
    by_cases h : n = c.name
    · subst h; simp [Instr.onDb, lookup]
    · simp [Instr.onDb, lookup, h, AList.lookup_erase_ne h]
  case remove c =>
    by_cases h : n = c.name
    · subst h; simp [Instr.onDb, lookup]
    · simp [Instr.onDb, lookup, h, AList.lookup_erase_ne h]
  case topics op c ts => cases op <;> rfl
  case triggerName m =>
    simp only [Instr.onDb]
    split
    · split <;> rfl
    · rfl
  all_goals rfl

/-- The flags after an instruction. -/
theorem registered_onDb (db : BrokerDb S) (x : BrokerClient) : ((i.onDb db).cell x).registered =
    match i with
    | .flag c => if x = c then true else (db.cell x).registered
    | .unflag c => if x = c then false else (db.cell x).registered
    | _ => (db.cell x).registered := by
  cases i
  case flag c => exact setRegistered_registered ..
  case unflag c => exact setRegistered_registered ..
  case join p c => exact mapSecondaries_registered ..
  case clear c => exact mapSecondaries_registered db c x fun _ => []
  case erase p n => exact mapSecondaries_registered db p x (·.erase n)
  case trigger c => exact trigger_registered ..
  case topics op c ts =>
    cases op
    case exclude | unexclude =>
      simp only [Instr.onDb, TopicOp.onDb, TopicOp.act, execDb, Option.elim_some, setCell_cell]
      split <;> simp_all
    all_goals rfl
  case triggerName m =>
    simp only [Instr.onDb]
    split
    · split <;> simp
    · rfl
  all_goals rfl

/-- The secondaries after an instruction. -/
theorem secondaries_onDb (db : BrokerDb S) (x : BrokerClient) : ((i.onDb db).cell x).secondaries =
    match i with
    | .join p c => if x = p then (db.cell x).secondaries.insert c.name else (db.cell x).secondaries
    | .clear c => if x = c then [] else (db.cell x).secondaries
    | .erase p n => if x = p then (db.cell x).secondaries.erase n else (db.cell x).secondaries
    | _ => (db.cell x).secondaries := by
  cases i
  case flag c => exact setRegistered_secondaries ..
  case unflag c => exact setRegistered_secondaries ..
  case join p c => exact mapSecondaries_secondaries ..
  case clear c => exact mapSecondaries_secondaries db c x fun _ => []
  case erase p n => exact mapSecondaries_secondaries db p x (·.erase n)
  case trigger c => exact trigger_secondaries ..
  case topics op c ts =>
    cases op
    case exclude | unexclude =>
      simp only [Instr.onDb, TopicOp.onDb, TopicOp.act, execDb, Option.elim_some, setCell_cell]
      split <;> simp_all
    all_goals rfl
  case triggerName m =>
    simp only [Instr.onDb]
    split
    · split <;> simp
    · rfl
  all_goals rfl

/-- Who is held in `broadcasts` after an instruction. -/
theorem held_onDb (db : BrokerDb S) (n : String) :
    S.bcast.held (i.onDb db).broadcasts (S.sha256 n) =
    match i with
    | .enterBroadcasts c =>
      if n = c.name then some ((S.bcast.held db.broadcasts (S.sha256 n)).getD c)
      else S.bcast.held db.broadcasts (S.sha256 n)
    | .leaveBroadcasts c => if n = c.name then none else S.bcast.held db.broadcasts (S.sha256 n)
    | _ => S.bcast.held db.broadcasts (S.sha256 n) := by
  cases i
  case enterBroadcasts c =>
    simp only [Instr.onDb]
    split
    · rename_i h; rw [h]; exact S.bcast.held_register db.broadcasts c
    · exact S.bcast.held_register_ne _ _ _ (S.key_ne ‹_›)
  case leaveBroadcasts c =>
    simp only [Instr.onDb]
    split
    · rename_i h; rw [h]; exact S.bcast.held_unregister db.broadcasts c
    · exact S.bcast.held_unregister_ne _ _ _ (S.key_ne ‹_›)
  case topics op c ts => cases op <;> rfl
  case triggerName m =>
    simp only [Instr.onDb]
    split
    · split <;> rfl
    · rfl
  all_goals rfl

/-- Who is known to `subscriptions` after an instruction. -/
theorem isSome_onDb (db : BrokerDb S) (n : String) :
    (S.sub.held (i.onDb db).subscriptions (S.sha256 n)).isSome =
      match i with
      | .enterSubscriptions c =>
        if n = c.name then true else (S.sub.held db.subscriptions (S.sha256 n)).isSome
      | .leaveSubscriptions c =>
        if n = c.name then false else (S.sub.held db.subscriptions (S.sha256 n)).isSome
      | _ => (S.sub.held db.subscriptions (S.sha256 n)).isSome := by
  cases i
  case enterSubscriptions c =>
    simp only [Instr.onDb, held_subscribe_isSome]
    split
    · rename_i h; rw [h, S.sub.held_register]; rfl
    · rw [S.sub.held_register_ne _ _ _ (S.key_ne ‹_›)]
  case leaveSubscriptions c =>
    simp only [Instr.onDb]
    split
    · rename_i h; rw [h, S.sub.held_unregister]; rfl
    · rw [S.sub.held_unregister_ne _ _ _ (S.key_ne ‹_›)]
  case topics op c ts =>
    cases op
    case subscribe => exact held_foldl_isSome (held_subscribe_isSome c) ts db.subscriptions _
    case unsubscribe => exact held_foldl_isSome (held_unsubscribe_isSome c) ts db.subscriptions _
    all_goals rfl
  case triggerName m =>
    simp only [Instr.onDb]
    split
    · split <;> rfl
    · rfl
  all_goals rfl

/-- What no instruction changes. -/
theorem fixed_onDb (db : BrokerDb S) : (i.onDb db).nextId = db.nextId ∧ (i.onDb db).core = db.core ∧
    (i.onDb db).brokerRpc = db.brokerRpc ∧ (i.onDb db).forceRegister = db.forceRegister := by
  cases i
  case topics op c ts => cases op <;> exact ⟨rfl, rfl, rfl, rfl⟩
  case triggerName m =>
    simp only [Instr.onDb]
    split
    · split <;> exact ⟨rfl, rfl, rfl, rfl⟩
    · exact ⟨rfl, rfl, rfl, rfl⟩
  all_goals exact ⟨rfl, rfl, rfl, rfl⟩

variable {i}

theorem registered_of_onDb {db : BrokerDb S} {x : BrokerClient}
    (h : ((i.onDb db).cell x).registered = true) :
    (db.cell x).registered = true ∨ i = .flag x := by
  rw [registered_onDb] at h
  cases i
  case flag c =>
    simp only at h
    split at h
    · exact .inr (by rw [‹x = c›])
    · exact .inl h
  case unflag c =>
    simp only at h
    split at h
    · cases h
    · exact .inl h
  all_goals exact .inl h

theorem registered_onDb_of {db : BrokerDb S} {x : BrokerClient} (h : (db.cell x).registered = true)
    (hi : i ≠ .unflag x) : ((i.onDb db).cell x).registered = true := by
  rw [registered_onDb]
  cases i
  case flag c =>
    simp only
    split
    · rfl
    · exact h
  case unflag c =>
    simp only
    rw [if_neg fun he => hi (by rw [he])]
    exact h
  all_goals exact h

theorem lookup_of_onDb {db : BrokerDb S} {n : String} {c : BrokerClient}
    (h : (i.onDb db).lookup n = some c) :
    db.lookup n = some c ∨ (i = .place c ∧ n = c.name) := by
  rw [lookup_onDb] at h
  cases i
  case place d =>
    simp only at h
    split at h
    · obtain rfl := Option.some.inj h
      exact .inr ⟨rfl, ‹_›⟩
    · exact .inl h
  case displace d | remove d =>
    simp only at h
    split at h
    · cases h
    · exact .inl h
  all_goals exact .inl h

theorem mem_secondaries_of_onDb {db : BrokerDb S} {p : BrokerClient} {n : String}
    (h : n ∈ ((i.onDb db).cell p).secondaries) :
    n ∈ (db.cell p).secondaries ∨ ∃ c, i = .join p c ∧ n = c.name := by
  rw [secondaries_onDb] at h
  cases i
  case join q c =>
    simp only at h
    split at h
    · rename_i hq
      rcases List.mem_insert_iff.mp h with rfl | h
      · exact .inr ⟨c, by rw [hq], rfl⟩
      · exact .inl h
    · exact .inl h
  case clear c =>
    simp only at h
    split at h
    · cases h
    · exact .inl h
  case erase q m =>
    simp only at h
    split at h
    · exact .inl (List.mem_of_mem_erase h)
    · exact .inl h
  all_goals exact .inl h

end Effects

/-- What the tasks rely on: clients are kept under their names, and
secondaries are secondaries. -/
structure Named (db : BrokerDb S) : Prop where
  name_eq : ∀ n c, db.lookup n = some c → c.name = n
  secondary : ∀ p n, n ∈ (db.cell p).secondaries → primaryName n ≠ n

theorem isSome_primaryClient {db : BrokerDb S} {c : BrokerClient} {pc : Option BrokerClient}
    (h : primaryClient db c = some pc) (hpc : pc.isSome) : c.primary = false := by
  unfold primaryClient at h
  split at h
  · cases h; cases hpc
  · exact Bool.eq_false_iff.mpr ‹_›

/-! ### What an instruction leads to -/

/-- An instruction that changes no map and no flag and takes no secondaries. -/
def Instr.plain : Instr → Bool
  | .lock (.secondaries _) => false
  | .lock _ | .unlock _ | .wasRegistered _ | .drop _ none | .trigger _ | .announced
  | .topic .. | .retain .. | .excluded .. | .deliver _ => true
  | _ => false

/-- What an instruction may lead to. -/
inductive LeadsTo (db : BrokerDb S) : Instr → Instr → Prop
  | lockPrimary {c p b} : vacant db c = some (some p) →
      LeadsTo db (.insert c b) (.lockSecondaries p)
  | join {c p b} : vacant db c = some (some p) → LeadsTo db (.insert c b) (.join p c)
  | enterBroadcasts {c pc b} : vacant db c = some pc → LeadsTo db (.insert c b) (.enterBroadcasts c)
  | enterSubscriptions {c pc b} : vacant db c = some pc →
      LeadsTo db (.insert c b) (.enterSubscriptions c)
  | flag {c pc b} : vacant db c = some pc → LeadsTo db (.insert c b) (.flag c)
  | place {c pc b} : vacant db c = some pc → LeadsTo db (.insert c b) (.place c)
  | reg {c pc b} : vacant db c = some pc → c.primary = true →
      LeadsTo db (.insert c b) (.announce (.reg c.name))
  | ok {c pc b} : vacant db c = some pc → LeadsTo db (.insert c b) (.ok c)
  | busy (c) : LeadsTo db (.insert c false) (.displace c)
  | again (c) : LeadsTo db (.displace c) (.insert c true)
  | unreg {c} : (db.cell c).registered = true → c.primary = true →
      LeadsTo db (.wasRegistered c) (.announce (.unreg c.name))
  | unflag {c p} : (db.cell c).registered = true → LeadsTo db (.drop c p) (.unflag c)
  | leaveSubscriptions {c p} : (db.cell c).registered = true →
      LeadsTo db (.drop c p) (.leaveSubscriptions c)
  | leaveBroadcasts {c p} : (db.cell c).registered = true →
      LeadsTo db (.drop c p) (.leaveBroadcasts c)
  | remove {c p} : (db.cell c).registered = true → LeadsTo db (.drop c p) (.remove c)
  | lockOwn {c p} : (db.cell c).registered = true → c.primary = true →
      LeadsTo db (.drop c p) (.lock (.secondaries c))
  | loop {c p} : (db.cell c).registered = true → c.primary = true →
      LeadsTo db (.drop c p) (.secondaries c)
  | leave {c p} : (db.cell c).registered = true → c.primary = false →
      LeadsTo db (.drop c p) (.leave c)
  | find {c n} : n ∈ (db.cell c).secondaries → LeadsTo db (.secondaries c) (.find c n)
  | clear (c) : LeadsTo db (.secondaries c) (.clear c)
  | drop {p n c} : db.lookup n = some c → LeadsTo db (.find p n) (.drop c (some p))
  | lockFound {c p} : db.lookup c.primaryName = some p → LeadsTo db (.leave c) (.lockSecondaries p)
  | erase {c p} : db.lookup c.primaryName = some p → LeadsTo db (.leave c) (.erase p c.name)
  | listed {v} : v ∈ db.values → LeadsTo db .list (.lockSecondaries v)
  | plain {i j} : j.plain = true → LeadsTo db i j

theorem vacant_eq {db : BrokerDb S} {c : BrokerClient} {pc : Option BrokerClient} :
    vacant db c = some pc ↔ db.lookup c.name = none ∧ primaryClient db c = some pc := by
  rw [vacant, Option.ite_none_right_eq_some]

theorem leadsTo_of_mem_insertion {db : BrokerDb S} {c : BrokerClient} {pc : Option BrokerClient}
    {b : Bool} {j : Instr} (hv : vacant db c = some pc) (hj : j ∈ insertion db c pc) :
    LeadsTo db (.insert c b) j := by
  simp only [insertion, List.mem_append, List.mem_cons, List.not_mem_nil, or_false] at hj
  rcases hj with ((hj | hj) | hj) | rfl
  · cases pc with
    | none => cases hj
    | some p =>
      simp only [joining, List.mem_cons, List.not_mem_nil, or_false] at hj
      obtain rfl | rfl | rfl := hj
      · exact .lockPrimary hv
      · exact .join hv
      · exact .plain rfl
  · obtain rfl | rfl | rfl | rfl | rfl | rfl | rfl | rfl | rfl := hj
    · exact .plain rfl
    · exact .enterBroadcasts hv
    · exact .plain rfl
    · exact .plain rfl
    · exact .enterSubscriptions hv
    · exact .plain rfl
    · exact .flag hv
    · exact .place hv
    · exact .plain rfl
  · split at hj
    · rename_i hr
      rw [List.mem_singleton.mp hj]
      exact .reg hv (Bool.and_eq_true_iff.mp hr).2
    · cases hj
  · exact .ok hv

theorem leadsTo_of_mem_dismantling {db : BrokerDb S} {c : BrokerClient} {p : Option BrokerClient}
    {j : Instr} (hr : (db.cell c).registered = true) (hj : j ∈ dismantling c) :
    LeadsTo db (.drop c p) j := by
  simp only [dismantling, removals, List.mem_append, List.mem_cons, List.not_mem_nil,
    or_false] at hj
  rcases hj with hj | hj
  · obtain rfl | rfl | rfl | rfl | rfl | rfl | rfl | rfl | rfl | rfl := hj
    · exact .unflag hr
    · exact .plain rfl
    · exact .leaveSubscriptions hr
    · exact .plain rfl
    · exact .plain rfl
    · exact .leaveBroadcasts hr
    · exact .plain rfl
    · exact .plain rfl
    · exact .remove hr
    · exact .plain rfl
  · split at hj
    · simp only [List.mem_cons, List.not_mem_nil, or_false] at hj
      obtain rfl | rfl := hj
      · exact .lockOwn hr ‹_›
      · exact .loop hr ‹_›
    · rename_i hp
      simp only [List.mem_cons, List.not_mem_nil, or_false] at hj
      obtain rfl | rfl := hj
      · exact .plain rfl
      · exact .leave hr (Bool.eq_false_iff.mpr hp)

theorem leadsTo_of_mem {db : BrokerDb S} {pk : Pick} {i j : Instr} (hj : j ∈ i.leads pk db) :
    LeadsTo db i j := by
  cases i
  case retain t receiver subs kept =>
    refine .plain ?_
    cases subs with
    | nil =>
      obtain ⟨c, -, rfl⟩ := List.mem_map.mp hj
      rfl
    | cons sub subs =>
      simp only [Instr.leads] at hj
      split at hj
      · rw [List.mem_singleton.mp hj]; rfl
      · split at hj <;> grind [Instr.plain]
  all_goals simp only [Instr.leads] at hj
  case insert c b =>
    split at hj
    · rw [List.mem_singleton.mp hj]; exact .plain rfl
    · exact leadsTo_of_mem_insertion (vacant_eq.mpr ⟨‹_›, ‹_›⟩) hj
    · split at hj
      · rename_i hf
        obtain rfl : b = false := by simp_all
        simp only [List.mem_cons, List.not_mem_nil, or_false] at hj
        obtain rfl | rfl | rfl := hj
        · exact .plain rfl
        · exact .plain rfl
        · exact .busy c
      · rw [List.mem_singleton.mp hj]; exact .plain rfl
  case displace c =>
    split at hj
    · simp only [List.mem_cons, List.not_mem_nil, or_false] at hj
      obtain rfl | rfl | rfl | rfl | rfl := hj
      · exact .plain rfl
      · exact .plain rfl
      · exact .plain rfl
      · exact .plain rfl
      · exact .again c
    · simp only [List.mem_cons, List.not_mem_nil, or_false] at hj
      obtain rfl | rfl | rfl := hj
      · exact .plain rfl
      · exact .plain rfl
      · exact .again c
  case wasRegistered c =>
    rcases List.mem_cons.mp hj with rfl | hj
    · exact .plain rfl
    · split at hj
      · rename_i hr
        simp only [Bool.and_eq_true] at hr
        rw [List.mem_singleton.mp hj]
        exact .unreg hr.2.2 hr.2.1
      · cases hj
  case drop c p =>
    split at hj
    · exact leadsTo_of_mem_dismantling ‹_› hj
    · cases hj
  case secondaries c =>
    simp only [List.mem_append, List.mem_flatMap, List.mem_cons, List.not_mem_nil, or_false] at hj
    obtain ⟨n, hn, rfl | rfl⟩ | rfl | rfl := hj
    · exact .plain rfl
    · exact .find ((pk.names_perm _).mem_iff.mp hn)
    · exact .clear c
    · exact .plain rfl
  case find p n =>
    split at hj
    · simp only [List.cons_append, List.mem_cons, List.mem_append, List.not_mem_nil, or_false] at hj
      obtain rfl | hj | rfl := hj
      · exact .plain rfl
      · split at hj
        · cases hj
        · rw [List.mem_singleton.mp hj]; exact .plain rfl
      · exact .drop ‹_›
    · rw [List.mem_singleton.mp hj]; exact .plain rfl
  case leave c =>
    split at hj
    · simp only [List.mem_cons, List.not_mem_nil, or_false] at hj
      obtain rfl | rfl | rfl | rfl := hj
      · exact .lockFound ‹_›
      · exact .erase ‹_›
      · exact .plain rfl
      · exact .plain rfl
    · rw [List.mem_singleton.mp hj]; exact .plain rfl
  case list =>
    simp only [List.mem_append, List.mem_flatMap, List.mem_cons, List.not_mem_nil, or_false] at hj
    obtain ⟨v, hv, rfl | rfl⟩ | rfl := hj
    · exact .listed (List.mem_of_mem_filter hv)
    · exact .plain rfl
    · exact .plain rfl
  all_goals refine .plain ?_; grind [Instr.plain]

/-- The client a registration has yet to insert. -/
def Instr.token : Instr → Option BrokerClient
  | .insert c _ | .displace c => some c
  | _ => none

/-- The client that an instruction of its registration or of its teardown is about. -/
def Instr.subject : Instr → Option BrokerClient
  | .join _ c | .enterBroadcasts c | .enterSubscriptions c | .flag c | .place c
  | .unflag c | .leaveSubscriptions c | .leaveBroadcasts c | .remove c | .drop c (some _) => some c
  | _ => none

section Leads

variable {db : BrokerDb S} {pk : Pick} {i j : Instr} {c x : BrokerClient} {pc : Option BrokerClient}

theorem Instr.plain_token (h : j.plain = true) : j.token = none := by
  cases j <;> first | rfl | cases h

theorem Instr.plain_subject (h : j.plain = true) : j.subject = none := by
  cases j
  case drop c p => cases p <;> first | rfl | cases h
  all_goals first | rfl | cases h

/-- What an instruction leads to is about its own client, about one that is registered, or
about one that is there. -/
theorem subject_of_leads (hj : LeadsTo db i j) (hs : j.subject = some c) :
    (∃ b pc, i = .insert c b ∧ vacant db c = some pc) ∨
      (∃ p, i = .drop c p ∧ (db.cell c).registered = true) ∨
      ∃ p n, i = .find p n ∧ db.lookup n = some c := by
  cases hj with
  | join hv | enterBroadcasts hv | enterSubscriptions hv | flag hv | place hv =>
    cases hs
    exact .inl ⟨_, _, rfl, hv⟩
  | unflag hr | leaveSubscriptions hr | leaveBroadcasts hr | remove hr =>
    cases hs
    exact .inr (.inl ⟨_, rfl, hr⟩)
  | drop hl => cases hs; exact .inr (.inr ⟨_, _, rfl, hl⟩)
  | plain hp => rw [Instr.plain_subject hp] at hs; cases hs
  | _ => cases hs

theorem token_of_leads (hj : LeadsTo db i j) (ht : j.token = some c) : i.token = some c := by
  cases hj with
  | busy | again => exact ht
  | plain hp => rw [Instr.plain_token hp] at ht; cases ht
  | _ => cases ht

theorem lookup_primaryClient (hdb : Named db) {p : BrokerClient} (h : vacant db c = some (some p)) :
    db.lookup p.name = some p := by
  have h1 := (vacant_eq.mp h).2
  unfold primaryClient at h1
  split at h1
  · cases h1
  · obtain ⟨q, hq, h⟩ := Option.map_eq_some_iff.mp h1
    obtain rfl := Option.some.inj h
    rw [hdb.name_eq _ q hq, hq]

/-- Secondaries are taken of clients that are there. -/
theorem lookup_of_leads (hdb : Named db) (hj : LeadsTo db i (.lockSecondaries x)) :
    db.lookup x.name = some x := by
  cases hj with
  | lockPrimary hv => exact lookup_primaryClient hdb hv
  | lockFound hl => rw [hdb.name_eq _ x hl, hl]
  | listed hv =>
    obtain ⟨⟨n, d⟩, he, rfl⟩ := List.mem_map.mp hv
    have hl : db.lookup n = some d := AList.mem_lookup_iff.mpr he
    rw [hdb.name_eq n d hl, hl]
  | plain hp => cases hp

theorem leads_of_vacant (hv : vacant db c = some pc) (b : Bool) :
    (Instr.insert c b).leads pk db = insertion db c pc := by
  obtain ⟨hn, hp⟩ := vacant_eq.mp hv
  simp only [Instr.leads, hn, hp]

/-- Once it is inserted a client is not to be inserted any more. -/
theorem token_of_mem_insertion (hv : vacant db c = some pc) (hj : j ∈ insertion db c pc) :
    j.token = none := by
  have h : LeadsTo db (.insert c true) j := leadsTo_of_mem_insertion hv hj
  cases h with
  | plain hp => exact Instr.plain_token hp
  | _ => rfl

theorem pairwise_token_of_forall {l : List Instr} (h : ∀ j ∈ l, j.token = none) :
    l.Pairwise fun a b => a.token = none ∨ b.token = none :=
  List.pairwise_iff_forall_sublist.mpr fun hab => .inl (h _ (hab.subset List.mem_cons_self))

theorem pairwise_token : (i.leads pk db).Pairwise fun a b => a.token = none ∨ b.token = none := by
  cases i with
  | insert c b =>
    simp only [Instr.leads]
    split
    · simp
    · exact pairwise_token_of_forall fun j hj =>
        token_of_mem_insertion (vacant_eq.mpr ⟨‹_›, ‹_›⟩) hj
    · split <;> simp [Instr.token]
  | displace c =>
    simp only [Instr.leads]
    split <;> simp [Instr.token]
  | _ =>
    refine pairwise_token_of_forall fun j hj => ?_
    by_contra hne
    obtain ⟨c, hc⟩ := Option.ne_none_iff_exists'.mp hne
    cases token_of_leads (leadsTo_of_mem hj) hc

end Leads


/-! ### What is to be done -/

/-- A task has the instruction still to do. -/
def Pending (s : Mach S) (i : Instr) : Prop := ∃ t, i ∈ s.proc t

/-- Every instruction of the list is followed by what it `needs`. -/
def Follows (needs : Instr → List Instr) : List Instr → Prop
  | [] => True
  | i :: l => (∀ j ∈ needs i, j ∈ l) ∧ Follows needs l

theorem Follows.append {needs : Instr → List Instr} :
    ∀ {l l' : List Instr}, Follows needs l → Follows needs l' →
    Follows needs (l ++ l')
  | [], _, _, h' => h'
  | _ :: _, _, h, h' => ⟨fun j hj => List.mem_append_left _ (h.1 j hj), h.2.append h'⟩

theorem Follows.of_forall {needs : Instr → List Instr} :
    ∀ {l : List Instr}, (∀ j ∈ l, needs j = []) →
    Follows needs l
  | [], _ => trivial
  | j :: _, h => ⟨fun k hk => (by rw [h j List.mem_cons_self] at hk; cases hk),
      of_forall fun k hk => h k (List.mem_cons_of_mem j hk)⟩

section Run

variable {s : Mach S} {t : Tid} {i j : Instr} {rest : List Instr}

/-- The state after the task `t` did its first instruction. -/
def Mach.ran (s : Mach S) (t : Tid) (i : Instr) (rest : List Instr) (pk : Pick) : Mach S :=
  (s.after t i).setProc t (i.leads pk s.db ++ rest)

theorem machStep_run {pk : Pick} {s' : Mach S} (h : machStep s (.run t pk) = some s') :
    ∃ i rest, s.proc t = i :: rest ∧ s.blocked i = false ∧ s' = s.ran t i rest pk := by
  simp only [machStep] at h
  split at h
  · rename_i i rest hp
    split at h
    · cases h
    · exact ⟨i, rest, hp, Bool.eq_false_iff.mpr ‹_›, (Option.some.inj h).symm⟩
  · cases h

/-- Everything a step can do. -/
inductive Mach.Effect (s : Mach S) (l : MachLabel) (s' : Mach S) : Prop
  | register (t : Tid) (name : String) (kind : BusRtClientKind) (source port : Option String)
      (hl : l = .register t name kind source port) (hp : s.proc t = [])
      (h : s' = ({ s with db := (s.db.alloc name kind source port).2 } : Mach S).setProc t
        [.lock .clients, .insert (s.db.alloc name kind source port).1 false])
  | spawn (t : Tid) (errand : Errand) (hl : l = .spawn t errand) (hp : s.proc t = [])
      (h : s' = s.setProc t errand.prog)
  | run (t : Tid) (pk : Pick) (i : Instr) (rest : List Instr) (hl : l = .run t pk)
      (hp : s.proc t = i :: rest) (hb : s.blocked i = false) (h : s' = s.ran t i rest pk)
  | cancel (t : Tid) (i : Instr) (rest : List Instr) (hl : l = .cancel t)
      (hp : s.proc t = i :: rest) (hi : i.awaits = true)
      (h : s' = ({ s with
        rpcClient := if s.rpcClient = some t then none else s.rpcClient } : Mach S).setProc t [])

theorem machStep_effect {l : MachLabel} {s' : Mach S} (h : MachSteps s l s') : s.Effect l s' := by
  unfold MachSteps at h
  cases l with
  | register t name kind source port =>
    obtain ⟨hp, hs⟩ := Option.ite_none_right_eq_some.mp h
    exact .register t name kind source port rfl hp (Option.some.inj hs).symm
  | spawn t errand =>
    obtain ⟨hp, hs⟩ := Option.ite_none_right_eq_some.mp h
    exact .spawn t errand rfl hp (Option.some.inj hs).symm
  | run t pk =>
    obtain ⟨i, rest, hp, hb, hs⟩ := machStep_run h
    exact .run t pk i rest rfl hp hb hs
  | cancel t =>
    simp only [machStep] at h
    split at h
    · rename_i i rest hp
      obtain ⟨hi, hs⟩ := Option.ite_none_right_eq_some.mp h
      exact .cancel t i rest rfl hp hi (Option.some.inj hs).symm
    · cases h

variable {pk : Pick}

theorem proc_ran_self : (s.ran t i rest pk).proc t = i.leads pk s.db ++ rest := by
  rw [Mach.ran, Mach.setProc_proc, if_pos rfl]

theorem pending_of_leads (h : j ∈ i.leads pk s.db) : Pending (s.ran t i rest pk) j :=
  ⟨t, by rw [proc_ran_self]; exact List.mem_append_left _ h⟩

theorem pending_of_rest (h : j ∈ rest) : Pending (s.ran t i rest pk) j :=
  ⟨t, by rw [proc_ran_self]; exact List.mem_append_right _ h⟩

theorem nextId_ran : (s.ran t i rest pk).db.nextId = s.db.nextId := (fixed_onDb i s.db).1

variable (hp : s.proc t = i :: rest)
include hp

/-- What is to be done was to be done, or the instruction led to it. -/
theorem mem_ran {u : Tid} {j : Instr} (hj : j ∈ (s.ran t i rest pk).proc u) :
    j ∈ s.proc u ∨ (u = t ∧ j ∈ i.leads pk s.db) := by
  rw [Mach.ran, Mach.setProc_proc] at hj
  split at hj
  · rename_i hu
    rcases List.mem_append.mp hj with hj | hj
    · exact .inr ⟨hu, hj⟩
    · exact .inl (by rw [hu, hp]; exact List.mem_cons_of_mem i hj)
  · exact .inl hj

theorem head_mem : i ∈ s.proc t := by rw [hp]; exact List.mem_cons_self

/-- Who is to be inserted was so before. -/
theorem token_of_ran {u : Tid} {j : Instr} {c : BrokerClient} (hj : j ∈ (s.ran t i rest pk).proc u)
    (hc : j.token = some c) : ∃ j₀ ∈ s.proc u, j₀.token = some c := by
  rcases mem_ran hp hj with hj' | ⟨rfl, hj'⟩
  · exact ⟨j, hj', hc⟩
  · exact ⟨i, head_mem hp, token_of_leads (leadsTo_of_mem hj') hc⟩

/-- What was to be done is to be done still, but for the instruction. -/
theorem Pending.ran (h : Pending s j) : j = i ∨ Pending (s.ran t i rest pk) j := by
  obtain ⟨u, hu⟩ := h
  by_cases hut : u = t
  · subst hut
    rw [hp] at hu
    rcases List.mem_cons.mp hu with h | h
    · exact .inl h
    · exact .inr ⟨u, by rw [proc_ran_self]; exact List.mem_append_right _ h⟩
  · exact .inr ⟨u, by rw [Mach.ran, Mach.setProc_proc, if_neg hut]; exact hu⟩

theorem pending_of_ran (h : Pending (s.ran t i rest pk) j) : Pending s j ∨ j ∈ i.leads pk s.db := by
  obtain ⟨u, hu⟩ := h
  exact (mem_ran hp hu).imp (fun h => ⟨u, h⟩) fun h => h.2

theorem Follows.ran {needs : Instr → List Instr} (hf : ∀ u, Follows needs (s.proc u))
    (hl : Follows needs (i.leads pk s.db)) (u : Tid) :
    Follows needs ((s.ran t i rest pk).proc u) := by
  have hft := hf t
  rw [hp] at hft
  rw [Mach.ran, Mach.setProc_proc]
  split
  · exact hl.append hft.2
  · exact hf u

end Run

end Busrt
