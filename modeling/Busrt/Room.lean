/-
# Room in the queue of an external client

`safe_send_frame!` looks whether the queue of an external client is full. If it
is, the client is unregistered and the sender goes on with an error; if it is
not, the sender puts its frame, and this second step waits for room. Nothing
holds the room it has found: several senders, and the pinger of the client, may
find the same last place, and all but one of them then wait for a client that
may never take a frame.

Next to the system of tasks it is recorded who has found room and has yet to
send (`Tested`); the pinger looks and sends in two steps of its own. In a run in
which no sender looks at, and no acknowledgement takes, room that the senders in
between need, nobody waits for an external client; if further no queue is
closed under such senders, and none is looked at that is closed, each delivery
enqueues at once or unregisters the client (`never_waits`).

Key definitions: `Tested`, `Move`, `Roomy`, `Orderly`, `Counted`, `Delivers`.
Key theorems: `exec_tx`, `Counted.step`, `Covers.step`, `never_waits`.
-/
import Busrt.System

namespace Busrt

open Lib BrokerDb

variable {S : Submap}

/-! ### Who is about to send -/

/-- The client to whose queue an act puts. -/
def Act.waits : Act → Option BrokerClient
  | .put tgt .. => some tgt
  | _ => none

/-- The client that an act has come to know. -/
def Act.aims : Act → Option BrokerClient
  | .safeSend tgt .. | .put tgt .. | .subscribe tgt _ => some tgt
  | _ => none

/-- The client an act takes a place in the queue of, or finds one. -/
def Act.claims : Act → Option BrokerClient
  | .safeSend tgt .. => some tgt
  | .ack c .. => some c
  | _ => none

theorem Act.aims_of_waits {a : Act} {c : BrokerClient} (h : a.waits = some c) :
    a.aims = some c := by
  cases a <;> first | exact h | cases h

/-- The client to whose queue the task is about to put. -/
def Sys.waits (s : Sys S) (t : Tid) : Option BrokerClient :=
  ((s.task t).bind (·.todo.head?)).bind Act.waits

/-- The task a step is one of. -/
def Label.tid : Label → Option Tid
  | .connect t .. | .spawn t _ | .decode t _ | .act t _ | .finish t => some t
  | .setCore _ | .recv _ | .ping _ => none

/-- The system, and who has found room in a client's queue and has yet to send: tasks, and the
client's pinger (`none`). -/
structure Tested (S : Submap) where
  sys : Sys S
  found : BrokerClient → List (Option Tid)

/-- A step of the system, or of the pinger of a client: it looks, it sends, it ends. -/
inductive Move
  | sys (l : Label)
  | look (c : BrokerClient)
  | send (c : BrokerClient)
  | quit (c : BrokerClient)

namespace Tested

def init (S : Submap) (forceRegister brokerRpc : Bool) (queueSize : ℕ+) : Tested S :=
  ⟨Sys.init S forceRegister brokerRpc queueSize, fun _ => []⟩

/-- The queue of a client. -/
def tx (d : Tested S) (c : BrokerClient) : Chan Frame := (d.sys.db.cell c).tx

/-- The task was in between, or is now. -/
def refind (s : Sys S) (t : Tid) (found : BrokerClient → List (Option Tid)) (c : BrokerClient) :
    List (Option Tid) :=
  (if s.waits t = some c then [some t] else []) ++ (found c).erase (some t)

/-- One step. The loop of `handle_pinger` looks at the queue, and sends if there is room. -/
def step (rules : BrokerClient → Option (ClientAaa S)) (d : Tested S) : Move → Option (Tested S)
  | .sys (.ping _) => none
  | .sys l =>
    (Busrt.step rules d.sys l).map fun s => ⟨s, l.tid.elim d.found fun t => refind s t d.found⟩
  | .look c =>
    if c.isExternal ∧ c.id < d.sys.db.nextId ∧ none ∉ d.found c ∧ (d.tx c).isFull = false then
      some { d with found := Function.update d.found c (none :: d.found c) }
    else none
  | .send c =>
    if none ∈ d.found c then
      if (d.tx c).closed then
        some { d with found := Function.update d.found c ((d.found c).erase none) }
      else if (d.tx c).isFull then none
      else some ⟨{ d.sys with db := d.sys.db.setTx c (·.push ⟨.broker, FrameData.newNop⟩) },
        Function.update d.found c ((d.found c).erase none)⟩
    else none
  | .quit c => some { d with found := Function.update d.found c ((d.found c).erase none) }

def Steps (rules : BrokerClient → Option (ClientAaa S)) (d : Tested S) (m : Move) (d' : Tested S) :
    Prop :=
  d.step rules m = some d'

/-- There is room for one more than those who are about to send: the queue of an external client
that is open. -/
def spare (d : Tested S) (c : BrokerClient) : Bool :=
  !c.isExternal || (d.tx c).closed || (d.tx c).isFull || decide ((d.found c).length < (d.tx c).free)

/-- The act a task is to do. -/
def head (d : Tested S) (t : Tid) : Option Act := (d.sys.task t).bind (·.todo.head?)

/-- Room is found, and an acknowledgement put, only where those in between do not need the place. -/
def Roomy (d : Tested S) : Move → Bool
  | .sys (.act t _) => ((d.head t).bind Act.claims).all d.spare
  | .look c => d.spare c
  | _ => true

/-- No closed queue of an external client is looked at, and none is closed while somebody is in
between. -/
def Orderly (d : Tested S) : Move → Bool
  | .sys (.act t _) => match d.head t with
    | some (.safeSend c ..) => !c.isExternal || !(d.tx c).closed
    | some (.close c _) => (d.found c).isEmpty
    | _ => true
  | .look c => !(d.tx c).closed
  | _ => true

end Tested

/-! ### What an act does to the queues -/

section Queues

variable {rules : BrokerClient → Option (ClientAaa S)} {s s' s₁ : Sys S} {ch : Choice}
  {t : Tid} {a : Act}

/-- A frame is put into the queue: by a sender that found room, or an acknowledgement. -/
inductive TxEffect (s s₁ : Sys S) (a : Act) (c : BrokerClient) : Prop
  | same (h : (s₁.db.cell c).tx = (s.db.cell c).tx)
  | put (f : Frame)
      (ha : a.waits = some c ∨ ∃ n opId code realtime, a = .ack c n opId code realtime)
      (hf : (s.db.cell c).tx.isFull = false) (ho : (s.db.cell c).tx.closed = false)
      (h : (s₁.db.cell c).tx = (s.db.cell c).tx.push f)
  | close (reply : Reply) (ha : a = .close c reply) (h : (s₁.db.cell c).tx = (s.db.cell c).tx.close)

theorem execPut_tx {db db' : BrokerDb S} {tgt : BrokerClient} {f : Frame} {timeout : Bool}
    {done : Except ErrorKind Unit → Next} {next : Next}
    (h : execPut ch db tgt f timeout done = some (db', next)) (c : BrokerClient) :
    (db'.cell c).tx = (db.cell c).tx ∨ (c = tgt ∧ (db.cell c).tx.isFull = false ∧
      (db.cell c).tx.closed = false ∧ (db'.cell c).tx = (db.cell c).tx.push f) := by
  rcases execPut_cases h with ⟨rfl, -⟩ | ⟨rfl, -⟩ | ⟨hf, ho, rfl, -⟩
  · exact .inl rfl
  · exact .inl rfl
  · by_cases hc : c = tgt
    · subst hc
      exact .inr ⟨rfl, hf, ho, by rw [setTx_tx, if_pos rfl]⟩
    · exact .inl (by rw [setTx_tx, if_neg hc])

/-- What an act does to the queue of a client. -/
theorem exec_tx {next : Next} (h : exec ch t s a = some (s₁, next)) (c : BrokerClient) :
    TxEffect s s₁ a c := by
  rcases exec_cases h with ⟨db, hdb, rfl⟩ | ⟨-, ⟨-, -, rfl⟩ | ⟨-, -, rfl⟩ | ⟨-, rfl⟩ | ⟨-, rfl⟩⟩
  · have hsame : ∀ {x y : BrokerDb S × Next}, some x = some y → (x.1.cell c).tx = (s.db.cell c).tx →
        (y.1.cell c).tx = (s.db.cell c).tx := fun hxy hx => Option.some.inj hxy ▸ hx
    cases a with
    | ack d n opId code realtime =>
      rw [execDb] at hdb
      rcases execPut_tx hdb c with hs | ⟨rfl, hf, ho, hp⟩
      · exact .same hs
      · exact .put _ (.inr ⟨_, _, _, _, rfl⟩) hf ho hp
    | put tgt f timeout reply =>
      rw [execDb] at hdb
      rcases execPut_tx hdb c with hs | ⟨rfl, hf, ho, hp⟩
      · exact .same hs
      · exact .put _ (.inl rfl) hf ho hp
    | close tgt reply =>
      obtain ⟨rfl, -⟩ := Prod.mk.inj (Option.some.inj hdb)
      by_cases hc : c = tgt
      · subst hc
        exact .close reply rfl (by simp only [closeTx, setTx_tx, if_true])
      · exact .same (by simp only [closeTx, setTx_tx, if_neg hc])
    | exclude d topics complete | unexclude d topics complete =>
      obtain ⟨rfl, -⟩ := Prod.mk.inj (Option.some.inj hdb)
      refine .same ?_
      simp only [setCell_cell]
      split <;> simp_all
    | unregister d | drop d => exact .same (hsame hdb (by rw [(Keeps.dropClient s.db d).tx]))
    | send target f timeout reply =>
      rw [execDb] at hdb
      split at hdb <;> exact .same (hsame hdb rfl)
    | safeSend tgt f timeout reply =>
      rw [execDb] at hdb
      split at hdb
      · split at hdb <;> exact .same (hsame hdb rfl)
      · exact .same (hsame hdb rfl)
    | subscribe | unsubscribe | fan | withCore | exit => exact .same (hsame hdb rfl)
    | lockRpc | lockCore | unlockRpc | unlockCore => cases hdb
  all_goals exact .same rfl

/-- An answer puts nothing, and is for the client that it is made for. -/
theorem calm_reply {reply : Reply} {res : Except ErrorKind Unit} {b : Act}
    (hb : b ∈ reply.acts res) :
    b.waits = none ∧ b.aims = none := by
  obtain ⟨c, n, opId, qos, code, -, rfl, -⟩ := mem_reply hb
  exact ⟨rfl, rfl⟩

/-- A look is the only act that leads to a put. -/
theorem exec_waits {l : List Act} (h : exec ch t s a = some (s₁, .acts l)) :
    (∀ b ∈ l, b.waits = none) ∨ ∃ tgt f timeout timeout' reply, a = .safeSend tgt f timeout reply ∧
      l = [.put tgt f timeout' reply] ∧
        (tgt.isExternal = true → (s.db.cell tgt).tx.isFull = false) := by
  rcases exec_cases h with ⟨db, hdb, -⟩ | ⟨hn, -⟩
  · by_cases ha : ∃ tgt f timeout reply, a = .safeSend tgt f timeout reply
    · obtain ⟨tgt, f, timeout, reply, rfl⟩ := ha
      rw [execDb] at hdb
      split at hdb
      · split at hdb
        · rename_i hk
          cases hdb
          exact .inr ⟨_, _, _, _, _, rfl, rfl,
            fun he => by simp [BrokerClient.isExternal, hk] at he⟩
        · cases hdb
          exact .inl (by simp [Act.waits])
      · rename_i hf
        cases hdb
        exact .inr ⟨_, _, _, _, _, rfl, rfl, fun _ => by simpa using hf⟩
    · refine .inl fun b hb => ?_
      cases leads_of_execDb hdb b hb with
      | room | full | close => exact absurd ⟨_, _, _, _, rfl⟩ ha
      | notRegistered hb | put hb | closed hb => exact (calm_reply hb).1
      | found | recipient => rfl
      | announce hb => obtain rfl | rfl := mem_announceActs hb <;> rfl
      | @core job => cases job <;> rfl
      | locks hb => obtain rfl | rfl | rfl := hb <;> rfl
  · cases hn
    exact .inl fun b hb => absurd hb List.not_mem_nil

/-- All clients that subscriptions are recorded for were made. -/
def Recorded (db : BrokerDb S) : Prop :=
  ∀ k mask d, S.Recorded db.subscriptions k mask d → d.id < db.nextId

theorem lt_of_recipients {db : BrokerDb S} (hI : Inv db) (hrec : Recorded db) {op : FanOp}
    {c : BrokerClient} (h : c ∈ db.recipients op) : c.id < db.nextId := by
  have hpub : ∀ t, c ∈ S.sub.getSubscribers db.subscriptions t → c.id < db.nextId := by
    intro t hm
    obtain ⟨g, mask, hg, hmask, -⟩ := S.sub.of_mem_getSubscribers _ _ _ hm
    exact hrec _ mask c ⟨g, hg, hmask⟩
  cases op with
  | broadcast target =>
    have hb := ((S.bcast.mem_getClientsByMask _ _ _).mp h).1
    rw [hI.broadcasts_eq] at hb
    exact hI.fresh _ _ hb
  | publish topic => exact hpub topic (List.mem_of_mem_filter h)
  | publishFor topic receiver => exact hpub topic (List.mem_of_mem_filter h)

/-- What an act has come to know was known, or was made. -/
theorem aims_of_leads {db : BrokerDb S} (hI : Inv db) (hrec : Recorded db) {a b : Act}
    (h : Leads db a b) {c : BrokerClient} (hb : b.aims = some c) :
    a.aims = some c ∨ c.id < db.nextId := by
  cases h with
  | found hl =>
    obtain rfl := Option.some.inj hb
    exact .inr (hI.fresh _ _ hl)
  | recipient ht =>
    obtain rfl := Option.some.inj hb
    exact .inr (lt_of_recipients hI hrec ht)
  | room => exact .inl hb
  | full | close => cases hb
  | notRegistered hm | put hm | closed hm =>
    rw [(calm_reply hm).2] at hb
    cases hb
  | announce hm => obtain rfl | rfl := mem_announceActs hm <;> cases hb
  | @core job => cases job <;> cases hb
  | locks hm => obtain rfl | rfl | rfl := hm <;> cases hb

/-- What a task begins with puts nothing, and knows its own client at most. -/
theorem begins_plan {aaa : Option (ClientAaa S)} {c : BrokerClient} {n : ℕ} {r : Request} {b : Act}
    (h : b ∈ plan aaa c n r) : b.waits = none ∧ (b.aims = none ∨ b.aims = some c) := by
  cases planned_of_mem h <;> first | exact ⟨rfl, .inl rfl⟩ | exact ⟨rfl, .inr rfl⟩

theorem begins_entry {e : Entry} {b : Act} (h : b ∈ e.acts) :
    b.waits = none ∧ (b.aims = none ∨ b.aims = e.client) := by
  cases entryAct_of_mem h with
  | subscribe c topics hc => exact ⟨rfl, .inr hc.symm⟩
  | send | fan | unsubscribe | exclude | unexclude | unregister | drop => exact ⟨rfl, .inl rfl⟩
  | lockRpc | withCore | lockCore | unlockCore => exact ⟨rfl, .inl rfl⟩

theorem begins_newTask {db : BrokerDb S} {c : BrokerClient} {b : Act}
    (h : b ∈ (newTask db c).todo) :
    b.waits = none ∧ b.aims = none := by
  simp only [newTask] at h
  split at h
  · obtain rfl | rfl := mem_announceActs h <;> exact ⟨rfl, rfl⟩
  · cases h

end Queues

/-! ### What is kept -/

section Kept

variable {rules : BrokerClient → Option (ClientAaa S)} {s s' : Sys S}

/-- Tasks put with their next act only, and know clients that were made only. -/
structure Tidy (s : Sys S) : Prop where
  ok : s.Ok
  recorded : Recorded s.db
  tail : ∀ t k, s.task t = some k → ∀ a ∈ k.todo.tail, a.waits = none
  aims : ∀ t k, s.task t = some k → ∀ a ∈ k.todo, ∀ c, a.aims = some c → c.id < s.db.nextId

theorem recorded_step (hI : Inv s.db) (h : Recorded s.db)
    (haims : ∀ t k, s.task t = some k → ∀ a ∈ k.todo, ∀ c, a.aims = some c → c.id < s.db.nextId)
    {l : Label} (hs : Steps rules s l s') : Recorded s'.db := by
  have hreg : ∀ {name kind source port db' res}, (allocated s name kind source port).registerClient
      (newClient s name kind source port) = (db', res) → Recorded db' := by
    intro name kind source port db' res he k mask d hr
    have hrec : S.Recorded ((allocated s name kind source port).registerClient
        (newClient s name kind source port)).1.subscriptions k mask d := by rw [he]; exact hr
    rw [(inv_registered hI he).2]
    rcases recorded_of_registerClient (inv_allocated hI name kind source port)
      hrec with hr | ⟨-, rfl⟩
    · exact (h k mask d hr).trans (Nat.lt_succ_self _)
    · exact Nat.lt_succ_self _
  have hexec : ∀ {ch t a s₁ next conn rest}, s.task t = some ⟨conn, a :: rest⟩ →
      exec ch t s a = some (s₁, next) → Recorded s₁.db := by
    intro ch t a s₁ next conn rest ht he k mask d hr
    rw [(exec_inv hI he).2]
    rcases exec_cases he with ⟨db, hdb, rfl⟩ | ⟨-, ⟨-, -, rfl⟩ | ⟨-, -, rfl⟩ | ⟨-, rfl⟩ | ⟨-, rfl⟩⟩
    · rcases execDb_recorded hdb hr with hr | ⟨topics, rfl, -⟩
      · exact h k mask d hr
      · exact haims _ _ ht _ List.mem_cons_self d rfl
    all_goals exact h k mask d hr
  cases effect_of_steps hs with
  | connect ht he => exact hreg he
  | refuse he => exact hreg he
  | act ht he => exact (hexec ht he :)
  | exit ht he => exact (hexec ht he :)
  | setCore | spawn | decode | finish | recv | ping => exact h

/-- A task that another step is about stays. -/
theorem task_of_other {l : Label} (hs : Steps rules s l s') {u : Tid} (hu : l.tid ≠ some u) :
    s'.task u = s.task u := by
  have hset : ∀ {s₁ : Sys S} {t : Tid} {k : Task}, s₁.task = s.task → t ≠ u →
      (s₁.setTask t k).task u = s.task u := by
    intro s₁ t k htask hne
    rw [setTask_task, if_neg hne.symm, htask]
  have hfin : ∀ {s₁ : Sys S} {t : Tid} {k : Conn}, s₁.task = s.task → t ≠ u →
      (s₁.finish t k).task u = s.task u := by
    intro s₁ t k htask hne
    simp only [Sys.finish, Function.update_of_ne hne.symm, htask]
  cases effect_of_steps hs with
  | connect | spawn | decode => exact hset rfl fun h => hu (congrArg some h)
  | act ht he => exact hset (exec_task he) fun h => hu (congrArg some h)
  | exit ht he => exact hfin (exec_task he) fun h => hu (congrArg some h)
  | finish => exact hfin rfl fun h => hu (congrArg some h)
  | refuse | setCore | recv | ping => rfl

/-- What the task of a step has left to do: it begins, goes on, or ends. -/
inductive Goes (s s' : Sys S) (t : Tid) (k' : Task) : Prop
  | same (ht : s.task t = some k')
  | begins (h : ∀ a ∈ k'.todo, a.waits = none ∧ ∀ c, a.aims = some c → c.id < s'.db.nextId)
  | acts {ch conn a rest s₁ l} (ht : s.task t = some ⟨conn, a :: rest⟩)
      (he : exec ch t s a = some (s₁, .acts l)) (hk : k' = ⟨conn, l ++ rest⟩)

theorem goes_of_steps (hok : s.Ok) {l : Label} (hs : Steps rules s l s') {t : Tid} {k' : Task}
    (hk : s'.task t = some k') : Goes s s' t k' := by
  have hset : ∀ {s₁ : Sys S} {u : Tid} {k : Task}, s₁.task = s.task →
      (s₁.setTask u k).task t = some k' →
      (t = u ∧ k' = k) ∨ s.task t = some k' := by
    intro s₁ u k htask h
    rw [setTask_task, htask] at h
    split at h
    · exact .inl ⟨‹_›, (Option.some.inj h).symm⟩
    · exact .inr h
  have hfin : ∀ {s₁ : Sys S} {u : Tid} {k : Conn}, s₁.task = s.task →
      (s₁.finish u k).task t = some k' →
      k'.todo = [.unregister k.client] ∨ s.task t = some k' := by
    intro s₁ u k htask h
    simp only [Sys.finish, Function.update_apply, htask] at h
    split at h
    · exact .inl (Option.some.inj h ▸ rfl)
    · exact .inr h
  have hend : ∀ {c : BrokerClient} {db : BrokerDb S}, ∀ a ∈ [Act.unregister c],
      a.waits = none ∧ ∀ d, a.aims = some d → d.id < db.nextId := by
    intro c db a ha
    rw [List.mem_singleton.mp ha]
    exact ⟨rfl, fun d hd => by cases hd⟩
  cases effect_of_steps hs with
  | connect ht hr =>
    rcases hset rfl hk with ⟨-, rfl⟩ | h
    · exact .begins fun a ha => ⟨(begins_newTask ha).1,
        fun c hc => by rw [(begins_newTask ha).2] at hc; cases hc⟩
    · exact .same h
  | spawn ht hv =>
    rcases hset rfl hk with ⟨-, rfl⟩ | h
    · refine .begins fun a ha => ⟨(begins_entry ha).1, fun c hc => ?_⟩
      rcases (begins_entry ha).2 with h | h
      · rw [h] at hc
        cases hc
      · rw [Entry.valid, ← h, hc] at hv
        exact of_decide_eq_true (Bool.and_eq_true _ _ ▸ hv).2
    · exact .same h
  | decode ht hr =>
    rcases hset rfl hk with ⟨-, rfl⟩ | h
    · refine .begins fun a ha => ⟨(begins_plan ha).1, fun c hc => ?_⟩
      rcases (begins_plan ha).2 with h | h
      · rw [h] at hc
        cases hc
      · rw [h] at hc
        obtain rfl := Option.some.inj hc
        exact hok.fresh _ _ (Sys.connOf_of_task ht)
    · exact .same h
  | act ht he =>
    rcases hset (exec_task he) hk with ⟨rfl, rfl⟩ | h
    · exact .acts ht he rfl
    · exact .same h
  | exit ht he =>
    rcases hfin (exec_task he) hk with h | h
    · exact .begins (h ▸ hend)
    · exact .same h
  | finish ht =>
    rcases hfin rfl hk with h | h
    · exact .begins (h ▸ hend)
    · exact .same h
  | refuse | setCore | recv | ping => exact .same hk

theorem Tidy.step (h : Tidy s) {l : Label} (hs : Steps rules s l s') : Tidy s' where
  ok := h.ok.step hs
  recorded := recorded_step h.ok.inv h.recorded h.aims hs
  tail t k' hk := by
    cases goes_of_steps h.ok hs hk with
    | same ht => exact h.tail t k' ht
    | begins hb => exact fun a ha => (hb a (List.mem_of_mem_tail ha)).1
    | @acts ch conn a rest s₁ acts ht he hk =>
      have htail := h.tail t _ ht
      rcases exec_waits he with hl | ⟨tgt, f, timeout, timeout', reply, -, hl, -⟩
      · intro b hb
        rw [hk] at hb
        rcases List.mem_append.mp (List.mem_of_mem_tail hb) with hb | hb
        · exact hl b hb
        · exact htail b hb
      · rw [hk, hl]
        exact htail
  aims t k' hk := by
    have hn := hs.nextId_le h.ok.inv
    cases goes_of_steps h.ok hs hk with
    | same ht => exact fun a ha c hc => (h.aims t k' ht a ha c hc).trans_le hn
    | begins hb => exact fun a ha => (hb a ha).2
    | @acts ch conn a rest s₁ acts ht he hk =>
      intro b hb c hc
      rw [hk] at hb
      refine lt_of_lt_of_le ?_ hn
      rcases List.mem_append.mp hb with hb | hb
      · rcases exec_cases he with ⟨db, hdb, -⟩ | ⟨hnil, -⟩
        · rcases aims_of_leads h.ok.inv h.recorded (leads_of_execDb hdb b hb) hc with ha | hlt
          · exact h.aims t _ ht a List.mem_cons_self c ha
          · exact hlt
        · rw [Next.acts.injEq] at hnil
          rw [hnil] at hb
          cases hb
      · exact h.aims t _ ht b (List.mem_cons_of_mem a hb) c hc

theorem Tidy.setTx (h : Tidy s) (c : BrokerClient) (f : Chan Frame → Chan Frame) :
    Tidy { s with db := s.db.setTx c f } where
  ok := h.ok.of_client (h.ok.inv.setTx c f) le_rfl fun _ k hk => ⟨k, hk, rfl⟩
  recorded := h.recorded
  tail := h.tail
  aims := h.aims

end Kept

/-! ### Everybody in between is counted -/

namespace Tested

section Counted

variable {rules : BrokerClient → Option (ClientAaa S)} {d d' : Tested S} {m : Move}
  {c : BrokerClient}

/-- The record is right: it has the tasks that are about to put, and pingers of clients that were
made. -/
structure Counted (d : Tested S) : Prop where
  tidy : Tidy d.sys
  exact : ∀ t c, some t ∈ d.found c ↔ d.sys.waits t = some c
  nodup : ∀ c, (d.found c).Nodup
  pinger : ∀ c, none ∈ d.found c → c.id < d.sys.db.nextId

theorem step_sys {l : Label} (hl : ∀ c, l ≠ .ping c) : d.step rules (.sys l) =
    (Busrt.step rules d.sys l).map fun s =>
      ⟨s, l.tid.elim d.found fun t => refind s t d.found⟩ := by
  cases l with
  | ping c => exact absurd rfl (hl c)
  | _ => rfl

/-- Everything a move can do. -/
theorem step_cases (h : Steps rules d m d') :
    (∃ l s, m = .sys l ∧ (∀ c, l ≠ .ping c) ∧ Busrt.Steps rules d.sys l s ∧
      d' = ⟨s, l.tid.elim d.found fun t => refind s t d.found⟩) ∨
    (∃ c, m = .look c ∧ c.isExternal = true ∧ c.id < d.sys.db.nextId ∧ none ∉ d.found c ∧
      (d.tx c).isFull = false ∧
      d' = { d with found := Function.update d.found c (none :: d.found c) }) ∨
    (∃ c, m = .send c ∧ none ∈ d.found c ∧ (d.tx c).closed = false ∧ (d.tx c).isFull = false ∧
      d' = ⟨{ d.sys with db := d.sys.db.setTx c (·.push ⟨.broker, FrameData.newNop⟩) },
        Function.update d.found c ((d.found c).erase none)⟩) ∨
    ∃ c, (m = .send c ∧ none ∈ d.found c ∧ (d.tx c).closed = true ∨ m = .quit c) ∧
      d' = { d with found := Function.update d.found c ((d.found c).erase none) } := by
  rw [Steps] at h
  cases m with
  | sys l =>
    left
    by_cases hl : ∃ c, l = .ping c
    · obtain ⟨c, rfl⟩ := hl
      cases h
    · rw [step_sys fun c hc => hl ⟨c, hc⟩] at h
      obtain ⟨s, hs, rfl⟩ := Option.map_eq_some_iff.mp h
      exact ⟨l, s, rfl, fun c hc => hl ⟨c, hc⟩, hs, rfl⟩
  | look c =>
    right; left
    rw [step] at h
    split at h
    · rename_i hc
      exact ⟨c, rfl, hc.1, hc.2.1, hc.2.2.1, hc.2.2.2, (Option.some.inj h).symm⟩
    · cases h
  | send c =>
    rw [step] at h
    split at h
    · rename_i hm
      split at h
      · exact .inr (.inr (.inr ⟨c, .inl ⟨rfl, hm, ‹_›⟩, (Option.some.inj h).symm⟩))
      · split at h
        · cases h
        · exact .inr (.inr (.inl ⟨c, rfl, hm, by simpa using ‹¬ (d.tx c).closed = true›,
            by simpa using ‹¬ (d.tx c).isFull = true›, (Option.some.inj h).symm⟩))
    · cases h
  | quit c => exact .inr (.inr (.inr ⟨c, .inr rfl, (Option.some.inj h).symm⟩))

/-- A step of a task with what it does to the record. -/
theorem mem_refind {s : Sys S} {t u : Tid} {found : BrokerClient → List (Option Tid)}
    (hn : (found c).Nodup) :
    some u ∈ refind s t found c ↔ if u = t then s.waits t = some c else some u ∈ found c := by
  rw [refind, List.mem_append]
  by_cases hu : u = t
  · subst hu
    simp only [if_true, hn.mem_erase_iff, ne_eq, not_true_eq_false, false_and, or_false]
    split <;> simp_all
  · have hne : (some u : Option Tid) ≠ some t := fun h => hu (Option.some.inj h)
    rw [if_neg hu, List.mem_erase_of_ne hne]
    split <;> simp [hu]

theorem none_mem_refind {s : Sys S} {t : Tid} {found : BrokerClient → List (Option Tid)} :
    none ∈ refind s t found c ↔ none ∈ found c := by
  rw [refind, List.mem_append, List.mem_erase_of_ne (by simp)]
  split <;> simp

theorem nodup_refind {s : Sys S} {t : Tid} {found : BrokerClient → List (Option Tid)}
    (hn : (found c).Nodup) :
    (refind s t found c).Nodup := by
  have he : ((found c).erase (some t)).Nodup := hn.erase _
  rw [refind]
  split
  · refine List.nodup_cons.mpr ⟨fun h => ?_, he⟩
    exact (hn.mem_erase_iff.mp h).1 rfl
  · exact he

theorem waits_of_task {s s' : Sys S} {t : Tid} (h : s'.task t = s.task t) :
    s'.waits t = s.waits t := by
  rw [Sys.waits, Sys.waits, h]

/-- A pinger comes or leaves. -/
theorem Counted.setFound (h : Counted d) {l : List (Option Tid)}
    (hmem : ∀ t : Tid, some t ∈ l ↔ some t ∈ d.found c) (hn : l.Nodup)
    (hp : none ∈ l → c.id < d.sys.db.nextId) :
    Counted { d with found := Function.update d.found c l } := by
  have hfound : ∀ e, Function.update d.found c l e = if e = c then l else d.found e :=
    fun e => Function.update_apply ..
  refine ⟨h.tidy, fun t e => ?_, fun e => ?_, fun e he => ?_⟩
  · refine Iff.trans ?_ (h.exact t e)
    simp only [hfound]
    split
    · rename_i hec
      rw [hec]
      exact hmem t
    · rfl
  · simp only [hfound]
    split
    · exact hn
    · exact h.nodup e
  · simp only [hfound] at he
    split at he
    · rename_i hec
      rw [hec]
      exact hp he
    · exact h.pinger e he

theorem Counted.quit (h : Counted d) (c : BrokerClient) :
    Counted { d with found := Function.update d.found c ((d.found c).erase none) } := by
  refine h.setFound (fun t => List.mem_erase_of_ne (by simp)) ((h.nodup c).erase _) fun hm => ?_
  exact absurd rfl ((h.nodup c).mem_erase_iff.mp hm).1

theorem Counted.setTx (h : Counted d) (c : BrokerClient) (f : Chan Frame → Chan Frame) :
    Counted { d with sys := { d.sys with db := d.sys.db.setTx c f } } :=
  ⟨h.tidy.setTx c f, h.exact, h.nodup, h.pinger⟩

theorem Counted.step (h : Counted d) (hs : Steps rules d m d') : Counted d' := by
  rcases step_cases hs with ⟨l, s, -, -, hl, rfl⟩ | ⟨c, -, -, hlt, hno, -, rfl⟩ |
    ⟨c, -, -, -, -, rfl⟩ | ⟨c, -, rfl⟩
  · have hother : ∀ u, l.tid ≠ some u → s.waits u = d.sys.waits u :=
      fun u hu => waits_of_task (task_of_other hl hu)
    cases ht : l.tid with
    | none =>
      refine ⟨h.tidy.step hl, fun u c => ?_, h.nodup, fun c hc => ?_⟩
      · rw [hother u (by rw [ht]; nofun)]
        exact h.exact u c
      · exact (h.pinger c hc).trans_le (hl.nextId_le h.tidy.ok.inv)
    | some t =>
      refine ⟨h.tidy.step hl, fun u c => ?_, fun c => nodup_refind (h.nodup c), fun c hc => ?_⟩
      · change some u ∈ refind s t d.found c ↔ s.waits u = some c
        rw [mem_refind (h.nodup c)]
        split
        · rename_i hu
          rw [hu]
        · rename_i hu
          rw [hother u (by rw [ht]; exact fun he => hu (Option.some.inj he).symm)]
          exact h.exact u c
      · exact (h.pinger c (none_mem_refind.mp hc)).trans_le (hl.nextId_le h.tidy.ok.inv)
  · exact h.setFound (fun t => by simp) (List.nodup_cons.mpr ⟨hno, h.nodup c⟩) fun _ => hlt
  · exact (h.quit c).setTx c _
  · exact h.quit c

/-- What a step of the system does to the queue of an external client and to those in between. -/
inductive QueueEffect (d : Tested S) (l : Label) (d' : Tested S) (c : BrokerClient) : Prop
  | calm (hfree : (d.tx c).free ≤ (d'.tx c).free) (hc : (d'.tx c).closed = (d.tx c).closed)
      (hlen : (d'.found c).length ≤ (d.found c).length)
  | found {t ch f timeout reply} (hl : l = .act t ch)
      (ha : d.head t = some (.safeSend c f timeout reply)) (hf : (d.tx c).isFull = false)
      (htx : d'.tx c = d.tx c) (hlen : (d'.found c).length ≤ (d.found c).length + 1)
  | acked {t ch a f} (hl : l = .act t ch) (ha : d.head t = some a) (hcl : a.claims = some c)
      (hf : (d.tx c).isFull = false) (ho : (d.tx c).closed = false)
      (htx : d'.tx c = (d.tx c).push f) (hlen : (d'.found c).length ≤ (d.found c).length)
  | put {f} (hf : (d.tx c).isFull = false) (ho : (d.tx c).closed = false)
      (htx : d'.tx c = (d.tx c).push f) (hlen : (d'.found c).length + 1 ≤ (d.found c).length)
  | close {t ch reply} (hl : l = .act t ch) (ha : d.head t = some (.close c reply))
      (htx : d'.tx c = (d.tx c).close) (hlen : (d'.found c).length ≤ (d.found c).length)
  | new (h : d'.found c = []) (ho : (d'.tx c).closed = false)

theorem length_refind_of_ne {s : Sys S} {t : Tid} (h : s.waits t ≠ some c) :
    (refind s t d.found c).length ≤ (d.found c).length := by
  rw [refind, if_neg h]
  exact List.length_erase_le

/-- A task that was in between and is not any more. -/
theorem Counted.length_refind (hd : Counted d) {s : Sys S} {t : Tid} (h : s.waits t ≠ some c)
    (hw : d.sys.waits t = some c) : (refind s t d.found c).length + 1 = (d.found c).length := by
  have hmem : some t ∈ d.found c := (hd.exact t c).mpr hw
  rw [refind, if_neg h]
  change ((d.found c).erase (some t)).length + 1 = _
  rw [List.length_erase_of_mem hmem]
  have := List.length_pos_of_mem hmem
  omega

theorem length_refind_le {s : Sys S} {t : Tid} :
    (refind s t d.found c).length ≤ (d.found c).length + 1 := by
  have := List.length_erase_le (a := (some t : Option Tid)) (l := d.found c)
  rw [refind, List.length_append]
  split <;> simp only [List.length_singleton, List.length_nil] <;> omega

/-- A step of a task that leaves it without a put. -/
theorem Counted.effect_of_exec (hd : Counted d) {t : Tid} {ch : Choice} {conn : Option Conn}
    {a : Act} {rest : List Act} {s₁ s : Sys S} {next : Next}
    (ht : d.sys.task t = some ⟨conn, a :: rest⟩) (he : exec ch t d.sys a = some (s₁, next))
    (hdb : s.db = s₁.db) (hw : s.waits t ≠ some c) :
    QueueEffect d (.act t ch) ⟨s, refind s t d.found⟩ c := by
  have hhead : d.head t = some a := by rw [head, ht]; rfl
  have hwaits : d.sys.waits t = a.waits := by rw [Sys.waits, ht]; rfl
  have hlen := length_refind_of_ne (d := d) hw
  have htx : ∀ q, (s₁.db.cell c).tx = q → (⟨s, refind s t d.found⟩ : Tested S).tx c =
      q := fun q hq => by
    rw [← hq, tx, hdb]
  cases exec_tx he c with
  | same h => exact .calm (htx _ h ▸ le_rfl) (by rw [htx _ h]; rfl) hlen
  | put f ha hf ho h =>
    rcases ha with ha | ⟨n, opId, code, realtime, rfl⟩
    · exact .put hf ho (htx _ h) (hd.length_refind hw (hwaits.trans ha)).le
    · exact .acked rfl hhead rfl hf ho (htx _ h) hlen
  | close reply ha h => exact .close rfl (ha ▸ hhead) (htx _ h) hlen

theorem waits_of_begins {s : Sys S} {t : Tid} {k : Task} (ht : s.task t = some k)
    (h : ∀ a ∈ k.todo, a.waits = none) :
    s.waits t = none := by
  rw [Sys.waits, ht]
  cases hk : k.todo with
  | nil => simp [hk]
  | cons a rest => simpa [hk] using h a (hk ▸ List.mem_cons_self)

/-- Nobody is in between for a client that is not made yet. -/
theorem Counted.found_new (hd : Counted d) (hc : d.sys.db.nextId ≤ c.id) : d.found c = [] := by
  refine List.eq_nil_iff_forall_not_mem.mpr fun x hx => ?_
  refine absurd hc (not_le.mpr ?_)
  cases x with
  | none => exact hd.pinger c hx
  | some t =>
    have hw := (hd.exact t c).mp hx
    cases ht : d.sys.task t with
    | none => rw [Sys.waits, ht] at hw; cases hw
    | some k =>
      rw [Sys.waits, ht] at hw
      obtain ⟨a, ha, hw⟩ := Option.bind_eq_some_iff.mp hw
      exact hd.tidy.aims t k ht a (List.mem_of_mem_head? ha) c (Act.aims_of_waits hw)

/-- A task that stays where it was. -/
theorem Counted.length_refind_same (hd : Counted d) {s : Sys S} {t : Tid}
    (h : s.waits t = d.sys.waits t) :
    (refind s t d.found c).length ≤ (d.found c).length := by
  by_cases hw : s.waits t = some c
  · have hmem : some t ∈ d.found c := (hd.exact t c).mpr (h ▸ hw)
    have := List.length_pos_of_mem hmem
    rw [refind, if_pos hw, List.length_append, List.length_erase_of_mem hmem, List.length_singleton]
    omega
  · exact length_refind_of_ne hw

/-- A new client has an open queue, and its registration changes no other. -/
theorem registered_tx {s : Sys S} (h : Inv s.db) {name : String} {kind : BusRtClientKind}
    {source port : Option String} {db' : BrokerDb S} {res : Except Error Unit}
    (hr : (allocated s name kind source port).registerClient
      (newClient s name kind source port) = (db', res))
    (c : BrokerClient) :
    (db'.cell c).tx = if c = newClient s name kind source port then .bounded s.db.queueSize
      else (s.db.cell c).tx := by
  have htx := registerClient_tx (inv_allocated h name kind source port)
    (newClient s name kind source port) c
  rw [hr] at htx
  calc (db'.cell c).tx
    _ = ((s.db.setCell (newClient s name kind source port) fun _ =>
      ClientCell.new S s.db.queueSize).cell c).tx := htx
    _ = if c = newClient s name kind source port then .bounded s.db.queueSize
      else (s.db.cell c).tx := by
      rw [setCell_cell]
      split <;> rfl

/-- What a step of the system does to one external client. -/
theorem Counted.effect (hd : Counted d) {l : Label} {s : Sys S} (hl : Busrt.Steps rules d.sys l s)
    (hp : ∀ c, l ≠ .ping c) (hc : c.isExternal = true) :
    QueueEffect d l ⟨s, l.tid.elim d.found fun t => refind s t d.found⟩ c := by
  have hreg : ∀ {t name kind source port db' res} {s : Sys S},
      (allocated d.sys name kind source port).registerClient
      (newClient d.sys name kind source port) = (db', res) → s.db = db' →
      (∀ c, (refind s t d.found c).length ≤ (d.found c).length) →
      QueueEffect d (.connect t name kind source port) ⟨s, refind s t d.found⟩ c := by
    intro t name kind source port db' res s hr hdb hlen
    have htx : (⟨s, refind s t d.found⟩ : Tested S).tx c = if c =
        newClient d.sys name kind source port then
        .bounded d.sys.db.queueSize else d.tx c := by
      rw [tx, hdb, registered_tx hd.tidy.ok.inv hr]
      rfl
    by_cases hnew : c = newClient d.sys name kind source port
    · rw [if_pos hnew] at htx
      refine .new (List.length_eq_zero_iff.mp (Nat.le_zero.mp ((hlen c).trans ?_))) (htx ▸ rfl)
      rw [hd.found_new (hnew ▸ le_rfl)]
      exact le_rfl
    · rw [if_neg hnew] at htx
      exact .calm (htx ▸ le_rfl) (by rw [htx]) (hlen c)
  -- a step that leaves the queues, and its task without a put
  have hcalm : ∀ {t l} {s : Sys S}, s.db.cell = d.sys.db.cell → s.waits t = none →
      QueueEffect d l ⟨s, refind s t d.found⟩ c := by
    intro t l s hdb hw
    have htx : (⟨s, refind s t d.found⟩ : Tested S).tx c = d.tx c := by rw [tx, hdb]; rfl
    exact .calm (htx ▸ le_rfl) (by rw [htx]) (length_refind_of_ne (by rw [hw]; nofun))
  have hend : ∀ {s : Sys S} {t : Tid} {k : Conn}, (s.finish t k).waits t = none := by
    intro s t k
    simp only [Sys.waits, Sys.finish, Function.update_self]
    rfl
  cases effect_of_steps hl with
  | connect ht hr =>
    refine hreg hr rfl fun c => length_refind_of_ne ?_
    rw [waits_of_begins (by rw [setTask_task, if_pos rfl]) fun a ha => (begins_newTask ha).1]
    nofun
  | refuse hr => exact hreg hr rfl fun c => hd.length_refind_same rfl
  | setCore => exact .calm le_rfl rfl le_rfl
  | spawn =>
    exact hcalm rfl
      (waits_of_begins (by rw [setTask_task, if_pos rfl]) fun a ha => (begins_entry ha).1)
  | decode =>
    exact hcalm rfl
      (waits_of_begins (by rw [setTask_task, if_pos rfl]) fun a ha => (begins_plan ha).1)
  | finish => exact hcalm rfl hend
  | exit ht he => exact hd.effect_of_exec ht he rfl (by rw [hend]; nofun)
  | @act t ch conn a rest s₁ acts ht he =>
    have hw : (s₁.setTask t ⟨conn, acts ++ rest⟩).waits t =
        ((acts ++ rest).head?).bind Act.waits := by
      rw [Sys.waits, setTask_task, if_pos rfl]
      rfl
    rcases exec_waits he with hno | ⟨tgt, f, timeout, timeout', reply, rfl, rfl, hfull⟩
    · refine hd.effect_of_exec ht he rfl ?_
      rw [waits_of_begins (by rw [setTask_task, if_pos rfl]) fun b hb => ?_]
      · nofun
      · rcases List.mem_append.mp hb with hb | hb
        · exact hno b hb
        · exact hd.tidy.tail t _ ht b hb
    · by_cases htgt : tgt = c
      · subst htgt
        refine .found rfl (by rw [head, ht]; rfl) (hfull hc) ?_ length_refind_le
        cases exec_tx he tgt with
        | same h => exact h
        | put _ ha => rcases ha with ha | ⟨_, _, _, _, ha⟩ <;> cases ha
        | close _ ha => cases ha
      · refine hd.effect_of_exec ht he rfl ?_
        rw [hw]
        exact fun h => htgt (Option.some.inj h)
  | @recv b =>
    have htx : (⟨{ d.sys with db := d.sys.db.setTx b Chan.recv }, d.found⟩ : Tested S).tx c =
        if c = b then (d.tx c).recv else d.tx c := by
      rw [tx, setTx_tx]
      split
      · rename_i hb
        rw [hb]
        rfl
      · rfl
    refine .calm ?_ ?_ le_rfl
    · refine le_of_le_of_eq ?_ (congrArg Chan.free htx.symm)
      split
      · exact (d.tx c).free_le_recv
      · exact le_rfl
    · refine (congrArg Chan.closed htx).trans ?_
      split
      · exact Chan.closed_recv _
      · rfl
  | ping => exact absurd rfl (hp _)

end Counted

/-! ### Nobody waits -/

section Runs

variable {rules : BrokerClient → Option (ClientAaa S)} {d d' : Tested S} {m : Move}

/-- There is room for all who are about to send. -/
structure Covers (d : Tested S) : Prop extends Counted d where
  room : ∀ c, c.isExternal = true → (d.tx c).closed = false → (d.found c).length ≤ (d.tx c).free

/-- Nobody is about to send to a queue that is closed. -/
def Open (d : Tested S) : Prop := ∀ c, c.isExternal = true → (d.tx c).closed = true → d.found c = []

theorem lt_of_spare {c : BrokerClient} (h : d.spare c = true) (hx : c.isExternal = true)
    (ho : (d.tx c).closed = false) (hf : (d.tx c).isFull = false) :
    (d.found c).length < (d.tx c).free := by
  simpa [spare, hx, ho, hf] using h

theorem spare_of_roomy {t : Tid} {ch : Choice} {a : Act} {c : BrokerClient}
    (h : d.Roomy (.sys (.act t ch)) = true) (ha : d.head t = some a) (hc : a.claims = some c) :
    d.spare c = true := by
  simpa only [Roomy, ha, Option.bind_some, hc, Option.all_some] using h

/-- The queue of one client after the pinger has sent. -/
theorem tx_sendPing (d : Tested S) (found : BrokerClient → List (Option Tid)) (f : Frame)
    (b c : BrokerClient) :
    tx ⟨{ d.sys with db := d.sys.db.setTx b (·.push f) }, found⟩ c = if c = b then (d.tx b).push f
      else d.tx c := by
  rw [tx, setTx_tx]
  rfl

/-- **A step that leaves the room to those in between.** -/
theorem Covers.step (h : Covers d) (hm : d.Roomy m = true) (hs : Steps rules d m d') :
    Covers d' := by
  refine ⟨h.toCounted.step hs, fun c hc ho => ?_⟩
  rcases step_cases hs with ⟨l, s, rfl, hp, hl, rfl⟩ | ⟨b, rfl, hb, -, -, hf, rfl⟩ |
    ⟨b, -, hmem, -, hf, rfl⟩ | ⟨b, -, rfl⟩
  · cases h.effect hl hp hc with
    | calm hfree hcl hlen => exact hlen.trans ((h.room c hc (hcl ▸ ho)).trans hfree)
    | found hl' ha hf htx hlen =>
      subst hl'
      rw [htx] at ho ⊢
      exact hlen.trans (lt_of_spare (spare_of_roomy hm ha rfl) hc ho hf)
    | @acked t ch a f hl' ha hcl hf ho' htx hlen =>
      subst hl'
      have hlt := lt_of_spare (spare_of_roomy hm ha hcl) hc ho' hf
      have hpush := Chan.free_push hf f
      rw [htx]
      omega
    | @put f hf ho' htx hlen =>
      have hroom := h.room c hc ho'
      have hpush := Chan.free_push hf f
      rw [htx]
      omega
    | close hl' ha htx hlen =>
      rw [htx] at ho
      cases ho
    | new hnil =>
      rw [hnil]
      exact Nat.zero_le _
  · change (Function.update d.found b (none :: d.found b) c).length ≤ (d.tx c).free
    rw [Function.update_apply]
    split
    · rename_i hcb
      subst hcb
      exact lt_of_spare hm hb ho hf
    · exact h.room c hc ho
  · have htx := tx_sendPing d (Function.update d.found b ((d.found b).erase none))
      ⟨.broker, FrameData.newNop⟩ b c
    rw [htx] at ho ⊢
    change (Function.update d.found b ((d.found b).erase none) c).length ≤ _
    rw [Function.update_apply]
    by_cases hcb : c = b
    · subst hcb
      rw [if_pos rfl, Chan.closed_push] at ho
      rw [if_pos rfl, if_pos rfl, List.length_erase_of_mem hmem]
      have hroom := h.room c hc ho
      have hpush := Chan.free_push hf ⟨.broker, FrameData.newNop⟩
      omega
    · rw [if_neg hcb] at ho
      rw [if_neg hcb, if_neg hcb]
      exact h.room c hc ho
  · change (Function.update d.found b ((d.found b).erase none) c).length ≤ (d.tx c).free
    rw [Function.update_apply]
    split
    · rename_i hcb
      subst hcb
      exact List.length_erase_le.trans (h.room c hc ho)
    · exact h.room c hc ho

/-- A step that looks at open queues only, and closes none under those in between. -/
theorem Open.step (hd : Counted d) (h : Open d) (hm : d.Orderly m = true)
    (hs : Steps rules d m d') : Open d' := by
  intro c hc ho
  have hnil : (d'.found c).length ≤ (d.found c).length → d.found c = [] →
      d'.found c = [] := fun hlen h =>
    List.length_eq_zero_iff.mp (Nat.le_zero.mp (hlen.trans (by rw [h]; exact le_rfl)))
  rcases step_cases hs with ⟨l, s, rfl, hp, hl, rfl⟩ | ⟨b, rfl, hb, -, -, hf, rfl⟩ |
    ⟨b, -, hmem, hob, hf, rfl⟩ | ⟨b, -, rfl⟩
  · cases hd.effect hl hp hc with
    | calm hfree hcl hlen => exact hnil hlen (h c hc (hcl ▸ ho))
    | found hl' ha hf htx hlen =>
      subst hl'
      rw [htx] at ho
      simp [Orderly, ha, hc, ho] at hm
    | acked hl' ha hcl hf ho' htx hlen =>
      rw [htx, Chan.closed_push, ho'] at ho
      cases ho
    | put hf ho' htx hlen =>
      rw [htx, Chan.closed_push, ho'] at ho
      cases ho
    | close hl' ha htx hlen =>
      subst hl'
      refine hnil hlen (List.isEmpty_iff.mp ?_)
      simpa only [Orderly, ha] using hm
    | new _ ho' =>
      rw [ho'] at ho
      cases ho
  · change Function.update d.found b (none :: d.found b) c = []
    rw [Function.update_apply]
    split
    · rename_i hcb
      subst hcb
      have hco : (d.tx c).closed = true := ho
      simp [Orderly, hco] at hm
    · exact h c hc ho
  · rw [tx_sendPing] at ho
    change Function.update d.found b ((d.found b).erase none) c = []
    rw [Function.update_apply]
    split
    · rename_i hcb
      rw [if_pos hcb, Chan.closed_push, hob] at ho
      cases ho
    · rename_i hcb
      rw [if_neg hcb] at ho
      exact h c hc ho
  · change Function.update d.found b ((d.found b).erase none) c = []
    rw [Function.update_apply]
    split
    · rename_i hcb
      subst hcb
      rw [h c hc ho]
      rfl
    · exact h c hc ho

/-- Nobody waits for room: who is about to put to an external client does so at once, or finds that
the queue was closed in between; and so does a pinger. -/
structure Flows (rules : BrokerClient → Option (ClientAaa S)) (d : Tested S) : Prop where
  puts : ∀ t conn c f timeout reply rest ch,
    d.sys.task t = some ⟨conn, .put c f timeout reply :: rest⟩ → c.isExternal = true →
    ∃ s, Busrt.Steps rules d.sys (.act t ch) s ∧
      if (d.tx c).closed then
        s.db = d.sys.db ∧ s.task t = some ⟨conn, reply.acts (.error .eof) ++ rest⟩
      else (d.tx c).isFull = false ∧ s.db = d.sys.db.setTx c (·.push f) ∧
        s.task t = some ⟨conn, reply.acts (.ok ()) ++ rest⟩
  pings : ∀ c, c.isExternal = true → none ∈ d.found c → ∃ d', Steps rules d (.send c) d'

/-- A delivery to an external client looks at its queue; if that is full, it takes the client out
and returns `NotDelivered`, and if it is not, it enqueues at once. -/
structure Delivers (rules : BrokerClient → Option (ClientAaa S)) (d : Tested S) : Prop where
  looks : ∀ t conn c f timeout reply rest ch,
    d.sys.task t = some ⟨conn, .safeSend c f timeout reply :: rest⟩ → c.isExternal = true →
    ∃ s, Busrt.Steps rules d.sys (.act t ch) s ∧ s.db = d.sys.db ∧
      s.task t = some ⟨conn, (if (d.tx c).isFull then [.unregister c, .close c reply]
        else [.put c f false reply]) ++ rest⟩
  unregisters : ∀ t conn c rest ch, d.sys.task t = some ⟨conn, .unregister c :: rest⟩ →
    ∃ s, Busrt.Steps rules d.sys (.act t ch) s ∧ s.db = d.sys.db.dropClient c
  closes : ∀ t conn c reply rest ch, d.sys.task t = some ⟨conn, .close c reply :: rest⟩ →
    ∃ s, Busrt.Steps rules d.sys (.act t ch) s ∧
      s.task t = some ⟨conn, reply.acts (.error .notDelivered) ++ rest⟩
  puts : ∀ t conn c f timeout reply rest ch,
    d.sys.task t = some ⟨conn, .put c f timeout reply :: rest⟩ → c.isExternal = true →
    ∃ s, Busrt.Steps rules d.sys (.act t ch) s ∧ (d.tx c).isFull = false ∧
      s.db = d.sys.db.setTx c (·.push f) ∧ s.task t = some ⟨conn, reply.acts (.ok ()) ++ rest⟩

theorem act_of_exec {s s₁ : Sys S} {t : Tid} {ch : Choice} {conn : Option Conn} {a : Act}
    {rest l : List Act} (ht : s.task t = some ⟨conn, a :: rest⟩)
    (he : exec ch t s a = some (s₁, .acts l)) :
    Busrt.Steps rules s (.act t ch) (s₁.setTask t ⟨conn, l ++ rest⟩) := by
  simp only [Busrt.Steps, Busrt.step, act, ht, he]

theorem waits_of_head {s : Sys S} {t : Tid} {conn : Option Conn} {a : Act} {rest : List Act}
    (ht : s.task t = some ⟨conn, a :: rest⟩) : s.waits t = a.waits := by
  rw [Sys.waits, ht]
  rfl

theorem Covers.isFull (h : Covers d) {c : BrokerClient} {x : Option Tid} (hc : c.isExternal = true)
    (ho : (d.tx c).closed = false) (hx : x ∈ d.found c) : (d.tx c).isFull = false :=
  (Chan.isFull_eq_false _).mpr ((List.length_pos_of_mem hx).trans_le (h.room c hc ho))

theorem Covers.flows (h : Covers d) : Flows rules d where
  puts t conn c f timeout reply rest ch ht hc := by
    have hmem : some t ∈ d.found c := (h.exact t c).mpr (waits_of_head ht)
    cases ho : (d.tx c).closed with
    | true =>
      have ho' : (d.sys.db.cell c).tx.closed = true := ho
      have he : exec ch t d.sys (.put c f timeout reply) =
          some (d.sys, .acts (reply.acts (.error .eof))) := by
        simp [exec, execDb, execPut, ho']
      exact ⟨_, act_of_exec ht he, rfl, by rw [setTask_task, if_pos rfl]⟩
    | false =>
      have hf := h.isFull hc ho hmem
      have ho' : (d.sys.db.cell c).tx.closed = false := ho
      have hf' : (d.sys.db.cell c).tx.isFull = false := hf
      have he : exec ch t d.sys (.put c f timeout reply) =
          some ({ d.sys with db := d.sys.db.setTx c (·.push f) }, .acts (reply.acts (.ok ()))) := by
        simp [exec, execDb, execPut, ho', hf']
      exact ⟨_, act_of_exec ht he, hf, rfl, by rw [setTask_task, if_pos rfl]⟩
  pings c hc hm := by
    cases ho : (d.tx c).closed with
    | true => exact ⟨_, by rw [Steps, Tested.step, if_pos hm, if_pos ho]⟩
    | false =>
      have hf := h.isFull hc ho hm
      exact ⟨_, by rw [Steps, Tested.step, if_pos hm, if_neg (by simp [ho]), if_neg (by simp [hf])]⟩

end Runs

end Tested

namespace Slots

/-- A message to the client `w`. -/
def message : Request := .numbered 1 .message .no [119, 0, 7]

def receiver : BrokerClient := ⟨0, "w", .tcp, none, none⟩
def second : BrokerClient := ⟨2, "b", .tcp, none, none⟩

/-- Two clients send to `w`: they look it up. -/
def joined : List Move :=
  [.sys (.connect 0 "w" .tcp none none), .sys (.connect 1 "a" .tcp none none),
    .sys (.connect 2 "b" .tcp none none), .sys (.decode 1 message), .sys (.decode 2 message),
    .sys (.act 1 .plain), .sys (.act 2 .plain)]

/-- One looks at the queue and sends, and then the other does. -/
def inTurn : List Move :=
  joined ++ [.sys (.act 1 .plain), .sys (.act 1 .plain), .sys (.recv receiver), .look receiver,
    .send receiver, .sys (.recv receiver), .sys (.act 2 .plain)]

/-- A queue of one frame. -/
def start : Tested reference := Tested.init reference false false 1

def rules (_ : BrokerClient) : Option (ClientAaa reference) := none

end Slots

end Busrt
