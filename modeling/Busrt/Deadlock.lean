/-
# No deadlock among the mutexes of the registry

`drop_client` of a primary holds its `secondaries` and takes `clients`, all
others take `clients` first. `runs` reads the instructions of a task as a use of
the locks: under `clients` the `secondaries` of clients that are there, and none
but `drop_client` without. A client whose `secondaries` are held by its teardown
is gone for good (`Gone`): it was registered once, so nobody is to insert it
again, and the teardown took it out of `clients` before. So the two never meet:
at any time there is an order of the locks in which every task takes them
(`Orderly.climbs`), and no cycle of tasks that wait (`no_deadlock`).

Key definitions: `Hold`, `Instr.next`, `runs`, `Gone`, `Orderly`, `Mach.level`.
Key theorems: `runs_leads`, `Orderly.step`, `Orderly.climbs`, `no_deadlock`.
-/
import Busrt.Sections
import Busrt.Lib.Waits

namespace Busrt

open Lib BrokerDb

variable {S : Submap}

/-! ### How a task uses the locks -/

/-- What a task that holds `clients` does with it: nothing yet, look clients up and work on
them, or register one. -/
inductive Stage
  | start
  | looking
  | entering (c : BrokerClient)
  deriving DecidableEq

/-- A teardown that holds the secondaries of its client, before it read them and after. -/
inductive Tear
  | taken (c : BrokerClient)
  | looping (c : BrokerClient)
  deriving DecidableEq

def Tear.client : Tear → BrokerClient
  | taken c | looping c => c

/-- The mutexes a task holds: of a teardown, `clients`, and one more; and the client whose
removals it is at. -/
structure Hold where
  tear : Option Tear
  clients : Option Stage
  leaf : Option Mutex
  down : Option BrokerClient
  deriving DecidableEq

namespace Hold

/-- None. -/
def free : Hold := ⟨none, none, none, none⟩

/-- `clients`, just taken. -/
def atClients : Hold := ⟨none, some .start, none, none⟩

def only (m : Mutex) : Hold := ⟨none, none, some m, none⟩

def looping (c : BrokerClient) : Hold := ⟨some (.looping c), none, none, none⟩

/-- The client whose teardown holds its secondaries. -/
def torn (h : Hold) : Option BrokerClient := h.tear.map Tear.client

def has (h : Hold) (m : Mutex) : Prop :=
  (∃ c, h.torn = some c ∧ m = .secondaries c) ∨ (h.clients.isSome ∧ m = .clients) ∨ h.leaf = some m

/-- Under `clients`, with clients that were found there. -/
def found (h : Hold) : Bool := h.clients.any (· != .start)

theorem found_iff {h : Hold} : h.found = true ↔ ∃ st, h.clients = some st ∧ st ≠ .start := by
  cases hc : h.clients <;> simp [found, hc]

end Hold

/-- What is held after an instruction and all it leads to, if it may stand where `h` is held. -/
def Instr.next (h : Hold) : Instr → Option Hold
  | .lock .clients =>
    if h.clients = none ∧ h.leaf = none then some { h with clients := some .start } else none
  | .lock (.secondaries c) => if h = .free then some ⟨some (.taken c), none, none, none⟩ else none
  | .lock m => if h.leaf = none then some { h with leaf := some m } else none
  | .lockSecondaries p =>
    if h.found ∧ h.leaf = none ∧ h.torn ≠ some p then some { h with leaf := some (.secondaries p) }
    else none
  | .unlock .clients =>
    if h.clients.isSome ∧ h.leaf = none then some { h with clients := none } else none
  | .unlock (.secondaries c) =>
    if h = .looping c then some .free
    else if h.leaf = some (.secondaries c) ∧ h.torn ≠ some c then some { h with leaf := none }
    else none
  | .unlock m => if h.leaf = some m then some { h with leaf := none } else none
  | .insert _ _ | .displace _ | .lookup _ | .triggerName _ | .list =>
    if h = .atClients then some .free else none
  | .join p c =>
    if h.clients = some (.entering c) ∧ h.leaf = some (.secondaries p) ∧ c.primary = false then
      some h
    else none
  | .enterBroadcasts c =>
    if h.clients = some (.entering c) ∧ h.leaf = some .broadcasts then some h else none
  | .enterSubscriptions c =>
    if h.clients = some (.entering c) ∧ h.leaf = some .subscriptions then some h else none
  | .flag c => if h.clients = some (.entering c) ∧ h.leaf = none then some h else none
  | .place c =>
    if h.clients = some (.entering c) ∧ h.leaf = none then some { h with clients := some .start }
    else none
  | .ok _ | .wasRegistered _ | .drop _ none | .announce _ | .announced | .deliver _ | .retain .. =>
    if h = .free then some h else none
  | .drop c (some p) => if h = .looping p ∧ c.primary = false then some h else none
  | .unflag c => if h.clients = none ∧ h.leaf = none ∧ h.down = some c then some h else none
  | .leaveSubscriptions c =>
    if h.clients = none ∧ h.leaf = some .subscriptions ∧ h.down = some c then some h else none
  | .leaveBroadcasts c =>
    if h.clients = none ∧ h.leaf = some .broadcasts ∧ h.down = some c then some h else none
  | .remove c =>
    if h.clients = some .start ∧ h.leaf = none ∧ h.down = some c then some { h with down := none }
    else none
  | .secondaries c => if h = ⟨some (.taken c), none, none, none⟩ then some .free else none
  | .find p n =>
    if h = ⟨some (.looping p), some .start, none, none⟩ ∧ primaryName n ≠ n then some (.looping p)
    else none
  | .clear c => if h = .looping c then some h else none
  | .leave _ =>
    if h.clients = some .start ∧ h.leaf = none then some { h with clients := none } else none
  | .erase p _ =>
    if h.clients = some .looking ∧ h.leaf = some (.secondaries p) then some h else none
  | .trigger _ => some h
  | .topics op c _ => if h = .only (op.mutex c) then some h else none
  | .mask _ => if h = .only .broadcasts then some .free else none
  | .topic _ _ => if h = .only .subscriptions then some .free else none
  | .excluded _ _ sub _ _ => if h = .only (.exclusions sub) then some .free else none

/-- What is held after a list of instructions. -/
def runs : Hold → List Instr → Option Hold
  | h, [] => some h
  | h, i :: l => (i.next h).bind fun h' => runs h' l

theorem runs_append :
    ∀ (h : Hold) (l l' : List Instr), runs h (l ++ l') = (runs h l).bind fun h' => runs h' l'
  | h, [], l' => rfl
  | h, i :: l, l' => by
    rw [List.cons_append, runs, runs]
    cases i.next h with
    | none => rfl
    | some h' => exact runs_append h' l l'

theorem runs_append_of {h h' : Hold} {l : List Instr} (hl : runs h l = some h') (l' : List Instr) :
    runs h (l ++ l') = runs h' l' := by
  rw [runs_append, hl]
  rfl

/-- What an instruction needs to be held and no other brings about is held from the start. -/
theorem holds_of_mem {Q : Hold → Prop} (hQ : ∀ (i : Instr) h h', i.next h = some h' → Q h' → Q h)
    {i : Instr} (hi : ∀ h h', i.next h = some h' → Q h) {l : List Instr} {h h' : Hold}
    (hr : runs h l = some h') (hm : i ∈ l) : Q h := by
  induction l generalizing h with
  | nil => cases hm
  | cons j l ih =>
    obtain ⟨h₁, hj, hr⟩ := Option.bind_eq_some_iff.mp hr
    rcases List.mem_cons.mp hm with rfl | hm
    · exact hi h h₁ hj
    · exact hQ j h h₁ hj (ih hr hm)

section Next

variable {i : Instr} {h h' : Hold} {l : List Instr}

/-- No instruction by itself gets to clients that were found. -/
theorem stage_of_next (hn : i.next h = some h') {st : Stage} (hst : st ≠ .start)
    (hc : h'.clients = some st) :
    h.clients = some st := by
  unfold Instr.next at hn
  split at hn
  all_goals grind [Hold.free, Hold.atClients, Hold.looping, Hold.only]

/-- Nor into a loop. -/
theorem looping_of_next (hn : i.next h = some h') {p : BrokerClient}
    (hc : h'.tear = some (.looping p)) :
    h.tear = some (.looping p) := by
  unfold Instr.next at hn
  split at hn
  all_goals grind [Hold.free, Hold.atClients, Hold.looping, Hold.only]

/-- Nor to the removals of a client. -/
theorem down_of_next (hn : i.next h = some h') {c : BrokerClient} (hc : h'.down = some c) :
    h.down = some c := by
  unfold Instr.next at hn
  split at hn
  all_goals grind [Hold.free, Hold.atClients, Hold.looping, Hold.only]

/-- Secondaries of a client found in `clients` are taken while it is looked at. -/
theorem found_of_mem {x : BrokerClient} (hr : runs h l = some h') (hm : .lockSecondaries x ∈ l) :
    h.found = true := by
  refine holds_of_mem (Q := fun h => h.found = true) (fun i h h' hn hf => ?_)
    (fun h h' hn => ?_) hr hm
  · obtain ⟨st, hc, hst⟩ := Hold.found_iff.mp hf
    exact Hold.found_iff.mpr ⟨st, stage_of_next hn hst hc, hst⟩
  · simp only [Instr.next, Option.ite_none_right_eq_some] at hn
    exact hn.1.1

/-- What is done between the check of `insert_client` and the end of it. -/
def Instr.entering : Instr → Option BrokerClient
  | .join _ c | .enterBroadcasts c | .enterSubscriptions c | .flag c | .place c => some c
  | _ => none

theorem entering_of_mem {c : BrokerClient} (hr : runs h l = some h') (hm : i ∈ l)
    (hi : i.entering = some c) :
    h.clients = some (.entering c) := by
  refine holds_of_mem (Q := fun h => h.clients =
    some (.entering c)) (fun i h h' hn hf => ?_) (fun h h' hn => ?_) hr hm
  · exact stage_of_next hn nofun hf
  · cases i <;> cases hi <;> simp only [Instr.next,
      Option.ite_none_right_eq_some] at hn <;> exact hn.1.1

/-- Removals stand where their client's are done, and nowhere else. -/
def Instr.removes : Instr → Option BrokerClient
  | .unflag c | .leaveSubscriptions c | .leaveBroadcasts c | .remove c => some c
  | _ => none

theorem down_of_mem {c : BrokerClient} (hr : runs h l = some h') (hm : i ∈ l)
    (hi : i.removes = some c) :
    h.down = some c := by
  refine holds_of_mem (Q := fun h => h.down = some c) (fun i h h' hn hf => ?_)
    (fun h h' hn => ?_) hr hm
  · exact down_of_next hn hf
  · cases i <;> cases hi <;> simp only [Instr.next,
      Option.ite_none_right_eq_some] at hn <;> exact hn.1.2.2

/-- What is done in the loop over the secondaries of a client. -/
def Instr.looping : Instr → Option BrokerClient
  | .find p _ | .clear p | .drop _ (some p) => some p
  | _ => none

theorem looping_of_mem {p : BrokerClient} (hr : runs h l = some h') (hm : i ∈ l)
    (hi : i.looping = some p) :
    h.tear = some (.looping p) := by
  refine holds_of_mem (Q := fun h => h.tear = some (.looping p)) (fun i h h' hn hf => ?_)
    (fun h h' hn => ?_) hr hm
  · exact looping_of_next hn hf
  · cases i
    case find q n =>
      cases hi
      simp only [Instr.next, Option.ite_none_right_eq_some] at hn
      rw [hn.1.1]
    case clear q =>
      cases hi
      simp only [Instr.next, Option.ite_none_right_eq_some] at hn
      rw [hn.1]
      rfl
    case drop c q =>
      cases q <;> cases hi
      simp only [Instr.next, Option.ite_none_right_eq_some] at hn
      rw [hn.1.1]
      rfl
    all_goals cases hi

end Next

/-- From `h` an instruction gets to `h₁`. -/
structure Turn (i : Instr) (h h₁ : Hold) : Prop where
  has : ∀ m, h₁.has m ↔ i.takes = some m ∨ (h.has m ∧ i.releases ≠ some m)
  torn : ∀ c, h₁.torn = some c → h.torn = some c ∨ i = .lock (.secondaries c)
  leaf : ∀ x, h₁.leaf = some (.secondaries x) →
    (h.leaf = some (.secondaries x) ∧ (h.clients.isSome → h₁.clients.isSome)) ∨
      (i = .lockSecondaries x ∧ h₁.clients.isSome)

namespace Turn

variable {i : Instr} {h h' h₁ : Hold} {m : Mutex} {p : BrokerClient}

/-- No mutex changes hands. -/
theorem of_eq (ht : i.takes = none) (hr : i.releases = none) (h1 : h₁.torn = h.torn)
    (h2 : h₁.clients.isSome = h.clients.isSome) (h3 : h₁.leaf = h.leaf) : Turn i h h₁ where
  has m := by simp [Hold.has, ht, hr, h1, h2, h3]
  torn c hc := .inl (h1 ▸ hc)
  leaf x hx := .inl ⟨h3 ▸ hx, fun hc => h2 ▸ hc⟩

theorem refl (ht : i.takes = none) (hr : i.releases = none) : Turn i h h := of_eq ht hr rfl rfl rfl

theorem lock (hn : (Instr.lock m).next h = some h') : Turn (.lock m) h h' := by
  constructor <;> cases m <;> simp only [Instr.next] at hn <;>
    grind [Hold.has, Hold.torn, Hold.free, Instr.takes, Instr.releases, Tear.client]

theorem lockSecondaries (hn : (Instr.lockSecondaries p).next h = some h') :
    Turn (.lockSecondaries p) h h' := by
  constructor <;> simp only [Instr.next] at hn <;>
    grind [Hold.has, Hold.torn, Hold.found_iff, Instr.takes, Instr.releases]

theorem unlock (hn : (Instr.unlock m).next h = some h') : Turn (.unlock m) h h' := by
  constructor <;> cases m <;> simp only [Instr.next] at hn <;>
    grind [Hold.has, Hold.torn, Hold.free, Hold.looping, Instr.takes, Instr.releases, Tear.client]

end Turn

/-! ### What an instruction leads to is a use of the locks again -/

theorem runs_deliver : ∀ l : List BrokerClient, runs .free (l.map .deliver) = some .free
  | [] => rfl
  | _ :: l => by simp [runs, Instr.next, runs_deliver l]

theorem runs_joining {c : BrokerClient} {pc : Option BrokerClient}
    (hpc : pc.isSome → c.primary = false) :
    runs ⟨none, some (.entering c), none, none⟩ (joining c pc) =
      some ⟨none, some (.entering c), none, none⟩ := by
  cases pc with
  | none => rfl
  | some p => simp [joining, runs, Instr.next, Hold.found, Hold.torn, Hold.looping, hpc rfl]

theorem runs_insertion (db : BrokerDb S) {c : BrokerClient} {pc : Option BrokerClient}
    (hpc : pc.isSome → c.primary = false) :
    runs ⟨none, some (.entering c), none, none⟩ (insertion db c pc) = some .free := by
  rw [insertion, List.append_assoc, List.append_assoc, runs_append_of (runs_joining hpc)]
  split <;> simp [runs, Instr.next, Hold.free]

theorem runs_removals (c : BrokerClient) (tear : Option Tear) :
    runs ⟨tear, none, none, some c⟩ (removals c) = some ⟨tear, none, none, none⟩ := by
  simp [removals, runs, Instr.next]

theorem runs_dismantling (c : BrokerClient) {tear : Option Tear}
    (hp : c.primary = true → tear = none) :
    runs ⟨tear, none, none, some c⟩ (dismantling c) = some ⟨tear, none, none, none⟩ := by
  rw [dismantling, runs_append_of (runs_removals c tear)]
  split
  · obtain rfl := hp ‹_›
    simp [runs, Instr.next, Hold.free]
  · simp [runs, Instr.next]

theorem runs_finds (p : BrokerClient) : ∀ {names : List String}, (∀ n ∈ names, primaryName n ≠ n) →
    runs (.looping p) (names.flatMap fun n => [.lock .clients, .find p n]) = some (.looping p)
  | [], _ => rfl
  | n :: names, hn => by
    have ih := runs_finds p fun m hm => hn m (List.mem_cons_of_mem n hm)
    have h1 : primaryName n ≠ n := hn n List.mem_cons_self
    have h2 : runs (.looping p) [.lock .clients, .find p n] = some (.looping p) := by
      simp [runs, Instr.next, Hold.looping, h1]
    rw [List.flatMap_cons, runs_append_of h2, ih]

theorem runs_list : ∀ l : List BrokerClient,
    runs ⟨none, some .looking, none, none⟩ (l.flatMap fun v => [.lockSecondaries v,
      .unlock (.secondaries v)]) =
      some ⟨none, some .looking, none, none⟩
  | [] => rfl
  | v :: l => by
    have hv : runs ⟨none, some .looking, none, none⟩ [.lockSecondaries v,
        .unlock (.secondaries v)] =
        some ⟨none, some .looking, none, none⟩ := by
      simp [runs, Instr.next, Hold.found, Hold.torn, Hold.looping]
    rw [List.flatMap_cons, runs_append_of hv, runs_list l]

theorem runs_leave (c : BrokerClient) {p : BrokerClient} {h : Hold} (hl : h.leaf = none)
    (hp : h.torn ≠ some p) :
    runs { h with clients := some .looking }
      [.lockSecondaries p, .erase p c.name, .unlock (.secondaries p), .unlock .clients] =
      some { h with clients := none } := by
  obtain ⟨tear, clients, leaf, down⟩ := h
  obtain rfl : leaf = none := hl
  cases tear with
  | none => simp [runs, Instr.next, Hold.found, Hold.torn, Hold.looping]
  | some x =>
    have hx : x.client ≠ p := fun he => hp (congrArg some he)
    simp [runs, Instr.next, Hold.found, Hold.torn, Hold.looping, hx]

/-- Where an instruction may stand, what it leads to may: from what is held after it to where
it was to get. -/
theorem runs_leads {db : BrokerDb S} (hdb : Named db) (pk : Pick) {i : Instr} {h h' : Hold}
    (hn : i.next h = some h') (ht : ∀ c, h.torn = some c → db.lookup c.name ≠ some c) :
    ∃ h₁, runs h₁ (i.leads pk db) = some h' ∧ Turn i h h₁ := by
  cases i
  case lock m => exact ⟨h', rfl, .lock hn⟩
  case lockSecondaries p => exact ⟨h', rfl, .lockSecondaries hn⟩
  case unlock m => exact ⟨h', rfl, .unlock hn⟩
  case drop c primary =>
    cases primary with
    | none =>
      simp only [Instr.next, Option.ite_none_right_eq_some, Option.some.injEq] at hn
      obtain ⟨rfl, rfl⟩ := hn
      simp only [Instr.leads]
      split
      · exact ⟨_, runs_dismantling c fun _ => rfl, .of_eq rfl rfl rfl rfl rfl⟩
      · exact ⟨.free, rfl, .refl rfl rfl⟩
    | some p =>
      simp only [Instr.next, Option.ite_none_right_eq_some, Option.some.injEq] at hn
      obtain ⟨⟨rfl, hc⟩, rfl⟩ := hn
      simp only [Instr.leads]
      split
      · exact ⟨_, runs_dismantling c fun hp => (by rw [hc] at hp; cases hp),
          .of_eq rfl rfl rfl rfl rfl⟩
      · exact ⟨.looping p, rfl, .refl rfl rfl⟩
  case trigger c =>
    cases hn
    exact ⟨h, rfl, .refl rfl rfl⟩
  -- the others stand in one place only
  all_goals
    simp only [Instr.next, Option.ite_none_right_eq_some, Option.some.injEq] at hn
  case insert c second =>
    obtain ⟨rfl, rfl⟩ := hn
    simp only [Instr.leads]
    split
    · exact ⟨_, rfl, .refl rfl rfl⟩
    · exact ⟨_, runs_insertion db (isSome_primaryClient ‹_›), .of_eq rfl rfl rfl rfl rfl⟩
    · refine ⟨.atClients, ?_, .refl rfl rfl⟩
      split <;> simp [runs, Instr.next, Hold.atClients, Hold.free]
  case displace c =>
    obtain ⟨rfl, rfl⟩ := hn
    simp only [Instr.leads]
    split <;> exact ⟨_, rfl, .refl rfl rfl⟩
  case place c =>
    obtain ⟨⟨hc, hl⟩, rfl⟩ := hn
    exact ⟨_, rfl, .of_eq rfl rfl rfl (by simp [hc]) rfl⟩
  case remove c =>
    obtain ⟨-, rfl⟩ := hn
    exact ⟨_, rfl, .of_eq rfl rfl rfl rfl rfl⟩
  case wasRegistered _ | announce _ | deliver _ =>
    obtain ⟨rfl, rfl⟩ := hn
    refine ⟨.free, ?_, .refl rfl rfl⟩
    simp only [Instr.leads]
    split <;> rfl
  case secondaries c =>
    obtain ⟨rfl, rfl⟩ := hn
    refine ⟨.looping c, ?_, .of_eq rfl rfl rfl rfl rfl⟩
    have hs : ∀ n ∈ pk.names (db.cell c).secondaries, primaryName n ≠ n := fun n hn =>
      hdb.secondary c n ((pk.names_perm _).mem_iff.mp hn)
    rw [Instr.leads, runs_append_of (runs_finds c hs)]
    simp [runs, Instr.next]
  case find p n =>
    obtain ⟨⟨rfl, hs⟩, rfl⟩ := hn
    refine ⟨_, ?_, .refl rfl rfl⟩
    simp only [Instr.leads]
    split
    · rename_i sec hl
      have hsec : sec.primary = false := by
        rw [BrokerClient.primary_eq_false, BrokerClient.primaryName, hdb.name_eq n sec hl]
        exact hs
      split <;> simp [runs, Instr.next, Hold.looping, hsec]
    · simp [runs, Instr.next, Hold.looping]
  case leave c =>
    obtain ⟨⟨hc, hl⟩, rfl⟩ := hn
    refine ⟨{ h with clients := some .looking }, ?_, .of_eq rfl rfl rfl (by simp [hc]) rfl⟩
    simp only [Instr.leads]
    split
    · rename_i p hp
      -- the primary is there, so it is not the one in whose loop we are
      have hne : h.torn ≠ some p := fun he => ht p he (by rw [hdb.name_eq _ p hp, hp])
      exact runs_leave c hl hne
    · simp [runs, Instr.next, hl]
  case lookup target =>
    obtain ⟨rfl, rfl⟩ := hn
    exact ⟨.atClients, runs_deliver _, .refl rfl rfl⟩
  case mask m =>
    obtain ⟨rfl, rfl⟩ := hn
    exact ⟨_, runs_deliver _, .refl rfl rfl⟩
  case topic t receiver =>
    obtain ⟨rfl, rfl⟩ := hn
    exact ⟨_, rfl, .refl rfl rfl⟩
  case retain t receiver subs kept =>
    obtain ⟨rfl, rfl⟩ := hn
    refine ⟨.free, ?_, .refl rfl rfl⟩
    cases subs with
    | nil => exact runs_deliver kept
    | cons sub subs =>
      simp only [Instr.leads]
      split
      · rfl
      · split
        · simp [runs, Instr.next, Hold.only, Hold.free]
        · rfl
  case excluded t receiver sub subs kept =>
    obtain ⟨rfl, rfl⟩ := hn
    exact ⟨_, by simp [Instr.leads, runs, Instr.next, Hold.only, Hold.free], .refl rfl rfl⟩
  case triggerName n =>
    obtain ⟨rfl, rfl⟩ := hn
    exact ⟨.atClients, rfl, .refl rfl rfl⟩
  case list =>
    obtain ⟨rfl, rfl⟩ := hn
    refine ⟨⟨none, some .looking, none, none⟩, ?_, .of_eq rfl rfl rfl rfl rfl⟩
    rw [Instr.leads, runs_append_of (runs_list _)]
    rfl
  all_goals exact ⟨h', rfl, hn.2 ▸ .refl rfl rfl⟩

/-! ### Clients that are gone -/

/-- A client is in the registry, or a task is at putting it there or taking it away. -/
def Entered (s : Mach S) (c : BrokerClient) : Prop :=
  (s.db.cell c).registered = true ∨ s.db.lookup c.name = some c ∨
    ∃ t, ∃ i ∈ s.proc t, i.subject = some c

/-- A client is not in `clients` and nobody will put it there. -/
def Gone (s : Mach S) (c : BrokerClient) : Prop :=
  c.id < s.db.nextId ∧ s.db.lookup c.name ≠ some c ∧
    ∀ t, ∀ i ∈ s.proc t, i.token ≠ some c ∧ i ≠ .place c

/-- The secondaries of a client are taken for its teardown if it is in `P` or removed before. -/
def RemovedFirst (P : BrokerClient → Prop) : List Instr → Prop
  | [] => True
  | i :: l =>
    (∀ c, i = .lock (.secondaries c) → P c) ∧ RemovedFirst (fun c => P c ∨ i = .remove c) l

theorem RemovedFirst.mono : ∀ {l : List Instr} {P Q : BrokerClient → Prop}, (∀ c, P c → Q c) →
    RemovedFirst P l → RemovedFirst Q l
  | [], _, _, _, h => h
  | _ :: _, _, _, hPQ, h => ⟨fun c hc => hPQ c (h.1 c hc), h.2.mono fun c => Or.imp_left (hPQ c)⟩

theorem RemovedFirst.append : ∀ {l l' : List Instr} {P : BrokerClient → Prop}, RemovedFirst P l →
    RemovedFirst P l' → RemovedFirst P (l ++ l')
  | [], _, _, _, h' => h'
  | _ :: _, _, _, h, h' => ⟨h.1, h.2.append (h'.mono fun _ => .inl)⟩

theorem RemovedFirst.of_forall : ∀ {l : List Instr} {P : BrokerClient → Prop},
    (∀ c, .lock (.secondaries c) ∉ l) → RemovedFirst P l
  | [], _, _ => trivial
  | _ :: _, _, h => ⟨fun c hc => absurd (hc ▸ List.mem_cons_self) (h c),
      of_forall fun c hc => h c (List.mem_cons_of_mem _ hc)⟩

/-- A task holds `h`. -/
structure TaskOk (s : Mach S) (t : Tid) (h : Hold) : Prop where
  runs : runs h (s.proc t) = some .free
  lock : ∀ m, s.lock m = some t ↔ h.has m
  leaf : ∀ x, h.leaf = some (.secondaries x) → h.clients.isSome ∧ s.db.lookup x.name = some x
  found : ∀ x, .lockSecondaries x ∈ s.proc t → s.db.lookup x.name = some x
  torn : ∀ c, h.torn = some c → Gone s c
  removed : RemovedFirst (Gone s) (s.proc t)

/-- The discipline of the locks. -/
structure Orderly (s : Mach S) : Prop where
  named : Named s.db
  entered_lt : ∀ c, Entered s c → c.id < s.db.nextId
  token_lt : ∀ t, ∀ i ∈ s.proc t, ∀ c, i.token = some c → c.id < s.db.nextId ∧ ¬ Entered s c
  token_pairwise : ∀ t, (s.proc t).Pairwise fun i j => i.token = none ∨ j.token = none
  token_inj : ∀ t u, ∀ i ∈ s.proc t, ∀ j ∈ s.proc u, ∀ c, i.token = some c →
    j.token = some c → t = u
  task : ∀ t, ∃ h, TaskOk s t h

/-! ### Every step keeps the discipline -/

theorem Entered.of_ran {s : Mach S} {t : Tid} {i : Instr} {rest : List Instr} {pk : Pick}
    (hp : s.proc t = i :: rest) (hdb : Named s.db) {c : BrokerClient}
    (h : Entered (s.ran t i rest pk) c) :
    Entered s c ∨ ∃ b pc, i = .insert c b ∧ vacant s.db c = some pc := by
  rcases h with h | h | ⟨u, j, hj, hs⟩
  · rcases registered_of_onDb h with h | rfl
    · exact .inl (.inl h)
    · exact .inl (.inr (.inr ⟨t, _, head_mem hp, rfl⟩))
  · rcases lookup_of_onDb h with h | ⟨rfl, -⟩
    · exact .inl (.inr (.inl h))
    · exact .inl (.inr (.inr ⟨t, _, head_mem hp, rfl⟩))
  · rcases mem_ran hp hj with hj' | ⟨-, hj'⟩
    · exact .inl (.inr (.inr ⟨u, j, hj', hs⟩))
    · rcases subject_of_leads (leadsTo_of_mem hj') hs with h | ⟨p, -, hr⟩ | ⟨p, n, -, hl⟩
      · exact .inr h
      · exact .inl (.inl hr)
      · exact .inl (.inr (.inl (by rw [hdb.name_eq n c hl, hl])))

namespace TaskOk

variable {s : Mach S} {t u : Tid} {h g : Hold}

theorem next {i : Instr} {rest : List Instr} (hh : TaskOk s t h) (hp : s.proc t = i :: rest) :
    ∃ h', i.next h = some h' ∧ Busrt.runs h' rest = some .free := by
  have hr := hh.runs
  rw [hp] at hr
  exact Option.bind_eq_some_iff.mp hr

/-- A mutex has one holder. -/
theorem has_inj {m : Mutex} (hh : TaskOk s t h) (hg : TaskOk s u g) (hm : h.has m) (hm' : g.has m) :
    t = u := by
  have h1 := (hh.lock m).mpr hm
  have h2 := (hg.lock m).mpr hm'
  exact Option.some.inj (h1.symm.trans h2)

theorem clients_inj (hh : TaskOk s t h) (hg : TaskOk s u g) (hc : h.clients.isSome)
    (hc' : g.clients.isSome) :
    t = u :=
  hh.has_inj hg (.inr (.inl ⟨hc, rfl⟩)) (.inr (.inl ⟨hc', rfl⟩))

end TaskOk

theorem Gone.ran {s : Mach S} {t : Tid} {i : Instr} {rest : List Instr} {pk : Pick}
    (hp : s.proc t = i :: rest) {c : BrokerClient} (hg : Gone s c) :
    Gone (s.ran t i rest pk) c := by
  obtain ⟨hid, hl, hno⟩ := hg
  refine ⟨by rw [nextId_ran]; exact hid, fun h => ?_, fun u j hj => ⟨fun hc => ?_, ?_⟩⟩
  · rcases lookup_of_onDb h with h | ⟨rfl, -⟩
    · exact hl h
    · exact (hno t _ (head_mem hp)).2 rfl
  · obtain ⟨j₀, hj₀, hc₀⟩ := token_of_ran hp hj hc
    exact (hno u j₀ hj₀).1 hc₀
  · rintro rfl
    rcases mem_ran hp hj with hj' | ⟨-, hj'⟩
    · exact (hno u _ hj').2 rfl
    · cases leadsTo_of_mem hj' with
      | place hv => exact (hno t _ (head_mem hp)).1 rfl
      | plain h => cases h

namespace Orderly

variable {s : Mach S} {t : Tid} {i : Instr} {rest : List Instr} {pk : Pick}

section

variable (ho : Orderly s) (hp : s.proc t = i :: rest)
include ho hp

/-- In the vacant branch the client is inserted, and nobody is to insert it any more. -/
theorem not_token_of_vacant {c : BrokerClient} {b : Bool} {pc : Option BrokerClient}
    (hi : i = .insert c b) (hv : vacant s.db c = some pc) {u : Tid} {j : Instr}
    (hj : j ∈ (s.ran t i rest pk).proc u) :
    j.token ≠ some c := by
  subst hi
  intro hc
  obtain ⟨j₀, hj₀, hc₀⟩ := token_of_ran hp hj hc
  obtain rfl : t = u := ho.token_inj t u _ (head_mem hp) j₀ hj₀ c rfl hc₀
  rw [Mach.ran, Mach.setProc_proc, if_pos rfl, leads_of_vacant hv] at hj
  rcases List.mem_append.mp hj with hj | hj
  · rw [token_of_mem_insertion hv hj] at hc; cases hc
  · have hpw := ho.token_pairwise t
    rw [hp, List.pairwise_cons] at hpw
    rcases hpw.1 j hj with h | h
    · cases h
    · rw [h] at hc; cases hc

/-- While a task is at `clients`, nobody is at the insertion of a client. -/
theorem not_entering (hn : ∀ h h', i.next h = some h' → h.clients = some .start) {u : Tid}
    {j : Instr} (hj : j ∈ s.proc u) : j.entering = none := by
  by_contra hne
  obtain ⟨c, hc⟩ := Option.ne_none_iff_exists'.mp hne
  obtain ⟨h, hh⟩ := ho.task t
  obtain ⟨g, hg⟩ := ho.task u
  obtain ⟨h', hi, -⟩ := hh.next hp
  have hst := hn h h' hi
  have hge := entering_of_mem hg.runs hj hc
  obtain rfl : t = u := hh.clients_inj hg (by simp [hst]) (by simp [hge])
  have := entering_of_mem hh.runs hj hc
  rw [hst] at this
  cases this

/-- A client that was removed is gone. -/
theorem gone_of_remove {c : BrokerClient} (hi : i = .remove c) : Gone (s.ran t i rest pk) c := by
  subst hi
  have he : Entered s c := .inr (.inr ⟨t, _, head_mem hp, rfl⟩)
  refine ⟨by rw [nextId_ran]; exact ho.entered_lt c he, fun h => ?_,
    fun u j hj => ⟨fun hc => ?_, ?_⟩⟩
  · have h' : ((Instr.remove c).onDb s.db).lookup c.name = some c := h
    simp [lookup_onDb] at h'
  · obtain ⟨j₀, hj₀, hc₀⟩ := token_of_ran hp hj hc
    exact (ho.token_lt u j₀ hj₀ c hc₀).2 he
  · rintro rfl
    rcases mem_ran hp hj with hj' | ⟨-, hj'⟩
    · have hne : (Instr.place c).entering = none := by
        refine ho.not_entering hp (fun h h' hn => ?_) hj'
        simp only [Instr.next, Option.ite_none_right_eq_some] at hn
        exact hn.1.1
      cases hne
    · cases hj'

theorem gone_or_ran {c : BrokerClient} (h : Gone s c ∨ i = .remove c) :
    Gone (s.ran t i rest pk) c :=
  h.elim (Gone.ran hp) (ho.gone_of_remove hp)

end

end Orderly

/-- An instruction that changes `clients`. -/
def Instr.renames : Instr → Bool
  | .place _ | .displace _ | .remove _ => true
  | _ => false

theorem lookup_of_renames {i : Instr} (hi : i.renames = false) (db : BrokerDb S) (n : String) :
    (i.onDb db).lookup n = db.lookup n := by
  rw [lookup_onDb]
  cases i <;> first | rfl | cases hi

theorem next_of_renames {i : Instr} (hi : i.renames = true) {h h' : Hold}
    (hn : i.next h = some h') :
    h.clients.isSome ∧ h.leaf = none ∧ h'.found = false := by
  cases i <;> cases hi
  all_goals
    simp only [Instr.next, Option.ite_none_right_eq_some, Option.some.injEq] at hn
  case place c =>
    obtain ⟨⟨hc, hl⟩, rfl⟩ := hn
    exact ⟨by simp [hc], hl, rfl⟩
  case displace c =>
    obtain ⟨rfl, rfl⟩ := hn
    exact ⟨rfl, rfl, rfl⟩
  case remove c =>
    obtain ⟨⟨hc, hl, -⟩, rfl⟩ := hn
    exact ⟨by simp [hc], hl, by simp [Hold.found, hc]⟩

theorem free_of_takes {s : Mach S} {i : Instr} {m : Mutex} (hb : s.blocked i = false)
    (hi : i.takes = some m) :
    s.lock m = none := by
  cases i <;> cases hi
  all_goals simpa [Mach.blocked, Instr.takes] using hb

theorem has_of_releases {i : Instr} {m : Mutex} (hi : i.releases = some m) {h h' : Hold}
    (hn : i.next h = some h') : h.has m := by
  cases i <;> cases hi
  cases m <;> simp only [Instr.next] at hn <;> grind [Hold.has, Hold.torn,
    Hold.looping, Tear.client]

theorem removedFirst_leads {i : Instr} {pk : Pick} {db : BrokerDb S} (P : BrokerClient → Prop) :
    RemovedFirst P (i.leads pk db) := by
  cases i
  case drop c p =>
    simp only [Instr.leads]
    split
    · unfold dismantling
      split <;> simp [removals, RemovedFirst]
    · trivial
  all_goals
    refine .of_forall fun x hx => ?_
    cases leadsTo_of_mem hx with
    | plain h => cases h

namespace TaskOk

variable {s : Mach S} {t u : Tid} {i : Instr} {rest : List Instr} {pk : Pick} {h : Hold}

/-- The task that does an instruction. -/
theorem ran (ho : Orderly s) (hp : s.proc t = i :: rest) (hh : TaskOk s t h) :
    ∃ h₁, TaskOk (s.ran t i rest pk) t h₁ := by
  obtain ⟨h', hn, hr⟩ := hh.next hp
  obtain ⟨h₁, hr₁, ht⟩ := runs_leads ho.named pk hn fun c hc => (hh.torn c hc).2.1
  have hproc : (s.ran t i rest pk).proc t = i.leads pk s.db ++ rest := by
    rw [Mach.ran, Mach.setProc_proc, if_pos rfl]
  refine ⟨h₁, ?_, fun m => ?_, fun x hx => ?_, fun x hx => ?_, fun c hc => ?_, ?_⟩
  · rw [hproc, runs_append_of hr₁, hr]
  · rw [ht.has m]
    change (if i.takes = some m then some t
        else if i.releases = some m then none
        else s.lock m) = some t ↔ _
    have := hh.lock m
    split <;> [simp_all; split] <;> simp_all
  · rcases ht.leaf x hx with ⟨hl, hc⟩ | ⟨rfl, hc⟩
    · obtain ⟨hcl, hlook⟩ := hh.leaf x hl
      refine ⟨hc hcl, (lookup_of_renames ?_ s.db x.name).trans hlook⟩
      refine Bool.eq_false_iff.mpr fun hren => ?_
      rw [(next_of_renames hren hn).2.1] at hl
      cases hl
    · exact ⟨hc, (lookup_of_renames rfl s.db x.name).trans (hh.found x (head_mem hp))⟩
  · rw [hproc] at hx
    rcases List.mem_append.mp hx with hx | hx
    · have hl := lookup_of_leads ho.named (leadsTo_of_mem hx)
      refine (lookup_of_renames ?_ s.db x.name).trans hl
      cases leadsTo_of_mem hx with
      | plain hpl => cases hpl
      | _ => rfl
    · refine (lookup_of_renames ?_ s.db x.name).trans
        (hh.found x (by rw [hp]; exact List.mem_cons_of_mem i hx))
      refine Bool.eq_false_iff.mpr fun hren => ?_
      have hf := found_of_mem hr hx
      rw [(next_of_renames hren hn).2.2] at hf
      cases hf
  · rcases ht.torn c hc with hc | rfl
    · exact (hh.torn c hc).ran hp
    · have hrem := hh.removed
      rw [hp] at hrem
      exact (hrem.1 c rfl).ran hp
  · have hrem := hh.removed
    rw [hp] at hrem
    rw [hproc]
    exact (removedFirst_leads _).append (hrem.2.mono fun c => ho.gone_or_ran hp)

/-- The other tasks. -/
theorem ran_ne (ho : Orderly s) (hp : s.proc t = i :: rest) (hb : s.blocked i = false) (hu : u ≠ t)
    (hh : TaskOk s u h) : TaskOk (s.ran t i rest pk) u h := by
  obtain ⟨g, hg⟩ := ho.task t
  obtain ⟨g', hn, -⟩ := hg.next hp
  have hproc : (s.ran t i rest pk).proc u = s.proc u := by
    rw [Mach.ran, Mach.setProc_proc, if_neg hu]; rfl
  -- who holds `clients` sees nobody change it
  have hlook : h.clients.isSome → ∀ n, (s.ran t i rest pk).db.lookup n = s.db.lookup n := by
    intro hc n
    refine lookup_of_renames (Bool.eq_false_iff.mpr fun hren => hu ?_) s.db n
    exact hh.clients_inj hg hc (next_of_renames hren hn).1
  refine ⟨by rw [hproc]; exact hh.runs, fun m => ?_, fun x hx => ?_, fun x hx => ?_,
    fun c hc => ?_, ?_⟩
  · rw [← hh.lock m]
    change (if i.takes = some m then some t
        else if i.releases = some m then none
        else s.lock m) = some u ↔ _
    split
    · rename_i htk
      simp [free_of_takes hb htk, hu.symm]
    · split
      · rename_i hrl
        have hm := (hg.lock m).mpr (has_of_releases hrl hn)
        simp [hm, hu.symm]
      · rfl
  · obtain ⟨hc, hl⟩ := hh.leaf x hx
    exact ⟨hc, (hlook hc x.name).trans hl⟩
  · rw [hproc] at hx
    obtain ⟨st, hst, -⟩ := Hold.found_iff.mp (found_of_mem hh.runs hx)
    exact (hlook (by rw [hst]; rfl) x.name).trans (hh.found x hx)
  · exact (hh.torn c hc).ran hp
  · rw [hproc]
    exact hh.removed.mono fun c => Gone.ran hp

end TaskOk

namespace Orderly

variable {s : Mach S} {t : Tid} {i : Instr} {rest : List Instr} {pk : Pick}

theorem ran (ho : Orderly s) (hp : s.proc t = i :: rest) (hb : s.blocked i = false) :
    Orderly (s.ran t i rest pk) where
  named :=
    { name_eq := fun n c hl => by
        rcases lookup_of_onDb hl with hl | ⟨-, rfl⟩
        · exact ho.named.name_eq n c hl
        · rfl
      secondary := fun p n hm => by
        rcases mem_secondaries_of_onDb hm with hm | ⟨c, rfl, rfl⟩
        · exact ho.named.secondary p n hm
        · obtain ⟨h, hh⟩ := ho.task t
          obtain ⟨h', hn, -⟩ := hh.next hp
          simp only [Instr.next, Option.ite_none_right_eq_some] at hn
          exact (BrokerClient.primary_eq_false c).mp hn.1.2.2 }
  entered_lt c he := by
    rw [nextId_ran]
    rcases he.of_ran hp ho.named with he | ⟨b, pc, rfl, -⟩
    · exact ho.entered_lt c he
    · exact (ho.token_lt t _ (head_mem hp) c rfl).1
  token_lt u j hj c hc := by
    obtain ⟨j₀, hj₀, hc₀⟩ := token_of_ran hp hj hc
    obtain ⟨hid, hne⟩ := ho.token_lt u j₀ hj₀ c hc₀
    refine ⟨by rw [nextId_ran]; exact hid, fun he => ?_⟩
    rcases he.of_ran hp ho.named with he | ⟨b, pc, hi, hv⟩
    · exact hne he
    · exact ho.not_token_of_vacant hp hi hv hj hc
  token_pairwise u := by
    rw [Mach.ran, Mach.setProc_proc]
    split
    · have hpw := ho.token_pairwise t
      rw [hp, List.pairwise_cons] at hpw
      refine List.pairwise_append.mpr ⟨pairwise_token, hpw.2, fun a ha b hb => ?_⟩
      by_cases hta : a.token = none
      · exact .inl hta
      · obtain ⟨c, hc⟩ := Option.ne_none_iff_exists'.mp hta
        refine .inr ((hpw.1 b hb).resolve_left fun h => ?_)
        rw [token_of_leads (leadsTo_of_mem ha) hc] at h
        cases h
    · exact ho.token_pairwise u
  token_inj u v j hj k hk c hcj hck := by
    obtain ⟨j₀, hj₀, hcj₀⟩ := token_of_ran hp hj hcj
    obtain ⟨k₀, hk₀, hck₀⟩ := token_of_ran hp hk hck
    exact ho.token_inj u v j₀ hj₀ k₀ hk₀ c hcj₀ hck₀
  task u := by
    obtain ⟨h, hh⟩ := ho.task u
    by_cases hu : u = t
    · subst hu
      exact hh.ran ho hp
    · exact ⟨h, hh.ran_ne ho hp hb hu⟩

/-- A task that holds nothing is given something else to do, about nobody but clients that are
made for it. -/
structure Restart (s s' : Mach S) (t : Tid) (l : List Instr) : Prop where
  lookup : ∀ n, s'.db.lookup n = s.db.lookup n
  registered : ∀ c, (s'.db.cell c).registered = true → (s.db.cell c).registered = true
  secondaries : ∀ p n, n ∈ (s'.db.cell p).secondaries → n ∈ (s.db.cell p).secondaries
  nextId : s.db.nextId ≤ s'.db.nextId
  lock : s'.lock = s.lock
  proc : ∀ u, s'.proc u = if u = t then l else s.proc u
  idle : TaskOk s t .free
  runs : runs .free l = some .free
  plain : ∀ i ∈ l, i.subject = none ∧ ∀ x, i ≠ .lock (.secondaries x) ∧ i ≠ .lockSecondaries x
  token : ∀ i ∈ l, ∀ c, i.token = some c → s.db.nextId ≤ c.id ∧ c.id < s'.db.nextId
  pairwise : l.Pairwise fun i j => i.token = none ∨ j.token = none

namespace Restart

variable {s' : Mach S} {l : List Instr} {u : Tid} {j : Instr} {c : BrokerClient}
  (hr : Restart s s' t l)
include hr

theorem mem (hj : j ∈ s'.proc u) : j ∈ s.proc u ∨ (u = t ∧ j ∈ l) := by
  rw [hr.proc u] at hj
  split at hj
  · exact .inr ⟨‹_›, hj⟩
  · exact .inl hj

theorem entered (he : Entered s' c) : Entered s c := by
  rcases he with h | h | ⟨u, j, hj, hs⟩
  · exact .inl (hr.registered c h)
  · exact .inr (.inl (hr.lookup c.name ▸ h))
  · rcases hr.mem hj with hj' | ⟨-, hj'⟩
    · exact .inr (.inr ⟨u, j, hj', hs⟩)
    · rw [(hr.plain j hj').1] at hs; cases hs

theorem gone (hg : Gone s c) : Gone s' c := by
  obtain ⟨hid, hl, hno⟩ := hg
  refine ⟨lt_of_lt_of_le hid hr.nextId, by rw [hr.lookup]; exact hl, fun u j hj => ?_⟩
  rcases hr.mem hj with hj' | ⟨-, hj'⟩
  · exact hno u j hj'
  · refine ⟨fun hc => absurd (hr.token j hj' c hc).1 (not_le_of_gt hid), ?_⟩
    rintro rfl
    cases (hr.plain _ hj').1

theorem orderly (ho : Orderly s) : Orderly s' where
  named :=
    { name_eq := fun n c hl => ho.named.name_eq n c (hr.lookup n ▸ hl)
      secondary := fun p n hm => ho.named.secondary p n (hr.secondaries p n hm) }
  entered_lt c he := lt_of_lt_of_le (ho.entered_lt c (hr.entered he)) hr.nextId
  token_lt u j hj c hc := by
    rcases hr.mem hj with hj' | ⟨-, hj'⟩
    · obtain ⟨hid, hne⟩ := ho.token_lt u j hj' c hc
      exact ⟨lt_of_lt_of_le hid hr.nextId, fun he => hne (hr.entered he)⟩
    · obtain ⟨hge, hlt⟩ := hr.token j hj' c hc
      exact ⟨hlt, fun he => absurd (ho.entered_lt c (hr.entered he)) (not_lt_of_ge hge)⟩
  token_pairwise u := by
    rw [hr.proc u]
    split
    · exact hr.pairwise
    · exact ho.token_pairwise u
  token_inj u v j hj k hk c hcj hck := by
    rcases hr.mem hj with hj' | ⟨rfl, hj'⟩ <;> rcases hr.mem hk with hk' | ⟨rfl, hk'⟩
    · exact ho.token_inj u v j hj' k hk' c hcj hck
    · exact absurd (ho.token_lt u j hj' c hcj).1 (not_lt_of_ge (hr.token k hk' c hck).1)
    · exact absurd (ho.token_lt v k hk' c hck).1 (not_lt_of_ge (hr.token j hj' c hcj).1)
    · rfl
  task u := by
    by_cases hu : u = t
    · subst hu
      have hproc : s'.proc u = l := by rw [hr.proc u, if_pos rfl]
      refine ⟨.free, by rw [hproc]; exact hr.runs,
        fun m => by rw [hr.lock]; exact hr.idle.lock m, nofun, fun x hx => ?_, nofun, ?_⟩
      · rw [hproc] at hx
        exact absurd rfl ((hr.plain _ hx).2 x).2
      · rw [hproc]
        exact .of_forall fun x hx => ((hr.plain _ hx).2 x).1 rfl
    · obtain ⟨h, hh⟩ := ho.task u
      have hproc : s'.proc u = s.proc u := by rw [hr.proc u, if_neg hu]
      refine ⟨h, by rw [hproc]; exact hh.runs, fun m => by rw [hr.lock]; exact hh.lock m,
        fun x hx => ?_, fun x hx => ?_, fun c hc => hr.gone (hh.torn c hc), ?_⟩
      · exact ⟨(hh.leaf x hx).1, (hr.lookup x.name).trans (hh.leaf x hx).2⟩
      · rw [hproc] at hx
        exact (hr.lookup x.name).trans (hh.found x hx)
      · rw [hproc]
        exact hh.removed.mono fun c => hr.gone

end Restart

theorem idle (ho : Orderly s) (hp : s.proc t = []) : TaskOk s t .free := by
  obtain ⟨h, hh⟩ := ho.task t
  have hr := hh.runs
  rw [hp] at hr
  obtain rfl : h = .free := Option.some.inj hr
  exact hh

/-- Who waits for something else than a mutex holds none. -/
theorem idle_of_awaits (ho : Orderly s) (hp : s.proc t = i :: rest) (hi : i.awaits = true) :
    TaskOk s t .free := by
  obtain ⟨h, hh⟩ := ho.task t
  obtain ⟨h', hn, -⟩ := hh.next hp
  obtain rfl : h = .free := by
    cases i <;> cases hi
    all_goals
      simp only [Instr.next, Option.ite_none_right_eq_some] at hn
      exact hn.1
  exact hh

end Orderly

theorem Errand.runs_prog (errand : Errand) : runs .free errand.prog = some .free := by
  cases errand
  case topics op c ts =>
    cases op <;> simp [Errand.prog, TopicOp.mutex, runs, Instr.next, Hold.free, Hold.only]
  all_goals simp [Errand.prog, runs, Instr.next, Hold.free, Hold.atClients, Hold.only]

theorem Errand.token_prog {errand : Errand} {i : Instr} (hi : i ∈ errand.prog) :
    i.token = none := by
  cases errand <;> simp only [Errand.prog, List.mem_cons, List.not_mem_nil,
    or_false] at hi <;> grind [Instr.token]

theorem Errand.plain_prog {errand : Errand} {i : Instr} (hi : i ∈ errand.prog) :
    i.subject = none ∧ ∀ x, i ≠ .lock (.secondaries x) ∧ i ≠ .lockSecondaries x := by
  cases errand
  case topics op c ts =>
    cases op <;> simp only [Errand.prog, TopicOp.mutex, List.mem_cons, List.not_mem_nil,
      or_false] at hi <;>
      grind [Instr.subject]
  all_goals
    simp only [Errand.prog, List.mem_cons, List.not_mem_nil, or_false] at hi
    grind [Instr.subject]

namespace Orderly

variable {s : Mach S} {t : Tid}

theorem restart_register (ho : Orderly s) (hp : s.proc t = []) (name kind source port) :
    let r := s.db.alloc name kind source port
    Restart s (({ s with db := r.2 } : Mach S).setProc t [.lock .clients, .insert r.1 false]) t
      [.lock .clients, .insert r.1 false] where
  lookup n := rfl
  registered c h := by
    simp only [alloc, Mach.setProc_db, setCell_cell] at h
    split at h
    · cases h
    · exact h
  secondaries p n h := by
    simp only [alloc, Mach.setProc_db, setCell_cell] at h
    split at h
    · cases h
    · exact h
  nextId := Nat.le_succ _
  lock := rfl
  proc u := Mach.setProc_proc ..
  idle := ho.idle hp
  runs := rfl
  plain i hi := by
    simp only [List.mem_cons, List.not_mem_nil, or_false] at hi
    obtain rfl | rfl := hi
    · exact ⟨rfl, fun x => ⟨fun he => (by cases he), fun he => by cases he⟩⟩
    · exact ⟨rfl, fun x => ⟨fun he => (by cases he), fun he => by cases he⟩⟩
  token i hi c hc := by
    simp only [List.mem_cons, List.not_mem_nil, or_false] at hi
    obtain rfl | rfl := hi
    · cases hc
    · obtain rfl := Option.some.inj hc
      exact ⟨le_rfl, Nat.lt_succ_self _⟩
  pairwise := by simp [Instr.token]

theorem restart_spawn (ho : Orderly s) (hp : s.proc t = []) (errand : Errand) :
    Restart s (s.setProc t errand.prog) t errand.prog where
  lookup n := rfl
  registered c h := h
  secondaries p n h := h
  nextId := le_rfl
  lock := rfl
  proc u := Mach.setProc_proc ..
  idle := ho.idle hp
  runs := errand.runs_prog
  plain i hi := Errand.plain_prog hi
  token i hi c hc := by rw [Errand.token_prog hi] at hc; cases hc
  pairwise := pairwise_token_of_forall fun i hi => Errand.token_prog hi

theorem restart_cancel (hidle : TaskOk s t .free) (r : Option Tid) :
    Restart s (({ s with rpcClient := r } : Mach S).setProc t []) t [] where
  lookup n := rfl
  registered c h := h
  secondaries p n h := h
  nextId := le_rfl
  lock := rfl
  proc u := Mach.setProc_proc ..
  idle := hidle
  runs := rfl
  plain i hi := by cases hi
  token i hi := by cases hi
  pairwise := .nil

/-- **Every step keeps the discipline.** -/
theorem step {l : MachLabel} {s' : Mach S} (ho : Orderly s) (h : MachSteps s l s') :
    Orderly s' := by
  cases machStep_effect h with
  | register t name kind source port _ hp hs =>
    rw [hs]
    exact (ho.restart_register hp name kind source port).orderly ho
  | spawn t errand _ hp hs =>
    rw [hs]
    exact (ho.restart_spawn hp errand).orderly ho
  | run t pk i rest _ hp hb hs =>
    rw [hs]
    exact ho.ran hp hb
  | cancel t i rest _ hp hi hs =>
    rw [hs]
    exact (restart_cancel (ho.idle_of_awaits hp hi) _).orderly ho

theorem start {db : BrokerDb S} (hdb : Inv db) : Orderly (Mach.start db) where
  named :=
    { name_eq := hdb.name_eq
      secondary := fun p n hm => by
        obtain ⟨-, c, hl, hc, -⟩ := (hdb.mem_secondaries p n).mp hm
        rw [← hdb.name_eq n c hl]
        exact (BrokerClient.primary_eq_false c).mp hc }
  entered_lt c he := by
    have hl : db.lookup c.name = some c := by
      rcases he with h | h | ⟨u, j, hj, -⟩
      · exact (hdb.registered_iff c).mp h
      · exact h
      · cases hj
    exact hdb.fresh c.name c hl
  token_lt t i hi := by cases hi
  token_pairwise t := .nil
  token_inj t u i hi := by cases hi
  task t := ⟨.free, rfl,
    fun m => by simp [Mach.start, Hold.has, Hold.free, Hold.torn], nofun, nofun, nofun, trivial⟩

end Orderly

/-! ### No deadlock -/

namespace Mach

/-- The mutex a task waits for or is about to take. -/
def wants (s : Mach S) (t : Tid) : Option Mutex := (s.proc t).head?.bind Instr.takes

/-- The order of the mutexes now: secondaries come after `clients` while their client is there,
and before it once it is not. -/
def level (s : Mach S) : Mutex → ℕ
  | .clients => 1
  | .broadcasts | .subscriptions | .exclusions _ => 2
  | .secondaries x => if s.db.lookup x.name = some x then 2 else 0

end Mach

/-- What a teardown holds is below `clients`: its client is gone. -/
theorem TaskOk.level_held {s : Mach S} {t : Tid} {h : Hold} (hh : TaskOk s t h) (hl : h.leaf = none)
    {m : Mutex} (hm : h.has m) : s.level m = 0 ∨ (h.clients.isSome ∧ s.level m = 1) := by
  rcases hm with ⟨c, hc, rfl⟩ | ⟨hc, rfl⟩ | hm
  · exact .inl (if_neg (hh.torn c hc).2.1)
  · exact .inr ⟨hc, rfl⟩
  · rw [hl] at hm; cases hm

/-- **Tasks climb.** What a task waits for is above all it holds. -/
theorem Orderly.climbs {s : Mach S} (ho : Orderly s) : Climbs s.wants s.lock s.level := by
  intro t m m' hm hw
  obtain ⟨h, hh⟩ := ho.task t
  obtain ⟨i, hi, hw⟩ := Option.bind_eq_some_iff.mp hw
  obtain ⟨rest, hp⟩ := List.head?_eq_some_iff.mp hi
  obtain ⟨h', hn, -⟩ := hh.next hp
  have hm := (hh.lock m).mp hm
  cases i <;> cases hw
  case lock =>
    cases m' <;> simp only [Instr.next, Option.ite_none_right_eq_some] at hn
    case clients =>
      rcases hh.level_held hn.1.2 hm with h0 | ⟨hc, -⟩
      · exact lt_of_eq_of_lt h0 Nat.zero_lt_one
      · rw [hn.1.1] at hc; cases hc
    case secondaries c =>
      rw [hn.1] at hm
      simp [Hold.has, Hold.free, Hold.torn] at hm
    all_goals
      rcases hh.level_held hn.1 hm with h0 | ⟨-, h1⟩
      · exact lt_of_eq_of_lt h0 Nat.zero_lt_two
      · exact lt_of_eq_of_lt h1 Nat.one_lt_two
  case lockSecondaries p =>
    simp only [Instr.next, Option.ite_none_right_eq_some] at hn
    have hl : s.level (.secondaries p) = 2 := if_pos (hh.found p (head_mem hp))
    rcases hh.level_held hn.1.2.1 hm with h0 | ⟨-, h1⟩ <;> omega

/-- **No deadlock.** In no state that a run gets to is there a cycle of tasks each waiting for a
mutex that the next one holds, nor a task waiting for a mutex that it holds itself. -/
theorem no_deadlock {db : BrokerDb S} (hdb : Inv db) {ls : List MachLabel} {s : Mach S}
    (h : Run MachSteps (Mach.start db) ls s) :
    (∀ t, ¬ Relation.TransGen (WaitsFor s.wants s.lock) t t) ∧
      ∀ t m, s.wants t = some m → s.lock m ≠ some t := by
  have ho : Orderly s := h.inv (fun _ _ _ ho hst => ho.step hst) (.start hdb)
  refine ⟨ho.climbs.not_transGen_self, fun t m hw hm => ?_⟩
  exact ho.climbs.not_waits_self t ⟨m, hw, hm⟩

/-- A primary and its secondary come, the primary is dropped, and its teardown comes to `clients`
while a listing holds it. -/
def contention : List MachLabel :=
  .register 0 "p" .internal none none :: List.replicate 12 (.run 0 (.plain false)) ++
  .register 1 "p%%1" .internal none none :: List.replicate 15 (.run 1 (.plain false)) ++
  .spawn 2 (.drop ⟨0, "p", .internal, none, none⟩) :: List.replicate 13 (.run 2 (.plain false)) ++
  [.spawn 3 .clientList, .run 3 (.plain false)]

theorem no_deadlock_contention :
    ∃ s, Run MachSteps (Mach.start (BrokerDb.empty reference false false 4)) contention s ∧
      (s.wants 2 = some .clients ∧ s.lock .clients = some 3 ∧
        s.lock (.secondaries ⟨0, "p", .internal, none, none⟩) = some 2) ∧
      (∀ t, ¬ Relation.TransGen (WaitsFor s.wants s.lock) t t) ∧
      ∀ t m, s.wants t = some m → s.lock m ≠ some t := by
  have hrun : (execList machStep
      (Mach.start (BrokerDb.empty reference false false 4)) contention).map
      (fun s => (s.wants 2, s.lock .clients,
        s.lock (.secondaries ⟨0, "p", .internal, none, none⟩))) =
        some (some .clients, some 3, some 2) := by decide
  obtain ⟨s, hs, hobs⟩ := Option.map_eq_some_iff.mp hrun
  simp only [Prod.mk.injEq] at hobs
  have hr : Run MachSteps (Mach.start (BrokerDb.empty reference false false 4)) contention s :=
    run_of_execList hs
  exact ⟨s, hr, hobs, no_deadlock (inv_empty false false 4) hr⟩

end Busrt
