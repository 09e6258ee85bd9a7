/-
# The locks of the core client

An announcement takes the lock of `rpc_client`, and under it the lock of the
client wrapped in it, and keeps both while it delivers. Neither lock is
reentrant. A recipient with a full queue is unregistered on the way, and the
end of a primary client is announced: the task that does so comes back to the
lock it holds.

`legal` reads what a task has left to do as a sequence of locks and unlocks.
It stays legal in every run where no task that holds a lock unregisters a
client whose end is announced, and a legal task never waits for itself.

Key definitions: `legal`, `Sys.Legal`, `SelfWait`, `NoAnnounce`.
Key theorems: `Sys.Legal.step`, `no_self_wait`.
-/
import Busrt.System

namespace Busrt

open Lib BrokerDb

variable {S : Submap}

/-! ### Acts as locks and unlocks -/

/-- A task that holds the lock of `rpc_client` or not, and that of the core
client or not, takes each lock while it holds none that comes after it, gives
back what it took, and ends with neither. -/
def legal : Bool → Bool → List Act → Bool
  | rpc, core, [] => !rpc && !core
  | rpc, core, .lockRpc :: l => !rpc && !core && legal true core l
  | rpc, core, .lockCore :: l => !core && legal rpc true l
  | rpc, core, .unlockRpc :: l => rpc && legal false core l
  | rpc, core, .unlockCore :: l => core && legal rpc false l
  | rpc, core, .withCore _ :: l => rpc && !core && legal false false l
  | rpc, core, _ :: l => legal rpc core l

/-- Acts that have nothing to do with the locks. -/
def Act.neutral : Act → Bool
  | .lockRpc | .lockCore | .unlockRpc | .unlockCore | .withCore _ => false
  | _ => true

theorem legal_cons_neutral {a : Act} (ha : a.neutral = true) (rpc core : Bool) (l : List Act) :
    legal rpc core (a :: l) = legal rpc core l := by
  cases a <;> first | rfl | cases ha

theorem legal_append_neutral (rpc core : Bool) (rest : List Act) :
    ∀ l : List Act, (∀ a ∈ l, a.neutral = true) → legal rpc core (l ++ rest) = legal rpc core rest
  | [], _ => rfl
  | a :: l, h => by
    rw [List.cons_append, legal_cons_neutral (h a List.mem_cons_self)]
    exact legal_append_neutral rpc core rest l fun b hb => h b (List.mem_cons_of_mem _ hb)

theorem neutral_reply {reply : Reply} {res : Except ErrorKind Unit} {a : Act}
    (h : a ∈ reply.acts res) :
    a.neutral = true := by
  obtain ⟨c, n, opId, qos, code, -, rfl, -⟩ := mem_reply h
  rfl

theorem neutral_job (core : BrokerClient) (payload : List UInt8) (job : CoreJob) :
    (job.act core payload).neutral = true := by
  cases job <;> rfl

/-- Only an announcement brings in a lock. -/
theorem Leads.neutral {db : BrokerDb S} {a b : Act} (h : Leads db a b) (ha : a.neutral = true)
    (hu : ∀ c, a ≠ .unregister c) : b.neutral = true := by
  cases h with
  | found | recipient | room | full | close => rfl
  | notRegistered hb => exact neutral_reply hb
  | put hb => exact neutral_reply hb
  | closed hb => exact neutral_reply hb
  | announce => exact absurd rfl (hu _)
  | core => cases ha
  | locks => cases ha

theorem legal_announce (db : BrokerDb S) (event : BrokerEvent) (rest : List Act)
    (h : legal false false rest = true) :
    legal false false (announceActs db event ++ rest) = true := by
  unfold announceActs
  split
  · simpa [legal] using h
  · exact h

theorem legal_newTask (db : BrokerDb S) (c : BrokerClient) :
    legal false false (newTask db c).todo = true := by
  have h := legal_announce db (BrokerEvent.reg c.name) [] rfl
  rw [List.append_nil] at h
  unfold newTask
  simp only
  split
  · exact h
  · rfl

theorem legal_plan (aaa : Option (ClientAaa S)) (c : BrokerClient) (n : ℕ) (r : Request) :
    legal false false (plan aaa c n r) = true := by
  have h := legal_append_neutral false false [] (plan aaa c n r) fun a ha => by
    cases planned_of_mem ha <;> rfl
  rw [List.append_nil] at h
  exact h

theorem legal_entry (e : Entry) : legal false false e.acts = true := by
  cases e <;> rfl

/-! ### The invariant -/

/-- The end of `c` would be announced. -/
def BrokerDb.endAnnounced (db : BrokerDb S) (c : BrokerClient) : Bool :=
  c.primary && (db.cell c).registered && db.brokerRpc

theorem endAnnounced_nil {db db' : BrokerDb S} {c : BrokerClient} (hk : Keeps db db')
    (ha : db.endAnnounced c = false) (event : BrokerEvent) :
    (if (c.primary && (db.cell c).registered) = true then announceActs db' event else []) = [] := by
  split
  · rename_i hc
    rw [endAnnounced, hc, Bool.true_and] at ha
    rw [announceActs, hk.brokerRpc, ha]
    rfl
  · rfl

/-- An act that is not a lock's, by a task that holds the locks it says. -/
theorem legal_execDb {ch : Choice} {db db' : BrokerDb S} {a : Act} {acts rest : List Act}
    {rpc core : Bool} (he : execDb ch db a = some (db', .acts acts))
    (h : legal rpc core (a :: rest) = true)
    (hu : ∀ c, a = .unregister c → rpc || core → db.endAnnounced c = false) :
    legal rpc core (acts ++ rest) = true := by
  by_cases hc : ∃ c, a = .unregister c
  · obtain ⟨c, rfl⟩ := hc
    rw [execDb] at he
    obtain ⟨rfl, hn⟩ := Prod.mk.inj (Option.some.inj he)
    rw [Next.acts.injEq] at hn
    subst hn
    have hrest : legal rpc core rest = true := h
    by_cases hh : (rpc || core) = true
    · rw [endAnnounced_nil (Keeps.dropClient db c) (hu c rfl hh)]
      exact hrest
    · rw [Bool.or_eq_true, not_or, Bool.not_eq_true, Bool.not_eq_true] at hh
      rw [hh.1, hh.2] at hrest ⊢
      split
      · exact legal_announce _ _ _ hrest
      · exact hrest
  cases hn : a.neutral with
  | true =>
    rw [legal_cons_neutral hn] at h
    rw [legal_append_neutral]
    · exact h
    · exact fun b hb => (leads_of_execDb he b hb).neutral hn fun c hac => hc ⟨c, hac⟩
  | false =>
    cases a with
    | withCore job =>
      simp only [legal, Bool.and_eq_true] at h
      obtain ⟨⟨rfl, hcore⟩, hrest⟩ := h
      obtain rfl : core = false := by simpa using hcore
      cases he
      split
      · have hj := legal_cons_neutral (neutral_job ‹_› ch.payload job) true true
          (.unlockCore :: .unlockRpc :: rest)
        simpa [legal, hj] using hrest
      · simpa [legal] using hrest
    | lockRpc | lockCore | unlockRpc | unlockCore => cases he
    | _ => cases hn

/-- What every task has left to do is legal with the locks it holds, and only
tasks hold locks. -/
structure Sys.Legal (s : Sys S) : Prop where
  todo : ∀ t k, s.task t = some k →
    legal (decide (s.rpcLock = some t)) (decide (s.coreLock = some t)) k.todo = true
  held : ∀ t, s.rpcLock = some t ∨ s.coreLock = some t → s.task t ≠ none

/-- A task waits for a lock that it holds. -/
def SelfWait (s : Sys S) (t : Tid) : Prop :=
  ∃ conn rest, (s.task t = some ⟨conn, .lockRpc :: rest⟩ ∧ s.rpcLock = some t) ∨
    (s.task t = some ⟨conn, .lockCore :: rest⟩ ∧ s.coreLock = some t)

/-- No task that holds one of the locks unregisters a client whose end is
announced. -/
def NoAnnounce (s : Sys S) (l : Label) : Prop :=
  ∀ t ch conn c rest, l = .act t ch → s.task t = some ⟨conn, .unregister c :: rest⟩ →
    s.rpcLock = some t ∨ s.coreLock = some t → s.db.endAnnounced c = false

section Steps

variable {rules : BrokerClient → Option (ClientAaa S)} {s s' : Sys S}

theorem Sys.legal_init (forceRegister brokerRpc : Bool) (queueSize : ℕ+) :
    (Sys.init S forceRegister brokerRpc queueSize).Legal where
  todo t k h := by simp [Sys.init] at h
  held t h := by simp [Sys.init] at h

/-- A legal task does not wait for itself. -/
theorem Sys.Legal.not_selfWait (h : s.Legal) (t : Tid) : ¬ SelfWait s t := by
  rintro ⟨conn, rest, ⟨ht, hl⟩ | ⟨ht, hl⟩⟩
  · have := h.todo t _ ht
    simp [legal, hl] at this
  · have := h.todo t _ ht
    simp [legal, hl] at this

/-- A task that was not there holds no lock. -/
theorem Sys.Legal.free (h : s.Legal) {t : Tid} (ht : s.task t = none) :
    decide (s.rpcLock = some t) = false ∧ decide (s.coreLock = some t) = false :=
  ⟨decide_eq_false fun hl => h.held t (.inl hl) ht, decide_eq_false fun hl => h.held t (.inr hl) ht⟩

/-- A task whose acts are done holds no lock. -/
theorem Sys.Legal.idle (h : s.Legal) {t : Tid} {conn : Option Conn}
    (ht : s.task t = some ⟨conn, []⟩) :
    decide (s.rpcLock = some t) = false ∧ decide (s.coreLock = some t) = false := by
  have := h.todo t _ ht
  simpa [legal] using this

/-- The task `t` takes or gives back a lock. -/
theorem Sys.Legal.relock (h : s.Legal) {s₁ : Sys S} {t : Tid} {k : Task} (htask : s₁.task = s.task)
    (hrpc : ∀ u, u ≠ t → (s₁.rpcLock = some u ↔ s.rpcLock = some u))
    (hcore : ∀ u, u ≠ t → (s₁.coreLock = some u ↔ s.coreLock = some u))
    (hk : legal (decide (s₁.rpcLock = some t)) (decide (s₁.coreLock = some t)) k.todo = true) :
    (s₁.setTask t k).Legal where
  todo u k' hu := by
    change legal (decide (s₁.rpcLock = some u)) (decide (s₁.coreLock = some u)) k'.todo = true
    rw [setTask_task, htask] at hu
    split at hu
    · rename_i hut
      obtain rfl := Option.some.inj hu
      rw [hut]; exact hk
    · rename_i hut
      simp only [hrpc u hut, hcore u hut]
      exact h.todo u k' hu
  held u hu := by
    rw [setTask_task, htask]
    split
    · nofun
    · rename_i hut
      refine h.held u ?_
      rw [← hrpc u hut, ← hcore u hut]
      exact hu

/-- A task that changes, with the locks as they are. -/
theorem Sys.Legal.setTask (h : s.Legal) {s₁ : Sys S} {t : Tid} {k : Task} (htask : s₁.task = s.task)
    (hrpc : s₁.rpcLock = s.rpcLock) (hcore : s₁.coreLock = s.coreLock)
    (hk : legal (decide (s.rpcLock = some t)) (decide (s.coreLock = some t)) k.todo = true) :
    (s₁.setTask t k).Legal :=
  h.relock htask (fun _ _ => by rw [hrpc]) (fun _ _ => by rw [hcore])
    (by rw [hrpc, hcore]; exact hk)

/-- The end of a connection frees its locks. -/
theorem Sys.Legal.finish (h : s.Legal) {t : Tid} {k : Conn} : (s.finish t k).Legal := by
  have hfree : ∀ (o : Option Tid) (u : Tid), u ≠ t →
      ((if o = some t then none else o) = some u ↔ o = some u) := by
    intro o u hu
    split
    · rename_i ho
      rw [ho, Option.some.injEq]
      exact ⟨nofun, fun he => absurd he.symm hu⟩
    · rfl
  have hmine : ∀ o : Option Tid, decide ((if o = some t then none else o) = some t) = false := by
    intro o
    rw [decide_eq_false_iff_not]
    split
    · nofun
    · assumption
  let s₁ : Sys S := { s with
    rpcLock := if s.rpcLock = some t then none else s.rpcLock
    coreLock := if s.coreLock = some t then none else s.coreLock }
  have hk : legal (decide (s₁.rpcLock = some t)) (decide (s₁.coreLock = some t))
      [.unregister k.client] = true := by
    simp only [s₁, hmine]
    rfl
  have hend : (s₁.setTask t ⟨some { k with reading := false }, [.unregister k.client]⟩).Legal :=
    h.relock rfl (hfree _) (hfree _) hk
  exact hend

/-- Every step keeps the tasks legal, if none announces under a lock. -/
theorem Sys.Legal.step (h : s.Legal) {l : Label} (hn : NoAnnounce s l) (hs : Steps rules s l s') :
    s'.Legal := by
  cases effect_of_steps hs with
  | connect ht hr =>
    obtain ⟨hrpc, hcore⟩ := h.free ht
    refine h.setTask rfl rfl rfl ?_
    rw [hrpc, hcore]
    exact legal_newTask _ _
  | spawn ht hv =>
    obtain ⟨hrpc, hcore⟩ := h.free ht
    refine h.setTask rfl rfl rfl ?_
    rw [hrpc, hcore]
    exact legal_entry _
  | decode ht hk =>
    obtain ⟨hrpc, hcore⟩ := h.idle ht
    refine h.setTask rfl rfl rfl ?_
    rw [hrpc, hcore]
    exact legal_plan ..
  | @act t ch conn a rest s₁ l ht he =>
    have hold := h.todo t _ ht
    rcases exec_cases he with ⟨db, hdb, rfl⟩ | ⟨hnext, hlock⟩
    · refine h.setTask rfl rfl rfl (legal_execDb hdb hold ?_)
      rintro c rfl hheld
      refine hn t ch conn c rest rfl ht ?_
      simpa using hheld
    rw [Next.acts.injEq] at hnext
    subst hnext
    rw [List.nil_append]
    -- another task holds after the step what it held before it
    have hother : ∀ {o : Option Tid} {u : Tid}, u ≠ t → (o = none ∨ o = some t) →
        (o = some u ↔ False) := by
      rintro o u hu (rfl | rfl)
      · simp
      · simpa using Ne.symm hu
    rcases hlock with ⟨rfl, hl, rfl⟩ | ⟨rfl, hl, rfl⟩ | ⟨rfl, rfl⟩ | ⟨rfl, rfl⟩
    · refine h.relock rfl (fun u hu => ?_) (fun _ _ => Iff.rfl) ?_
      · rw [hother hu (.inr rfl), hother hu (.inl hl)]
      · simp only [legal, Bool.and_eq_true] at hold
        simpa using hold.2
    · refine h.relock rfl (fun _ _ => Iff.rfl) (fun u hu => ?_) ?_
      · rw [hother hu (.inr rfl), hother hu (.inl hl)]
      · simp only [legal, Bool.and_eq_true] at hold
        simpa using hold.2
    · simp only [legal, Bool.and_eq_true, decide_eq_true_eq] at hold
      refine h.relock rfl (fun u hu => ?_) (fun _ _ => Iff.rfl) ?_
      · rw [hother hu (.inl rfl), hother hu (.inr hold.1)]
      · simpa using hold.2
    · simp only [legal, Bool.and_eq_true, decide_eq_true_eq] at hold
      refine h.relock rfl (fun _ _ => Iff.rfl) (fun u hu => ?_) ?_
      · rw [hother hu (.inl rfl), hother hu (.inr hold.1)]
      · simpa using hold.2
  | exit ht he =>
    rcases exec_cases he with ⟨db, hdb, rfl⟩ | ⟨hnext, -⟩
    · exact Sys.Legal.finish (s := { s with db := db }) ⟨h.todo, h.held⟩
    · cases hnext
  | finish ht => exact h.finish
  | refuse | setCore | recv | ping => exact ⟨h.todo, h.held⟩

/-- In every run where no announcement is made under the locks, no task waits for a
lock that it holds. -/
theorem no_self_wait (rules : BrokerClient → Option (ClientAaa S)) (forceRegister brokerRpc : Bool)
    (queueSize : ℕ+) (labels : List Label) (s : Sys S)
    (h : Run (Guarded (Steps rules) NoAnnounce)
      (Sys.init S forceRegister brokerRpc queueSize) labels s)
    (t : Tid) :
    ¬ SelfWait s t := by
  have hlegal : s.Legal :=
    h.inv (fun _ _ _ hI hs => Sys.Legal.step hI hs.1 hs.2) (Sys.legal_init ..)
  exact hlegal.not_selfWait t

/-- A task that announces under the lock of `rpc_client` waits for itself from then
on. -/
theorem selfWait_of_endAnnounced {ch : Choice} {t : Tid} {conn : Option Conn} {c : BrokerClient}
    {rest : List Act} (ht : s.task t = some ⟨conn, .unregister c :: rest⟩) (hl : s.rpcLock = some t)
    (ha : s.db.endAnnounced c = true) (hs : Steps rules s (.act t ch) s') : SelfWait s' t := by
  rw [endAnnounced, Bool.and_eq_true] at ha
  have hann : announceActs (s.db.dropClient c) (BrokerEvent.unreg c.name) =
      [.lockRpc, .withCore (.announce (BrokerEvent.unreg c.name))] := by
    rw [announceActs, (Keeps.dropClient s.db c).brokerRpc, if_pos ha.2]
  have he : exec ch t s (.unregister c) = some ({ s with db := s.db.dropClient c },
      .acts [.lockRpc, .withCore (.announce (BrokerEvent.unreg c.name))]) := by
    simp only [exec, execDb, ha.1, if_true, hann, Option.map_some]
  change act s t ch = some s' at hs
  simp only [act, ht, he, Option.some.injEq] at hs
  subst hs
  exact ⟨conn, _, .inl ⟨by rw [setTask_task, if_pos rfl]; rfl, hl⟩⟩

/-- A check that a step announces nothing under the locks. -/
def noAnnounce (s : Sys S) : Label → Bool
  | .act t _ =>
    match s.task t with
    | some ⟨_, .unregister c :: _⟩ =>
      !((s.rpcLock = some t || s.coreLock = some t) && s.db.endAnnounced c)
    | _ => true
  | _ => true

theorem noAnnounce_sound (s : Sys S) (l : Label) (h : noAnnounce s l = true) : NoAnnounce s l := by
  rintro t ch conn c rest rfl ht hheld
  simp only [noAnnounce, ht] at h
  have hheld' : (decide (s.rpcLock = some t) || decide (s.coreLock = some t)) = true := by
    simpa using hheld
  rw [hheld', Bool.true_and] at h
  simpa using h

end Steps

/-! ### An announcement that meets a full queue -/

namespace Locks

/-- The core client. -/
def coreClient : BrokerClient := ⟨0, ".broker", .internal, none, none⟩

/-- Queues of one frame. -/
def start : Sys reference := Sys.init reference false true 1

/-- The text `.broker/info`. -/
def info : List UInt8 := [46, 98, 114, 111, 107, 101, 114, 47, 105, 110, 102, 111]

def acts (t : Tid) (n : ℕ) : List Label := List.replicate n (.act t .plain)

/-- The core client is set, `w` subscribes to `.broker/info`, and the registration
of `a` fills its queue. -/
def labels : List Label :=
  .connect 0 ".broker" .internal none none :: acts 0 3 ++ [.setCore coreClient] ++
    .connect 1 "w" .tcp none none :: acts 1 6 ++
    .decode 1 (.numbered 1 .subscribeTopic .no info) :: acts 1 1 ++
    .connect 2 "a" .tcp none none :: acts 2 8

/-- `a` sends a message to `w`, which is unregistered, and this is announced. -/
def message : List Label := labels ++ .decode 2 (.numbered 1 .message .no [119, 0]) :: acts 2 10

/-- `b` connects. -/
def announced : List Label := labels ++ .connect 3 "b" .tcp none none :: acts 3 6

end Locks

open Locks in
/-- A client with a full queue is unregistered by a task that holds no lock: the
announcement is made, and both locks are free again. -/
theorem no_self_wait_message : ∃ s, Run (Guarded (Steps fun _ => none) NoAnnounce) start message s ∧
    s.db.core = some coreClient ∧ s.db.lookup "w" = none ∧ s.rpcLock = none ∧ s.coreLock = none ∧
    ∀ t, ¬ SelfWait s t := by
  have hrun :
      (execList (fun s l => if noAnnounce s l then step (fun _ => none) s l else none)
        start message).map
      (fun s => (s.db.core, s.db.lookup "w", s.rpcLock, s.coreLock)) =
        some (some coreClient, none, none, none) := by
    decide
  obtain ⟨s, hs, hobs⟩ := Option.map_eq_some_iff.mp hrun
  simp only [Prod.mk.injEq] at hobs
  obtain ⟨hcore, hw, hrpc, hlock⟩ := hobs
  have hr := run_of_checked (fun s l => noAnnounce_sound s l) hs
  exact ⟨s, hr, hcore, hw, hrpc, hlock, no_self_wait _ false true 1 message s hr⟩

open Locks in
/-- The registration of `b` is announced to `w`, whose queue is full: the task
unregisters it and waits for the lock it holds. -/
theorem self_wait_announced : ∃ s, Run (Steps fun _ => none) start announced s ∧
    s.db.core = some coreClient ∧ SelfWait s 3 := by
  have hrun : (execList (step fun _ => none) start announced).map
      (fun s => (s.db.core, s.rpcLock, (s.task 3).map fun k => k.todo.head?)) =
        some (some coreClient, some 3, some (some .lockRpc)) := by decide
  obtain ⟨s, hs, hobs⟩ := Option.map_eq_some_iff.mp hrun
  simp only [Prod.mk.injEq, Option.map_eq_some_iff] at hobs
  obtain ⟨hcore, hrpc, ⟨conn, todo⟩, ht, hhead⟩ := hobs
  obtain ⟨a, l, rfl⟩ : ∃ a l, todo = a :: l :=
    List.exists_cons_of_ne_nil (by rintro rfl; cases hhead)
  obtain rfl := Option.some.inj hhead
  exact ⟨s, run_of_execList hs, hcore, conn, l, .inl ⟨ht, hrpc⟩⟩

end Busrt
