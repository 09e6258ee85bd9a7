/-
# The broker comes to rest

A task of the broker waits in two places: for room in a queue, and for the locks of
the core client. What it has left to do may grow, since one act leads to others: a
publication to its recipients, a delivery to an acknowledgement, the end of a
connection to an announcement, which is a publication again.

Still every reachable state comes to rest, by the acts of the tasks and the receivers
alone and without a timeout: all tasks get done, and both locks are free
(`comes_to_rest`). The only exception is a task that holds a lock and is about to
force out a client whose end is announced: it is going to wait for itself.

The acts have ranks, and an act leads to acts of lower ranks only, as long as it
finds room; so the ranks of all that is left to do go down as a multiset. The task that
goes on is the one that holds the lock taken last.

Key definitions: `Act.rank`, `Sys.load`, `Sound`, `Resting`, `AtRest`.
Key theorems: `exec_ready`, `Resting.goOn`, `comes_to_rest`.
-/
import Mathlib.Data.Multiset.DershowitzManna
import Mathlib.Algebra.BigOperators.Group.Finset.Basic
import Busrt.Locks
import Busrt.Room

namespace Busrt

open Lib BrokerDb

variable {S : Submap}

/-! ### Ranks -/

def Reply.rank : Reply → ℕ
  | .none => 0
  | .ack .. => 10

/-- More than the rank of any act that this one leads to when it finds room. -/
def Act.rank : Act → ℕ
  | .send _ _ _ reply => reply.rank + 3
  | .safeSend _ _ _ reply => reply.rank + 2
  | .put _ _ _ reply | .close _ reply => reply.rank + 1
  | .ack .. | .exit _ => 9
  | .unregister _ => 5
  | .withCore _ => 4
  | .fan .. => 3
  | _ => 0

/-- The act may end a connection, or leads to one that may. -/
def Act.quits : Act → Bool
  | .ack .. | .exit _ => true
  | .send _ _ _ reply | .safeSend _ _ _ reply | .put _ _ _ reply | .close _ reply => reply != .none
  | _ => false

/-- The client in whose queue the act looks for room. -/
def Act.needs : Act → Option BrokerClient
  | .ack c .. => some c
  | .safeSend tgt .. | .put tgt .. => some tgt
  | _ => none

/-- Nobody is forced out. -/
def Act.keeps (a : Act) : Prop := ∀ c, a ≠ .unregister c

/-- What an act that has found room leads to. -/
def Act.Lowers (a : Act) : Next → Prop
  | .acts l => ∀ b ∈ l, b.rank < a.rank ∧ b.keeps
  | .exit _ => a.quits = true ∧ a.rank = 9

section Ranks

variable {s s₁ : Sys S} {a : Act} {t : Tid}

theorem rank_reply {reply : Reply} {res : Except ErrorKind Unit} {b : Act}
    (hb : b ∈ reply.acts res) :
    b.rank < reply.rank ∧ b.keeps := by
  obtain ⟨c, n, opId, qos, code, rfl, rfl, -⟩ := mem_reply hb
  exact ⟨Nat.lt_succ_self 9, fun _ => Act.noConfusion⟩

theorem rank_announce {db : BrokerDb S} {event : BrokerEvent} {b : Act}
    (hb : b ∈ announceActs db event) :
    b.rank < 5 ∧ b.keeps := by
  obtain rfl | rfl := mem_announceActs hb
  · exact ⟨Nat.succ_pos 4, fun _ => Act.noConfusion⟩
  · exact ⟨Nat.lt_succ_self 4, fun _ => Act.noConfusion⟩

theorem rank_job (core : BrokerClient) (payload : List UInt8) (job : CoreJob) :
    (job.act core payload).rank < 4 ∧ (job.act core payload).keeps := by
  cases job with
  | announce | fan | send => exact ⟨Nat.lt_succ_self 3, fun _ => Act.noConfusion⟩

/-- With room in the queue a put comes to its end. -/
theorem execPut_ready {db : BrokerDb S} {tgt : BrokerClient}
    (hroom : (db.cell tgt).tx.isFull = false) (f : Frame) (timeout : Bool) :
    ∃ db' res, ∀ done : Except ErrorKind Unit → Next,
      execPut .plain db tgt f timeout done = some (db', done res) := by
  unfold execPut
  simp only [hroom, Bool.false_eq_true, if_false]
  cases (db.cell tgt).tx.closed with
  | true => exact ⟨db, .error .eof, fun _ => rfl⟩
  | false => exact ⟨_, .ok (), fun _ => rfl⟩

/-- An act that finds room and its lock free is done, and leads to acts of lower ranks. -/
theorem exec_ready (hroom : ∀ c, a.needs = some c → (s.db.cell c).tx.isFull = false)
    (hrpc : a = .lockRpc → s.rpcLock = none) (hcore : a = .lockCore → s.coreLock = none) :
    ∃ s₁ next, exec .plain t s a = some (s₁, next) ∧ a.Lowers next := by
  cases a with
  | ack c n opId code realtime =>
    obtain ⟨db', res, he⟩ := execPut_ready (hroom c rfl) (ackFrame c n opId code realtime) false
    cases res with
    | ok =>
      exact ⟨{ s with db := db' }, .acts [], by simp only [exec, execDb, he, Option.map_some],
        fun b hb => (by cases hb)⟩
    | error e =>
      exact ⟨{ s with db := db' }, .exit e, by simp only [exec, execDb, he, Option.map_some],
        rfl, rfl⟩
  | put tgt f timeout reply =>
    obtain ⟨db', res, he⟩ := execPut_ready (hroom tgt rfl) f timeout
    refine ⟨{ s with db := db' },
      .acts (reply.acts res), by simp only [exec, execDb, he, Option.map_some],
      fun b hb => ?_⟩
    exact ⟨Nat.lt_succ_of_lt (rank_reply hb).1, (rank_reply hb).2⟩
  | safeSend tgt f timeout reply =>
    refine ⟨s, .acts [.put tgt f false reply], ?_, fun b hb => ?_⟩
    · simp only [exec, execDb, hroom tgt rfl, Bool.false_eq_true, if_false, Option.map_some]
    · rw [List.mem_singleton.mp hb]
      exact ⟨Nat.lt_succ_self _, fun _ => Act.noConfusion⟩
  | send target f timeout reply =>
    rcases hl : s.db.lookup target with _ | tgt
    · refine ⟨s, .acts
        (reply.acts (.error .notRegistered)), by simp only [exec, execDb, hl]; rfl, fun b hb => ?_⟩
      obtain ⟨hlt, hkeeps⟩ := rank_reply hb
      refine ⟨?_, hkeeps⟩
      show b.rank < reply.rank + 3
      omega
    · refine ⟨s,
        .acts [.safeSend tgt f timeout reply], by simp only [exec, execDb, hl]; rfl, fun b hb => ?_⟩
      rw [List.mem_singleton.mp hb]
      exact ⟨Nat.lt_succ_self _, fun _ => Act.noConfusion⟩
  | fan op f timeout =>
    refine ⟨s, _, rfl, fun b hb => ?_⟩
    obtain ⟨tgt, -, rfl⟩ := List.mem_map.mp hb
    exact ⟨by simp [Act.rank, Reply.rank], fun _ => Act.noConfusion⟩
  | close tgt reply =>
    refine ⟨_, _, rfl, fun b hb => ?_⟩
    exact ⟨Nat.lt_succ_of_lt (rank_reply hb).1, (rank_reply hb).2⟩
  | unregister c =>
    refine ⟨_, _, rfl, fun b hb => ?_⟩
    split at hb
    · exact rank_announce hb
    · cases hb
  | withCore job =>
    refine ⟨_, _, rfl, fun b hb => ?_⟩
    split at hb
    · simp only [List.mem_cons, List.not_mem_nil, or_false] at hb
      rcases hb with rfl | rfl | rfl | rfl
      · exact ⟨Nat.succ_pos 3, fun _ => Act.noConfusion⟩
      · exact rank_job _ _ job
      · exact ⟨Nat.succ_pos 3, fun _ => Act.noConfusion⟩
      · exact ⟨Nat.succ_pos 3, fun _ => Act.noConfusion⟩
    · rw [List.mem_singleton.mp hb]
      exact ⟨Nat.succ_pos 3, fun _ => Act.noConfusion⟩
  | exit e => exact ⟨_, _, rfl, rfl, rfl⟩
  | lockRpc => exact ⟨_, .acts [], by rw [exec, if_pos (hrpc rfl)], fun b hb => (by cases hb)⟩
  | lockCore => exact ⟨_, .acts [], by rw [exec, if_pos (hcore rfl)], fun b hb => (by cases hb)⟩
  | subscribe | unsubscribe | exclude | unexclude | drop | unlockRpc | unlockCore =>
    exact ⟨_, _, rfl, fun b hb => (by cases hb)⟩

end Ranks

/-! ### What every run keeps -/

/-- A task that has nothing more to do. -/
def Sys.left (s : Sys S) (t : Tid) : List Act := ((s.task t).map (·.todo)).getD []

/-- What holds in every run where nobody announces under a lock: the locks are taken in
turn, a client is forced out at the head of what a task has left only, and only the tasks
of connections may quit. -/
structure Sound (s : Sys S) : Prop where
  ok : s.Ok
  legal : s.Legal
  head : ∀ t k, s.task t = some k → ∀ b ∈ k.todo.tail, b.keeps
  conn : s.All (fun o a => a.quits = true → o.isSome = true) fun _ _ => True
  finite : {t | s.task t ≠ none}.Finite

section Kept

variable {rules : BrokerClient → Option (ClientAaa S)} {s s' : Sys S} {l : Label}

/-- An act brings in the end of a client only where it finds a full queue. -/
theorem keeps_of_leads {db : BrokerDb S} {a b : Act} (h : Leads db a b) :
    b.keeps ∨ ∃ tgt f timeout reply, a = .safeSend tgt f timeout reply := by
  cases h with
  | room | full | close => exact .inr ⟨_, _, _, _, rfl⟩
  | found | recipient => exact .inl fun _ => Act.noConfusion
  | notRegistered hb => exact .inl (rank_reply hb).2
  | put hb => exact .inl (rank_reply hb).2
  | closed hb => exact .inl (rank_reply hb).2
  | announce hb => exact .inl (rank_announce hb).2
  | core => exact .inl (rank_job _ _ _).2
  | locks hb => rcases hb with rfl | rfl | rfl <;> exact .inl fun _ => Act.noConfusion

/-- And then it is the first thing to do. -/
theorem keeps_of_exec {t : Tid} {ch : Choice} {a : Act} {s₁ : Sys S} {acts : List Act}
    (he : exec ch t s a = some (s₁, .acts acts)) : ∀ b ∈ acts.tail, b.keeps := by
  intro b hb
  rcases exec_cases he with ⟨db, hdb, -⟩ | ⟨hn, -⟩
  · obtain hk | ⟨tgt, f, timeout, reply, rfl⟩ :=
      keeps_of_leads (leads_of_execDb hdb b (List.mem_of_mem_tail hb))
    · exact hk
    · rw [execDb] at hdb
      split at hdb
      · split at hdb
        · cases hdb
          cases hb
        · cases hdb
          rw [List.mem_singleton.mp hb]
          exact fun _ => Act.noConfusion
      · cases hdb
        cases hb
  · cases hn
    cases hb

theorem keeps_entry {e : Entry} {b : Act} (hb : b ∈ e.acts.tail) : b.keeps := by
  cases e with
  | withCore job =>
    rw [List.mem_singleton.mp hb]
    exact fun _ => Act.noConfusion
  | rpcReply core target header payload qos =>
    rcases List.mem_pair.mp hb with rfl | rfl <;> exact fun _ => Act.noConfusion
  | _ => cases hb

theorem keeps_newTask {db : BrokerDb S} {c : BrokerClient} {b : Act}
    (hb : b ∈ (newTask db c).todo.tail) : b.keeps := by
  have hb := List.mem_of_mem_tail hb
  unfold newTask at hb
  simp only at hb
  split at hb
  · exact (rank_announce hb).2
  · cases hb

theorem keeps_plan {aaa : Option (ClientAaa S)} {c : BrokerClient} {n : ℕ} {r : Request} {b : Act}
    (hb : b ∈ plan aaa c n r) : b.keeps := by
  cases planned_of_mem hb <;> exact fun _ => Act.noConfusion

theorem keeps_append {t : Tid} {ch : Choice} {a : Act} {s₁ : Sys S} {acts rest : List Act}
    (he : exec ch t s a = some (s₁, .acts acts)) (hrest : ∀ b ∈ rest, b.keeps) :
    ∀ b ∈ (acts ++ rest).tail, b.keeps := by
  intro b hb
  cases acts with
  | nil => exact hrest b (List.mem_of_mem_tail hb)
  | cons c acts =>
    rcases List.mem_append.mp hb with hb | hb
    · exact keeps_of_exec he b hb
    · exact hrest b hb

theorem quits_reply {reply : Reply} {res : Except ErrorKind Unit} {b : Act}
    (hb : b ∈ reply.acts res) :
    (reply != .none) = true := by
  obtain ⟨c, n, opId, qos, code, rfl, -⟩ := mem_reply hb
  rfl

theorem quits_of_leads {db : BrokerDb S} {a b : Act} (h : Leads db a b) (hb : b.quits = true) :
    a.quits = true := by
  cases h with
  | found | room | close => exact hb
  | notRegistered hm => exact quits_reply hm
  | put hm => exact quits_reply hm
  | closed hm => exact quits_reply hm
  | recipient | full => cases hb
  | announce hm => obtain rfl | rfl := mem_announceActs hm <;> cases hb
  | @core job => cases job <;> cases hb
  | locks hm => rcases hm with rfl | rfl | rfl <;> cases hb

theorem sound_init (forceRegister brokerRpc : Bool) (queueSize : ℕ+) :
    Sound (Sys.init S forceRegister brokerRpc queueSize) where
  ok := Sys.ok_init ..
  legal := Sys.legal_init ..
  head t k h := by simp [Sys.init] at h
  conn := Sys.all_init ..
  finite := by simp [Sys.init]

/-- What a task has left to do after its first may force out nobody. -/
theorem Sound.keeps (h : Sound s) (hs : Steps rules s l s') {t : Tid} {k : Task}
    (ht : s'.task t = some k) :
    ∀ b ∈ k.todo.tail, b.keeps := by
  have hset : ∀ {s₁ : Sys S} {u : Tid} {k' : Task}, s₁.task = s.task →
      (∀ b ∈ k'.todo.tail, b.keeps) →
      (s₁.setTask u k').task t = some k → ∀ b ∈ k.todo.tail, b.keeps := by
    intro s₁ u k' htask hk' hk
    rw [setTask_task, htask] at hk
    split at hk
    · exact Option.some.inj hk ▸ hk'
    · exact h.head t k hk
  have hfin : ∀ {s₁ : Sys S} {u : Tid} {j : Conn}, s₁.task = s.task →
      (s₁.finish u j).task t = some k →
      ∀ b ∈ k.todo.tail, b.keeps := by
    intro s₁ u j htask hk
    simp only [Sys.finish, Function.update_apply, htask] at hk
    split at hk
    · rw [← Option.some.inj hk]
      exact fun b hb => (by cases hb)
    · exact h.head t k hk
  cases effect_of_steps hs with
  | connect => exact hset rfl (fun b hb => keeps_newTask hb) ht
  | spawn => exact hset rfl (fun b hb => keeps_entry hb) ht
  | decode => exact hset rfl (fun b hb => keeps_plan (List.mem_of_mem_tail hb)) ht
  | act hu he => exact hset (exec_task he) (keeps_append he (h.head _ _ hu)) ht
  | exit hu he => exact hfin (exec_task he) ht
  | finish => exact hfin rfl ht
  | refuse | setCore | recv | ping => exact h.head t k ht

theorem Sound.step (h : Sound s) (hn : NoAnnounce s l) (hs : Steps rules s l s') : Sound s' where
  ok := h.ok.step hs
  legal := h.legal.step hn hs
  head _ _ ht := h.keeps hs ht
  conn := h.conn.step h.ok.inv
    { leads := fun _ _ _ ha hle hb => ha (quits_of_leads hle hb)
      put := fun _ _ _ _ _ _ _ _ => trivial
      ack := fun _ _ _ _ _ _ _ _ _ => trivial
      nop := fun _ => trivial
      unregister := fun _ _ hq => by cases hq
      announce := fun _ _ => ⟨fun hq => (by cases hq), fun hq => (by cases hq)⟩
      entry := fun _ _ _ _ _ ha hq => by cases entryAct_of_mem ha <;> cases hq
      plan := fun _ _ _ _ _ _ _ _ => rfl } hs
  finite := by
    refine (h.finite.union (Set.finite_range fun _ : Unit => l.tid.getD 0)).subset fun t ht => ?_
    by_cases hl : l.tid = some t
    · exact .inr ⟨(), by rw [hl, Option.getD_some]⟩
    · refine .inl ?_
      rw [Set.mem_ofPred_eq, ← task_of_other hs hl]
      exact ht

end Kept

/-! ### The next task -/

/-- No task that holds a lock is about to force out a client whose end is announced. -/
def Calm (s : Sys S) : Prop := ∀ t conn c rest, s.task t = some ⟨conn, .unregister c :: rest⟩ →
  s.rpcLock = some t ∨ s.coreLock = some t → s.db.endAnnounced c = false

def AtRest (s : Sys S) : Prop := ∀ t k, s.task t = some k → k.todo = []

section Next

variable {s : Sys S}

/-- The holder of a lock has something left to do. -/
theorem Sys.Legal.holder (h : s.Legal) {t : Tid} (hl : s.rpcLock = some t ∨ s.coreLock = some t) :
    ∃ conn a rest, s.task t = some ⟨conn, a :: rest⟩ := by
  obtain ⟨⟨conn, todo⟩, ht⟩ := Option.ne_none_iff_exists'.mp (h.held t hl)
  cases todo with
  | nil =>
    obtain ⟨hrpc, hcore⟩ := h.idle ht
    rcases hl with hl | hl
    · exact absurd hl (of_decide_eq_false hrpc)
    · exact absurd hl (of_decide_eq_false hcore)
  | cons a rest => exact ⟨conn, a, rest, ht⟩

/-- A task goes on with an act that need not wait for a lock: the one that holds the
lock taken last, or any. -/
theorem Sys.Legal.next (h : s.Legal) (hr : ¬ AtRest s) :
    ∃ t conn a rest, s.task t = some ⟨conn, a :: rest⟩ ∧
    (a = .lockRpc → s.rpcLock = none) ∧ (a = .lockCore → s.coreLock = none) := by
  rcases hcore : s.coreLock with _ | u
  · rcases hrpc : s.rpcLock with _ | u
    · simp only [AtRest, not_forall] at hr
      obtain ⟨t, ⟨conn, todo⟩, ht, hne⟩ := hr
      obtain ⟨a, rest, rfl⟩ := List.exists_cons_of_ne_nil hne
      exact ⟨t, conn, a, rest, ht, fun _ => rfl, fun _ => rfl⟩
    · obtain ⟨conn, a, rest, ht⟩ := h.holder (.inl hrpc)
      refine ⟨u, conn, a, rest, ht, ?_, fun _ => rfl⟩
      rintro rfl
      exact absurd ⟨conn, rest, .inl ⟨ht, hrpc⟩⟩ (h.not_selfWait u)
  · obtain ⟨conn, a, rest, ht⟩ := h.holder (.inr hcore)
    have hlegal := h.todo u _ ht
    refine ⟨u, conn, a, rest, ht, ?_, ?_⟩
    · rintro rfl
      simp [legal, hcore] at hlegal
    · rintro rfl
      simp [legal, hcore] at hlegal

/-- At rest both locks are free. -/
theorem Sys.Legal.free_of_atRest (h : s.Legal) (hr : AtRest s) :
    s.rpcLock = none ∧ s.coreLock = none := by
  have hno : ∀ t, ¬ (s.rpcLock = some t ∨ s.coreLock = some t) := by
    intro t hl
    obtain ⟨conn, a, rest, ht⟩ := h.holder hl
    cases hr t _ ht
  exact ⟨Option.eq_none_iff_forall_ne_some.mpr fun t ht => hno t (.inl ht),
    Option.eq_none_iff_forall_ne_some.mpr fun t ht => hno t (.inr ht)⟩

end Next

/-! ### One step towards rest -/

/-- The acts of the tasks and the receivers, without a timeout. -/
def Label.Own (l : Label) : Prop := (∃ t, l = .act t .plain) ∨ ∃ c, l = .recv c

/-- The ranks of all that the tasks `T` have left to do. -/
def Sys.load (T : Finset Tid) (s : Sys S) : Multiset ℕ :=
  ∑ t ∈ T, ((s.left t).map Act.rank : Multiset ℕ)

/-- A sound state that can come to rest; its tasks are some of `T`. -/
structure Resting (T : Finset Tid) (s : Sys S) : Prop where
  sound : Sound s
  calm : Calm s
  tasks : ∀ t, s.task t ≠ none → t ∈ T

section Load

variable {s s' : Sys S} {T : Finset Tid} {t : Tid}

theorem load_split (ht : t ∈ T) :
    s.load T = ∑ u ∈ T.erase t, ((s.left u).map Act.rank : Multiset ℕ) +
      ((s.left t).map Act.rank : Multiset ℕ) := by
  rw [Sys.load, ← Finset.add_sum_erase T _ ht, add_comm]

/-- The load goes down where a task puts acts of lower ranks in the place of its first. -/
theorem load_lt (ht : t ∈ T) (hother : ∀ u, u ≠ t → s'.left u = s.left u) {a : Act}
    {l d r : List Act}
    (hs : s.left t = a :: (d ++ r)) (hs' : s'.left t = l ++ r) (hl : ∀ b ∈ l, b.rank < a.rank) :
    (s'.load T).IsDershowitzMannaLT (s.load T) := by
  set X : Multiset ℕ := ∑ u ∈ T.erase t, ((s.left u).map Act.rank : Multiset ℕ)
  have hsum : ∑ u ∈ T.erase t, ((s'.left u).map Act.rank : Multiset ℕ) = X :=
    Finset.sum_congr rfl fun u hu => by rw [hother u (Finset.ne_of_mem_erase hu)]
  -- what is left after these acts stays, and so does what the others have left
  have hswap : ∀ xs : List Act, X + ((xs ++ r).map Act.rank : Multiset ℕ) =
      X + (r.map Act.rank : Multiset ℕ) + (xs.map Act.rank : Multiset ℕ) := by
    intro xs
    rw [List.map_append, ← Multiset.coe_add, add_comm (xs.map Act.rank : Multiset ℕ), add_assoc]
  refine ⟨X + (r.map Act.rank : Multiset ℕ), (l.map Act.rank : Multiset ℕ),
    ((a :: d).map Act.rank : Multiset ℕ),
    ?_, ?_, ?_, ?_⟩
  · rw [Ne, Multiset.empty_eq_zero, Multiset.coe_eq_zero]
    exact List.cons_ne_nil _ _
  · calc s'.load T = X + ((l ++ r).map Act.rank : Multiset ℕ) := by rw [load_split ht, hsum, hs']
      _ = X + (r.map Act.rank : Multiset ℕ) + (l.map Act.rank : Multiset ℕ) := hswap l
  · calc s.load T =
      X + ((a :: d ++ r).map Act.rank : Multiset ℕ) := by rw [load_split ht, hs, List.cons_append]
      _ = X + (r.map Act.rank : Multiset ℕ) + ((a :: d).map Act.rank : Multiset ℕ) := hswap (a :: d)
  · intro y hy
    obtain ⟨b, hb, rfl⟩ := List.mem_map.mp (Multiset.mem_coe.mp hy)
    exact ⟨a.rank, Multiset.mem_coe.mpr List.mem_cons_self, hl b hb⟩

end Load

section GoesOn

variable {rules : BrokerClient → Option (ClientAaa S)} {s s₁ : Sys S} {T : Finset Tid} {t : Tid}
  {ch : Choice} {a : Act}
  {next : Next}

/-- Nobody gets a lock by another's act. -/
theorem locks_of_exec (he : exec ch t s a = some (s₁, next)) {u : Tid} (hu : u ≠ t)
    (hl : s₁.rpcLock = some u ∨ s₁.coreLock = some u) :
    s.rpcLock = some u ∨ s.coreLock = some u := by
  have hne : some t ≠ some u := fun h => hu (Option.some.inj h).symm
  rcases exec_cases he with ⟨db, -, rfl⟩ | ⟨-, ⟨-, -, rfl⟩ | ⟨-, -, rfl⟩ | ⟨-, rfl⟩ | ⟨-, rfl⟩⟩
  · exact hl
  · exact hl.imp (fun h => absurd h hne) id
  · exact hl.imp id fun h => absurd h hne
  · exact hl.imp (fun h => (by cases h)) id
  · exact hl.imp id fun h => (by cases h)

theorem brokerRpc_of_execDb {db db' : BrokerDb S} (he : execDb ch db a = some (db', next)) :
    db'.brokerRpc = db.brokerRpc := by
  have hput : ∀ {tgt f timeout done}, execPut ch db tgt f timeout done = some (db', next) →
      db'.brokerRpc = db.brokerRpc := by
    intro tgt f timeout done he
    rcases execPut_cases he with ⟨rfl, -⟩ | ⟨rfl, -⟩ | ⟨-, -, rfl, -⟩ <;> rfl
  cases a with
  | ack =>
    rw [execDb] at he
    exact hput he
  | put =>
    rw [execDb] at he
    exact hput he
  | unregister c =>
    cases he
    exact (Keeps.dropClient db c).brokerRpc
  | drop c =>
    cases he
    exact (Keeps.dropClient db c).brokerRpc
  | send | safeSend =>
    rw [execDb] at he
    repeat' split at he
    all_goals cases he
    all_goals rfl
  | lockRpc | lockCore | unlockRpc | unlockCore => cases he
  | _ =>
    cases he
    rfl

/-- No end is announced that was not before. -/
theorem endAnnounced_of_exec (he : exec ch t s a = some (s₁, next)) {c : BrokerClient}
    (hc : s.db.endAnnounced c = false) : s₁.db.endAnnounced c = false := by
  rcases exec_cases he with ⟨db, hdb, rfl⟩ | ⟨-, ⟨-, -, rfl⟩ | ⟨-, -, rfl⟩ | ⟨-, rfl⟩ | ⟨-, rfl⟩⟩
  · have hreg : (db.cell c).registered = true → (s.db.cell c).registered = true := by
      cases effect_of_execDb hdb with
      | same ha h => exact (h.registered c ▸ ·)
      | subscribe | unsubscribe => exact id
      | unregister => exact (Keeps.dropClient s.db _).registered c
      | drop => exact (Keeps.dropClient s.db _).registered c
    rw [endAnnounced, brokerRpc_of_execDb hdb]
    cases hr : (db.cell c).registered with
    | false => rw [Bool.and_false, Bool.false_and]
    | true => rwa [endAnnounced, hreg hr] at hc
  all_goals exact hc

/-- The receiver makes room. -/
theorem Resting.room (h : Resting T s) (o : Option BrokerClient) :
    ∃ ls s', Run (Steps rules) s ls s' ∧
    (∀ l ∈ ls, l.Own) ∧ Resting T s' ∧ s'.task = s.task ∧ s'.rpcLock = s.rpcLock ∧
      s'.coreLock = s.coreLock ∧
    ∀ c, o = some c → (s'.db.cell c).tx.isFull = false := by
  by_cases hfull : ∃ c, o = some c ∧ (s.db.cell c).tx.isFull = true
  · obtain ⟨c, rfl, hc⟩ := hfull
    have hs : Steps rules s (.recv c) { s with db := s.db.setTx c Chan.recv } := rfl
    refine ⟨[.recv c], _, .single hs, fun l hl => .inr ⟨c, List.mem_singleton.mp hl⟩, ?_,
      rfl, rfl, rfl, ?_⟩
    · refine ⟨h.sound.step (fun _ _ _ _ _ hl => by cases hl) hs,
        fun t conn d rest ht hl => ?_, h.tasks⟩
      have hcalm := h.calm t conn d rest ht hl
      rw [endAnnounced] at hcalm ⊢
      rw [setTx_registered]
      exact hcalm
    · intro d hd
      obtain rfl := Option.some.inj hd
      rw [setTx_tx, if_pos rfl]
      exact Chan.isFull_recv hc
  · refine ⟨[], s, .nil s, fun l hl => (by cases hl), h, rfl, rfl, rfl, fun c hc => ?_⟩
    rw [← Bool.not_eq_true]
    exact fun hf => hfull ⟨c, hc, hf⟩

/-- An act of `t` that gives no lock to others, brings no end to be announced, and leaves `t`
itself calm. -/
theorem Resting.acted (h : Resting T s) {s' : Sys S} (hs : Steps rules s (.act t .plain) s')
    (ht : t ∈ T)
    (hlocks : ∀ u, u ≠ t → s'.rpcLock = some u ∨ s'.coreLock = some u → s.rpcLock = some u ∨
      s.coreLock = some u)
    (hends : ∀ c, s.db.endAnnounced c = false → s'.db.endAnnounced c = false)
    (hself : ∀ conn c rest, s'.task t = some ⟨conn, .unregister c :: rest⟩ →
      ¬ (s'.rpcLock = some t ∨ s'.coreLock = some t)) :
    Resting T s' := by
  have hother : ∀ u, u ≠ t → s'.task u = s.task u := fun u hu =>
    task_of_other hs fun he => hu (Option.some.inj he).symm
  have hcalm : NoAnnounce s (.act t .plain) :=
    fun u _ conn c rest _ hu hl => h.calm u conn c rest hu hl
  refine ⟨h.sound.step hcalm hs, fun u conn c rest hu hl => ?_, fun u hu => ?_⟩
  · by_cases hut : u = t
    · subst hut
      exact absurd hl (hself conn c rest hu)
    · rw [hother u hut] at hu
      exact hends c (h.calm u conn c rest hu (hlocks u hut hl))
  · by_cases hut : u = t
    · exact hut ▸ ht
    · rw [hother u hut] at hu
      exact h.tasks u hu

/-- A task that need not wait goes on, and lowers the load. -/
theorem Resting.goOn (h : Resting T s) {conn : Option Conn} {rest : List Act}
    (ht : s.task t = some ⟨conn, a :: rest⟩)
    (hroom : ∀ c, a.needs = some c → (s.db.cell c).tx.isFull = false)
    (hrpc : a = .lockRpc → s.rpcLock = none) (hcore : a = .lockCore → s.coreLock = none) :
    ∃ s', Steps rules s (.act t .plain) s' ∧ Resting T s' ∧
      (s'.load T).IsDershowitzMannaLT (s.load T) := by
  obtain ⟨s₁, next, he, hlow⟩ := exec_ready (t := t) hroom hrpc hcore
  have hmem : t ∈ T := h.tasks t (by rw [ht]; exact Option.some_ne_none _)
  have hleft : s.left t = a :: rest := by rw [Sys.left, ht]; rfl
  have hothers : ∀ {s' : Sys S}, Steps rules s (.act t .plain) s' → ∀ u, u ≠ t →
      s'.left u = s.left u := by
    intro s' hs u hu
    rw [Sys.left, task_of_other hs fun he => hu (Option.some.inj he).symm, Sys.left]
  cases next with
  | acts l =>
    have hs : Steps rules s (.act t .plain) (s₁.setTask t ⟨conn, l ++ rest⟩) := by
      simp only [Steps, step, act, ht, he]
    have hself : (s₁.setTask t ⟨conn, l ++ rest⟩).task t = some ⟨conn, l ++ rest⟩ := by
      rw [setTask_task, if_pos rfl]
    refine ⟨_, hs, h.acted hs hmem (fun u hu hl => locks_of_exec he hu hl)
      (fun c hc => endAnnounced_of_exec he hc) ?_,
      ?_⟩
    · -- nothing that `t` may do next forces out a client
      intro conn' c rest' hu
      rw [hself, Option.some.injEq, Task.mk.injEq] at hu
      cases l with
      | nil =>
        have hc : .unregister c ∈ rest := by
          rw [← List.nil_append rest, hu.2]
          exact List.mem_cons_self
        exact absurd rfl (h.sound.head t _ ht _ hc c)
      | cons b l => exact absurd (List.cons.inj hu.2).1 ((hlow b List.mem_cons_self).2 c)
    · refine load_lt (d := []) hmem (hothers hs) hleft ?_ fun b hb => (hlow b hb).1
      rw [Sys.left, hself]
      rfl
  | exit e =>
    obtain ⟨hquits, hrank⟩ := hlow
    obtain ⟨k, rfl⟩ :=
      Option.isSome_iff_exists.mp (h.sound.conn.acts t _ ht a List.mem_cons_self hquits)
    have hs : Steps rules s (.act t .plain) (s₁.finish t k) := by
      simp only [Steps, step, act, ht, he]
    have hself : (s₁.finish t k).task t =
        some ⟨some { k with reading := false }, [.unregister k.client]⟩ :=
      Function.update_self ..
    -- the end of a connection gives back its locks
    have hfree : ∀ {o : Option Tid} {u : Tid}, (if o = some t then none else o) = some u →
        o = some u ∧ u ≠ t := by
      intro o u ho
      split at ho
      · cases ho
      · rename_i hne
        exact ⟨ho, fun hu => hne (hu ▸ ho)⟩
    refine ⟨_, hs, h.acted hs hmem (fun u hu hl => ?_)
      (fun c hc => endAnnounced_of_exec he hc) ?_, ?_⟩
    · exact locks_of_exec he hu (hl.imp (fun ho => (hfree ho).1) fun ho => (hfree ho).1)
    · exact fun _ _ _ _ hl => hl.elim (fun ho => (hfree ho).2 rfl) fun ho => (hfree ho).2 rfl
    · refine load_lt (l := [.unregister k.client]) (d := rest) (r := []) hmem (hothers hs)
        (by rw [hleft, List.append_nil]) ?_ fun b hb => ?_
      · rw [Sys.left, hself]
        rfl
      · rw [List.mem_singleton.mp hb, hrank]
        show 5 < 9
        omega

end GoesOn

/-! ### Rest -/

/-- The broker comes one step closer to rest. -/
theorem Resting.advance {rules : BrokerClient → Option (ClientAaa S)} {T : Finset Tid} {s : Sys S}
    (h : Resting T s) (hr : ¬ AtRest s) :
    ∃ ls s', Run (Steps rules) s ls s' ∧ (∀ l ∈ ls, l.Own) ∧ Resting T s' ∧
      (s'.load T).IsDershowitzMannaLT (s.load T) := by
  obtain ⟨t, conn, a, rest, ht, hrpc, hcore⟩ := h.sound.legal.next hr
  obtain ⟨ls, s₁, hrun, hown, h₁, htask, hrpc₁, hcore₁, hroom⟩ := h.room a.needs
  obtain ⟨s', hs, h', hlt⟩ := h₁.goOn (htask ▸ ht) hroom (fun ha => hrpc₁ ▸ hrpc ha) fun ha =>
    hcore₁ ▸ hcore ha
  refine ⟨ls ++ [.act t .plain], s', hrun.append (.single hs), fun l hl => ?_, h', ?_⟩
  · rcases List.mem_append.mp hl with hl | hl
    · exact hown l hl
    · exact .inl ⟨t, List.mem_singleton.mp hl⟩
  · have hload : s₁.load T = s.load T := by simp only [Sys.load, Sys.left, htask]
    rwa [← hload]

/-- **The broker comes to rest**: from every state that a run reaches, unless a task that
holds a lock is about to force out a client whose end is announced, the tasks and the
receivers alone bring all tasks to their end, with both locks free. -/
theorem comes_to_rest (rules : BrokerClient → Option (ClientAaa S)) (forceRegister brokerRpc : Bool)
    (queueSize : ℕ+) (labels : List Label) (s : Sys S)
    (h : Run (Guarded (Steps rules) NoAnnounce)
      (Sys.init S forceRegister brokerRpc queueSize) labels s)
    (hc : Calm s) : ∃ ls s', Run (Steps rules) s ls s' ∧ (∀ l ∈ ls, l.Own) ∧ AtRest s' ∧
      s'.rpcLock = none ∧ s'.coreLock = none := by
  have hsound : Sound s := h.inv (fun _ _ _ hI hs => Sound.step hI hs.1 hs.2) (sound_init ..)
  have hresting : Resting hsound.finite.toFinset s :=
    ⟨hsound, hc, fun t ht => hsound.finite.mem_toFinset.mpr ht⟩
  obtain ⟨ls, s', hrun, hown, hr, hrest⟩ := Run.exists_of_measure (Sys.load hsound.finite.toFinset)
    Multiset.wellFounded_isDershowitzMannaLT (fun s hs hr => hs.advance hr) s hresting
  exact ⟨ls, s', hrun, hown, hrest, hr.sound.legal.free_of_atRest hrest⟩

open Locks in
/-- The registration of `b` is announced under both locks, and `w`, to whom it goes, has a
full queue: it may still take its frame in time. -/
theorem comes_to_rest_announced :
    ∃ s : Sys reference, Run (Guarded (Steps fun _ => none) NoAnnounce) start
    (labels ++ .connect 3 "b" .tcp none none :: acts 3 3) s ∧ s.rpcLock = some 3 ∧
      s.coreLock = some 3 ∧
    (s.db.cell ⟨1, "w", .tcp, none, none⟩).tx.isFull = true ∧
      ∃ ls s', Run (Steps fun _ => none) s ls s' ∧
      (∀ l ∈ ls, l.Own) ∧ AtRest s' ∧ s'.rpcLock = none ∧ s'.coreLock = none := by
  have hrun : (execList (fun s l => if noAnnounce s l then step (fun _ => none) s l else none) start
      (labels ++ .connect 3 "b" .tcp none none :: acts 3 3)).map (fun s => (s.rpcLock, s.coreLock,
        (s.db.cell ⟨1, "w", .tcp, none, none⟩).tx.isFull, noAnnounce s (.act 3 .plain))) =
      some (some 3, some 3, true, true) := by decide
  obtain ⟨s, hs, hobs⟩ := Option.map_eq_some_iff.mp hrun
  simp only [Prod.mk.injEq] at hobs
  obtain ⟨hrpc, hcore, hfull, hcalm⟩ := hobs
  have hr := run_of_checked (fun s l => noAnnounce_sound s l) hs
  refine ⟨s, hr, hrpc, hcore, hfull,
    comes_to_rest _ false true 1 _ s hr fun t conn c rest ht hl => ?_⟩
  -- the one task that holds them is going to deliver
  obtain rfl : 3 = t := by
    rcases hl with hl | hl
    · exact Option.some.inj (hrpc.symm.trans hl)
    · exact Option.some.inj (hcore.symm.trans hl)
  exact noAnnounce_sound s _ hcalm 3 .plain conn c rest rfl ht hl

end Busrt
