/-
# Calls and replies of sync `RpcClient`s

A sync `call` locks its client to send the request and keeps the lock until it
returns. A thread that has the result of a request locks the client to send the
reply. So a client does not reply while one of its own calls waits for a
reply: a client that calls itself, or two that call each other, wait until
their calls time out. The async `call` lets go of the lock once the request is sent
(`held_async`).

Here any number of sync clients call each other and are called by others. A client comes
to be blocked by one of two steps only (`blocked_step_iff`): a handler has its
result while a call of the client waits, or a call goes over to waiting while a
result is due. In a run without these steps nobody waits for somebody who cannot
reply (`replies_unblocked`).

Key definitions: `Net`, `Net.step`, `Net.Blocked`, `Net.Awaits`, `Considerate`.
Key theorems: `held_async`, `blocked_step_iff`, `replies_unblocked`.
-/
import Busrt.Calls

namespace Busrt

open Lib

/-! ### The clients -/

/-- A request that is served: which client it is from, if it is one of these, and its id. -/
abbrev Served := Option ℕ × UInt32

/-- Any number of clients: the calls of each, its handlers that run, and its threads that have a
result to send; requests on their way (to, from, id), and replies (to, id). -/
structure Net where
  client : ℕ → Calls
  serving : ℕ → List Served
  due : ℕ → List Served
  requests : List (ℕ × ℕ × UInt32)
  replies : List (ℕ × UInt32)

/-- The steps of a call that are between the client and itself. -/
def CallLabel.own : CallLabel → Bool
  | .begin | .enter _ | .lock _ | .sendFailed _ | .resolve | .received _ | .lost _ |
      .timeout _ => true
  | .sent .. | .confirmed _ | .confirmFailed _ | .reply _ | .drop _ => false

inductive NetLabel
  | call (i : ℕ) (l : CallLabel)
  | send (i k target : ℕ) (confirm : Bool)
  | serve (j i : ℕ) (id : UInt32)
  | foreign (j : ℕ) (id : UInt32)
  | finish (j : ℕ) (r : Served)
  | answer (j : ℕ) (r : Served)
  | deliver (i : ℕ) (e : RpcEvent)
  deriving DecidableEq, Repr

namespace Net

def init : Net := ⟨fun _ => .init, fun _ => [], fun _ => [], [], []⟩

def setClient (s : Net) (i : ℕ) (c : Calls) : Net :=
  { s with client := Function.update s.client i c }

/-- One step: of a call; of a call that sends its request; of the processor that starts a thread for
a request; of such a thread, which gets its result, locks the client and sends the reply; of the
processor that has a reply. -/
def step (s : Net) : NetLabel → Option Net
  | .call i l => if l.own then ((s.client i).step .sync l).map (s.setClient i) else none
  | .send i k target confirm =>
    ((s.client i).step .sync (.sent k confirm)).map fun c =>
      { s.setClient i c with requests := (target, i, (s.client i).ids k) :: s.requests }
  | .serve j i id =>
    if (j, i, id) ∈ s.requests then
      some { s with
        requests := s.requests.erase (j, i, id)
        serving := Function.update s.serving j ((some i, id) :: s.serving j) }
    else none
  | .foreign j id =>
    -- without an id there is nothing to send
    if id ≠ 0 then
      some { s with serving := Function.update s.serving j ((none, id) :: s.serving j) }
    else none
  | .finish j r =>
    if r ∈ s.serving j then
      some { s with
        serving := Function.update s.serving j ((s.serving j).erase r)
        due := Function.update s.due j (r :: s.due j) }
    else none
  | .answer j r =>
    if r ∈ s.due j ∧ (s.client j).held = none then
      some { s with
        due := Function.update s.due j ((s.due j).erase r)
        replies := (r.1.map fun i => (i, r.2)).toList ++ s.replies }
    else none
  | .deliver i e =>
    match e.id with
    | none => none
    | some id =>
      if (i, id) ∈ s.replies then
        ((s.client i).step .sync (.reply e)).map fun c =>
          { s.setClient i c with replies := s.replies.erase (i, id) }
      else none

/-- A call of the client has the lock and waits for its reply. -/
def Waiting (s : Net) (j : ℕ) : Prop :=
  ∃ k, (s.client j).held = some k ∧ (s.client j).stage k = some .waiting

/-- There is a result, and the lock that is needed to send it is held by a call that waits. -/
def Blocked (s : Net) (j : ℕ) : Prop := s.due j ≠ [] ∧ s.Waiting j

/-- A call of `i` waits for a reply that `j` cannot send because of its own call. -/
def Awaits (s : Net) (i j : ℕ) : Prop :=
  (∃ k, (s.client i).stage k = some .waiting ∧ (some i, (s.client i).ids k) ∈ s.due j) ∧ s.Waiting j

end Net

def NetSteps (s : Net) (l : NetLabel) (s' : Net) : Prop := s.step l = some s'

/-- No handler has its result while a call of the client waits, and no call goes over to waiting
while a result is due. -/
def Considerate (s : Net) : NetLabel → Prop
  | .finish j _ => ¬ s.Waiting j
  | .send i .. => s.due i = []
  | _ => True

/-! ### Who has the lock -/

section Held

variable {s s' : Calls}

/-- The call that sends has the lock, and so has, in the sync client only, one that waits. -/
structure Calls.LockInv (x : RpcKind) (s : Calls) : Prop where
  held : ∀ k, s.held = some k → s.stage k = some .sending ∨ (x = .sync ∧ s.stage k = some .waiting)
  sending : ∀ k, s.stage k = some .sending → s.held = some k

namespace Calls.LockInv

variable {x : RpcKind}

theorem init (x : RpcKind) :
    LockInv x Calls.init := ⟨fun _ h => (by cases h), fun _ h => (by cases h)⟩

variable (h : s.LockInv x)
include h

theorem of_eq (hh : s'.held = s.held) (hs : ∀ k, s'.stage k = s.stage k) : s'.LockInv x := by
  refine ⟨fun k hk => ?_, fun k hk => ?_⟩
  · rw [hs]
    exact h.held k (hh ▸ hk)
  · rw [hh]
    exact h.sending k (hs k ▸ hk)

theorem remove (k : ℕ) : (s.remove k).LockInv x := h.of_eq rfl fun _ => rfl

theorem finish (k : ℕ) : (s.finish k).LockInv x := by
  refine ⟨fun j hj => ?_, fun j hj => ?_⟩
  · simp only [Calls.finish] at hj
    split at hj
    · cases hj
    · rename_i hne
      have hjk : j ≠ k := fun he => hne (by rw [hj, he])
      rw [stage_finish, if_neg hjk]
      exact h.held j hj
  · rw [stage_finish] at hj
    split at hj
    · cases hj
    · rename_i hjk
      have hheld := h.sending j hj
      simp only [Calls.finish, hheld]
      exact if_neg fun he => hjk (Option.some.inj he)

/-- A call without the lock goes on. -/
theorem move {k : ℕ} {st stage : CallStage} (hst : s.stage k = some st) (hs : st ≠ .sending)
    (hw : st ≠ .waiting) (hstage : stage ≠ .sending) : (s.move k stage).LockInv x := by
  refine ⟨fun j hj => ?_, fun j hj => ?_⟩
  · have hne : j ≠ k := by
      rintro rfl
      rcases h.held j hj with h' | ⟨-, h'⟩
      · exact hs (Option.some.inj (hst.symm.trans h'))
      · exact hw (Option.some.inj (hst.symm.trans h'))
    rw [stage_move, if_neg hne]
    exact h.held j hj
  · rw [stage_move] at hj
    split at hj
    · obtain ⟨-, -, he⟩ := Option.map_eq_some_iff.mp hj
      exact absurd he hstage
    · exact h.sending j hj

theorem lock {k : ℕ} (hst : s.stage k = some .entered) (hh : s.held = none) :
    (Calls.move { s with held := some k } k .sending).LockInv x := by
  refine ⟨fun j hj => ?_, fun j hj => ?_⟩
  · cases hj
    left
    rw [stage_move, if_pos rfl]
    exact congrArg (Option.map _) hst
  · rw [stage_move] at hj
    split at hj
    · rename_i hjk
      exact congrArg some hjk.symm
    · rw [h.sending j hj] at hh
      cases hh

/-- The request is sent. -/
theorem sent {k : ℕ} {confirm : Bool} (hst : s.stage k = some .sending)
    (hstep : CallSteps x s (.sent k confirm) s') :
    s'.LockInv x := by
  obtain ⟨-, hs⟩ := Option.ite_none_right_eq_some.mp hstep
  have hheld := h.sending k hst
  cases x with
  | async =>
    cases hs
    refine ⟨fun j hj => (by cases hj), fun j hj => ?_⟩
    rw [stage_move] at hj
    split at hj
    · obtain ⟨-, -, he⟩ := Option.map_eq_some_iff.mp hj
      split at he <;> cases he
    · rename_i hjk
      exact absurd (Option.some.inj ((h.sending j hj).symm.trans hheld)) hjk
  | sync =>
    cases hs
    refine ⟨fun j hj => ?_, fun j hj => ?_⟩
    · rw [stage_move]
      split
      · exact .inr ⟨rfl, by rw [hst]; rfl⟩
      · exact h.held j hj
    · rw [stage_move] at hj
      split at hj
      · obtain ⟨-, -, he⟩ := Option.map_eq_some_iff.mp hj
        cases he
      · exact h.sending j hj

theorem begin (hI : CallsInv s) (hstep : CallSteps x s .begin s') : s'.LockInv x := by
  cases hstep
  refine ⟨fun j hj => ?_, fun j hj => ?_⟩
  · have hlt : j < s.made := hI.running j fun hn => by
      have hj := h.held j hj
      simp only [Calls.stage, hn] at hj
      rcases hj with h' | ⟨-, h'⟩ <;> cases h'
    simp only [Calls.stage, Function.update_of_ne hlt.ne]
    exact h.held j hj
  · simp only [Calls.stage, Function.update_apply] at hj
    split at hj
    · cases hj
    · exact h.sending j hj

theorem step {l : CallLabel} (hI : CallsInv s) (hstep : CallSteps x s l s') : s'.LockInv x := by
  cases l with
  | begin => exact h.begin hI hstep
  | enter k =>
    obtain ⟨hst, hs⟩ := Option.ite_none_right_eq_some.mp hstep
    cases hs
    have hm : LockInv x { s with calls := Function.update s.calls (s.ids k) (some k) } :=
      h.of_eq rfl fun _ => rfl
    exact hm.move hst
      (fun he => by cases he) (fun he => by cases he) (fun he => by cases he)
  | lock k =>
    obtain ⟨⟨hst, hh⟩, hs⟩ := Option.ite_none_right_eq_some.mp hstep
    cases hs
    exact h.lock hst hh
  | sent k confirm => exact h.sent (Option.ite_none_right_eq_some.mp hstep).1 hstep
  | sendFailed k | lost k =>
    obtain ⟨-, hs⟩ := Option.ite_none_right_eq_some.mp hstep
    cases x <;> cases hs
    all_goals first
      | exact h.finish k
      | exact (h.remove k).finish k
  | confirmed k =>
    obtain ⟨hst, hs⟩ := Option.ite_none_right_eq_some.mp hstep
    cases hs
    exact h.move hst (fun he => by cases he) (fun he => by cases he) (fun he => by cases he)
  | confirmFailed k | timeout k =>
    obtain ⟨-, hs⟩ := Option.ite_none_right_eq_some.mp hstep
    cases hs
    exact (h.remove k).finish k
  | received k | drop k =>
    obtain ⟨-, hs⟩ := Option.ite_none_right_eq_some.mp hstep
    cases hs
    exact h.finish k
  | reply e =>
    obtain ⟨hh, hr⟩ := Calls.of_reply hstep
    exact h.of_eq hh fun k => by rw [Calls.stage, hr, Calls.stage]
  | resolve =>
    obtain ⟨hh, hst⟩ := Calls.stage_resolve hstep
    exact h.of_eq hh hst

end Calls.LockInv

/-- **The async client has let go of its lock when it waits.** -/
theorem held_async {ls : List CallLabel} (h : Run (CallSteps .async) Calls.init ls s) :
    ∀ k, s.held = some k → s.stage k = some .sending := by
  have hI := (h.inv (I := fun s => CallsInv s ∧ s.LockInv .async)
    (fun _ _ _ hI hst => ⟨hI.1.step _ hst, hI.2.step hI.1 hst⟩) ⟨.init, .init _⟩).2
  intro k hk
  rcases hI.held k hk with h' | ⟨h', -⟩
  · exact h'
  · cases h'

/-- The call has the lock and waits. -/
def Calls.WaitsWithLock (s : Calls) (k : ℕ) : Prop := s.held = some k ∧ s.stage k = some .waiting

theorem Calls.WaitsWithLock.of_finish {k j : ℕ} (h : (s.finish j).WaitsWithLock k) :
    s.WaitsWithLock k := by
  obtain ⟨hh, hs⟩ := h
  rw [Calls.stage_finish] at hs
  simp only [Calls.finish] at hh
  split at hs
  · cases hs
  · split at hh
    · cases hh
    · exact ⟨hh, hs⟩

theorem Calls.WaitsWithLock.of_move {k j : ℕ} {stage : CallStage} (hst : stage ≠ .waiting)
    (h : (s.move j stage).WaitsWithLock k) : s.WaitsWithLock k := by
  obtain ⟨hh, hs⟩ := h
  rw [Calls.stage_move] at hs
  split at hs
  · obtain ⟨-, -, hw⟩ := Option.map_eq_some_iff.mp hs
    exact absurd hw hst
  · exact ⟨hh, hs⟩

/-- A step of a call other than to send leaves nobody waiting with the lock who has not done so
before. -/
theorem waits_of_own {l : CallLabel} (hl : l.own = true) (hstep : CallSteps .sync s l s') {k : ℕ}
    (h : s'.WaitsWithLock k) : s.WaitsWithLock k := by
  unfold CallSteps at hstep
  cases l with
  | sent | confirmed | confirmFailed | reply | drop => cases hl
  | begin =>
    cases hstep
    obtain ⟨hh, hs⟩ := h
    simp only [Calls.stage, Function.update_apply] at hs
    split at hs
    · cases hs
    · exact ⟨hh, hs⟩
  | enter j =>
    obtain ⟨-, hs⟩ := Option.ite_none_right_eq_some.mp hstep
    cases hs
    exact Calls.WaitsWithLock.of_move
      (s := { s with calls := Function.update s.calls (s.ids j) (some j) })
      (fun he => by cases he) h
  | lock j =>
    obtain ⟨⟨-, hnone⟩, hs⟩ := Option.ite_none_right_eq_some.mp hstep
    cases hs
    obtain ⟨hh, hs⟩ := h
    cases hh
    rw [Calls.stage_move, if_pos rfl] at hs
    obtain ⟨-, -, hw⟩ := Option.map_eq_some_iff.mp hs
    cases hw
  | sendFailed j | received j =>
    obtain ⟨-, hs⟩ := Option.ite_none_right_eq_some.mp hstep
    cases hs
    exact h.of_finish
  | lost j | timeout j =>
    obtain ⟨-, hs⟩ := Option.ite_none_right_eq_some.mp hstep
    cases hs
    exact Calls.WaitsWithLock.of_finish (s := s.remove j) h
  | resolve =>
    obtain ⟨hh, hst⟩ := Calls.stage_resolve hstep
    rwa [Calls.WaitsWithLock, hh, hst] at h

/-- Nor does the processor when it takes a sender. -/
theorem waits_reply {e : RpcEvent} (hstep : CallSteps .sync s (.reply e) s') {k : ℕ} :
    s'.WaitsWithLock k ↔ s.WaitsWithLock k := by
  obtain ⟨hh, hr⟩ := Calls.of_reply hstep
  rw [Calls.WaitsWithLock, Calls.WaitsWithLock, Calls.stage, Calls.stage, hh, hr]

/-- A call that has sent its request waits, and keeps the lock. -/
theorem waits_sent {k : ℕ} {confirm : Bool} (h : s.LockInv .sync)
    (hstep : CallSteps .sync s (.sent k confirm) s') :
    s'.WaitsWithLock k := by
  obtain ⟨hst, hs⟩ := Option.ite_none_right_eq_some.mp hstep
  cases hs
  refine ⟨h.sending k hst, ?_⟩
  rw [Calls.stage_move, if_pos rfl, hst]
  rfl

end Held

/-! ### Runs of all clients -/

section Net

variable {s s' : Net}

theorem Net.steps_setClient (s : Net) {i : ℕ} {l : CallLabel} {c : Calls}
    (h : CallSteps .sync (s.client i) l c) :
    CallSteps .sync (s.client i) l ((s.setClient i c).client i) := by
  have hself : (s.setClient i c).client i = c := Function.update_self ..
  rwa [hself]

theorem Net.setClient_of_ne (s : Net) {i j : ℕ} (h : j ≠ i) (c : Calls) :
    (s.setClient i c).client j = s.client j :=
  Function.update_of_ne h ..

theorem Net.waiting_congr {j : ℕ} (h : s'.client j = s.client j) : s'.Waiting j ↔ s.Waiting j := by
  rw [Net.Waiting, Net.Waiting, h]

/-- Everything a step can do to a client, and to the results that are due. -/
inductive Net.Effect (s : Net) (l : NetLabel) (s' : Net) : Prop
  | own (i : ℕ) (cl : CallLabel) (hl : l = .call i cl) (hown : cl.own = true)
      (hc : CallSteps .sync (s.client i) cl (s'.client i)) (ho : ∀ j ≠ i, s'.client j = s.client j)
      (hd : s'.due = s.due)
  | send (i k target : ℕ) (confirm : Bool) (hl : l = .send i k target confirm)
      (hc : CallSteps .sync (s.client i) (.sent k confirm) (s'.client i))
      (ho : ∀ j ≠ i, s'.client j = s.client j) (hd : s'.due = s.due)
  | deliver (i : ℕ) (e : RpcEvent) (hl : l = .deliver i e)
      (hc : CallSteps .sync (s.client i) (.reply e) (s'.client i))
      (ho : ∀ j ≠ i, s'.client j = s.client j) (hd : s'.due = s.due)
  | finish (j : ℕ) (r : Served) (hl : l = .finish j r) (hc : s'.client = s.client)
      (hd : s'.due = Function.update s.due j (r :: s.due j))
  | answer (j : ℕ) (r : Served) (hl : l = .answer j r) (hc : s'.client = s.client)
      (hh : (s.client j).held = none)
      (hd : s'.due = Function.update s.due j ((s.due j).erase r))
  | none (hl : (∃ j i id, l = .serve j i id) ∨ ∃ j id, l = .foreign j id)
      (hc : s'.client = s.client) (hd : s'.due = s.due)

theorem Net.step_effect {l : NetLabel} (h : NetSteps s l s') : Effect s l s' := by
  unfold NetSteps at h
  cases l with
  | call i cl =>
    obtain ⟨hown, hs⟩ := Option.ite_none_right_eq_some.mp h
    obtain ⟨c, hc, rfl⟩ := Option.map_eq_some_iff.mp hs
    exact .own i cl rfl hown (s.steps_setClient hc) (fun j hj => s.setClient_of_ne hj c) rfl
  | send i k target confirm =>
    obtain ⟨c, hc, rfl⟩ := Option.map_eq_some_iff.mp h
    exact .send i k target confirm rfl (s.steps_setClient hc)
      (fun j hj => s.setClient_of_ne hj c) rfl
  | serve j i id =>
    obtain ⟨-, hs⟩ := Option.ite_none_right_eq_some.mp h
    cases hs
    exact .none (.inl ⟨j, i, id, rfl⟩) rfl rfl
  | foreign j id =>
    obtain ⟨-, hs⟩ := Option.ite_none_right_eq_some.mp h
    cases hs
    exact .none (.inr ⟨j, id, rfl⟩) rfl rfl
  | finish j r =>
    obtain ⟨-, hs⟩ := Option.ite_none_right_eq_some.mp h
    cases hs
    exact .finish j r rfl rfl rfl
  | answer j r =>
    obtain ⟨hr, hs⟩ := Option.ite_none_right_eq_some.mp h
    cases hs
    exact .answer j r rfl rfl hr.2 rfl
  | deliver i e =>
    simp only [Net.step] at h
    split at h
    · cases h
    · obtain ⟨-, hs⟩ := Option.ite_none_right_eq_some.mp h
      obtain ⟨c, hc, rfl⟩ := Option.map_eq_some_iff.mp hs
      exact .deliver i e rfl (s.steps_setClient hc) (fun j hj => s.setClient_of_ne hj c) rfl

/-- What holds of each client. -/
def NetInv (s : Net) : Prop := ∀ i, CallsInv (s.client i) ∧ (s.client i).LockInv .sync

theorem NetInv.init : NetInv Net.init := fun _ => ⟨.init, .init _⟩

theorem NetInv.step {l : NetLabel} (h : NetInv s) (hstep : NetSteps s l s') : NetInv s' := by
  have hone : ∀ {i cl}, CallSteps .sync (s.client i) cl (s'.client i) →
      (∀ j ≠ i, s'.client j = s.client j) →
      NetInv s' := by
    intro i cl hc ho j
    rcases eq_or_ne j i with rfl | hne
    · exact ⟨(h j).1.step _ hc, (h j).2.step (h j).1 hc⟩
    · exact ho j hne ▸ h j
  cases Net.step_effect hstep with
  | own i cl _ _ hc ho _ => exact hone hc ho
  | send i k target confirm _ hc ho _ => exact hone hc ho
  | deliver i e _ hc ho _ => exact hone hc ho
  | finish j r _ hc _ | answer j r _ hc _ _ | none _ hc _ => exact fun i => hc ▸ h i

theorem Net.Blocked.of {j : ℕ} (h : s'.Blocked j) (hd : s.due j = [] → s'.due j = [])
    (hw : s'.Waiting j → s.Waiting j) : s.Blocked j :=
  ⟨fun he => h.1 (hd he), hw h.2⟩

/-- **The steps that block.** From a state in which nobody is blocked, somebody is after a step
exactly if the step is not considerate. -/
theorem blocked_step_iff {l : NetLabel} (hI : NetInv s) (hb : ∀ j, ¬ s.Blocked j)
    (hstep : NetSteps s l s') :
    (∃ j, s'.Blocked j) ↔ ¬ Considerate s l := by
  cases Net.step_effect hstep with
  | own i cl hl hown hc ho hd =>
    subst hl
    refine iff_of_false (fun ⟨j, hj⟩ => hb j (hj.of (fun he => hd ▸ he) fun hw => ?_))
      fun h => h trivial
    rcases eq_or_ne j i with rfl | hne
    · exact hw.imp fun k hk => waits_of_own hown hc hk
    · exact (Net.waiting_congr (ho j hne)).mp hw
  | send i k target confirm hl hc ho hd =>
    subst hl
    refine ⟨fun ⟨j, hj⟩ hdue => ?_, fun hdue => ⟨i, ?_, k, waits_sent (hI i).2 hc⟩⟩
    · have hne : j ≠ i := fun he => hj.1 (by rw [hd, he]; exact hdue)
      exact hb j (hj.of (fun he => hd ▸ he) (Net.waiting_congr (ho j hne)).mp)
    · rw [hd]
      exact hdue
  | deliver i e hl hc ho hd =>
    subst hl
    refine iff_of_false (fun ⟨j, hj⟩ => hb j (hj.of (fun he => hd ▸ he) fun hw => ?_))
      fun h => h trivial
    rcases eq_or_ne j i with rfl | hne
    · exact hw.imp fun k hk => (waits_reply hc).mp hk
    · exact (Net.waiting_congr (ho j hne)).mp hw
  | finish i r hl hc hd =>
    subst hl
    have hw : ∀ j, s'.Waiting j ↔ s.Waiting j := fun j => Net.waiting_congr (congrFun hc j)
    refine ⟨fun ⟨j, hj⟩ hwait => ?_, fun hwait => ⟨i, ?_, (hw i).mpr (not_not.mp hwait)⟩⟩
    · have hne : j ≠ i := fun he => hwait (he ▸ (hw j).mp hj.2)
      exact hb j (hj.of (fun he => by rw [hd, Function.update_of_ne hne, he]) (hw j).mp)
    · rw [hd, Function.update_self]
      exact List.cons_ne_nil _ _
  | answer i r hl hc hh hd =>
    subst hl
    have hw : ∀ j, s'.Waiting j ↔ s.Waiting j := fun j => Net.waiting_congr (congrFun hc j)
    refine iff_of_false (fun ⟨j, hj⟩ => hb j (hj.of (fun he => ?_) (hw j).mp)) fun h => h trivial
    rw [hd, Function.update_apply]
    split
    · rename_i hji
      rw [← hji, he, List.erase_nil]
    · exact he
  | none hl hc hd =>
    have hcons : Considerate s l := by obtain ⟨j, i, id, rfl⟩ | ⟨j, id, rfl⟩ := hl <;> trivial
    have hw : ∀ j, s'.Waiting j ↔ s.Waiting j := fun j => Net.waiting_congr (congrFun hc j)
    exact iff_of_false (fun ⟨j, hj⟩ => hb j (hj.of (fun he => hd ▸ he) (hw j).mp)) fun h => h hcons

end Net

/-- **Waiting and replying**: in a run of considerate steps no result is due at a client whose lock
is held by a call that waits, and there is no set of clients that wait for each other to reply; and
from the state such a run has come to, the steps that lead to a blocked client are those that are
not considerate. -/
theorem replies_unblocked {ls : List NetLabel} {s : Net}
    (h : Run (Guarded NetSteps Considerate) Net.init ls s) :
    (∀ j, s.due j ≠ [] → ∀ k, (s.client j).held = some k → (s.client j).stage k ≠ some .waiting) ∧
    (∀ P : Set ℕ, P.Nonempty → ¬ ∀ i ∈ P, ∃ j ∈ P, s.Awaits i j) ∧
    ∀ l s', NetSteps s l s' → ((∃ j, s'.Blocked j) ↔ ¬ Considerate s l) := by
  obtain ⟨hI, hb⟩ := h.inv (I := fun s => NetInv s ∧ ∀ j, ¬ s.Blocked j)
    (fun s l s' hI hst => ⟨hI.1.step hst.2,
      fun j hj => (blocked_step_iff hI.1 hI.2 hst.2).mp ⟨j, hj⟩ hst.1⟩)
    ⟨.init, fun _ hj => hj.1 rfl⟩
  refine ⟨fun j hd k hk hs => hb j ⟨hd, k, hk, hs⟩, fun P ⟨i, hi⟩ hP => ?_,
    fun l s' => blocked_step_iff hI hb⟩
  obtain ⟨j, -, ⟨k, -, hmem⟩, hw⟩ := hP i hi
  exact hb j ⟨List.ne_nil_of_mem hmem, hw⟩

instance (s : Net) (j : ℕ) : Decidable (s.Waiting j) :=
  decidable_of_iff (((s.client j).held.any fun k =>
    decide ((s.client j).stage k = some .waiting)) = true) (by
    rw [Net.Waiting]
    cases (s.client j).held <;> simp)

instance (s : Net) : DecidablePred (Considerate s)
  | .finish j _ => inferInstanceAs (Decidable (¬ s.Waiting j))
  | .send i .. => inferInstanceAs (Decidable (s.due i = []))
  | .call .. | .serve .. | .foreign .. | .answer .. | .deliver .. =>
    inferInstanceAs (Decidable True)

namespace Repliers

/-- The first call of a client, up to the request. -/
def asks (i target : ℕ) : List NetLabel :=
  [.call i .begin, .call i (.enter 0), .call i (.lock 0), .send i 0 target false]

/-- A client calls another, which replies. -/
def answered : List NetLabel :=
  asks 0 1 ++ [.serve 1 0 1, .finish 1 (some 0, 1), .answer 1 (some 0, 1),
    .deliver 0 Callers.event, .call 0 .resolve, .call 0 (.received 0)]

/-- A client calls itself. -/
def itself : List NetLabel := asks 0 0 ++ [.serve 0 0 1, .finish 0 (some 0, 1)]

/-- Two clients call each other. -/
def eachOther : List NetLabel :=
  asks 0 1 ++ asks 1 0 ++ [.serve 1 0 1, .serve 0 1 1, .finish 1 (some 0, 1), .finish 0 (some 1, 1)]

def checked (ls : List NetLabel) : Option Net :=
  execList (fun s l => if decide (Considerate s l) then s.step l else none) Net.init ls

end Repliers

open Repliers in
/-- The call is answered, and nobody is blocked on the way. -/
theorem replies_unblocked_answered :
    ∃ s, checked answered = some s ∧ (s.client 0).running 0 = none ∧
    ∀ j, ¬ s.Blocked j := by
  obtain ⟨s, hs⟩ := Option.isSome_iff_exists.mp (show (checked answered).isSome by decide)
  have hfree := (replies_unblocked (run_of_checked (fun _ _ h => of_decide_eq_true h) hs)).1
  refine ⟨s, hs, ?_, fun j ⟨hd, k, hk, hw⟩ => hfree j hd k hk hw⟩
  have hrun : (checked answered).map (fun s => (s.client 0).running 0) = some none := by decide
  rw [hs] at hrun
  exact Option.some.inj hrun

open Repliers in
/-- A client that calls itself cannot reply to itself, nor can two that call each other. -/
theorem blocked_by_own_call :
    (∃ s, Run NetSteps Net.init itself s ∧ s.Blocked 0 ∧
      ∀ i ∈ ({0} : Set ℕ), ∃ j ∈ ({0} : Set ℕ), s.Awaits i j) ∧
    ∃ s, Run NetSteps Net.init eachOther s ∧ s.Blocked 0 ∧ s.Blocked 1 ∧
      ∀ i ∈ ({0, 1} : Set ℕ), ∃ j ∈ ({0, 1} : Set ℕ), s.Awaits i j := by
  constructor
  · refine ⟨_, run_of_execList rfl, ⟨by decide, by decide⟩, ?_⟩
    rintro i rfl
    exact ⟨0, rfl, ⟨0, by decide, by decide⟩, by decide⟩
  · refine ⟨_, run_of_execList rfl, ⟨by decide, by decide⟩, ⟨by decide, by decide⟩, ?_⟩
    rintro i (rfl | rfl)
    · exact ⟨1, .inr rfl, ⟨0, by decide, by decide⟩, by decide⟩
    · exact ⟨0, .inl rfl, ⟨0, by decide, by decide⟩, by decide⟩

end Busrt
