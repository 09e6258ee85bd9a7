/-
# Handlers in a bounded pool

With a task pool the processor of an async `RpcClient` waits in `spawn_task`
until a slot is free. A handler may call through the same client, and then waits
for a reply that only the processor can hand to it. So the processor gets stuck if
it has a frame to spawn while every slot is held by a handler that waits: the
replies are behind it in the event channel, or get there (`wedged_of_jammed`).

That comes about by two steps only (`jammed_step_iff`): the processor takes
a frame to spawn while all slots are held by handlers that wait, or the last
handler that does not goes over to waiting while the processor waits for a slot. In
a run without these steps it does not happen (`pool_unjammed`). It can happen
in a pool of any size (`wedged_any_size`); without a pool or a bound the
processor never waits.

Key definitions: `dispatch`, `Pooled`, `Pooled.step`, `Jammed`, `Wedged`, `Spares`.
Key theorems: `waits_of_step`, `jammed_step_iff`, `pool_unjammed`, `wedged_any_size`.
-/
import Busrt.Calls

namespace Busrt

open Lib

/-! ### The processor and its pool -/

/-- What `processor` does with a frame in non-blocking mode: it spawns a handler, hands a reply to
its call, or logs an error. -/
inductive Dispatch
  | spawn
  | reply (e : RpcEvent)
  | skip
  deriving DecidableEq

def dispatch (f : FrameData) : Dispatch :=
  if f.kind = .message then
    match RpcEvent.tryFrom f with
    | .ok e =>
      match e.kind with
      | .notification | .request => .spawn
      | .reply | .errorReply => .reply e
    | .error _ => .skip
  else .spawn

/-- The calls of the client, its event channel, the frame that is to be spawned, and the slots that
are taken: each by a handler, which is in a call or not. -/
structure Pooled where
  calls : Calls
  queue : List FrameData
  spawning : Option FrameData
  slots : List (Option ℕ)

/-- The steps of a call that its caller makes. -/
def CallLabel.byCaller : CallLabel → Bool
  | .reply _ | .resolve => false
  | _ => true

inductive PoolLabel
  | arrive (f : FrameData)
  | take
  | resolve
  | spawn
  | call (i : ℕ)
  | own (l : CallLabel)
  | leave (i : ℕ)
  | finish (i : ℕ)
  deriving DecidableEq

namespace Pooled

def init : Pooled := ⟨.init, [], none, []⟩

/-- There is a slot for one more; without a pool, or in one without a bound, always. -/
def hasRoom (pool : Option ℕ) (s : Pooled) : Bool :=
  match pool with
  | some n => decide (s.slots.length < n)
  | none => true

/-- One step: a frame comes; the processor takes one, hands over a reply, or gets a slot and spawns;
the handler in a slot starts a call, is through with it, or returns. The other steps are those of
the calls. -/
def step (pool : Option ℕ) (s : Pooled) : PoolLabel → Option Pooled
  | .arrive f => some { s with queue := s.queue ++ [f] }
  | .take =>
    if s.spawning = none ∧ s.calls.hand = none then
      match s.queue with
      | [] => none
      | f :: queue =>
        match dispatch f with
        | .spawn => some { s with queue, spawning := some f }
        | .reply e => (s.calls.step .async (.reply e)).map fun calls => { s with calls, queue }
        | .skip => some { s with queue }
    else none
  | .resolve => (s.calls.step .async .resolve).map fun calls => { s with calls }
  | .spawn =>
    -- `spawn_task` waits for a slot
    if s.spawning ≠ none ∧ s.hasRoom pool = true then
      some { s with spawning := none, slots := s.slots ++ [none] }
    else none
  | .call i =>
    if s.slots[i]? = some none then
      (s.calls.step .async .begin).map fun calls =>
        { s with calls, slots := s.slots.set i (some s.calls.made) }
    else none
  | .own l => if l.byCaller then (s.calls.step .async l).map fun calls => { s with calls } else none
  | .leave i =>
    match s.slots[i]? with
    | some (some k) =>
      if s.calls.running k = none then some { s with slots := s.slots.set i none } else none
    | _ => none
  | .finish i =>
    if s.slots[i]? = some none then some { s with slots := s.slots.eraseIdx i } else none

end Pooled

def PoolSteps (pool : Option ℕ) (s : Pooled) (l : PoolLabel) (s' : Pooled) : Prop :=
  s.step pool l = some s'

/-- The call waits for its reply, and has not got it. -/
def Calls.Waits (s : Calls) (k : ℕ) : Prop := s.running k = some ⟨.waiting, none⟩

instance (s : Calls) (k : ℕ) : Decidable (s.Waits k) := inferInstanceAs (Decidable (_ = _))

/-- Every slot that is taken is held by a handler that waits for a reply. -/
def AllWait (s : Pooled) : Prop := ∀ c ∈ s.slots, ∃ k ∈ c, s.calls.Waits k

/-- The processor waits for a slot, and all slots are held by handlers that wait. -/
def Jammed (pool : Option ℕ) (s : Pooled) : Prop :=
  s.spawning ≠ none ∧ pool = some s.slots.length ∧ AllWait s

/-- And the replies they wait for are in the event channel. -/
def Wedged (pool : Option ℕ) (s : Pooled) : Prop :=
  Jammed pool s ∧ ∀ k, some k ∈ s.slots → ∃ f ∈ s.queue, ∃ e, dispatch f = .reply e ∧
    e.id = some (s.calls.ids k)

/-- The processor takes a frame to spawn only if a slot is free, or is held by a handler that does
not wait; and while it waits for a slot, a call goes over to waiting only if another slot is held by
such a handler. -/
def Spares (pool : Option ℕ) (s : Pooled) : PoolLabel → Prop
  | .take => ∀ f ∈ s.queue.head?, dispatch f = .spawn → ¬(pool = some s.slots.length ∧ AllWait s)
  | .own (.sent k false) | .own (.confirmed k) =>
    ¬(s.spawning ≠ none ∧ pool = some s.slots.length ∧ s.calls.got k = none ∧
      ∀ c ∈ s.slots, ∃ j ∈ c, j = k ∨ s.calls.Waits j)
  | _ => True

instance (s : Pooled) : Decidable (AllWait s) :=
  inferInstanceAs (Decidable (∀ c ∈ s.slots, ∃ k ∈ c, s.calls.Waits k))

instance (pool : Option ℕ) (s : Pooled) : DecidablePred (Spares pool s)
  | .take => inferInstanceAs (Decidable (∀ f ∈ s.queue.head?, _ → _))
  | .own (.sent _ false) | .own (.confirmed _) => inferInstanceAs (Decidable (¬(_ ∧ _)))
  | .own (.sent _ true) | .own .begin | .own (.enter _) | .own (.lock _) | .own (.sendFailed _)
  | .own (.confirmFailed _) | .own (.reply _) | .own .resolve | .own (.received _) | .own (.lost _)
  | .own (.timeout _) | .own (.drop _) | .arrive _ | .resolve | .spawn | .call _ | .leave _
  | .finish _ => inferInstanceAs (Decidable True)

/-! ### Who waits -/

section Waits

variable {s s' : Calls} {k : ℕ}

theorem waits_move {j : ℕ} {stage : CallStage} (h : (s.move j stage).Waits k) :
    s.Waits k ∨ (j = k ∧ stage = .waiting) := by
  simp only [Calls.Waits, Calls.move, Function.update_apply] at h
  split at h
  · rename_i hk
    obtain ⟨c, _, hc⟩ := Option.map_eq_some_iff.mp h
    exact .inr ⟨hk.symm, congrArg Calling.stage hc⟩
  · exact .inl h

theorem waits_finish {j : ℕ} (h : (s.finish j).Waits k) : s.Waits k := by
  simp only [Calls.Waits, Calls.finish, Function.update_apply] at h
  split at h
  · cases h
  · exact h

/-- A call comes to wait when its request is sent, or acknowledged. -/
theorem waits_of_step {l : CallLabel} (hstep : CallSteps .async s l s') (h : s'.Waits k) :
    s.Waits k ∨ l = .sent k false ∨ l = .confirmed k := by
  unfold CallSteps at hstep
  cases l with
  | begin =>
    cases hstep
    simp only [Calls.Waits, Function.update_apply] at h
    split at h
    · cases h
    · exact .inl h
  | enter j | lock j =>
    obtain ⟨-, hs⟩ := Option.ite_none_right_eq_some.mp hstep
    cases hs
    obtain hw | ⟨-, hst⟩ := waits_move h
    · exact .inl hw
    · cases hst
  | sent j confirm =>
    obtain ⟨-, hs⟩ := Option.ite_none_right_eq_some.mp hstep
    cases hs
    obtain hw | ⟨hj, hst⟩ := waits_move h
    · exact .inl hw
    · cases confirm with
      | false => exact .inr (.inl (by rw [hj]))
      | true => cases hst
  | confirmed j =>
    obtain ⟨-, hs⟩ := Option.ite_none_right_eq_some.mp hstep
    cases hs
    obtain hw | ⟨hj, -⟩ := waits_move h
    · exact .inl hw
    · exact .inr (.inr (by rw [hj]))
  | sendFailed j | confirmFailed j =>
    obtain ⟨-, hs⟩ := Option.ite_none_right_eq_some.mp hstep
    cases hs
    have hw : (s.remove j).Waits k := waits_finish h
    exact .inl hw
  | received j | lost j | drop j =>
    obtain ⟨-, hs⟩ := Option.ite_none_right_eq_some.mp hstep
    cases hs
    exact .inl (waits_finish h)
  | timeout j =>
    simp only [Calls.step] at hstep
    split at hstep
    · rename_i ht
      cases ht.1
    · cases hstep
  | reply e =>
    rw [Calls.Waits, (Calls.of_reply hstep).2] at h
    exact .inl h
  | resolve =>
    obtain ⟨j, e, -, ⟨-, rfl⟩ | ⟨c, -, rfl⟩⟩ := Calls.of_resolve hstep
    · exact .inl h
    · simp only [Calls.Waits, Function.update_apply] at h
      split at h
      · have hgot := congrArg Calling.got (Option.some.inj h)
        cases hgot
      · exact .inl h

/-- A call that goes over to waiting waits unless its reply is there, and the others wait as
before. -/
theorem waits_move_iff {j : ℕ} {st : CallStage} (hst : s.stage k = some st) :
    (s.move k .waiting).Waits j ↔ if j = k then s.got k = none else s.Waits j := by
  obtain ⟨c, hc, -⟩ := running_of_stage hst
  simp only [Calls.Waits, Calls.move, Function.update_apply]
  split
  · rw [hc, Option.map_some, Option.some.injEq, Calls.got, hc, Option.bind_some, Calling.mk.injEq,
      and_iff_right rfl]
  · rfl

end Waits

/-! ### What a step of the pool can do -/

/-- Everything a step can do. -/
inductive Pooled.Effect (pool : Option ℕ) (s : Pooled) (l : PoolLabel) (s' : Pooled) : Prop
  | arrive (f : FrameData) (hl : l = .arrive f) (h : s' = { s with queue := s.queue ++ [f] })
  | takeSpawn (f : FrameData) (queue : List FrameData) (hl : l = .take)
      (hidle : s.spawning = none) (hq : s.queue = f :: queue) (hd : dispatch f = .spawn)
      (h : s' = { s with queue, spawning := some f })
  | take (f : FrameData) (queue : List FrameData) (calls : Calls) (hl : l = .take)
      (hidle : s.spawning = none) (hq : s.queue = f :: queue) (hd : dispatch f ≠ .spawn)
      (h : s' = { s with queue, calls })
  | spawn (hl : l = .spawn) (hroom : s.hasRoom pool = true)
      (h : s' = { s with spawning := none, slots := s.slots ++ [none] })
  | call (i : ℕ) (calls : Calls) (hl : l = .call i) (hi : s.slots[i]? = some none)
      (hc : CallSteps .async s.calls .begin calls)
      (h : s' = { s with calls, slots := s.slots.set i (some s.calls.made) })
  | own (cl : CallLabel) (calls : Calls) (hl : l = .own cl ∨ (l = .resolve ∧ cl = .resolve))
      (hc : CallSteps .async s.calls cl calls) (h : s' = { s with calls })
  | leave (i k : ℕ) (hl : l = .leave i) (hi : s.slots[i]? = some (some k))
      (hk : s.calls.running k = none) (h : s' = { s with slots := s.slots.set i none })
  | finish (i : ℕ) (hl : l = .finish i) (hi : s.slots[i]? = some none)
      (h : s' = { s with slots := s.slots.eraseIdx i })

theorem Pooled.step_effect {pool : Option ℕ} {s s' : Pooled} {l : PoolLabel}
    (h : PoolSteps pool s l s') :
    Effect pool s l s' := by
  unfold PoolSteps at h
  cases l with
  | arrive f => exact .arrive f rfl (Option.some.inj h).symm
  | take =>
    obtain ⟨⟨hidle, -⟩, hs⟩ := Option.ite_none_right_eq_some.mp h
    split at hs
    · cases hs
    · rename_i f queue hq
      cases hd : dispatch f with
      | spawn =>
        rw [hd] at hs
        exact .takeSpawn f queue rfl hidle hq hd (Option.some.inj hs).symm
      | reply e =>
        rw [hd] at hs
        obtain ⟨calls, -, hs⟩ := Option.map_eq_some_iff.mp hs
        exact .take f queue calls rfl hidle hq (by rw [hd]; nofun) hs.symm
      | skip =>
        rw [hd] at hs
        exact .take f queue s.calls rfl hidle hq (by rw [hd]; nofun) (Option.some.inj hs).symm
  | resolve =>
    obtain ⟨calls, hc, hs⟩ := Option.map_eq_some_iff.mp h
    exact .own .resolve calls (.inr ⟨rfl, rfl⟩) hc hs.symm
  | spawn =>
    obtain ⟨⟨-, hroom⟩, hs⟩ := Option.ite_none_right_eq_some.mp h
    exact .spawn rfl hroom (Option.some.inj hs).symm
  | call i =>
    obtain ⟨hi, hs⟩ := Option.ite_none_right_eq_some.mp h
    obtain ⟨calls, hc, hs⟩ := Option.map_eq_some_iff.mp hs
    exact .call i calls rfl hi hc hs.symm
  | own cl =>
    obtain ⟨-, hs⟩ := Option.ite_none_right_eq_some.mp h
    obtain ⟨calls, hc, hs⟩ := Option.map_eq_some_iff.mp hs
    exact .own cl calls (.inl rfl) hc hs.symm
  | leave i =>
    simp only [Pooled.step] at h
    split at h
    · rename_i k hi
      obtain ⟨hk, hs⟩ := Option.ite_none_right_eq_some.mp h
      exact .leave i k rfl hi hk (Option.some.inj hs).symm
    · cases h
  | finish i =>
    obtain ⟨hi, hs⟩ := Option.ite_none_right_eq_some.mp h
    exact .finish i rfl hi (Option.some.inj hs).symm

/-- No more slots are taken than there are. -/
def WithinPool (pool : Option ℕ) (s : Pooled) : Prop := ∀ n ∈ pool, s.slots.length ≤ n

theorem WithinPool.step {pool : Option ℕ} {s s' : Pooled} {l : PoolLabel} (h : WithinPool pool s)
    (hstep : PoolSteps pool s l s') : WithinPool pool s' := by
  intro n hn
  have hle := h n hn
  cases Pooled.step_effect hstep with
  | spawn _ hroom hs =>
    have hpool : pool = some n := hn
    have hlt : s.slots.length < n := by simpa [Pooled.hasRoom, hpool] using hroom
    rw [hs, List.length_append, List.length_singleton]
    omega
  | finish i _ _ hs =>
    have hlen := s.slots.length_eraseIdx_le i
    rw [hs]
    exact hlen.trans hle
  | arrive _ _ hs | takeSpawn _ _ _ _ _ _ hs | take _ _ _ _ _ _ _ hs | own _ _ _ _ hs =>
    rw [hs]
    exact hle
  | call i _ _ _ _ hs | leave i _ _ _ _ hs =>
    rw [hs, List.length_set]
    exact hle

/-! ### The steps that jam -/

section Jam

variable {pool : Option ℕ} {s s' : Pooled} {l : PoolLabel}

/-- What a call does that is sent or acknowledged. -/
theorem waits_sent_iff {c c' : Calls} {cl : CallLabel} {k j : ℕ}
    (hcl : cl = .sent k false ∨ cl = .confirmed k) (hc : CallSteps .async c cl c') :
    c'.Waits j ↔ if j = k then c.got k = none else c.Waits j := by
  obtain rfl | rfl := hcl
  · obtain ⟨hst, hs⟩ := Option.ite_none_right_eq_some.mp hc
    cases hs
    exact waits_move_iff (s := { c with held := none }) hst
  · obtain ⟨hst, hs⟩ := Option.ite_none_right_eq_some.mp hc
    cases hs
    exact waits_move_iff hst

/-- If nobody comes to wait, and frame and slots are the same, nothing gets jammed. -/
theorem Jammed.of_waits (h : Jammed pool s') (hsp : s'.spawning = s.spawning)
    (hsl : s'.slots = s.slots) (hw : ∀ k, some k ∈ s.slots → s'.calls.Waits k → s.calls.Waits k) :
    Jammed pool s := by
  obtain ⟨h1, h2, h3⟩ := h
  refine ⟨hsp ▸ h1, hsl ▸ h2, fun c hc => ?_⟩
  obtain ⟨k, hk, hwait⟩ := h3 c (hsl.symm ▸ hc)
  have hmem : some k ∈ s.slots := by rwa [Option.mem_def.mp hk] at hc
  exact ⟨k, hk, hw k hmem hwait⟩

/-- A call that goes over to waiting jams exactly if it is the last that did not wait. -/
theorem jammed_sent_iff (hj : ¬Jammed pool s) {cl : CallLabel} {k : ℕ} {calls : Calls}
    (hcl : cl = .sent k false ∨ cl = .confirmed k) (hc : CallSteps .async s.calls cl calls) :
    Jammed pool { s with calls } ↔ s.spawning ≠ none ∧ pool = some s.slots.length ∧
      s.calls.got k = none ∧
      ∀ c ∈ s.slots, ∃ j ∈ c, j = k ∨ s.calls.Waits j := by
  constructor
  · intro hjam
    have hgot : s.calls.got k = none := by
      by_contra hne
      refine hj (hjam.of_waits rfl rfl fun j _ hw => ?_)
      rw [waits_sent_iff hcl hc] at hw
      split at hw
      · exact absurd hw hne
      · exact hw
    obtain ⟨h1, h2, h3⟩ := hjam
    refine ⟨h1, h2, hgot, fun c hmem => ?_⟩
    obtain ⟨j, hjc, hw⟩ := h3 c hmem
    rw [waits_sent_iff hcl hc] at hw
    split at hw
    · exact ⟨j, hjc, .inl ‹_›⟩
    · exact ⟨j, hjc, .inr hw⟩
  · rintro ⟨h1, h2, hgot, h3⟩
    refine ⟨h1, h2, fun c hmem => ?_⟩
    obtain ⟨j, hjc, hw⟩ := h3 c hmem
    refine ⟨j, hjc, (waits_sent_iff hcl hc).mpr ?_⟩
    by_cases hjk : j = k
    · rw [if_pos hjk]
      exact hgot
    · rw [if_neg hjk]
      exact hw.resolve_left hjk

/-- **The steps that jam.** From a state that is not jammed, the next is exactly if the step does
not spare a slot. -/
theorem jammed_step_iff (hfit : WithinPool pool s) (hj : ¬Jammed pool s)
    (hstep : PoolSteps pool s l s') :
    Jammed pool s' ↔ ¬Spares pool s l := by
  cases Pooled.step_effect hstep with
  | arrive f hl hs =>
    subst hl hs
    exact iff_of_false hj fun h => h trivial
  | takeSpawn f queue hl hidle hq hd hs =>
    subst hl hs
    have hspares : Spares pool s .take ↔ ¬(pool = some s.slots.length ∧ AllWait s) := by
      simp [Spares, hq, hd]
    rw [hspares, not_not]
    exact and_iff_right (Option.some_ne_none f)
  | take f queue calls hl hidle hq hd hs =>
    subst hl hs
    refine iff_of_false (fun h => h.1 hidle) fun h => h fun f' hf' hd' => ?_
    rw [hq] at hf'
    cases hf'
    exact absurd hd' hd
  | spawn hl hroom hs =>
    subst hl hs
    exact iff_of_false (fun h => h.1 rfl) fun h => h trivial
  | call i calls hl hi hc hs =>
    subst hl hs
    refine iff_of_false (fun h => ?_) fun h => h trivial
    have hlt : i < s.slots.length := (List.getElem?_eq_some_iff.mp hi).1
    have hmem : some s.calls.made ∈ s.slots.set i (some s.calls.made) := List.mem_set hlt _
    obtain ⟨k, hk, hw⟩ := h.2.2 _ hmem
    cases hk
    cases hc
    simp [Calls.Waits] at hw
  | leave i k hl hi hk hs =>
    subst hl hs
    refine iff_of_false (fun h => ?_) fun h => h trivial
    have hlt : i < s.slots.length := (List.getElem?_eq_some_iff.mp hi).1
    have hmem : none ∈ s.slots.set i none := List.mem_set hlt _
    obtain ⟨k, hk, -⟩ := h.2.2 _ hmem
    cases hk
  | finish i hl hi hs =>
    subst hl hs
    refine iff_of_false (fun h => ?_) fun h => h trivial
    have hlt : i < s.slots.length := (List.getElem?_eq_some_iff.mp hi).1
    have hlen := List.length_eraseIdx_of_lt hlt
    have hle := hfit _ h.2.1
    simp only [hlen] at hle
    omega
  | own cl calls hl hc hs =>
    subst hs
    -- either one of the two labels that make a call wait, or no call comes to wait
    by_cases hcl : ∃ k, cl = .sent k false ∨ cl = .confirmed k
    · obtain ⟨k, hk⟩ := hcl
      have hown : l = .own cl := by
        obtain hown | ⟨-, hres⟩ := hl
        · exact hown
        · obtain rfl | rfl := hk <;> cases hres
      rw [jammed_sent_iff hj hk hc, hown]
      obtain rfl | rfl := hk <;> exact not_not.symm
    · have hno : Spares pool s l := by
        obtain rfl | ⟨rfl, -⟩ := hl
        · cases cl with
          | sent k confirm =>
            cases confirm with
            | false => exact absurd ⟨k, .inl rfl⟩ hcl
            | true => trivial
          | confirmed k => exact absurd ⟨k, .inr rfl⟩ hcl
          | _ => trivial
        · trivial
      refine iff_of_false (fun h => hj (h.of_waits rfl rfl fun k _ hw => ?_)) fun h => h hno
      obtain hw | hk := waits_of_step hc hw
      · exact hw
      · exact absurd ⟨k, hk⟩ hcl

end Jam

/-! ### Replies that get there -/

/-- A reply without a result. -/
def replyFrame (id : UInt32) : FrameData :=
  ⟨.message, some "w", none, none, [119, 0] ++ (RpcMsg.reply id none).header, 2, false⟩

theorem dispatch_replyFrame (id : UInt32) :
    ∃ e, dispatch (replyFrame id) = .reply e ∧ e.id = some id := by
  have hparts : HasParts (replyFrame id) (.reply id none) := .inr ⟨rfl, rfl⟩
  obtain ⟨e, he, hc⟩ := tryFrom_parts (fun s hs => by cases hs) hparts
  have hkind : e.kind = .reply := hc.kind
  refine ⟨e, ?_, hc.id id rfl⟩
  have hk : (replyFrame id).kind = .message := rfl
  rw [dispatch, if_pos hk, he]
  simp only [hkind]

/-- Frames that come while nothing else happens. -/
theorem run_arrive (pool : Option ℕ) : ∀ (fs : List FrameData) (s : Pooled),
    Run (PoolSteps pool) s (fs.map .arrive) { s with queue := s.queue ++ fs }
  | [], s => by
    rw [List.append_nil]
    exact .nil s
  | f :: fs, s => by
    have ih := run_arrive pool fs { s with queue := s.queue ++ [f] }
    rw [List.append_assoc] at ih
    exact .cons rfl ih

/-- The replies to those that wait may come, and are behind the frame that is to be spawned. -/
theorem wedged_of_jammed {pool : Option ℕ} {s : Pooled} (h : Jammed pool s) :
    ∃ (fs : List FrameData) (s' : Pooled), Run (PoolSteps pool) s (fs.map .arrive) s' ∧
      Wedged pool s' := by
  refine ⟨(s.slots.filterMap id).map fun k => replyFrame (s.calls.ids k), _, run_arrive pool _ s,
    h, fun k hk => ?_⟩
  have hmem : k ∈ s.slots.filterMap id := List.mem_filterMap.mpr ⟨some k, hk, rfl⟩
  exact ⟨_, List.mem_append_right _ (List.mem_map_of_mem hmem), dispatch_replyFrame _⟩

/-- **Handlers in a bounded pool.** In a run whose steps spare a slot the processor never waits for
a slot while all are held by handlers that wait for replies; and from the state such a run has come
to, exactly the steps that do not lead there, and the replies may then come behind. -/
theorem pool_unjammed (pool : Option ℕ) {ls : List PoolLabel} {s : Pooled}
    (h : Run (Guarded (PoolSteps pool) (Spares pool)) Pooled.init ls s) :
    (¬Jammed pool s ∧ ¬Wedged pool s) ∧ ∀ l s', PoolSteps pool s l s' →
      (Jammed pool s' ↔ ¬Spares pool s l) ∧
      (¬Spares pool s l → ∃ (fs : List FrameData) (s'' : Pooled),
        Run (PoolSteps pool) s' (fs.map .arrive) s'' ∧ Wedged pool s'') := by
  obtain ⟨hfit, hj⟩ := h.inv (I := fun s => WithinPool pool s ∧ ¬Jammed pool s)
    (fun s l s' hI hst => ⟨hI.1.step hst.2,
      fun hj => (jammed_step_iff hI.1 hI.2 hst.2).mp hj hst.1⟩)
    ⟨fun n _ => Nat.zero_le n, fun hj => hj.1 rfl⟩
  refine ⟨⟨hj, fun hw => hj hw.1⟩, fun l s' hst => ?_⟩
  have hiff := jammed_step_iff hfit hj hst
  exact ⟨hiff, fun hno => wedged_of_jammed (hiff.mpr hno)⟩

/-! ### Every size -/

namespace Pooling

/-- A request with the id 1. -/
def request : FrameData :=
  ⟨.message, some "w", none, none, [119, 0, RPC_REQUEST, 1, 0, 0, 0, 109, 0], 2, false⟩

/-- Slots are taken by handlers that wait, and nothing else is going on. -/
structure Busy (m : ℕ) (s : Pooled) : Prop where
  queue : s.queue = []
  spawning : s.spawning = none
  hand : s.calls.hand = none
  held : s.calls.held = none
  slots : s.slots.length = m
  wait : AllWait s
  made : ∀ k, s.calls.running k ≠ none → k < s.calls.made

/-- A call up to the reply. -/
theorem call_waits (c : Calls) (hheld : c.held = none) :
    ∃ c₁ c₂ c₃ c₄, CallSteps .async c .begin c₁ ∧
    CallSteps .async c₁ (.enter c.made) c₂ ∧ CallSteps .async c₂ (.lock c.made) c₃ ∧
    CallSteps .async c₃ (.sent c.made false) c₄ ∧
    c₄.running = Function.update c.running c.made (some ⟨.waiting, none⟩) ∧ c₄.held = none ∧
      c₄.hand = c.hand ∧
    c₄.made = c.made + 1 := by
  refine ⟨_, _, _, _, rfl, if_pos ?_, if_pos ⟨?_, hheld⟩, if_pos ?_, ?_, rfl, rfl, rfl⟩ <;>
    simp [Calls.stage, Calls.move]

/-- A request is spawned, and its handler makes a call. -/
def visit (m k : ℕ) : List PoolLabel :=
  [.arrive request, .take, .spawn, .call m, .own (.enter k), .own (.lock k), .own (.sent k false)]

theorem busy_visit {n m : ℕ} {s : Pooled} (h : Busy m s) (hlt : m < n) :
    ∃ s', Run (PoolSteps (some n)) s (visit m s.calls.made) s' ∧ Busy (m + 1) s' := by
  obtain ⟨calls, queue, spawning, slots⟩ := s
  obtain ⟨rfl, rfl, hhand, hheld, rfl, hwait, hmade⟩ := h
  obtain ⟨c₁, c₂, c₃, c₄, h₁, h₂, h₃, h₄, hrun, hheld', hhand', hmade'⟩ := call_waits calls hheld
  have hset : (slots ++ [none]).set slots.length (some calls.made) =
      slots ++ [some calls.made] := by simp
  have hfree : (slots ++ [none])[slots.length]? = some none := by simp
  refine ⟨⟨c₄, [], none, slots ++ [some calls.made]⟩, ?_, rfl, rfl, hhand'.trans hhand,
    hheld', by simp, ?_, ?_⟩
  · have r₁ : PoolSteps (some n) ⟨calls, [], none, slots⟩ (.arrive request) ⟨calls, [request],
        none, slots⟩ := rfl
    have r₂ : PoolSteps (some n) ⟨calls, [request], none, slots⟩ .take ⟨calls, [],
        some request, slots⟩ :=
      if_pos ⟨rfl, hhand⟩
    have r₃ : PoolSteps (some n) ⟨calls, [], some request, slots⟩ .spawn ⟨calls, [],
        none, slots ++ [none]⟩ :=
      if_pos ⟨Option.some_ne_none _, decide_eq_true hlt⟩
    have r₄ : PoolSteps (some n) ⟨calls, [], none, slots ++ [none]⟩ (.call slots.length)
        ⟨c₁, [], none, slots ++ [some calls.made]⟩ := by
      rw [PoolSteps, Pooled.step, if_pos hfree, h₁, Option.map_some, hset]
    have own : ∀ {c c' : Calls} {l : CallLabel}, l.byCaller = true → CallSteps .async c l c' →
        PoolSteps (some n) ⟨c, [], none, slots ++ [some calls.made]⟩ (.own l)
          ⟨c', [], none, slots ++ [some calls.made]⟩ := by
      intro c c' l hl hc
      rw [PoolSteps, Pooled.step, if_pos hl, hc, Option.map_some]
    have hown := Run.cons (own rfl h₂) (.cons (own rfl h₃) (.single (own rfl h₄)))
    exact .cons r₁ (.cons r₂ (.cons r₃ (.cons r₄ hown)))
  · intro c hc
    obtain hc | hc := List.mem_append.mp hc
    · obtain ⟨k, hk, hw⟩ := hwait c hc
      have hne : k ≠ calls.made := (hmade k (by rw [hw]; exact Option.some_ne_none _)).ne
      refine ⟨k, hk, ?_⟩
      rw [Calls.Waits, hrun, Function.update_of_ne hne]
      exact hw
    · rw [List.mem_singleton.mp hc]
      refine ⟨_, rfl, ?_⟩
      rw [Calls.Waits, hrun, Function.update_self]
  · intro k hk
    rw [hrun, Function.update_apply] at hk
    show k < c₄.made
    rw [hmade']
    split at hk
    · omega
    · exact (hmade k hk).trans (Nat.lt_succ_self _)

/-- All slots of a pool may be held by handlers that wait. -/
theorem exists_busy {n : ℕ} : ∀ m ≤ n, ∃ ls s, Run (PoolSteps (some n)) Pooled.init ls s ∧ Busy m s
  | 0, _ => ⟨[], _, .nil _, rfl, rfl, rfl, rfl, rfl, nofun, fun _ hk => absurd rfl hk⟩
  | m + 1, hm => by
    obtain ⟨ls, s, hrun, hbusy⟩ := exists_busy m (Nat.le_of_succ_le hm)
    obtain ⟨s', hrun', hbusy'⟩ := busy_visit hbusy hm
    exact ⟨_, s', hrun.append hrun', hbusy'⟩

end Pooling

open Pooling in
/-- One more request than the pool has slots, and the replies behind it. -/
theorem wedged_any_size (n : ℕ) :
    ∃ ls s, Run (PoolSteps (some n)) Pooled.init ls s ∧ Wedged (some n) s := by
  obtain ⟨ls, s, hrun, hbusy⟩ := exists_busy n le_rfl
  obtain ⟨calls, queue, spawning, slots⟩ := s
  obtain ⟨rfl, rfl, hhand, -, hlen, hwait, -⟩ := hbusy
  have r₁ : PoolSteps (some n) ⟨calls, [], none, slots⟩ (.arrive request) ⟨calls, [request],
      none, slots⟩ := rfl
  have r₂ : PoolSteps (some n) ⟨calls, [request], none, slots⟩ .take ⟨calls, [],
      some request, slots⟩ :=
    if_pos ⟨rfl, hhand⟩
  have hjam : Jammed (some n) ⟨calls, [], some request, slots⟩ :=
    ⟨Option.some_ne_none _, congrArg some hlen.symm, hwait⟩
  obtain ⟨fs, s', harrive, hw⟩ := wedged_of_jammed hjam
  exact ⟨_, s', (hrun.append (.cons r₁ (.single r₂))).append harrive, hw⟩

namespace Pooling

/-- In a pool of two slots a handler calls, has its reply, and returns, while a request waits. -/
def served : List PoolLabel :=
  visit 0 0 ++ [.arrive request, .take, .arrive Callers.event.frame, .spawn, .take, .resolve,
    .own (.received 0),
    .leave 0, .finish 0]

/-- In a pool of one slot a request comes before the reply. -/
def stuck : List PoolLabel := visit 0 0 ++ [.arrive request, .take, .arrive Callers.event.frame]

def checked (n : ℕ) (ls : List PoolLabel) : Option Pooled :=
  execList (fun s l => if decide (Spares (some n) s l) then s.step (some n) l else none)
    Pooled.init ls

end Pooling

open Pooling in
/-- The handler returns, and one is left. -/
theorem pool_unjammed_served : ∃ s, checked 2 served = some s ∧ ¬Jammed (some 2) s ∧
    s.slots.length = 1 := by
  obtain ⟨s, hs⟩ := Option.isSome_iff_exists.mp (show (checked 2 served).isSome by decide)
  have hrun := run_of_checked (fun _ _ h => of_decide_eq_true h) hs
  refine ⟨s, hs, (pool_unjammed (some 2) hrun).1.1, ?_⟩
  have hlen : (checked 2 served).map (fun s => s.slots.length) = some 1 := by decide
  rw [hs] at hlen
  exact Option.some.inj hlen

open Pooling in
/-- The processor waits for the slot, its handler for the reply, and the reply for the processor. -/
theorem wedged_one : ∃ s, Run (PoolSteps (some 1)) Pooled.init stuck s ∧ Wedged (some 1) s := by
  have hend : (execList (Pooled.step (some 1)) Pooled.init stuck).map (fun s =>
      (s.spawning, s.slots, s.queue, s.calls.ids 0, s.calls.running 0)) =
      some (some request, [some 0], [Callers.event.frame], 1, some ⟨.waiting, none⟩) := rfl
  obtain ⟨s, hs, hfacts⟩ := Option.map_eq_some_iff.mp hend
  simp only [Prod.mk.injEq] at hfacts
  obtain ⟨hspawning, hslots, hqueue, hids, hwait⟩ := hfacts
  refine ⟨s, run_of_execList hs,
    ⟨by rw [hspawning]; exact Option.some_ne_none _, by rw [hslots]; rfl, fun c hc => ?_⟩,
    fun k hk => ?_⟩
  · rw [hslots] at hc
    exact ⟨0, List.mem_singleton.mp hc, hwait⟩
  · rw [hslots] at hk
    obtain rfl : k = 0 := Option.some.inj (List.mem_singleton.mp hk)
    exact ⟨_, by rw [hqueue]; exact List.mem_singleton_self _, Callers.event, rfl,
      congrArg some hids.symm⟩

end Busrt
