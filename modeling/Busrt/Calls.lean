/-
# The calls an `RpcClient` waits for

A `call` takes a number, enters the sender of a channel under it into the map
`calls`, locks the client, sends the request and waits for what comes out of
the channel; in the async client it waits for the acknowledgement of the
request first. The processor takes the sender out of the map when a reply comes,
and sends the reply through it.

On its way out a call is to take its entry with it. The async client does so
except when the future of the call is dropped, the sync client except when the
request could not be sent; and the number of a call may be that of one that still
waits, as the counter goes around. In every run without such steps the map
has the calls in progress only (`pending_calls`).

Key definitions: `Calls`, `Calls.step`, `Calls.Tidy`, `Calls.Fresh`, `CallsInv`.
Key theorems: `Calls.step_effect`, `CallsInv.step`, `pending_calls`.
-/
import Busrt.Rpc
import Busrt.Writing

namespace Busrt

open Lib

/-! ### The client -/

/-- The two implementations of `RpcClient`. -/
inductive RpcKind
  | async | sync
  deriving DecidableEq, Repr

/-- Where a `call` is: it has its number, its entry, the lock of the client, the request is sent and
not yet acknowledged, or it waits for the reply. -/
inductive CallStage
  | numbered | entered | sending | confirming | waiting
  deriving DecidableEq, Repr

/-- A call in progress, and what is in its channel. -/
structure Calling where
  stage : CallStage
  got : Option RpcEvent
  deriving DecidableEq, Repr

/-- The `RpcClient`: the counter, the map with the sender of which call, which call has locked the
client; the calls in progress, `call_id` in each, and how many there were; the sender the processor
is about to use, and for the record the replies that were handed to calls. -/
structure Calls where
  callId : UInt32
  calls : UInt32 → Option ℕ
  held : Option ℕ
  running : ℕ → Option Calling
  ids : ℕ → UInt32
  made : ℕ
  hand : Option (ℕ × RpcEvent)
  resolved : List (ℕ × RpcEvent)

/-- A step of a call, or of the processor (`reply`, `resolve`). -/
inductive CallLabel
  | begin
  | enter (k : ℕ)
  | lock (k : ℕ)
  | sent (k : ℕ) (confirm : Bool)
  | sendFailed (k : ℕ)
  | confirmed (k : ℕ)
  | confirmFailed (k : ℕ)
  | reply (e : RpcEvent)
  | resolve
  | received (k : ℕ)
  | lost (k : ℕ)
  | timeout (k : ℕ)
  | drop (k : ℕ)
  deriving DecidableEq, Repr

namespace Calls

def init : Calls := ⟨0, fun _ => none, none, fun _ => none, fun _ => 0, 0, none, []⟩

/-- Where the call is. -/
def stage (s : Calls) (k : ℕ) : Option CallStage := (s.running k).map (·.stage)

/-- What is in its channel. -/
def got (s : Calls) (k : ℕ) : Option RpcEvent := (s.running k).bind (·.got)

def move (s : Calls) (k : ℕ) (stage : CallStage) : Calls :=
  { s with running := Function.update s.running k ((s.running k).map fun c => { c with stage }) }

/-- `self.calls.lock().remove(&call_id)`. -/
def remove (s : Calls) (k : ℕ) : Calls := { s with calls := Function.update s.calls (s.ids k) none }

/-- The call returns, or its future is dropped: a lock it has is released. -/
def finish (s : Calls) (k : ℕ) : Calls :=
  { s with
    running := Function.update s.running k none
    held := if s.held = some k then none else s.held }

/-- One step of `RpcClient::call` or of the processor. -/
def step (x : RpcKind) (s : Calls) : CallLabel → Option Calls
  | .begin =>
    let id := incrementFrameId s.callId
    some { s with
      callId := id
      running := Function.update s.running s.made (some ⟨.numbered, none⟩)
      ids := Function.update s.ids s.made id
      made := s.made + 1 }
  | .enter k =>
    if s.stage k = some .numbered then
      some (move { s with calls := Function.update s.calls (s.ids k) (some k) } k .entered)
    else none
  | .lock k =>
    if s.stage k = some .entered ∧ s.held = none then
      some (move { s with held := some k } k .sending)
    else none
  | .sent k confirm =>
    if s.stage k = some .sending then
      match x with
      | .async => some (move { s with held := none } k (if confirm then .confirming else .waiting))
      | .sync => some (s.move k .waiting)  -- the lock stays until the call returns
    else none
  | .sendFailed k =>
    if s.stage k = some .sending then
      match x with
      | .async => some ((s.remove k).finish k)
      | .sync => some (s.finish k)
    else none
  | .confirmed k => if s.stage k = some .confirming then some (s.move k .waiting) else none
  | .confirmFailed k => if s.stage k = some .confirming then some ((s.remove k).finish k) else none
  | .reply e =>
    if (e.kind = .reply ∨ e.kind = .errorReply) ∧ s.hand = none then
      match e.id with
      | none => none
      | some id =>
        match s.calls id with
        | none => some s
        | some k => some { s with calls := Function.update s.calls id none, hand := some (k, e) }
    else none
  | .resolve =>
    match s.hand with
    | none => none
    | some (k, e) =>
      match s.running k with
      | none => some { s with hand := none }
      | some c =>
        some { s with
          hand := none
          running := Function.update s.running k (some { c with got := some e })
          resolved := (k, e) :: s.resolved }
  | .received k => if s.stage k = some .waiting ∧ (s.got k).isSome then some (s.finish k) else none
  | .lost k =>
    -- the sender is neither in the map nor in the processor's hand
    if s.stage k = some .waiting ∧ s.got k = none ∧ s.calls (s.ids k) ≠ some k ∧
      s.hand.map (·.1) ≠ some k then
      match x with
      | .async => some (s.finish k)
      | .sync => some ((s.remove k).finish k)
    else none
  | .timeout k =>
    if x = .sync ∧ s.stage k = some .waiting ∧ s.got k = none then some ((s.remove k).finish k)
    else none
  | .drop k =>
    if x = .async ∧ s.stage k ≠ none ∧ s.stage k ≠ some .numbered then some (s.finish k) else none

end Calls

def CallSteps (x : RpcKind) (s : Calls) (l : CallLabel) (s' : Calls) : Prop := s.step x l = some s'

/-- No call ends and leaves its entry: by a drop of its future, or because the sync client could not
send. -/
def Calls.Tidy (x : RpcKind) (s : Calls) : CallLabel → Prop
  | .drop k => s.calls (s.ids k) ≠ some k
  | .sendFailed k => x = .sync → s.calls (s.ids k) ≠ some k
  | _ => True

/-- The next number is not that of a call in progress. -/
def Calls.Fresh (s : Calls) : CallLabel → Prop
  | .begin => ∀ k < s.made, s.running k ≠ none → s.ids k ≠ incrementFrameId s.callId
  | _ => True

instance (x : RpcKind) (s : Calls) : DecidablePred (Calls.Tidy x s)
  | .drop _ => inferInstanceAs (Decidable (_ ≠ _))
  | .sendFailed _ => inferInstanceAs (Decidable (_ → _))
  | .begin | .enter _ | .lock _ | .sent .. | .confirmed _ | .confirmFailed _ | .reply _
  | .resolve | .received _ | .lost _ | .timeout _ => inferInstanceAs (Decidable True)

instance (s : Calls) : DecidablePred (Calls.Fresh s)
  | .begin => inferInstanceAs (Decidable (∀ k < s.made, _))
  | .drop _ | .sendFailed _ | .enter _ | .lock _ | .sent .. | .confirmed _ | .confirmFailed _
  | .reply _ | .resolve | .received _ | .lost _ | .timeout _ => inferInstanceAs (Decidable True)

/-! ### What a step can do -/

/-- Everything a step can do; what it does to the lock does not matter here. -/
inductive Calls.Effect (x : RpcKind) (s : Calls) (l : CallLabel) (s' : Calls) : Prop
  | begin (hl : l = .begin)
      (h : s' = { s with
        callId := incrementFrameId s.callId
        running := Function.update s.running s.made (some ⟨.numbered, none⟩)
        ids := Function.update s.ids s.made (incrementFrameId s.callId)
        made := s.made + 1 })
  | enter (k : ℕ) (c : Calling) (hc : s.running k = some c) (hn : c.stage = .numbered)
      (h : s' = { s with
        calls := Function.update s.calls (s.ids k) (some k)
        running := Function.update s.running k (some { c with stage := .entered }) })
  | move (k : ℕ) (c : Calling) (stage : CallStage) (held : Option ℕ) (hc : s.running k = some c)
      (hn : c.stage ≠ .numbered) (hstage : stage ≠ .numbered)
      (h : s' = { s with held, running := Function.update s.running k (some { c with stage }) })
  | clear (k : ℕ) (c : Calling) (held : Option ℕ) (hc : s.running k = some c)
      (hn : c.stage ≠ .numbered)
      (h : s' = { s with
        held
        calls := Function.update s.calls (s.ids k) none
        running := Function.update s.running k none })
  | leave (k : ℕ) (c : Calling) (held : Option ℕ) (hc : s.running k = some c)
      (hn : c.stage ≠ .numbered)
      (hout : Calls.Tidy x s l → c.got.isSome ∨ s.calls (s.ids k) ≠ some k)
      (h : s' = { s with held, running := Function.update s.running k none })
  | take (id : UInt32) (k : ℕ) (e : RpcEvent) (hid : e.id = some id) (hk : s.calls id = some k)
      (hh : s.hand = none)
      (h : s' = { s with calls := Function.update s.calls id none, hand := some (k, e) })
  | orphan (h : s' = s)
  | late (k : ℕ) (e : RpcEvent) (hh : s.hand = some (k, e)) (hk : s.running k = none)
      (h : s' = { s with hand := none })
  | resolve (k : ℕ) (e : RpcEvent) (c : Calling) (hh : s.hand = some (k, e))
      (hc : s.running k = some c)
      (h : s' = { s with
        hand := none
        running := Function.update s.running k (some { c with got := some e })
        resolved := (k, e) :: s.resolved })

theorem running_of_stage {s : Calls} {k : ℕ} {st : CallStage} (h : s.stage k = some st) :
    ∃ c, s.running k = some c ∧ c.stage = st :=
  Option.map_eq_some_iff.mp h

theorem Calls.move_eq {s : Calls} {k : ℕ} {c : Calling} (hc : s.running k = some c)
    (stage : CallStage) :
    s.move k stage = { s with running := Function.update s.running k (some { c with stage }) } := by
  rw [Calls.move, hc, Option.map_some]

theorem Calls.stage_move (s : Calls) (k j : ℕ) (stage : CallStage) :
    (s.move k stage).stage j = if j = k then (s.stage k).map fun _ => stage else s.stage j := by
  simp only [Calls.stage, Calls.move, Function.update_apply]
  split
  · rw [Option.map_map, Option.map_map]
    rfl
  · rfl

theorem Calls.stage_finish (s : Calls) (k j : ℕ) :
    (s.finish k).stage j = if j = k then none else s.stage j := by
  simp only [Calls.stage, Calls.finish, Function.update_apply]
  split <;> rfl

/-- A reply that is read changes neither a call nor the lock. -/
theorem Calls.of_reply {x : RpcKind} {s s' : Calls} {e : RpcEvent}
    (h : CallSteps x s (.reply e) s') :
    s'.held = s.held ∧ s'.running = s.running := by
  obtain ⟨-, hs⟩ := Option.ite_none_right_eq_some.mp h
  split at hs
  · cases hs
  · split at hs <;> cases hs <;> exact ⟨rfl, rfl⟩

/-- What the processor does with the sender in its hand: the call is gone, or gets its reply. -/
theorem Calls.of_resolve {x : RpcKind} {s s' : Calls} (h : CallSteps x s .resolve s') :
    ∃ k e, s.hand = some (k, e) ∧ ((s.running k = none ∧ s' = { s with hand := none }) ∨
      ∃ c, s.running k = some c ∧ s' = { s with
        hand := none
        running := Function.update s.running k (some { c with got := some e })
        resolved := (k, e) :: s.resolved }) := by
  simp only [CallSteps, Calls.step] at h
  split at h
  · cases h
  · rename_i k e hh
    refine ⟨k, e, hh, ?_⟩
    split at h
    · rename_i hk
      exact .inl ⟨hk, (Option.some.inj h).symm⟩
    · rename_i c hc
      exact .inr ⟨c, hc, (Option.some.inj h).symm⟩

/-- No call goes on by it, and the lock stays. -/
theorem Calls.stage_resolve {x : RpcKind} {s s' : Calls} (h : CallSteps x s .resolve s') :
    s'.held = s.held ∧ ∀ j, s'.stage j = s.stage j := by
  obtain ⟨k, e, -, ⟨-, rfl⟩ | ⟨c, hc, rfl⟩⟩ := of_resolve h
  · exact ⟨rfl, fun _ => rfl⟩
  · refine ⟨rfl, fun j => ?_⟩
    simp only [Calls.stage, Function.update_apply]
    split
    · rename_i hj
      rw [hj, hc]
      rfl
    · rfl

theorem Calls.step_effect {x : RpcKind} {s s' : Calls} {l : CallLabel} (h : CallSteps x s l s') :
    Effect x s l s' := by
  unfold CallSteps at h
  cases l with
  | begin =>
    cases h
    exact .begin rfl rfl
  | enter k =>
    obtain ⟨hst, hs⟩ := Option.ite_none_right_eq_some.mp h
    obtain ⟨c, hc, hn⟩ := running_of_stage hst
    cases hs
    exact .enter k c hc hn (move_eq
      (s := { s with calls := Function.update s.calls (s.ids k) (some k) }) hc _)
  | lock k =>
    obtain ⟨⟨hst, -⟩, hs⟩ := Option.ite_none_right_eq_some.mp h
    obtain ⟨c, hc, hn⟩ := running_of_stage hst
    cases hs
    exact .move k c .sending (some k) hc
      (by rw [hn]; nofun) nofun (move_eq (s := { s with held := some k }) hc _)
  | sent k confirm =>
    obtain ⟨hst, hs⟩ := Option.ite_none_right_eq_some.mp h
    obtain ⟨c, hc, hn⟩ := running_of_stage hst
    have hn : c.stage ≠ .numbered := by rw [hn]; nofun
    cases x with
    | async =>
      cases hs
      exact .move k c (if confirm then .confirming else .waiting) none hc hn (by split <;> nofun)
        (move_eq (s := { s with held := none }) hc _)
    | sync =>
      cases hs
      exact .move k c .waiting s.held hc hn nofun (move_eq hc _)
  | sendFailed k =>
    obtain ⟨hst, hs⟩ := Option.ite_none_right_eq_some.mp h
    obtain ⟨c, hc, hn⟩ := running_of_stage hst
    have hn : c.stage ≠ .numbered := by rw [hn]; nofun
    cases x with
    | async =>
      cases hs
      exact .clear k c _ hc hn rfl
    | sync =>
      cases hs
      exact .leave k c _ hc hn (fun ht => .inr (ht rfl)) rfl
  | confirmed k =>
    obtain ⟨hst, hs⟩ := Option.ite_none_right_eq_some.mp h
    obtain ⟨c, hc, hn⟩ := running_of_stage hst
    cases hs
    exact .move k c .waiting s.held hc (by rw [hn]; nofun) nofun (move_eq hc _)
  | confirmFailed k =>
    obtain ⟨hst, hs⟩ := Option.ite_none_right_eq_some.mp h
    obtain ⟨c, hc, hn⟩ := running_of_stage hst
    cases hs
    exact .clear k c _ hc (by rw [hn]; nofun) rfl
  | reply e =>
    obtain ⟨⟨-, hh⟩, hs⟩ := Option.ite_none_right_eq_some.mp h
    split at hs
    · cases hs
    · rename_i id hid
      split at hs
      · cases hs
        exact .orphan rfl
      · rename_i k hk
        cases hs
        exact .take id k e hid hk hh rfl
  | resolve =>
    obtain ⟨k, e, hh, ⟨hk, hs⟩ | ⟨c, hc, hs⟩⟩ := of_resolve h
    · exact .late k e hh hk hs
    · exact .resolve k e c hh hc hs
  | received k =>
    obtain ⟨⟨hst, hsome⟩, hs⟩ := Option.ite_none_right_eq_some.mp h
    obtain ⟨c, hc, hn⟩ := running_of_stage hst
    have hgot : s.got k = c.got := by rw [Calls.got, hc, Option.bind_some]
    cases hs
    exact .leave k c _ hc (by rw [hn]; nofun) (fun _ => .inl (hgot ▸ hsome)) rfl
  | lost k =>
    obtain ⟨⟨hst, -, hgone, -⟩, hs⟩ := Option.ite_none_right_eq_some.mp h
    obtain ⟨c, hc, hn⟩ := running_of_stage hst
    have hn : c.stage ≠ .numbered := by rw [hn]; nofun
    cases x with
    | async =>
      cases hs
      exact .leave k c _ hc hn (fun _ => .inr hgone) rfl
    | sync =>
      cases hs
      exact .clear k c _ hc hn rfl
  | timeout k =>
    obtain ⟨⟨-, hst, -⟩, hs⟩ := Option.ite_none_right_eq_some.mp h
    obtain ⟨c, hc, hn⟩ := running_of_stage hst
    cases hs
    exact .clear k c _ hc (by rw [hn]; nofun) rfl
  | drop k =>
    obtain ⟨⟨-, hsome, hne⟩, hs⟩ := Option.ite_none_right_eq_some.mp h
    obtain ⟨st, hst⟩ := Option.ne_none_iff_exists'.mp hsome
    obtain ⟨c, hc, rfl⟩ := running_of_stage hst
    cases hs
    exact .leave k c _ hc (fun hn => hne (hst.trans (congrArg some hn))) (fun ht => .inr ht) rfl

/-! ### What always holds -/

/-- The call has its entry, and its sender has sent nothing. -/
def Calls.Unused (s : Calls) (k : ℕ) : Prop :=
  k < s.made ∧ k ∉ s.resolved.map (·.1) ∧ ∀ c, s.running k = some c →
    c.stage ≠ .numbered ∧ c.got = none

/-- A sender is in the map under the number of its call, or in the hand of the processor, or it was
used, for a reply with that number. -/
structure CallsInv (s : Calls) : Prop where
  callId : s.callId = frameIdAt s.made
  ids : ∀ k < s.made, s.ids k = frameIdAt (k + 1)
  running : ∀ k, s.running k ≠ none → k < s.made
  entry : ∀ id k, s.calls id = some k → s.ids k = id ∧ s.Unused k ∧ ∀ e, s.hand ≠ some (k, e)
  hand : ∀ k e, s.hand = some (k, e) → e.id = some (s.ids k) ∧ s.Unused k
  numbered : ∀ k c, s.running k = some c → c.stage = .numbered →
    k ∉ s.resolved.map (·.1) ∧ c.got = none
  resolved : ∀ k e, (k, e) ∈ s.resolved → k < s.made ∧ e.id = some (s.ids k)
  nodup : (s.resolved.map (·.1)).Nodup
  got : ∀ k c e, s.running k = some c → c.got = some e → (k, e) ∈ s.resolved

theorem CallsInv.init : CallsInv Calls.init where
  callId := rfl
  ids k hk := absurd hk (Nat.not_lt_zero k)
  running _ h := absurd rfl h
  entry _ _ h := by cases h
  hand _ _ h := by cases h
  numbered _ _ h := by cases h
  resolved _ _ h := absurd h List.not_mem_nil
  nodup := List.nodup_nil
  got _ _ _ h := by cases h

section Step

variable {s s' : Calls}

theorem Calls.Unused.congr {k : ℕ} (h : s.Unused k) (hm : s.made ≤ s'.made)
    (hres : s'.resolved = s.resolved)
    (hrun : ∀ c', s'.running k = some c' → ∃ c, s.running k = some c ∧ c'.got = c.got ∧
      (c'.stage = c.stage ∨ c'.stage ≠ .numbered)) :
    s'.Unused k := by
  refine ⟨h.1.trans_le hm, hres ▸ h.2.1, fun c' hc' => ?_⟩
  obtain ⟨c, hc, hgot, hst⟩ := hrun c' hc'
  obtain ⟨hn, hg⟩ := h.2.2 c hc
  exact ⟨hst.elim (fun he => he ▸ hn) id, hgot ▸ hg⟩

/-- The number of a call in progress is taken, and not 0. -/
theorem CallsInv.ids_ne (h : CallsInv s) {k : ℕ} (hk : k < s.made) : s.ids k ≠ 0 := by
  rw [h.ids k hk]
  exact frameIdAt_ne_zero (Nat.succ_pos k)

/-- A call that begins. -/
theorem CallsInv.begin (h : CallsInv s) (hs : s' = { s with
    callId := incrementFrameId s.callId
    running := Function.update s.running s.made (some ⟨.numbered, none⟩)
    ids := Function.update s.ids s.made (incrementFrameId s.callId)
    made := s.made + 1 }) : CallsInv s' := by
  have hid : incrementFrameId s.callId = frameIdAt (s.made + 1) := by rw [h.callId, frameIdAt_succ]
  have hrun : s'.running = Function.update s.running s.made (some ⟨.numbered, none⟩) := by rw [hs]
  have hmade : s'.made = s.made + 1 := by rw [hs]
  have hids : ∀ k < s.made, s'.ids k = s.ids k :=
    fun k hk => by rw [hs]; exact Function.update_of_ne hk.ne _ _
  have hold : ∀ k ≠ s.made, s'.running k = s.running k :=
    fun k hk => by rw [hrun, Function.update_of_ne hk]
  have hnew : s'.running s.made = some ⟨.numbered, none⟩ := by rw [hrun, Function.update_self]
  have hcalls : s'.calls = s.calls := by rw [hs]
  have hhand : s'.hand = s.hand := by rw [hs]
  have hres : s'.resolved = s.resolved := by rw [hs]
  have hunused : ∀ k, s.Unused k → s'.Unused k := fun k hk =>
    hk.congr (by omega) hres fun c' hc' => ⟨c', hold k hk.1.ne ▸ hc', rfl, .inl rfl⟩
  have hfresh : s.made ∉ s.resolved.map (·.1) := fun hmem => by
    obtain ⟨⟨k, e⟩, hke, hk⟩ := List.mem_map.mp hmem
    have hlt := (h.resolved k e hke).1
    simp only at hk
    omega
  refine ⟨?_, fun k hk => ?_, fun k hk => ?_, fun id k hk => ?_, fun k e hk => ?_,
    fun k c hc hn => ?_,
    fun k e hk => ?_, hres ▸ h.nodup, fun k c e hc hg => ?_⟩
  · rw [hmade, ← hid, hs]
  · rw [hmade] at hk
    rcases Nat.lt_succ_iff_lt_or_eq.mp hk with hlt | rfl
    · exact (hids k hlt).trans (h.ids k hlt)
    · rw [hs, ← hid]
      exact Function.update_self ..
  · rw [hmade]
    rcases eq_or_ne k s.made with rfl | hne
    · exact Nat.lt_succ_self _
    · exact (h.running k (hold k hne ▸ hk)).trans (Nat.lt_succ_self _)
  · obtain ⟨h1, h2, h3⟩ := h.entry id k (hcalls ▸ hk)
    exact ⟨(hids k h2.1).trans h1, hunused k h2, hhand ▸ h3⟩
  · obtain ⟨h1, h2⟩ := h.hand k e (hhand ▸ hk)
    exact ⟨h1.trans (congrArg some (hids k h2.1).symm), hunused k h2⟩
  · rw [hres]
    rcases eq_or_ne k s.made with rfl | hne
    · cases hnew.symm.trans hc
      exact ⟨hfresh, rfl⟩
    · exact h.numbered k c (hold k hne ▸ hc) hn
  · obtain ⟨h1, h2⟩ := h.resolved k e (hres ▸ hk)
    exact ⟨by omega, h2.trans (congrArg some (hids k h1).symm)⟩
  · rw [hres]
    rcases eq_or_ne k s.made with rfl | hne
    · cases hnew.symm.trans hc
      cases hg
    · exact h.got k c e (hold k hne ▸ hc) hg

/-- A call goes on or ends: what was sent to calls stays, and a sender is new only in the map. -/
theorem CallsInv.update (h : CallsInv s) {k : ℕ} {c : Calling} (hc : s.running k = some c)
    {calls : UInt32 → Option ℕ} {held : Option ℕ} {o : Option Calling}
    (ho : ∀ c', o = some c' → c'.got = c.got ∧ c'.stage ≠ .numbered)
    (hcalls : ∀ id j, calls id = some j → s.calls id = some j ∨ j = k ∧ id = s.ids k ∧
      c.stage = .numbered)
    (hs : s' = { s with held, calls, running := Function.update s.running k o }) : CallsInv s' := by
  have hk : k < s.made := h.running k (by rw [hc]; nofun)
  have hself : s'.running k = o := by rw [hs]; exact Function.update_self ..
  have hold : ∀ j ≠ k, s'.running j = s.running j :=
    fun j hj => by rw [hs]; exact Function.update_of_ne hj _ _
  have hids : s'.ids = s.ids := by rw [hs]
  have hmade : s'.made = s.made := by rw [hs]
  have hhand : s'.hand = s.hand := by rw [hs]
  have hres : s'.resolved = s.resolved := by rw [hs]
  have hrun : ∀ j c', s'.running j = some c' → ∃ b, s.running j = some b ∧ c'.got = b.got ∧
      (c'.stage = b.stage ∨ c'.stage ≠ .numbered) := by
    intro j c' hc'
    rcases eq_or_ne j k with rfl | hne
    · obtain ⟨hgot, hst⟩ := ho c' (hself.symm.trans hc')
      exact ⟨c, hc, hgot, .inr hst⟩
    · exact ⟨c', hold j hne ▸ hc', rfl, .inl rfl⟩
  have hunused : ∀ j, s.Unused j → s'.Unused j :=
    fun j hj => hj.congr hmade.ge hres fun c' hc' => hrun j c' hc'
  refine ⟨?_, ?_, fun j hj => ?_, fun id j hj => ?_, fun j e hj => ?_, fun j c' hc' hn => ?_,
    fun j e hj => ?_,
    hres ▸ h.nodup, fun j c' e hc' hg => ?_⟩
  · rw [hmade, ← h.callId, hs]
  · rw [hmade, hids]
    exact h.ids
  · obtain ⟨c', hc'⟩ := Option.ne_none_iff_exists'.mp hj
    obtain ⟨b, hb, -⟩ := hrun j c' hc'
    exact hmade ▸ h.running j (by rw [hb]; nofun)
  · rw [hids, hhand]
    have hcalls' : s'.calls = calls := by rw [hs]
    rcases hcalls id j (hcalls' ▸ hj) with hj | ⟨rfl, rfl, hn⟩
    · obtain ⟨h1, h2, h3⟩ := h.entry id j hj
      exact ⟨h1, hunused j h2, h3⟩
    · -- the sender is new: the call has its number only
      obtain ⟨hnew, hgot⟩ := h.numbered j c hc hn
      refine ⟨rfl, ⟨hmade ▸ hk, hres ▸ hnew, fun c' hc' => ?_⟩, fun e he => ?_⟩
      · obtain ⟨hg, hst⟩ := ho c' (hself.symm.trans hc')
        exact ⟨hst, hg.trans hgot⟩
      · exact ((h.hand j e he).2.2.2 c hc).1 hn
  · obtain ⟨h1, h2⟩ := h.hand j e (hhand ▸ hj)
    exact ⟨hids ▸ h1, hunused j h2⟩
  · obtain ⟨b, hb, hgot, hst | hst⟩ := hrun j c' hc'
    · obtain ⟨h1, h2⟩ := h.numbered j b hb (hst ▸ hn)
      exact ⟨hres ▸ h1, hgot.trans h2⟩
    · exact absurd hn hst
  · rw [hmade, hids]
    exact h.resolved j e (hres ▸ hj)
  · obtain ⟨b, hb, hgot, -⟩ := hrun j c' hc'
    exact hres ▸ h.got j b e hb (hgot ▸ hg)

/-- What is left of a map without one of its keys. -/
theorem some_of_update_none {κ : Type*} [DecidableEq κ] {m : κ → Option ℕ} {a b : κ} {j : ℕ}
    (h : Function.update m a none b = some j) : b ≠ a ∧ m b = some j := by
  rw [Function.update_apply] at h
  split at h
  · cases h
  · exact ⟨‹_›, h⟩

/-- The processor takes a sender. -/
theorem CallsInv.take (h : CallsInv s) {id : UInt32} {k : ℕ} {e : RpcEvent} (hid : e.id = some id)
    (hk : s.calls id = some k) :
    CallsInv { s with calls := Function.update s.calls id none, hand := some (k, e) } := by
  obtain ⟨hids, hu, -⟩ := h.entry id k hk
  refine ⟨h.callId, h.ids, h.running, fun id' j hj => ?_, fun j e' hj => ?_, h.numbered,
    h.resolved, h.nodup, h.got⟩
  · obtain ⟨hne, hj⟩ := some_of_update_none hj
    obtain ⟨h1, h2, -⟩ := h.entry id' j hj
    refine ⟨h1, h2, fun e' he' => ?_⟩
    cases he'
    exact hne (h1.symm.trans hids)
  · cases hj
    exact ⟨hid.trans (congrArg some hids.symm), hu⟩

/-- The processor's sender finds nobody. -/
theorem CallsInv.late (h : CallsInv s) : CallsInv { s with hand := none } where
  callId := h.callId
  ids := h.ids
  running := h.running
  entry id k hk := ⟨(h.entry id k hk).1, (h.entry id k hk).2.1, fun _ he => by cases he⟩
  hand _ _ he := by cases he
  numbered := h.numbered
  resolved := h.resolved
  nodup := h.nodup
  got := h.got

/-- It sends. -/
theorem CallsInv.resolve (h : CallsInv s) {k : ℕ} {e : RpcEvent} {c : Calling}
    (hh : s.hand = some (k, e))
    (hc : s.running k = some c) (hs : s' = { s with
      hand := none
      running := Function.update s.running k (some { c with got := some e })
      resolved := (k, e) :: s.resolved }) : CallsInv s' := by
  obtain ⟨hid, hk, hnew, hu⟩ := h.hand k e hh
  obtain ⟨hst, hnone⟩ := hu c hc
  have hself : s'.running k = some { c with got := some e } := by
    rw [hs]; exact Function.update_self ..
  have hold : ∀ j ≠ k, s'.running j = s.running j :=
    fun j hj => by rw [hs]; exact Function.update_of_ne hj _ _
  have hmade : s'.made = s.made := by rw [hs]
  have hids : s'.ids = s.ids := by rw [hs]
  have hcalls : s'.calls = s.calls := by rw [hs]
  have hhand : s'.hand = none := by rw [hs]
  have hres : s'.resolved = (k, e) :: s.resolved := by rw [hs]
  refine ⟨?_, ?_, fun j hj => ?_, fun id j hj => ?_, fun j e' hj => ?_, fun j c' hc' hn => ?_,
    fun j e' hj => ?_, ?_,
    fun j c' e' hc' hg => ?_⟩
  · rw [hmade, ← h.callId, hs]
  · rw [hmade, hids]
    exact h.ids
  · rw [hmade]
    rcases eq_or_ne j k with rfl | hne
    · exact hk
    · exact h.running j (hold j hne ▸ hj)
  · obtain ⟨h1, ⟨h2, h3, h4⟩, h5⟩ := h.entry id j (hcalls ▸ hj)
    have hne : j ≠ k := fun he => h5 e (he ▸ hh)
    refine ⟨hids ▸ h1, ⟨hmade ▸ h2, ?_, fun c' hc' => h4 c' (hold j hne ▸ hc')⟩,
      fun _ he => by cases hhand.symm.trans he⟩
    rw [hres, List.map_cons, List.mem_cons, not_or]
    exact ⟨hne, h3⟩
  · rw [hhand] at hj
    cases hj
  · rcases eq_or_ne j k with rfl | hne
    · cases hself.symm.trans hc'
      exact absurd hn hst
    · obtain ⟨h1, h2⟩ := h.numbered j c' (hold j hne ▸ hc') hn
      rw [hres, List.map_cons, List.mem_cons, not_or]
      exact ⟨⟨hne, h1⟩, h2⟩
  · rw [hmade, hids]
    rcases List.mem_cons.mp (hres ▸ hj) with he | hj
    · cases he
      exact ⟨hk, hid⟩
    · exact h.resolved j e' hj
  · rw [hres]
    exact List.nodup_cons.mpr ⟨hnew, h.nodup⟩
  · rw [hres]
    rcases eq_or_ne j k with rfl | hne
    · cases hself.symm.trans hc'
      cases hg
      exact List.mem_cons_self
    · exact List.mem_cons_of_mem _ (h.got j c' e' (hold j hne ▸ hc') hg)

theorem CallsInv.step (x : RpcKind) {l : CallLabel} (h : CallsInv s) (hstep : CallSteps x s l s') :
    CallsInv s' := by
  cases Calls.step_effect hstep with
  | begin _ hs => exact h.begin hs
  | enter k c hc hn hs =>
    refine h.update hc (fun c' he => by cases he; exact ⟨rfl, nofun⟩) (fun id j hj => ?_) hs
    rw [Function.update_apply] at hj
    split at hj
    · rename_i hid
      cases hj
      exact .inr ⟨rfl, hid, hn⟩
    · exact .inl hj
  | move k c stage held hc hn hst hs =>
    exact h.update hc (fun c' he => by cases he; exact ⟨rfl, hst⟩) (fun _ _ hj => .inl hj) hs
  | clear k c held hc hn hs =>
    exact h.update hc (o := none) (fun _ he => by cases he)
      (fun _ _ hj => .inl (some_of_update_none hj).2) hs
  | leave k c held hc hn _ hs =>
    exact h.update hc (o := none) (fun _ he => by cases he) (fun _ _ hj => .inl hj) hs
  | take id k e hid hk hh hs => exact hs ▸ h.take hid hk
  | orphan hs => exact hs ▸ h
  | late k e hh hk hs => exact hs ▸ h.late
  | resolve k e c hh hc hs => exact h.resolve hh hc hs

/-! ### What holds as long as calls are tidy, and numbers fresh -/

/-- Who is in progress stays so, or has left; only `begin` brings a call in. -/
theorem Calls.Effect.running {x : RpcKind} {l : CallLabel} (h : Effect x s l s') :
    (l = .begin ∧ s'.ids = Function.update s.ids s.made (incrementFrameId s.callId) ∧
      ∀ j ≠ s.made, s'.running j = s.running j) ∨
    (s'.ids = s.ids ∧ ∀ j, s'.running j ≠ none → s.running j ≠ none) := by
  cases h with
  | begin hl hs =>
    exact .inl ⟨hl, by rw [hs], fun j hj => by rw [hs]; exact Function.update_of_ne hj _ _⟩
  | enter k c hc _ hs
  | move k c _ _ hc _ _ hs
  | clear k c _ hc _ hs
  | leave k c _ hc _ _ hs
  | resolve k _ c _ hc hs =>
    refine .inr ⟨by rw [hs], fun j hj => ?_⟩
    rcases eq_or_ne j k with rfl | hne
    · rw [hc]
      nofun
    · have hold : s'.running j = s.running j := by rw [hs]; exact Function.update_of_ne hne _ _
      exact hold ▸ hj
  | take id k e _ _ _ hs | late k e _ _ hs =>
    exact .inr ⟨by rw [hs], fun j hj => by rw [hs] at hj; exact hj⟩
  | orphan hs => exact .inr ⟨by rw [hs], fun j hj => hs ▸ hj⟩

/-- Every entry is one of a call in progress. -/
def Calls.Kept (s : Calls) : Prop := ∀ id k, s.calls id = some k → s.running k ≠ none

/-- No two calls in progress have the same number. -/
def Calls.Distinct (s : Calls) : Prop :=
  ∀ j k, s.running j ≠ none → s.running k ≠ none → s.ids j = s.ids k → j = k

/-- A tidy step leaves no entry behind. -/
theorem Calls.Kept.step {x : RpcKind} {l : CallLabel} (hk : s.Kept) (h : CallsInv s)
    (ht : Calls.Tidy x s l) (hstep : CallSteps x s l s') : s'.Kept := by
  intro id j hj
  cases Calls.step_effect hstep with
  | begin _ hs =>
    have hcalls : s'.calls = s.calls := by rw [hs]
    obtain ⟨-, hu, -⟩ := h.entry id j (hcalls ▸ hj)
    have hold : s'.running j = s.running j := by rw [hs]; exact Function.update_of_ne hu.1.ne _ _
    exact hold ▸ hk id j (hcalls ▸ hj)
  | enter k c hc _ hs =>
    rcases eq_or_ne j k with rfl | hne
    · rw [hs]
      simp
    · have hold : s'.running j = s.running j := by rw [hs]; exact Function.update_of_ne hne _ _
      have hcalls : s'.calls = Function.update s.calls (s.ids k) (some k) := by rw [hs]
      rw [hcalls, Function.update_apply] at hj
      split at hj
      · exact absurd (Option.some.inj hj).symm hne
      · exact hold ▸ hk id j hj
  | move k c _ _ hc _ _ hs | resolve k _ c _ hc hs =>
    have hcalls : s'.calls = s.calls := by rw [hs]
    rcases eq_or_ne j k with rfl | hne
    · rw [hs]
      simp
    · have hold : s'.running j = s.running j := by rw [hs]; exact Function.update_of_ne hne _ _
      exact hold ▸ hk id j (hcalls ▸ hj)
  | clear k c _ hc _ hs =>
    have hcalls : s'.calls = Function.update s.calls (s.ids k) none := by rw [hs]
    obtain ⟨hid, hj⟩ := some_of_update_none (hcalls ▸ hj)
    have hne : j ≠ k := fun he => hid (he ▸ (h.entry id j hj).1.symm)
    have hold : s'.running j = s.running j := by rw [hs]; exact Function.update_of_ne hne _ _
    exact hold ▸ hk id j hj
  | leave k c _ hc _ hout hs =>
    have hcalls : s'.calls = s.calls := by rw [hs]
    obtain ⟨hid, hu, -⟩ := h.entry id j (hcalls ▸ hj)
    have hne : j ≠ k := by
      rintro rfl
      rcases hout ht with hgot | hno
      · rw [(hu.2.2 c hc).2] at hgot
        cases hgot
      · exact hno (hid ▸ hcalls ▸ hj)
    have hold : s'.running j = s.running j := by rw [hs]; exact Function.update_of_ne hne _ _
    exact hold ▸ hk id j (hcalls ▸ hj)
  | take id' k e _ _ _ hs =>
    have hcalls : s'.calls = Function.update s.calls id' none := by rw [hs]
    have hrun : s'.running = s.running := by rw [hs]
    exact hrun ▸ hk id j (some_of_update_none (hcalls ▸ hj)).2
  | orphan hs | late k e _ _ hs =>
    have hcalls : s'.calls = s.calls := by rw [hs]
    have hrun : s'.running = s.running := by rw [hs]
    exact hrun ▸ hk id j (hcalls ▸ hj)

/-- A fresh number is nobody's. -/
theorem Calls.Distinct.step {x : RpcKind} {l : CallLabel} (hd : s.Distinct) (h : CallsInv s)
    (hf : Calls.Fresh s l) (hstep : CallSteps x s l s') : s'.Distinct := by
  obtain ⟨rfl, hids, hold⟩ | ⟨hids, hrun⟩ := (Calls.step_effect hstep).running
  · have hother : ∀ j, s'.running j ≠ none → j ≠ s.made → s'.ids j = s.ids j ∧ s.running j ≠ none ∧
        s'.ids j ≠ s'.ids s.made := by
      intro j hj hne
      have hj' : s.running j ≠ none := hold j hne ▸ hj
      rw [hids, Function.update_of_ne hne, Function.update_self]
      exact ⟨rfl, hj', hf j (h.running j hj') hj'⟩
    intro j k hj hk he
    rcases eq_or_ne j s.made with rfl | hjm
    · by_contra hne
      exact (hother k hk (Ne.symm hne)).2.2 he.symm
    · obtain ⟨h1, h2, h3⟩ := hother j hj hjm
      rcases eq_or_ne k s.made with rfl | hkm
      · exact absurd he h3
      · obtain ⟨h4, h5, -⟩ := hother k hk hkm
        exact hd j k h2 h5 (by rw [← h1, ← h4, he])
  · intro j k hj hk he
    exact hd j k (hrun j hj) (hrun k hk) (hids ▸ he)

end Step

/-! ### Every run -/

theorem callsInv_run {x : RpcKind} {ls : List CallLabel} {s : Calls}
    (h : Run (CallSteps x) Calls.init ls s) :
    CallsInv s :=
  h.inv (fun _ _ _ hI hst => hI.step x hst) .init

theorem kept_run {x : RpcKind} {ls : List CallLabel} {s : Calls}
    (h : Run (Guarded (CallSteps x) (Calls.Tidy x)) Calls.init ls s) : s.Kept :=
  (h.inv (I := fun s => CallsInv s ∧
    s.Kept) (fun _ _ _ hI hst => ⟨hI.1.step x hst.2, hI.2.step hI.1 hst.1 hst.2⟩)
    ⟨.init, nofun⟩).2

theorem distinct_run {x : RpcKind} {ls : List CallLabel} {s : Calls}
    (h : Run (Guarded (CallSteps x) Calls.Fresh) Calls.init ls s) : s.Distinct :=
  (h.inv (I := fun s => CallsInv s ∧
    s.Distinct) (fun _ _ _ hI hst => ⟨hI.1.step x hst.2, hI.2.step hI.1 hst.1 hst.2⟩)
    ⟨.init, fun _ _ hj => absurd rfl hj⟩).2

/-- As long as each call is through before the counter has gone around, numbers are fresh. -/
theorem fresh_of_window {s : Calls} (h : CallsInv s)
    (hw : ∀ k < s.made, s.running k ≠ none → s.made - k < 2 ^ 32 - 1) (l : CallLabel) :
    Calls.Fresh s l := by
  cases l with
  | begin =>
    intro k hk hr he
    rw [h.ids k hk, h.callId, ← frameIdAt_succ] at he
    have hlt := hw k hk hr
    have heq := windowed_frameIdAt (k + 1) (s.made + 1) (by omega) (by omega) (by omega) he
    omega
  | _ => trivial

/-- **The map of an `RpcClient`**: numbers are never 0, and a reply goes to the call under its
number, once. Each key is the number of a call in progress in a run of tidy steps, and calls in
progress have numbers of their own in a run of fresh ones. -/
theorem pending_calls (x : RpcKind) {ls : List CallLabel} {s : Calls}
    (h : Run (CallSteps x) Calls.init ls s) :
    (∀ k, s.running k ≠ none → s.ids k ≠ 0) ∧
    ((s.resolved.map (·.1)).Nodup ∧ (∀ k e, (k, e) ∈ s.resolved → e.id = some (s.ids k)) ∧
      ∀ k c e, s.running k = some c → c.got = some e → (k, e) ∈ s.resolved) ∧
    (Run (Guarded (CallSteps x) (Calls.Tidy x)) Calls.init ls s →
      ∀ id k, s.calls id = some k → s.running k ≠ none ∧ s.ids k = id) ∧
    (Run (Guarded (CallSteps x) Calls.Fresh) Calls.init ls s →
      ∀ j k, s.running j ≠ none → s.running k ≠ none → s.ids j = s.ids k → j = k) := by
  have hI := callsInv_run h
  exact ⟨fun k hk => hI.ids_ne (hI.running k hk),
    ⟨hI.nodup, fun k e hk => (hI.resolved k e hk).2, hI.got⟩,
    fun ht id k hk => ⟨kept_run ht id k hk, (hI.entry id k hk).1⟩, fun hf => distinct_run hf⟩

namespace Callers

/-- The reply to the first call. -/
def event : RpcEvent :=
  ⟨.reply, ⟨.message, some "w", none, none, [119, 0, RPC_REPLY, 1, 0, 0, 0], 2, false⟩, 5, false⟩

/-- Two calls; the first has its reply before the acknowledgement. -/
def answered : List CallLabel :=
  [.begin, .begin, .enter 1, .enter 0, .lock 0, .sent 0 true, .reply event, .resolve, .confirmed 0]

/-- A call whose future is dropped while it waits for the lock. -/
def dropped : List CallLabel := [.begin, .enter 0, .drop 0]

/-- A call that could not be sent. -/
def unsent : List CallLabel := [.begin, .enter 0, .lock 0, .sendFailed 0]

/-- A run from the start, with a check of each step. -/
def checked (x : RpcKind) (ls : List CallLabel) : Option Calls :=
  execList
    (fun s l => if decide (Calls.Tidy x s l ∧ Calls.Fresh s l) then s.step x l else none)
    Calls.init ls

theorem run_checked {x : RpcKind} {ls : List CallLabel} {s : Calls} (h : checked x ls = some s) :
    Run (Guarded (CallSteps x) fun s l => Calls.Tidy x s l ∧ Calls.Fresh s l) Calls.init ls s :=
  run_of_checked (fun _ _ h => of_decide_eq_true h) h

end Callers

open Callers in
/-- Both calls are in progress; the one that has its reply has no entry. -/
theorem pending_calls_answered :
    ∃ s, checked .async answered = some s ∧ s.calls 1 = none ∧ s.running 1 ≠ none ∧
    s.ids 0 ≠ 0 ∧ s.ids 0 ≠ s.ids 1 ∧ s.resolved = [(0, event)] := by
  obtain ⟨s, hs⟩ := Option.isSome_iff_exists.mp (show (checked .async answered).isSome by decide)
  have hget : ∀ {α : Type} (f : Calls → α) (a : α),
      (checked .async answered).map f = some a → f s = a := by
    intro α f a h
    rw [hs] at h
    exact Option.some.inj h
  have hrun := run_checked hs
  obtain ⟨hids, -, hkept, hdistinct⟩ := pending_calls .async (hrun.mono fun _ _ _ h => h.2)
  have h0 : s.running 0 ≠ none :=
    fun h => absurd (hget (fun s => (s.running 0).isSome) true (by decide)) (by simp [h])
  have h1 : s.running 1 ≠ none :=
    (hkept (hrun.mono fun _ _ _ h => ⟨h.1.1, h.2⟩) 2 1 (hget (fun s => s.calls 2) _ (by decide))).1
  refine ⟨s, hs, hget (fun s => s.calls 1) _ (by decide), h1, hids 0 h0, fun he => ?_,
    hget (fun s => s.resolved) _ (by decide)⟩
  exact absurd (hdistinct (hrun.mono fun _ _ _ h => ⟨h.1.2, h.2⟩) 0 1 h0 h1 he) (by decide)

namespace Callers

variable {x : RpcKind} {s : Calls}

/-- A call that comes to nothing. -/
def failing (k : ℕ) : List CallLabel := [.begin, .enter k, .lock k, .sendFailed k]

/-- It takes its number and changes nothing for the others. -/
theorem run_failing (hm : s.running s.made = none) (hh : s.held = none) :
    ∃ s', Run (CallSteps x) s (failing s.made) s' ∧ s'.made = s.made + 1 ∧ s'.held = none ∧
      s'.callId = incrementFrameId s.callId ∧
        s'.running = s.running ∧ ∀ k ≠ s.made, s'.ids k = s.ids k := by
  let s₁ : Calls := { s with
    callId := incrementFrameId s.callId
    running := Function.update s.running s.made (some ⟨.numbered, none⟩)
    ids := Function.update s.ids s.made (incrementFrameId s.callId)
    made := s.made + 1 }
  let s₂ : Calls :=
    Calls.move { s₁ with
      calls := Function.update s₁.calls (s₁.ids s.made) (some s.made) } s.made .entered
  let s₃ : Calls := Calls.move { s₂ with held := some s.made } s.made .sending
  have h₂ : CallSteps x s₁ (.enter s.made) s₂ := if_pos (by simp [s₁, Calls.stage])
  have h₃ : CallSteps x s₂ (.lock s.made) s₃ :=
    if_pos ⟨by simp [s₁, s₂, Calls.stage, Calls.move], hh⟩
  have hst : s₃.stage s.made = some .sending := by simp [s₁, s₂, s₃, Calls.stage, Calls.move]
  have hend : ∃ s', CallSteps x s₃ (.sendFailed s.made) s' ∧ s'.made = s₃.made ∧ s'.held = none ∧
      s'.callId = s₃.callId ∧ s'.running = Function.update s₃.running s.made none ∧
        s'.ids = s₃.ids := by
    cases x with
    | async => exact ⟨_, if_pos hst, rfl, if_pos rfl, rfl, rfl, rfl⟩
    | sync => exact ⟨_, if_pos hst, rfl, if_pos rfl, rfl, rfl, rfl⟩
  obtain ⟨s', h₄, hmade, hheld, hid, hrun, hids⟩ := hend
  refine ⟨s', .cons rfl (.cons h₂ (.cons h₃ (.single h₄))), hmade, hheld, hid, ?_, fun k hk => ?_⟩
  · rw [hrun]
    funext j
    rcases eq_or_ne j s.made with rfl | hj
    · rw [Function.update_self, hm]
    · simp [s₁, s₂, s₃, Calls.move, hj]
  · rw [hids]
    exact Function.update_of_ne hk _ _

/-- The state after a call that waits for the lock and `n` that came to nothing. -/
structure After (n : ℕ) (s : Calls) : Prop where
  made : s.made = n + 1
  held : s.held = none
  callId : s.callId = frameIdAt (n + 1)
  first : s.running 0 ≠ none ∧ s.ids 0 = 1
  others : ∀ k ≠ 0, s.running k = none

theorem run_after (x : RpcKind) : ∀ n, ∃ ls s, Run (CallSteps x) Calls.init ls s ∧ After n s
  | 0 => ⟨[.begin, .enter 0], _, run_of_execList rfl, rfl, rfl, rfl, ⟨by decide, rfl⟩,
      fun k hk => by simp [Calls.move, Calls.init, hk]⟩
  | n + 1 => by
    obtain ⟨ls, s, hrun, hs⟩ := run_after x n
    have hm : s.running s.made = none := hs.others _ (by rw [hs.made]; nofun)
    obtain ⟨s', hstep, hmade, hheld, hid, hr, hids⟩ := run_failing (x := x) hm hs.held
    refine ⟨_, s', hrun.append hstep, ?_, hheld, ?_, ⟨?_, ?_⟩, ?_⟩
    · rw [hmade, hs.made]
    · rw [hid, hs.callId, ← frameIdAt_succ]
    · exact hr ▸ hs.first.1
    · rw [hids 0 (by rw [hs.made]; nofun)]
      exact hs.first.2
    · exact hr ▸ hs.others

end Callers

/-- The counter goes around. -/
theorem frameIdAt_around : frameIdAt (2 ^ 32 - 1 + 1) = 1 := by
  rw [← UInt32.toNat_inj, toNat_frameIdAt, iterate_wrapNext (by norm_num), Nat.mod_self]
  rfl

open Callers in
/-- A future that is dropped and a request that is not sent leave their entries; and when the
counter has gone around, two calls in progress have the number 1. -/
theorem left_entries :
    (∃ s, Run (CallSteps .async) Calls.init dropped s ∧ s.calls 1 = some 0 ∧ s.running 0 = none) ∧
    (∃ s, Run (CallSteps .sync) Calls.init unsent s ∧ s.calls 1 = some 0 ∧ s.running 0 = none) ∧
    ∀ x, ∃ ls s j, Run (CallSteps x) Calls.init ls s ∧ j ≠ 0 ∧ s.running 0 ≠ none ∧
      s.running j ≠ none ∧
      s.ids 0 = s.ids j ∧ ∀ k, s.running k ≠ none → k = 0 ∨ k = j := by
  refine ⟨⟨_, run_of_execList rfl, by decide, by decide⟩,
    ⟨_, run_of_execList rfl, by decide, by decide⟩, fun x => ?_⟩
  obtain ⟨n, hn⟩ : ∃ n, n + 1 = 2 ^ 32 - 1 := ⟨2 ^ 32 - 2, by norm_num⟩
  obtain ⟨ls, s, hrun, hs⟩ := run_after x n
  have hm : s.made ≠ 0 := by rw [hs.made]; exact Nat.succ_ne_zero _
  have hnext : incrementFrameId s.callId = 1 := by
    rw [hs.callId, hn, ← frameIdAt_succ, frameIdAt_around]
  refine ⟨_, _, s.made, hrun.append (.single (show CallSteps x s .begin _ from rfl)), hm, ?_, ?_,
    ?_, fun k hk => ?_⟩
  · simpa [hm.symm] using hs.first.1
  · simp
  · simpa [hm.symm, hnext] using hs.first.2
  · by_contra hne
    rw [not_or] at hne
    exact hk (by simpa [hne.2] using hs.others k hne.1)

end Busrt
