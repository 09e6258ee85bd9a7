/-
# RPC: at most once

The request of a call is one message, which may get lost; its handler is started
when a processor takes it out of a queue, and the reply is made when the handler
is done. Clients may come and go under any names, messages of any form may be
sent besides, and the numbers of calls may go around: no call's request is
handled twice, no call is replied to twice, and no call returns twice
(`handled_once`).

For a call its request is a token (`Busrt.Lib.Tokens`): on the wire, in a queue,
and, until it is replied to, with the handler. A step moves the tokens of one
client and the wire (`one_place`).

Key definitions: `issued`, `handled`, `completed`, `credit`.
Key theorems: `one_place`, `thrift`, `handled_once`.
-/
import Busrt.Lib.Tokens
import Busrt.Pairing

namespace Busrt

open Lib

/-! ### What a step does with a request -/

/-- The call that is made. -/
def RpcSys.issued (s : RpcSys) : RpcLabel → Option Call
  | .call i target method params _ =>
    (s.inst i).map fun k => ⟨i, k.made.length + 1, k.name, target, method, params⟩
  | _ => none

/-- The call that a handler is started for. -/
def Parcel.starts (p : Parcel) : Option Call :=
  if p.data.kind = .message then
    match RpcEvent.tryFrom p.data with
    | .ok e => if e.kind = .request then p.tag.call else none
    | .error _ => none
  else none

def RpcSys.handled (s : RpcSys) : RpcLabel → Option Call
  | .process i => (s.inst i).bind fun k => k.queue.head?.bind Parcel.starts
  | _ => none

/-- The call whose handler is done. -/
def RpcSys.completed (s : RpcSys) : RpcLabel → Option Call
  | .complete i n _ => (s.inst i).bind fun k => k.jobs[n]?.bind (·.call)
  | _ => none

/-- What spends a request: the start of its handler, or the end. -/
def RpcSys.spent (done : Bool) (s : RpcSys) (l : RpcLabel) : Option Call :=
  if done then s.completed l else s.handled l

/-- How often the request of a call is with a client; with the handlers too, if these are to
spend it when they are done. -/
def load (done : Bool) (c : Call) : Option RpcInst → ℕ
  | none => 0
  | some k =>
    k.queue.countP (·.tag.call = some c) + if done then k.jobs.countP (·.call = some c) else 0

/-- How often it is on its way, or with any client. -/
noncomputable def credit (done : Bool) (s : RpcSys) (c : Call) : ℕ :=
  s.wire.countP (·.tag.call = some c) + ∑ᶠ i, load done c (s.inst i)

/-- Finitely many clients ever came. -/
def Few (s : RpcSys) : Prop := {i | (s.inst i).isSome = true}.Finite

/-- The call was made. -/
def Known (s : RpcSys) (c : Call) : Prop := ∃ k, s.inst c.inst = some k ∧ c.seq ≤ k.made.length

/-! ### Returns -/

/-- What waits is waited for under one number, and what has returned waits no more; all of it
are calls of the client. -/
structure RpcInst.Settles (i : ℕ) (k : RpcInst) : Prop where
  one : ∀ {id id' c}, k.calls id = some c → k.calls id' = some c → id = id'
  waits : ∀ {id c}, k.calls id = some c → c.inst = i ∧ c.seq ≤ k.made.length
  gone : ∀ c ∈ k.returned.map (·.1), (c.inst = i ∧ c.seq ≤ k.made.length) ∧
    ∀ id, k.calls id ≠ some c
  once : (k.returned.map (·.1)).Nodup

namespace RpcInst.Settles

variable {i : ℕ} {k k' : RpcInst}

theorem new (name : String) (link : Link) : (RpcInst.new name link).Settles i :=
  ⟨fun h => (by cases h), fun h => (by cases h), fun _ h => (by cases h), List.nodup_nil⟩

theorem congr (h : k.Settles i) (hc : k'.calls = k.calls) (hm : k'.made = k.made)
    (hr : k'.returned = k.returned) :
    k'.Settles i := by
  refine ⟨fun h1 h2 => ?_, fun h1 => ?_, ?_, ?_⟩
  · rw [hc] at h1 h2
    exact h.one h1 h2
  · rw [hc] at h1
    rw [hm]
    exact h.waits h1
  · rw [hr, hm, hc]
    exact h.gone
  · rw [hr]
    exact h.once

/-- A new call is none of those before. -/
theorem enter (h : k.Settles i) {c : Call} (hi : c.inst = i) (hseq : c.seq = k.made.length + 1) :
    (k.enter c).Settles i := by
  have hold : ∀ {id}, k.calls id ≠ some c := fun hid => by have := (h.waits hid).2; omega
  have hmade : (k.enter c).made.length = k.made.length + 1 := by simp [RpcInst.enter]
  have hcalls : ∀ {id d}, (k.enter c).calls id = some d → (id = incrementFrameId k.callId ∧ d = c) ∨
      k.calls id = some d := by
    intro id d hd
    simp only [RpcInst.enter, Function.update_apply] at hd
    split at hd
    · exact .inl ⟨‹_›, (Option.some.inj hd).symm⟩
    · exact .inr hd
  refine ⟨fun h1 h2 => ?_, fun h1 => ?_, fun d hd => ?_, h.once⟩
  · rcases hcalls h1 with ⟨rfl, rfl⟩ | hold1
    · rcases hcalls h2 with ⟨rfl, -⟩ | hold2
      · rfl
      · exact absurd hold2 hold
    · rcases hcalls h2 with ⟨-, rfl⟩ | hold2
      · exact absurd hold1 hold
      · exact h.one hold1 hold2
  · rw [hmade]
    rcases hcalls h1 with ⟨-, rfl⟩ | hold1
    · exact ⟨hi, hseq.le⟩
    · exact ⟨(h.waits hold1).1, (h.waits hold1).2.trans (Nat.le_succ _)⟩
  · obtain ⟨⟨hinst, hle⟩, hnone⟩ := h.gone d hd
    refine ⟨⟨hinst, by omega⟩, fun id hid => ?_⟩
    rcases hcalls hid with ⟨-, rfl⟩ | hwait
    · omega
    · exact hnone id hwait

/-- A call stops to wait. -/
theorem cancel (h : k.Settles i) (id : UInt32) :
    Settles i { k with calls := Function.update k.calls id none } := by
  have hcalls : ∀ {id' d}, Function.update k.calls id none id' = some d → k.calls id' = some d := by
    intro id' d hd
    simp only [Function.update_apply] at hd
    split at hd
    · cases hd
    · exact hd
  exact ⟨fun h1 h2 => h.one (hcalls h1) (hcalls h2), fun h1 => h.waits (hcalls h1),
    fun d hd => ⟨(h.gone d hd).1, fun id' hid => (h.gone d hd).2 id' (hcalls hid)⟩, h.once⟩

/-- A call that waits returns. -/
theorem finish (h : k.Settles i) {id : UInt32} {c : Call} (hc : k.calls id = some c) (e : RpcEvent)
    (tag : Tag) :
    Settles i
      { k with
        calls := Function.update k.calls id none, returned := k.returned ++ [(c, e, tag)] } := by
  have hcancel := h.cancel id
  have hgone : ∀ id', Function.update k.calls id none id' ≠ some c := by
    intro id' hid
    simp only [Function.update_apply] at hid
    split at hid
    · cases hid
    · exact absurd (h.one hid hc) ‹_›
  have hmap : (k.returned ++ [(c, e, tag)]).map (·.1) = k.returned.map (·.1) ++ [c] := by simp
  refine ⟨hcancel.one, hcancel.waits, ?_, ?_⟩
  · rw [hmap]
    intro d hd
    rcases List.mem_append.mp hd with hd | hd
    · exact hcancel.gone d hd
    · rw [List.mem_singleton.mp hd]
      exact ⟨h.waits hc, hgone⟩
  · rw [hmap]
    refine List.Nodup.append h.once (List.nodup_singleton c)
      (List.disjoint_singleton.mpr fun hd => ?_)
    exact (h.gone c hd).2 id hc

theorem process (h : k.Settles i) (p : Parcel) (rest : List Parcel) :
    (k.process p rest).Settles i := by
  by_cases hk : p.data.kind = .message
  · rcases process_cases (k := k) rest hk with he | ⟨e, -, -, he⟩ | ⟨e, id, c, -, -, -, hc, he⟩
    · rw [he]
      exact h.congr rfl rfl rfl
    · rw [he]
      exact h.congr rfl rfl rfl
    · rw [he]
      exact (h.finish hc e p.tag).congr rfl rfl rfl
  · rw [RpcInst.process, if_neg hk]
    exact h.congr rfl rfl rfl

end RpcInst.Settles

/-! ### One step -/

/-- What a step changes: the wire, and one client, which keeps what it made. -/
structure OnePlace (s : RpcSys) (l : RpcLabel) (s' : RpcSys) (j : ℕ) (o : Option RpcInst) :
    Prop where
  inst : s'.inst = Function.update s.inst j o
  settles : (∀ k, s.inst j = some k → k.Settles j) → ∀ k, o = some k → k.Settles j
  made : ∀ k, s.inst j = some k → ∃ k', o = some k' ∧ k.made.length ≤ k'.made.length
  issues : ∀ c, s.issued l = some c → c.inst = j ∧ ∃ k k', s.inst j = some k ∧ o = some k' ∧
    c.seq = k.made.length + 1 ∧
    k'.made.length = k.made.length + 1
  trades : ∀ done c, s'.wire.countP (·.tag.call = some c) + load done c o +
    (s.spent done l).toList.count c ≤
    s.wire.countP (·.tag.call = some c) + load done c (s.inst j) + (s.issued l).toList.count c

section Step

variable {s s' : RpcSys} {l : RpcLabel}

theorem count_toList (o : Option Call) (c : Call) :
    o.toList.count c = if o = some c then 1 else 0 := by
  cases o with
  | none => rfl
  | some d => simp [List.count_cons]

theorem countP_post (s : RpcSys) (m : Option (String × FrameData)) (tag : Tag) (c : Call) :
    (s.post m tag).wire.countP (·.tag.call = some c) ≤
      s.wire.countP (·.tag.call = some c) + if tag.call = some c then 1 else 0 := by
  unfold RpcSys.post
  cases m with
  | none => exact Nat.le_add_right _ _
  | some m => simp [List.countP_append, List.countP_cons]

theorem countP_eraseIdx {α : Type*} (q : α → Bool) {l : List α} {n : ℕ} {x : α}
    (h : l[n]? = some x) :
    (l.eraseIdx n).countP q + (if q x then 1 else 0) = l.countP q := by
  obtain ⟨hn, rfl⟩ := List.getElem?_eq_some_iff.mp h
  rw [← (List.getElem_cons_eraseIdx_perm hn).countP_eq q, List.countP_cons]

/-- A message that is no request adds nothing. -/
theorem countP_post_none {tag : Tag} (ht : tag.call = none) (s : RpcSys)
    (m : Option (String × FrameData)) (c : Call) :
    (s.post m tag).wire.countP (·.tag.call = some c) ≤ s.wire.countP (·.tag.call = some c) := by
  have h := countP_post s m tag c
  rwa [ht, if_neg (by simp), Nat.add_zero] at h

theorem starts_call {p : Parcel} {c : Call} (h : p.starts = some c) : p.tag.call = some c := by
  unfold Parcel.starts at h
  split at h
  · split at h
    · split at h
      · exact h
      · cases h
    · cases h
  · cases h

/-- The processor takes a frame: a handler is started, or not. -/
theorem process_jobs (k : RpcInst) (p : Parcel) (rest : List Parcel) :
    (k.process p rest).queue = rest ∧ (k.process p rest).made = k.made ∧
      ((k.process p rest).jobs = k.jobs ∨
        ∃ e, (k.process p rest).jobs = k.jobs ++ [⟨e, p.tag.call⟩]) := by
  by_cases hk : p.data.kind = .message
  · rcases process_cases (k := k) rest hk with h | ⟨e, -, -, h⟩ | ⟨e, id, c, -, -, -, -, h⟩
    · rw [h]
      exact ⟨rfl, rfl, .inl rfl⟩
    · rw [h]
      exact ⟨rfl, rfl, .inr ⟨e, rfl⟩⟩
    · rw [h]
      exact ⟨rfl, rfl, .inl rfl⟩
  · rw [RpcInst.process, if_neg hk]
    exact ⟨rfl, rfl, .inl rfl⟩

/-- The request goes from the queue to the handler, or away. -/
theorem load_process (k : RpcInst) (p : Parcel) {rest : List Parcel} (hq : k.queue = p :: rest)
    (done : Bool) (c : Call) :
    load done c (some (k.process p rest)) + (if done then none else p.starts).toList.count c ≤
      load done c (some k) := by
  obtain ⟨hqueue, -, hjobs⟩ := process_jobs k p rest
  have hstarts : p.starts.toList.count c ≤ if p.tag.call = some c then 1 else 0 := by
    rw [count_toList]
    split
    · rw [if_pos (starts_call ‹_›)]
    · exact Nat.zero_le _
  have hqcount : k.queue.countP (·.tag.call = some c) =
      rest.countP (·.tag.call = some c) + if p.tag.call = some c then 1 else 0 := by
    rw [hq, List.countP_cons]
    simp
  cases done with
  | false =>
    simp only [load, hqueue, hqcount, Bool.false_eq_true, if_false, Nat.add_zero]
    omega
  | true =>
    simp only [load, hqueue, hqcount, if_true, Option.toList_none, List.count_nil, Nat.add_zero]
    rcases hjobs with hjobs | ⟨e, hjobs⟩
    · rw [hjobs]
      omega
    · rw [hjobs, List.countP_append, List.countP_singleton]
      simp only [decide_eq_true_eq]
      omega

/-- The wire changes, and no client. -/
theorem OnePlace.wire (hinst : s'.inst = s.inst) (hi : s.issued l = none)
    (hs : ∀ done, s.spent done l = none)
    (hw : ∀ c : Call, s'.wire.countP (·.tag.call = some c) ≤ s.wire.countP (·.tag.call = some c)) :
    OnePlace s l s' 0 (s.inst 0) where
  inst := hinst.trans (Function.update_eq_self _ _).symm
  settles h := h
  made k hk := ⟨k, hk, le_rfl⟩
  issues c hc := by rw [hi] at hc; cases hc
  trades done c := by
    rw [hi, hs done]
    exact Nat.add_le_add_right (Nat.add_le_add_right (hw c) _) _

/-- One client changes, and what it made stays. -/
theorem OnePlace.client {i : ℕ} {k k' : RpcInst} (hk : s.inst i = some k)
    (hinst : s'.inst = Function.update s.inst i (some k')) (hmade : k'.made = k.made)
    (hset : k.Settles i → k'.Settles i) (hi : s.issued l = none)
    (hw : ∀ done c, s'.wire.countP (·.tag.call = some c) + load done c (some k') +
      (s.spent done l).toList.count c ≤
      s.wire.countP (·.tag.call = some c) + load done c (some k)) :
    OnePlace s l s' i (some k') where
  inst := hinst
  settles h x hx := by
    obtain rfl := Option.some.inj hx
    exact hset (h k hk)
  made x hx := by
    rw [hk] at hx
    obtain rfl := Option.some.inj hx
    exact ⟨k', rfl, by rw [hmade]⟩
  issues c hc := by rw [hi] at hc; cases hc
  trades done c := by
    rw [hi, hk]
    exact hw done c

/-- A handler that is done leaves, and sends no request. -/
theorem complete_wire (s : RpcSys) (i n : ℕ) (k : RpcInst) (j : Job) (res : RpcResult) :
    (s.complete i n k j res).inst =
      Function.update s.inst i (some { k with jobs := k.jobs.eraseIdx n }) ∧
      ∀ c : Call, (s.complete i n k j res).wire.countP (·.tag.call = some c) ≤
        s.wire.countP (·.tag.call = some c) := by
  unfold RpcSys.complete
  simp only
  split
  · split
    · exact ⟨rfl, fun _ => le_rfl⟩
    · exact ⟨post_inst _ _ _, fun c => countP_post_none (by cases j.call <;> rfl) _ _ c⟩
  · exact ⟨rfl, fun _ => le_rfl⟩

/-- **A step moves requests between one client and the wire.** -/
theorem one_place (hs : RpcSteps s l s') : ∃ j o, OnePlace s l s' j o := by
  have hno : ∀ {l : RpcLabel}, s.handled l = none → s.completed l = none →
      ∀ done, s.spent done l = none := by
    intro l hh hc done
    cases done
    · exact hh
    · exact hc
  cases l <;> simp only [RpcSteps, rpcStep] at hs
  case connect i name link =>
    split at hs
    · rename_i hi
      obtain rfl := Option.some.inj hs
      have hnone : s.inst i = none := by simpa using hi
      refine ⟨i, some (.new name link), rfl,
        fun _ k hk => Option.some.inj hk ▸ .new name link, fun k hk => ?_,
        fun _ hc => (by cases hc),
        fun done c => ?_⟩
      · rw [hnone] at hk
        cases hk
      · rw [hno rfl rfl done, hnone]
        cases done <;> exact le_rfl
    · cases hs
  case disconnect name =>
    obtain rfl := Option.some.inj hs
    exact ⟨0, _, .wire rfl rfl (hno rfl rfl) fun c => le_rfl⟩
  case call i target method params qos =>
    obtain ⟨k, hk, rfl⟩ := Option.map_eq_some_iff.mp hs
    have hissued : s.issued (.call i target method params qos) =
        some ⟨i, k.made.length + 1, k.name, target, method, params⟩ := by
      rw [RpcSys.issued, hk, Option.map_some]
    refine ⟨i, some (k.enter ⟨i, k.made.length + 1, k.name, target, method, params⟩), ?_,
      fun h x hx => ?_,
      fun x hx => ?_, fun c hc => ?_, fun done c => ?_⟩
    · exact post_inst _ _ _
    · obtain rfl := Option.some.inj hx
      exact (h k hk).enter rfl rfl
    · rw [hk] at hx
      obtain rfl := Option.some.inj hx
      exact ⟨_, rfl, by simp [RpcInst.enter]⟩
    · rw [hissued] at hc
      cases hc
      exact ⟨rfl, k, _, hk, rfl, rfl, by simp [RpcInst.enter]⟩
    · have hpost :=
        countP_post (s.setInst i (k.enter ⟨i, k.made.length + 1, k.name, target, method, params⟩))
        (k.zcSend target
          (some (prepareCallPayload method
            (toLe 4 (k.enter
              ⟨i, k.made.length + 1, k.name, target, method, params⟩).callId.toNat)))
          params qos)
        (.request ⟨i, k.made.length + 1, k.name, target, method, params⟩) c
      have hload :
          load done c (some (k.enter ⟨i, k.made.length + 1, k.name, target, method, params⟩)) =
          load done c (some k) := rfl
      rw [hissued, hno rfl rfl done, hk, hload, count_toList (some _)]
      exact (Nat.add_le_add_right hpost _).trans (Nat.le_of_eq (Nat.add_right_comm _ _ _))
  case tell i target m qos =>
    obtain ⟨k, hk, hs⟩ := Option.bind_eq_some_iff.mp hs
    split at hs
    · obtain rfl := Option.some.inj hs
      exact ⟨0, _, .wire (post_inst _ _ _) rfl (hno rfl rfl) fun c => countP_post_none rfl s _ c⟩
    · cases hs
  case cancel i id =>
    obtain ⟨k, hk, rfl⟩ := Option.map_eq_some_iff.mp hs
    exact ⟨i, _,
      .client hk rfl rfl (·.cancel id) rfl fun done c => by rw [hno rfl rfl done]; exact le_rfl⟩
  case complete i n res =>
    obtain ⟨k, hk, hs⟩ := Option.bind_eq_some_iff.mp hs
    obtain ⟨j, hj, rfl⟩ := Option.map_eq_some_iff.mp hs
    have hcompleted : s.completed (.complete i n res) = j.call := by
      rw [RpcSys.completed, hk, Option.bind_some, hj, Option.bind_some]
    obtain ⟨hinst, hwire⟩ := complete_wire s i n k j res
    refine ⟨i, _, .client hk hinst rfl (·.congr rfl rfl rfl) rfl fun done c => ?_⟩
    have hjobs := countP_eraseIdx (fun j : Job => decide (j.call = some c)) hj
    have hle := hwire c
    cases done with
    | false =>
      rw [show s.spent false (.complete i n res) = none from rfl]
      exact Nat.add_le_add_right hle _
    | true =>
      rw [show s.spent true (.complete i n res) = s.completed (.complete i n res) from rfl,
        hcompleted, count_toList]
      simp only [load, if_true]
      simp only [decide_eq_true_eq] at hjobs
      omega
  case inject i target header payload qos =>
    obtain ⟨k, hk, rfl⟩ := Option.map_eq_some_iff.mp hs
    exact ⟨0, _, .wire (post_inst _ _ _) rfl (hno rfl rfl) fun c => countP_post_none rfl s _ c⟩
  case route n =>
    obtain ⟨p, hp, rfl⟩ := Option.map_eq_some_iff.mp hs
    have hwire : ∀ c : Call, (s.wire.eraseIdx n).countP (·.tag.call = some c) + (if p.tag.call =
        some c then 1 else 0) =
        s.wire.countP (·.tag.call = some c) := by
      intro c
      have h := countP_eraseIdx (fun p : Parcel => decide (p.tag.call = some c)) hp
      simpa only [decide_eq_true_eq] using h
    have hlost : OnePlace s (.route n) { s with wire := s.wire.eraseIdx n } 0 (s.inst 0) :=
      .wire rfl rfl (hno rfl rfl) fun c => Nat.le.intro (hwire c)
    unfold RpcSys.route
    simp only
    split
    · exact ⟨0, _, hlost⟩
    · rename_i j hj
      split
      · exact ⟨0, _, hlost⟩
      · rename_i k hk
        split
        · exact ⟨0, _, hlost⟩
        · rename_i data hdata
          refine ⟨j, _, .client hk rfl rfl (·.congr rfl rfl rfl) rfl fun done c => ?_⟩
          rw [hno rfl rfl done]
          have hle := hwire c
          simp only [load, RpcSys.setInst, List.countP_append, List.countP_singleton,
            decide_eq_true_eq, Option.toList_none, List.count_nil, Nat.add_zero]
          omega
  case lose n =>
    obtain rfl := Option.some.inj hs
    exact ⟨0, _, .wire rfl rfl (hno rfl rfl) fun c => (List.eraseIdx_sublist _ _).countP_le⟩
  case process i =>
    obtain ⟨k, hk, hs⟩ := Option.bind_eq_some_iff.mp hs
    split at hs
    · cases hs
    · rename_i p rest hq
      obtain rfl := Option.some.inj hs
      have hspent : ∀ done, s.spent done (.process i) = if done then none else p.starts := by
        intro done
        cases done
        · simp [RpcSys.spent, RpcSys.handled, hk, hq]
        · rfl
      refine ⟨i, _, .client hk rfl (process_jobs k p rest).2.1 (·.process p rest) rfl
        fun done c => ?_⟩
      rw [hspent, Nat.add_assoc]
      exact Nat.add_le_add_left (load_process k p hq done c) _

theorem OnePlace.few {j : ℕ} {o : Option RpcInst} (h : OnePlace s l s' j o) (hf : Few s) :
    Few s' := by
  refine (hf.insert j).subset fun i hi => ?_
  by_cases hij : i = j
  · exact .inl hij
  · rw [Set.mem_ofPred_eq, h.inst, Function.update_of_ne hij] at hi
    exact .inr hi

theorem OnePlace.known {j : ℕ} {o : Option RpcInst} (h : OnePlace s l s' j o) {c : Call}
    (hk : Known s c) : Known s' c := by
  obtain ⟨k, hk, hle⟩ := hk
  rw [Known, h.inst]
  by_cases hj : c.inst = j
  · subst hj
    obtain ⟨k', hk', hmade⟩ := h.made k hk
    exact ⟨k', by rw [Function.update_self, hk'], hle.trans hmade⟩
  · exact ⟨k, by rw [Function.update_of_ne hj, hk], hle⟩

/-- The places of a call's request are few. -/
theorem Few.load (hf : Few s) (done : Bool) (c : Call) :
    (Function.support fun i => load done c (s.inst i)).Finite := by
  refine hf.subset fun i hi => ?_
  rw [Function.mem_support] at hi
  cases hs : s.inst i with
  | none => rw [hs] at hi; exact absurd rfl hi
  | some k => rw [Set.mem_ofPred_eq, hs]; rfl

theorem OnePlace.credit {j : ℕ} {o : Option RpcInst} (h : OnePlace s l s' j o) (hf : Few s)
    (done : Bool) (c : Call) :
    credit done s' c + (s.spent done l).toList.count c ≤
      credit done s c + (s.issued l).toList.count c := by
  have hupdate : (fun i => Busrt.load done c (s'.inst i)) =
      Function.update (fun i => Busrt.load done c (s.inst i)) j (Busrt.load done c o) := by
    funext i
    rw [h.inst]
    by_cases hij : i = j
    · subst hij
      rw [Function.update_self, Function.update_self]
    · rw [Function.update_of_ne hij, Function.update_of_ne hij]
  have hsum : (∑ᶠ i, Busrt.load done c (s'.inst i)) + Busrt.load done c (s.inst j) =
      (∑ᶠ i, Busrt.load done c (s.inst i)) + Busrt.load done c o := by
    rw [hupdate]
    exact finsum_update_add (hf.load done c) j (Busrt.load done c o)
  have htrades := h.trades done c
  simp only [Busrt.credit]
  omega

/-- **Requests are spent**, when their handlers are started, or when these are done. -/
theorem thrift (done : Bool) :
    Thrift RpcSteps Few (credit done) RpcSys.issued (RpcSys.spent done) Known where
  inv hf hs := by
    obtain ⟨j, o, h⟩ := one_place hs
    exact h.few hf
  trades hf hs c := by
    obtain ⟨j, o, h⟩ := one_place hs
    exact h.credit hf done c
  keeps _ hs c hk := by
    obtain ⟨j, o, h⟩ := one_place hs
    exact h.known hk
  issues _ hs c hc := by
    obtain ⟨j, o, h⟩ := one_place hs
    obtain ⟨rfl, k, k', hk, rfl, hseq, hmade⟩ := h.issues c hc
    constructor
    · rintro ⟨x, hx, hle⟩
      rw [hk] at hx
      obtain rfl := Option.some.inj hx
      omega
    · exact ⟨k', by rw [h.inst, Function.update_self], by omega⟩

/-- What a client returns it returns once. -/
theorem settles_step (h : ∀ i k, s.inst i = some k → k.Settles i) (hs : RpcSteps s l s') :
    ∀ i k, s'.inst i = some k → k.Settles i := by
  obtain ⟨j, o, hj⟩ := one_place hs
  intro i k hk
  rw [hj.inst] at hk
  by_cases hij : i = j
  · subst hij
    rw [Function.update_self] at hk
    exact hj.settles (h i) k hk
  · rw [Function.update_of_ne hij] at hk
    exact h i k hk

end Step

/-- The requests handled in a run, and those whose handler is done. -/
def fate (s : RpcSys) (l : RpcLabel) (r : List Call × List Call) : List Call × List Call :=
  (r.1 ++ (s.handled l).toList, r.2 ++ (s.completed l).toList)

/-- **At most once**: in every run no call's request is handled twice, none is done twice,
and no call returns twice, nor with another client. -/
theorem handled_once {ls : List RpcLabel} {s : RpcSys} {started done : List Call}
    (h : Run (Tracked RpcSteps fate) (.init, [], []) ls (s, started, done)) :
    started.Nodup ∧ done.Nodup ∧
      ∀ i k, s.inst i = some k → (k.returned.map (·.1)).Nodup ∧
        ∀ c ∈ k.returned.map (·.1), c.inst = i := by
  have hfew : Few .init := Set.finite_empty.subset fun i hi => by cases hi
  have hcredit : ∀ done c, credit done .init c = 0 := by
    intro done c
    show (0 : ℕ) + ∑ᶠ _ : ℕ, 0 = 0
    rw [finsum_zero, Nat.add_zero]
  have hstarted : Run (Tracked RpcSteps fun s l ts => ts ++ (s.spent false l).toList) (.init, [])
      ls (s, started) :=
    h.record Prod.fst fun s l r => rfl
  have hdone :
      Run (Tracked RpcSteps fun s l ts => ts ++ (s.spent true l).toList) (.init, []) ls (s, done) :=
    h.record Prod.snd fun s l r => rfl
  refine ⟨spent_nodup (thrift false) hstarted hfew (hcredit false),
    spent_nodup (thrift true) hdone hfew (hcredit true),
    fun i k hk => ?_⟩
  have hsettles : ∀ i k, s.inst i = some k → k.Settles i :=
    h.plain.inv (I := fun s => ∀ i k, s.inst i = some k →
      k.Settles i) (fun _ _ _ hI hs => settles_step hI hs)
      fun i k hk => by cases hk
  exact ⟨(hsettles i k hk).once, fun c hc => ((hsettles i k hk).gone c hc).1.1⟩

/-- A call is handled, is done, and returns; its reply is not handled. -/
theorem handled_once_answered :
    ∃ s c k, Run (Tracked RpcSteps fate) (.init, [], []) Exchange.labels (s, [c], [c]) ∧
    s.inst 0 = some k ∧ k.returned.map (·.1) = [c] ∧ (k.returned.map (·.1)).Nodup := by
  have hrun : (execList (track rpcStep fate) (.init, [], []) Exchange.labels).map
      (fun p => (p.2, (p.1.inst 0).map fun k => k.returned.map (·.1))) =
      some (([⟨0, 1, "a", "t", "f", [5]⟩], [⟨0, 1, "a", "t", "f", [5]⟩]),
        some [⟨0, 1, "a", "t", "f", [5]⟩]) := by decide
  obtain ⟨⟨s, started, done⟩, hs, hobs⟩ := Option.map_eq_some_iff.mp hrun
  have hr : Run (Tracked RpcSteps fate) (.init, [], []) Exchange.labels (s, started, done) :=
    run_of_track hs
  obtain ⟨hfate, hret⟩ := Prod.mk.inj hobs
  obtain ⟨rfl, rfl⟩ := Prod.mk.inj hfate
  obtain ⟨k, hk, hret⟩ := Option.map_eq_some_iff.mp hret
  exact ⟨s, _, k, hr, hk, hret, ((handled_once hr).2.2 0 k hk).1⟩

end Busrt
