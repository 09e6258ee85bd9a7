/-
# A client's writes, and frames that are cut short

`ipc::Client` writes a frame in two parts. Each part is given to a buffered
writer that accepts its bytes a few at a time; on the way the write may fail,
time out, or be cancelled because the operation's future is dropped. In the
first two cases, and in the third for every operation but a ping, the client is
then marked as not connected (`FrameWriteGuard`).

Nothing looks at that mark before the next operation writes. A frame that was
cut short is the last thing on the stream as long as callers look at it
themselves and pings are not cancelled on the way (`framed_of_careful`).

Key definitions: `Attempt`, `WriteSt`, `writeStep`, `WriteSt.Framed`, `Cautious`.
Key theorems: `WriteInv.step`, `framed_of_careful`.
-/
import Busrt.Encode
import Busrt.Lib.Run
import Busrt.Lib.Pending

namespace Busrt

open Lib

/-! ### The client -/

/-- `Client::increment_frame_id`. -/
def incrementFrameId (frameId : UInt32) : UInt32 :=
  if frameId = UInt32.ofNat (2 ^ 32 - 1) then 1 else frameId + 1

/-- The id of the `n`-th frame. -/
def frameIdAt (n : ℕ) : UInt32 := incrementFrameId^[n] 0

theorem toNat_incrementFrameId (id : UInt32) :
    (incrementFrameId id).toNat = wrapNext (2 ^ 32 - 1) id.toNat := by
  have hlt := id.toNat_lt
  unfold incrementFrameId wrapNext
  by_cases h : id = UInt32.ofNat (2 ^ 32 - 1)
  · rw [if_pos h, if_pos (by rw [h]; rfl)]
    rfl
  · have hne : id.toNat ≠ 2 ^ 32 - 1 := fun he => h (UInt32.toNat_inj.mp he)
    rw [if_neg h, if_neg hne, UInt32.toNat_add]
    exact Nat.mod_eq_of_lt (by simp only [UInt32.reduceToNat]; omega)

theorem toNat_frameIdAt : ∀ n, (frameIdAt n).toNat = (wrapNext (2 ^ 32 - 1))^[n] 0
  | 0 => rfl
  | n + 1 => by
    rw [frameIdAt, Function.iterate_succ_apply', toNat_incrementFrameId, ← frameIdAt,
      toNat_frameIdAt n, Function.iterate_succ_apply']

theorem frameIdAt_succ (n : ℕ) : frameIdAt (n + 1) = incrementFrameId (frameIdAt n) :=
  Function.iterate_succ_apply' ..

/-- The ids of fewer than 2³² - 1 frames in a row differ. -/
theorem windowed_frameIdAt : Windowed (2 ^ 32 - 1) frameIdAt := by
  intro m n hm hmn hw h
  refine windowed_wrap (by omega) m n hm hmn hw ?_
  simp only [← toNat_frameIdAt, h]

/-- No frame has the id 0. -/
theorem frameIdAt_ne_zero {n : ℕ} (hn : 1 ≤ n) : frameIdAt n ≠ 0 := by
  intro h
  have hpos : 0 < (wrapNext (2 ^ 32 - 1))^[n] 0 := wrap_pos (by omega) hn
  rw [← toNat_frameIdAt, h] at hpos
  exact absurd hpos (by decide)

/-- An operation, and what the writer has accepted of its frame. -/
structure Attempt where
  id : UInt32
  op : ClientOp
  accepted : List UInt8
  deriving DecidableEq, Repr

namespace Attempt

/-- The whole frame. -/
def frame (a : Attempt) : List UInt8 := Ipc.bytes a.id a.op

/-- Some of the frame was accepted, but not all of it. -/
def Cut (a : Attempt) : Prop := a.accepted ≠ [] ∧ a.accepted ≠ a.frame

instance (a : Attempt) : Decidable a.Cut := inferInstanceAs (Decidable (_ ∧ _))

end Attempt

/-- The client: the flag, the counter, the operation that is being written with what is
left of its writes, the operations before it, and the bytes the writer has accepted. -/
structure WriteSt where
  connected : Bool
  frameId : UInt32
  cur : Option (Attempt × List (List UInt8))
  past : List Attempt
  sent : List UInt8
  deriving DecidableEq, Repr

namespace WriteSt

def init : WriteSt := ⟨true, 0, none, [], []⟩

/-- All operations so far. -/
def attempts (s : WriteSt) : List Attempt := s.past ++ (s.cur.map (·.1)).toList

end WriteSt

/-- What can happen to a client. -/
inductive WriteLabel
  /-- An operation is called. -/
  | start (o : ClientOp)
  /-- The writer accepts some bytes of the part it has. -/
  | accept (n : ℕ)
  /-- A write returns. -/
  | done
  /-- A write fails or times out. -/
  | fail
  /-- The operation's future is dropped. -/
  | cancel
  /-- The reader ends. -/
  | lost
  deriving DecidableEq, Repr

/-- One step. An operation has the client for itself (`&mut self`). -/
def writeStep (s : WriteSt) : WriteLabel → Option WriteSt
  | .start o =>
    match s.cur with
    | some _ => none
    | none =>
      let id := if o = .ping then s.frameId else incrementFrameId s.frameId
      some { s with frameId := id, cur := some (⟨id, o, []⟩, (Ipc.writes id o).map (·.1)) }
  | .accept n =>
    match s.cur with
    | some (a, b :: bs) =>
      some { s with
        cur := some ({ a with accepted := a.accepted ++ b.take n }, b.drop n :: bs)
        sent := s.sent ++ b.take n }
    | _ => none
  | .done =>
    match s.cur with
    | some (a, [[]]) => some { s with cur := none, past := s.past ++ [a] }
    | some (a, [] :: b :: bs) => some { s with cur := some (a, b :: bs) }
    | _ => none
  | .fail =>
    match s.cur with
    | some (a, _) => some { s with connected := false, cur := none, past := s.past ++ [a] }
    | none => none
  | .cancel =>
    match s.cur with
    | some (a, _) =>
      -- only `send_frame_and_confirm!` has a guard
      some { s with
        connected := s.connected && decide (a.op = .ping), cur := none, past := s.past ++ [a] }
    | none => none
  | .lost => some { s with connected := false }

/-- The runs of a client. -/
def WriteSteps (s : WriteSt) (l : WriteLabel) (s' : WriteSt) : Prop := writeStep s l = some s'

/-- What a step can do. -/
inductive WriteEffect (s : WriteSt) : WriteLabel → WriteSt → Prop
  | start (o : ClientOp) (id : UInt32) (hc : s.cur = none) : WriteEffect s (.start o)
      { s with frameId := id, cur := some (⟨id, o, []⟩, (Ipc.writes id o).map (·.1)) }
  | accept (n : ℕ) (a : Attempt) (b : List UInt8) (bs : List (List UInt8))
      (hc : s.cur = some (a, b :: bs)) :
      WriteEffect s (.accept n) { s with
        cur := some ({ a with accepted := a.accepted ++ b.take n }, b.drop n :: bs)
        sent := s.sent ++ b.take n }
  | next (a : Attempt) (bs : List (List UInt8)) (hc : s.cur = some (a, [] :: bs)) :
      WriteEffect s .done { s with cur := some (a, bs) }
  /-- The operation is over: it has written all, or the client is marked, or it was a ping. -/
  | finished (l : WriteLabel) (a : Attempt) (bs : List (List UInt8)) (connected : Bool)
      (hc : s.cur = some (a, bs))
      (hover : bs.flatten = [] ∨ connected = false ∨ (l = .cancel ∧ a.op = .ping)) :
      WriteEffect s l { s with connected := connected, cur := none, past := s.past ++ [a] }
  | lost : WriteEffect s .lost { s with connected := false }

theorem writeEffect {s s' : WriteSt} {l : WriteLabel} (h : WriteSteps s l s') :
    WriteEffect s l s' := by
  cases l with
  | start o =>
    simp only [WriteSteps, writeStep] at h
    split at h
    · cases h
    · rename_i hc
      cases h
      exact .start o _ hc
  | accept n =>
    simp only [WriteSteps, writeStep] at h
    split at h
    · rename_i a b bs hc
      cases h
      exact .accept n a b bs hc
    · cases h
  | done =>
    simp only [WriteSteps, writeStep] at h
    split at h
    · rename_i a hc
      cases h
      exact .finished .done a [[]] s.connected hc (.inl rfl)
    · rename_i a b bs hc
      cases h
      exact .next a (b :: bs) hc
    · cases h
  | fail =>
    simp only [WriteSteps, writeStep] at h
    split at h
    · rename_i a bs hc
      cases h
      exact .finished .fail a bs false hc (.inr (.inl rfl))
    · cases h
  | cancel =>
    simp only [WriteSteps, writeStep] at h
    split at h
    · rename_i a bs hc
      cases h
      refine .finished .cancel a bs _ hc (.inr ?_)
      by_cases hp : a.op = .ping
      · exact .inr ⟨rfl, hp⟩
      · exact .inl (by simp [hp])
    · cases h
  | lost =>
    cases h
    exact .lost

/-! ### Whole frames, and at most one that is cut short -/

/-- No frame is cut short. -/
def Uncut (l : List Attempt) : Prop := ∀ a ∈ l, ¬ a.Cut

instance (l : List Attempt) : Decidable (Uncut l) := inferInstanceAs (Decidable (∀ a ∈ l, ¬ a.Cut))

/-- The stream is the frames of some of the operations, in their order, and then at
most the beginning of one. -/
def WriteSt.Framed (s : WriteSt) : Prop :=
  ∃ (whole : List Attempt) (tail : List UInt8), s.sent = whole.flatMap Attempt.frame ++ tail ∧
    whole.Sublist s.attempts ∧
    (tail = [] ∨ ∃ a ∈ s.attempts, tail = a.accepted ∧ tail <+: a.frame)

/-- An operation is started while the client is marked as connected, or nothing was
cut short before; a ping is not cancelled with a part of it accepted. -/
def Cautious (s : WriteSt) : WriteLabel → Prop
  | .start _ => s.connected = true ∨ Uncut s.past
  | .cancel => ∀ a bs, s.cur = some (a, bs) → a.op = .ping → ¬ a.Cut
  | _ => True

/-- What the accepted bytes are. -/
structure WriteInv (s : WriteSt) : Prop where
  sent : s.sent = s.attempts.flatMap (·.accepted)
  starts : ∀ a ∈ s.past, a.accepted <+: a.frame
  left : ∀ a bs, s.cur = some (a, bs) → a.accepted ++ bs.flatten = a.frame
  clean : Uncut s.past ∨ (s.connected = false ∧ s.cur = none ∧
    ∃ pre a, s.past = pre ++ [a] ∧ Uncut pre)

theorem WriteInv.init : WriteInv .init := ⟨rfl, nofun, nofun, .inl nofun⟩

theorem clean_append {l : List Attempt} {a : Attempt} : Uncut (l ++ [a]) ↔ Uncut l ∧ ¬ a.Cut := by
  simp [Uncut, or_imp, forall_and]

theorem WriteInv.step {s s' : WriteSt} {l : WriteLabel} (hI : WriteInv s) (hg : Cautious s l)
    (h : WriteSteps s l s') : WriteInv s' := by
  have hcur : ∀ a bs, s.cur = some (a, bs) → Uncut s.past := by
    intro a bs hc
    obtain hcl | ⟨-, hn, -⟩ := hI.clean
    · exact hcl
    · rw [hn] at hc
      cases hc
  cases writeEffect h with
  | start o id hc =>
    refine ⟨?_, hI.starts, fun a bs h => ?_, .inl ?_⟩
    · rw [hI.sent]
      simp [WriteSt.attempts, hc]
    · cases h
      exact List.flatMap_def.symm
    · obtain hcl | ⟨hd, -, -⟩ := hI.clean
      · exact hcl
      · exact hg.resolve_left (by simp [hd])
  | accept n a b bs hc =>
    refine ⟨?_, hI.starts, fun a' bs' h => ?_, .inl (hcur _ _ hc)⟩
    · rw [hI.sent]
      simp [WriteSt.attempts, hc]
    · cases h
      have hl := hI.left a _ hc
      rw [List.flatten_cons] at hl ⊢
      rw [List.append_assoc, ← List.append_assoc (b.take n), List.take_append_drop]
      exact hl
  | next a bs hc =>
    refine ⟨?_, hI.starts, fun a' bs' h => ?_, .inl (hcur _ _ hc)⟩
    · rw [hI.sent]
      simp [WriteSt.attempts, hc]
    · cases h
      exact (hI.left a ([] :: bs) hc :)
  | finished l a bs connected hc hover =>
    have hleft := hI.left a bs hc
    refine ⟨?_, fun b hb => ?_, nofun, ?_⟩
    · rw [hI.sent]
      simp [WriteSt.attempts, hc]
    · rcases List.mem_append.mp hb with hb | hb
      · exact hI.starts b hb
      · rw [List.mem_singleton.mp hb]
        exact ⟨_, hleft⟩
    · rw [clean_append]
      by_cases hcut : a.Cut
      · obtain hb | hd | ⟨rfl, hp⟩ := hover
        · rw [hb, List.append_nil] at hleft
          exact absurd hleft hcut.2
        · exact .inr ⟨hd, rfl, s.past, a, rfl, hcur a bs hc⟩
        · exact absurd hcut (hg a bs hc hp)
      · exact .inl ⟨hcur a bs hc, hcut⟩
  | lost =>
    refine ⟨hI.sent, hI.starts, hI.left, ?_⟩
    obtain hcl | ⟨-, hn, hp⟩ := hI.clean
    · exact .inl hcl
    · exact .inr ⟨rfl, hn, hp⟩

/-- Where nothing is cut short, the bytes are those of whole frames. -/
theorem flatMap_clean : ∀ {l : List Attempt}, Uncut l →
    l.flatMap (·.accepted) = (l.filter (·.accepted ≠ [])).flatMap Attempt.frame
  | [], _ => rfl
  | a :: l, h => by
    have ih := flatMap_clean fun b hb => h b (List.mem_cons_of_mem _ hb)
    have ha := h a List.mem_cons_self
    by_cases he : a.accepted = []
    · rw [List.flatMap_cons, he, List.filter_cons_of_neg (by simpa using he), ih]
      rfl
    · have hf : a.accepted = a.frame := by
        by_contra hne
        exact ha ⟨he, hne⟩
      rw [List.flatMap_cons, List.filter_cons_of_pos (by simpa using he), List.flatMap_cons, ih, hf]

theorem WriteInv.framed {s : WriteSt} (hI : WriteInv s) : s.Framed := by
  obtain hcl | ⟨-, hn, pre, a, hp, hcl⟩ := hI.clean
  · refine ⟨s.past.filter (·.accepted ≠ []),
      (s.cur.map (·.1)).toList.flatMap (·.accepted), ?_, ?_, ?_⟩
    · rw [hI.sent, WriteSt.attempts, List.flatMap_append, flatMap_clean hcl]
    · exact List.filter_sublist.trans (List.sublist_append_left _ _)
    · rcases hc : s.cur with _ | ⟨a, bs⟩
      · exact .inl rfl
      · refine .inr ⟨a, ?_, by simp, ?_⟩
        · simp [WriteSt.attempts, hc]
        · exact ⟨bs.flatten, by simpa using hI.left a bs hc⟩
  · have hall : s.attempts = pre ++ [a] := by simp [WriteSt.attempts, hn, hp]
    refine ⟨pre.filter (·.accepted ≠ []), a.accepted, ?_, ?_, .inr ⟨a, ?_, rfl, ?_⟩⟩
    · rw [hI.sent, hall, List.flatMap_append, flatMap_clean hcl]
      simp
    · rw [hall]
      exact List.filter_sublist.trans (List.sublist_append_left _ _)
    · simp [hall]
    · exact hI.starts a (by simp [hp])

/-- With a frame cut short the client does nothing more. -/
theorem sent_of_cut {s s' : WriteSt} {l : WriteLabel} (hI : WriteInv s) (hcut : ¬ Uncut s.past)
    (hg : Cautious s l) (h : WriteSteps s l s') : s'.sent = s.sent ∧ s'.past = s.past := by
  obtain hcl | ⟨hd, hn, -⟩ := hI.clean
  · exact absurd hcl hcut
  · cases writeEffect h with
    | start o id hc => exact absurd (hg.resolve_left (by simp [hd])) hcut
    | accept n a b bs hc => rw [hn] at hc; cases hc
    | next a bs hc => rw [hn] at hc; cases hc
    | finished l a bs connected hc => rw [hn] at hc; cases hc
    | lost => exact ⟨rfl, rfl⟩

/-- **Nothing after a broken frame**: in every run whose steps are cautious, the stream
is whole frames and at most the beginning of one, and once a frame has been cut short
nothing more is sent. -/
theorem framed_of_careful (ls : List WriteLabel) (s : WriteSt)
    (h : Run (Guarded WriteSteps Cautious) .init ls s) :
    s.Framed ∧ ∀ ls' s', Run (Guarded WriteSteps Cautious) s ls' s' → ¬ Uncut s.past →
      s'.sent = s.sent := by
  have hI : WriteInv s := h.inv (fun _ _ _ hI hs => hI.step hs.1 hs.2) .init
  refine ⟨hI.framed, fun ls' s' h' hcut => ?_⟩
  have hall : WriteInv s' ∧ s'.sent = s.sent ∧ s'.past = s.past := by
    refine h'.inv (I := fun x => WriteInv x ∧ x.sent = s.sent ∧ x.past = s.past) ?_ ⟨hI, rfl, rfl⟩
    rintro x l y ⟨hx, hsent, hpast⟩ ⟨hg, hs⟩
    obtain ⟨h1, h2⟩ := sent_of_cut hx (hpast ▸ hcut) hg hs
    exact ⟨hx.step hg hs, h1.trans hsent, h2.trans hpast⟩
  exact hall.2.1

namespace Broken

/-- The check of `Cautious`. -/
def cautious (s : WriteSt) : WriteLabel → Bool
  | .start _ => s.connected || decide (Uncut s.past)
  | .cancel => s.cur.all fun p => decide (p.1.op = .ping → ¬ p.1.Cut)
  | _ => true

theorem cautious_sound (s : WriteSt) (l : WriteLabel) (h : cautious s l = true) : Cautious s l := by
  cases l with
  | start o => simpa [cautious, Cautious] using h
  | cancel =>
    intro a bs hc hp
    simp only [cautious, hc, Option.all_some, decide_eq_true_eq] at h
    exact h hp
  | _ => exact trivial

/-- A message is sent, and the one after it fails in its payload. -/
def failing : List WriteLabel :=
  [.start (.send "w" [5] .no), .accept 11, .done, .accept 1, .done, .start (.send "w" [6, 7] .no),
    .accept 11, .done, .accept 1, .fail]

/-- A message fails in its target. -/
def broken : List WriteLabel := [.start (.send "w" [5, 6, 7] .no), .accept 10, .fail]

/-- The next one is sent. -/
def later : List WriteLabel := [.start (.send "w" [8] .no), .accept 11, .done, .accept 1, .done]

end Broken

open Broken in
/-- A run in which a frame is cut short, and nothing follows. -/
theorem framed_of_careful_failing :
    ∃ s, Run (Guarded WriteSteps Cautious) .init failing s ∧ ¬ Uncut s.past ∧
    s.Framed := by
  have hrun : (execList (fun s l => if cautious s l then writeStep s l else none) .init failing).map
      (fun s => decide (Uncut s.past)) = some false := by decide
  obtain ⟨s, hs, hcut⟩ := Option.map_eq_some_iff.mp hrun
  have hrun := run_of_checked cautious_sound hs
  exact ⟨s, hrun, of_decide_eq_false hcut, (framed_of_careful failing s hrun).1⟩

open Broken in
/-- The client is marked as not connected, and goes on writing: the broker takes the
beginning of the next frame for the rest of the broken one. -/
theorem sent_after_broken :
    ∃ s s', Run WriteSteps .init broken s ∧ ¬ Uncut s.past ∧ s.connected = false ∧
    Run WriteSteps s later s' ∧ s'.sent ≠ s.sent ∧
    getRequest {} s'.sent = .item (some ⟨[1, 0, 0, 0], .message, .no, [119, 2, 0, 0, 0], rfl⟩)
      [0x12, 3, 0, 0, 0, 119, 0, 8] := by
  let s : WriteSt :=
    ⟨false, 1, none, [⟨1, .send "w" [5, 6, 7] .no, [1, 0, 0, 0, 0x12, 5, 0, 0, 0, 119]⟩],
    [1, 0, 0, 0, 0x12, 5, 0, 0, 0, 119]⟩
  let s' : WriteSt :=
    ⟨false, 2, none, [⟨1, .send "w" [5, 6, 7] .no, [1, 0, 0, 0, 0x12, 5, 0, 0, 0, 119]⟩,
    ⟨2, .send "w" [8] .no, [2, 0, 0, 0, 0x12, 3, 0, 0, 0, 119, 0, 8]⟩],
    [1, 0, 0, 0, 0x12, 5, 0, 0, 0, 119, 2, 0, 0, 0, 0x12, 3, 0, 0, 0, 119, 0, 8]⟩
  have h : execList writeStep .init broken = some s := by decide
  have h' : execList writeStep s later = some s' := by decide
  exact ⟨s, s', run_of_execList h, by decide, rfl, run_of_execList h', by decide, rfl⟩

end Busrt
