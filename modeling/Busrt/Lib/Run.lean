/-
# Labelled runs of a step relation

A system here is a relation `step s a s'`: the action `a` may take the state
`s` to `s'`. `Run step s as s'` is a finite run with the actions `as`; an
invariant is a property of states that every step keeps, and it holds at the
end of every run from a state that has it (`Run.inv`). `Guarded step G` keeps
only the steps whose action meets `G` in the state it starts from: a property
that holds when a condition is met at every step of a run is an invariant of
the guarded relation.

`Tracked` lets a run keep a record that its steps do not read.

Key definitions: `Run`, `Guarded`, `Tracked`, `execList`.
Key theorems: `Run.inv`, `Run.exists_of_measure`, `run_of_execList`.
-/
import Mathlib.Data.List.Basic

namespace Busrt
namespace Lib

variable {σ α : Type*}

/-- A finite run of `step` from `s` to `s'` with the actions `as`. -/
inductive Run (step : σ → α → σ → Prop) : σ → List α → σ → Prop
  | nil (s : σ) : Run step s [] s
  | cons {s s' s'' : σ} {a : α} {as : List α} :
      step s a s' → Run step s' as s'' → Run step s (a :: as) s''

/-- The steps of `step` whose action meets `G` in the state before it. -/
def Guarded (step : σ → α → σ → Prop) (G : σ → α → Prop) (s : σ) (a : α) (s' : σ) : Prop :=
  G s a ∧ step s a s'

namespace Run

variable {step : σ → α → σ → Prop} {s s' s'' : σ} {as bs : List α}

/-- What every step keeps, every run keeps. -/
theorem inv {I : σ → Prop} (hstep : ∀ s a s', I s → step s a s' → I s') (h : Run step s as s')
    (hs : I s) : I s' := by
  induction h with
  | nil => exact hs
  | cons hst _ ih => exact ih (hstep _ _ _ hs hst)

theorem append (h : Run step s as s') (h' : Run step s' bs s'') : Run step s (as ++ bs) s'' := by
  induction h with
  | nil => exact h'
  | cons hst _ ih => exact .cons hst (ih h')

theorem single {a : α} (h : step s a s') : Run step s [a] s' := .cons h (.nil _)

/-- A run of a smaller relation is a run of a larger one. -/
theorem mono {step' : σ → α → σ → Prop} (hle : ∀ s a s', step s a s' → step' s a s')
    (h : Run step s as s') : Run step' s as s' := by
  induction h with
  | nil => exact .nil _
  | cons hst _ ih => exact .cons (hle _ _ _ hst) ih

/-- A run whose actions all meet the guard, in every state. -/
theorem guarded {G : σ → α → Prop} (h : Run step s as s') (hG : ∀ s, ∀ a ∈ as, G s a) :
    Run (Guarded step G) s as s' := by
  induction h with
  | nil => exact .nil _
  | cons hst _ ih =>
    exact .cons ⟨hG _ _ List.mem_cons_self, hst⟩ (ih fun s a ha =>
      hG s a (List.mem_cons_of_mem _ ha))

/-- A system that can always lower its measure until it is done can be done: what is
chosen on the way keeps `I`, and takes only actions with `Q`. -/
theorem exists_of_measure {β : Type*} {r : β → β → Prop} {I D : σ → Prop} {Q : α → Prop} (μ : σ → β)
    (hr : WellFounded r)
    (hstep : ∀ s, I s → ¬ D s → ∃ as s', Run step s as s' ∧ (∀ a ∈ as, Q a) ∧ I s' ∧ r (μ s') (μ s))
    (s : σ) (hs : I s) : ∃ as s', Run step s as s' ∧ (∀ a ∈ as, Q a) ∧ I s' ∧ D s' := by
  induction h : μ s using hr.induction generalizing s with
  | _ m ih =>
    by_cases hd : D s
    · exact ⟨[], s, .nil s, fun a ha => (by cases ha), hs, hd⟩
    · obtain ⟨as, s₁, hrun, hq, h₁, hlt⟩ := hstep s hs hd
      obtain ⟨bs, s', hrun', hq', h', hd'⟩ := ih _ (h ▸ hlt) s₁ h₁ rfl
      refine ⟨as ++ bs, s', hrun.append hrun', fun a ha => ?_, h', hd'⟩
      exact (List.mem_append.mp ha).elim (hq a) (hq' a)

end Run

/-- The steps of `step`, with a record of the run that `upd` keeps. -/
def Tracked {γ : Type*} (step : σ → α → σ → Prop) (upd : σ → α → γ → γ) (p : σ × γ) (a : α)
    (q : σ × γ) : Prop :=
  step p.1 a q.1 ∧ q.2 = upd p.1 a p.2

/-- A part of the record is a record. -/
theorem Run.record {γ δ : Type*} {step : σ → α → σ → Prop} {upd : σ → α → γ → γ}
    {upd' : σ → α → δ → δ} (g : γ → δ) (hg : ∀ s a c, g (upd s a c) = upd' s a (g c)) {p q : σ × γ}
    {as : List α} (h : Run (Tracked step upd) p as q) :
    Run (Tracked step upd') (p.1, g p.2) as (q.1, g q.2) := by
  induction h with
  | nil => exact .nil _
  | cons hst _ ih =>
    obtain ⟨hst, hq⟩ := hst
    rw [hq, hg] at ih
    exact .cons ⟨hst, rfl⟩ ih

/-- Without its record it is a run. -/
theorem Run.plain {γ : Type*} {step : σ → α → σ → Prop} {upd : σ → α → γ → γ} {p q : σ × γ}
    {as : List α} (h : Run (Tracked step upd) p as q) : Run step p.1 as q.1 := by
  induction h with
  | nil => exact .nil _
  | cons hst _ ih => exact .cons hst.1 ih

/-- The record of a run, as computed. -/
def track {γ : Type*} (f : σ → α → Option σ) (upd : σ → α → γ → γ) (p : σ × γ) (a : α) :
    Option (σ × γ) :=
  (f p.1 a).map fun s => (s, upd p.1 a p.2)

theorem tracked_of_track {γ : Type*} {f : σ → α → Option σ} {upd : σ → α → γ → γ} {p q : σ × γ}
    {a : α} (h : track f upd p a = some q) : Tracked (fun s a s' => f s a = some s') upd p a q := by
  obtain ⟨s, hs, rfl⟩ := Option.map_eq_some_iff.mp h
  exact ⟨hs, rfl⟩

/-- A list of actions of a step function. -/
def execList (f : σ → α → Option σ) : σ → List α → Option σ
  | s, [] => some s
  | s, a :: as => (f s a).bind fun s' => execList f s' as

/-- What a step function computes is a run. -/
theorem run_of_execList {f : σ → α → Option σ} :
    ∀ {as : List α} {s s' : σ}, execList f s as = some s' →
    Run (fun s a s' => f s a = some s') s as s'
  | [], s, s', h => by obtain rfl := Option.some.inj h; exact .nil s
  | a :: as, s, s', h => by
    obtain ⟨s₁, h1, h2⟩ := Option.bind_eq_some_iff.mp h
    exact .cons h1 (run_of_execList h2)

/-- The same with a check of each step before it is done. -/
theorem run_of_checked {f : σ → α → Option σ} {G : σ → α → Prop} {g : σ → α → Bool}
    (hg : ∀ s a, g s a = true → G s a) {as : List α} {s s' : σ}
    (h : execList (fun s a => if g s a then f s a else none) s as = some s') :
    Run (Guarded (fun s a s' => f s a = some s') G) s as s' := by
  refine (run_of_execList h).mono fun s a s' hs => ?_
  split at hs
  · exact ⟨hg s a ‹_›, hs⟩
  · cases hs

/-- The same with its record. -/
theorem run_of_track {γ : Type*} {f : σ → α → Option σ} {upd : σ → α → γ → γ} {p q : σ × γ}
    {as : List α} (h : execList (track f upd) p as = some q) :
    Run (Tracked (fun s a s' => f s a = some s') upd) p as q :=
  (run_of_execList h).mono fun _ _ _ ht => tracked_of_track ht

end Lib
end Busrt
