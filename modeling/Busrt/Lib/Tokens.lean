/-
# Tokens that are spent once

Tokens are issued, move about in the state of a system, may get lost, and are
spent. `credit s t` says how often the token `t` is there to be spent. If a step
adds to a credit no more than it issues, takes from it what it spends, and issues
only tokens that nobody knows yet, then no token is spent twice (`spent_nodup`).

Where the tokens are in places, one for each number, all but finitely many of which
are empty, the credit is a sum over all places (`finsum_update_add`).

Key definitions: `Thrift`.
Key theorems: `spent_nodup`, `finsum_update_add`.
-/
import Busrt.Lib.Run
import Mathlib.Algebra.BigOperators.Finprod
import Mathlib.Tactic

namespace Busrt
namespace Lib

variable {σ α τ : Type*} [DecidableEq τ]

/-- A system that issues and spends tokens, in states with `I`. -/
structure Thrift (R : σ → α → σ → Prop) (I : σ → Prop) (credit : σ → τ → ℕ)
    (issued spent : σ → α → Option τ) (known : σ → τ → Prop) : Prop where
  inv : ∀ {s a s'}, I s → R s a s' → I s'
  trades : ∀ {s a s'}, I s → R s a s' → ∀ t,
    credit s' t + (spent s a).toList.count t ≤ credit s t + (issued s a).toList.count t
  keeps : ∀ {s a s'}, I s → R s a s' → ∀ t, known s t → known s' t
  issues : ∀ {s a s'}, I s → R s a s' → ∀ t, issued s a = some t → ¬ known s t ∧ known s' t

variable {R : σ → α → σ → Prop} {I : σ → Prop} {credit : σ → τ → ℕ}
  {issued spent : σ → α → Option τ}
  {known : σ → τ → Prop}

/-- What was spent: once each, and nothing that is still there, and only what is known. -/
structure Spent (credit : σ → τ → ℕ) (known : σ → τ → Prop) (s : σ) (ts : List τ) : Prop where
  once : ∀ t, credit s t + ts.count t ≤ 1
  unknown : ∀ t, ¬ known s t → credit s t + ts.count t = 0

theorem Spent.step (hT : Thrift R I credit issued spent known) {s s' : σ} {a : α} {ts : List τ}
    (h : Spent credit known s ts) (hI : I s) (hs : R s a s') :
    Spent credit known s' (ts ++ (spent s a).toList) := by
  have hcount : ∀ t, credit s' t + (ts ++ (spent s a).toList).count t ≤
      credit s t + ts.count t + (issued s a).toList.count t := by
    intro t
    have hstep := hT.trades hI hs t
    rw [List.count_append]
    omega
  have hother : ∀ t, issued s a ≠ some t → (issued s a).toList.count t = 0 := by
    intro t ht
    refine List.count_eq_zero.mpr fun hmem => ht ?_
    simpa using hmem
  constructor
  · intro t
    by_cases ht : issued s a = some t
    · have hzero := h.unknown t (hT.issues hI hs t ht).1
      have hle := hcount t
      rw [hzero, ht] at hle
      simpa using hle
    · have hle := hcount t
      rw [hother t ht] at hle
      exact hle.trans (h.once t)
  · intro t ht
    have hne : issued s a ≠ some t := fun hi => ht (hT.issues hI hs t hi).2
    have hzero := h.unknown t fun hk => ht (hT.keeps hI hs t hk)
    have hle := hcount t
    rw [hzero, hother t hne] at hle
    exact Nat.le_zero.mp hle

/-- **No token is spent twice.** -/
theorem spent_nodup (hT : Thrift R I credit issued spent known) {s₀ s : σ} {as : List α}
    {ts : List τ} (h : Run (Tracked R fun s a ts => ts ++ (spent s a).toList) (s₀, []) as (s, ts))
    (hI : I s₀) (h₀ : ∀ t, credit s₀ t = 0) : ts.Nodup := by
  have hinv : I s ∧ Spent credit known s ts := by
    refine h.inv (I := fun p => I p.1 ∧
      Spent credit known p.1 p.2) (fun p a q hp hst => ?_) ⟨hI, ?_⟩
    · obtain ⟨hst, hq⟩ := hst
      rw [hq]
      exact ⟨hT.inv hp.1 hst, hp.2.step hT hp.1 hst⟩
    · refine ⟨fun t => ?_, fun t _ => ?_⟩ <;> simp [h₀ t]
  refine List.nodup_iff_count_le_one.mpr fun t => ?_
  have hle := hinv.2.once t
  omega

/-- One place changes, and the sum with it. -/
theorem finsum_update_add {ι : Type*} [DecidableEq ι] {g : ι → ℕ} (hg : (Function.support g).Finite)
    (i : ι) (v : ℕ) :
    (∑ᶠ x, Function.update g i v x) + g i = (∑ᶠ x, g x) + v := by
  have hsub : ∀ {f : ι → ℕ}, (∀ x, x ≠ i → f x = g x) →
      Function.support f ⊆ ↑(insert i hg.toFinset) := by
    intro f hf x hx
    by_cases h : x = i
    · subst h
      exact Finset.mem_coe.mpr (Finset.mem_insert_self _ _)
    · rw [Function.mem_support, hf x h] at hx
      exact Finset.mem_coe.mpr (Finset.mem_insert_of_mem (hg.mem_toFinset.mpr hx))
  have hi : i ∈ insert i hg.toFinset := Finset.mem_insert_self _ _
  rw [finsum_eq_sum_of_support_subset _ (hsub fun x hx => Function.update_of_ne hx _ _),
    finsum_eq_sum_of_support_subset g (hsub fun _ _ => rfl), Finset.sum_update_of_mem hi,
    Finset.sdiff_singleton_eq_erase, ← Finset.add_sum_erase _ g hi]
  omega

end Lib
end Busrt
