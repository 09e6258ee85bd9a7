/-
# Requests that wait for their answers

A requester numbers its requests 1, 2, 3 and so on, and writes on each a key of
bounded size; a counter that goes from its maximum back to 1 (`wrapNext`) gives
every request of a window of that many a key of its own (`windowed_wrap`).

A table keeps the requests that wait, by key: a request is entered when it is
made, in place of what was there, and taken out by its answer. So what the
table has under a key is the last request entered with it (`Pending`), and the
answer to a request that comes before the keys have gone around finds that
request or nothing (`Pending.eq_of_window`).

Key definitions: `wrapNext`, `Windowed`, `Pending`.
Key theorems: `windowed_wrap`, `Pending.enter`, `Pending.eq_of_window`.
-/
import Mathlib.Tactic
import Mathlib.Logic.Function.Iterate

namespace Busrt
namespace Lib

/-! ### Keys -/

/-- The next value of a counter that starts again at 1. -/
def wrapNext (max n : ℕ) : ℕ := if n = max then 1 else n + 1

/-- Requests less than `w` apart have different keys. -/
def Windowed {κ : Type*} (w : ℕ) (key : ℕ → κ) : Prop :=
  ∀ m n, 1 ≤ m → m ≤ n → n - m < w → key m = key n → m = n

/-- The value of the counter after some steps. -/
theorem iterate_wrapNext {max : ℕ} (hmax : 0 < max) : ∀ n, (wrapNext max)^[n + 1] 0 = n % max + 1
  | 0 => by simp [wrapNext, hmax.ne]
  | n + 1 => by
    rw [Function.iterate_succ_apply', iterate_wrapNext hmax n, wrapNext]
    have hlt := Nat.mod_lt n hmax
    have hmod := Nat.add_mod n 1 max
    split
    · rename_i he
      have hdvd : (n + 1) % max = 0 := by
        rw [Nat.mod_add_mod n max 1 |>.symm, he, Nat.mod_self]
      rw [hdvd]
    · rename_i hne
      have hlt' : n % max + 1 < max := by omega
      rw [← Nat.mod_add_mod n max 1, Nat.mod_eq_of_lt hlt']

theorem windowed_wrap {max : ℕ} (hmax : 0 < max) : Windowed max fun n => (wrapNext max)^[n] 0 := by
  intro m n hm hmn hw h
  obtain ⟨m, rfl⟩ := Nat.exists_eq_add_of_le' hm
  obtain ⟨n, rfl⟩ := Nat.exists_eq_add_of_le' (hm.trans hmn)
  simp only [iterate_wrapNext hmax, Nat.add_right_cancel_iff] at h
  have hdvd : max ∣ n - m := (Nat.modEq_iff_dvd' (by omega)).mp h
  have hzero := Nat.eq_zero_of_dvd_of_lt hdvd (by omega)
  omega

theorem wrap_pos {max : ℕ} (hmax : 0 < max) {n : ℕ} (hn : 1 ≤ n) : 0 < (wrapNext max)^[n] 0 := by
  obtain ⟨n, rfl⟩ := Nat.exists_eq_add_of_le' hn
  rw [iterate_wrapNext hmax]
  exact Nat.succ_pos _

/-! ### The table -/

section Pending

variable {κ α : Type*} {key : ℕ → κ} {num : α → ℕ} {asked : ℕ → Prop} {count : ℕ}
  {tbl : κ → Option α}

/-- What a table has: requests that were made, each the last one with its key of those
that were entered (`asked`). -/
structure Pending (key : ℕ → κ) (num : α → ℕ) (asked : ℕ → Prop) (count : ℕ) (tbl : κ → Option α) :
    Prop where
  entry : ∀ k a, tbl k = some a → k = key (num a) ∧ 1 ≤ num a ∧ num a ≤ count ∧ asked (num a)
  latest : ∀ k a, tbl k = some a → ∀ m, num a < m → m ≤ count → asked m → key m ≠ k

theorem pending_empty : Pending key num asked 0 fun _ => none := ⟨nofun, nofun⟩

/-- Only the requests that were made matter. -/
theorem Pending.congr (h : Pending key num asked count tbl) {asked' : ℕ → Prop}
    (ha : ∀ m ≤ count, asked m ↔ asked' m) : Pending key num asked' count tbl := by
  refine ⟨fun k a hk => ?_, fun k a hk m hm hle hma =>
    h.latest k a hk m hm hle ((ha m hle).mpr hma)⟩
  obtain ⟨h1, h2, h3, h4⟩ := h.entry k a hk
  exact ⟨h1, h2, h3, (ha _ h3).mp h4⟩

/-- A request is made and entered. -/
theorem Pending.enter [DecidableEq κ] (h : Pending key num asked count tbl) {a : α}
    (ha : num a = count + 1) (hasked : asked (count + 1)) :
    Pending key num asked (count + 1) (Function.update tbl (key (count + 1)) (some a)) := by
  constructor
  · intro k b hb
    rw [Function.update_apply] at hb
    split at hb
    · rename_i hk
      cases hb
      rw [ha]
      exact ⟨hk, by omega, le_rfl, hasked⟩
    · obtain ⟨h1, h2, h3, h4⟩ := h.entry k b hb
      exact ⟨h1, h2, by omega, h4⟩
  · intro k b hb m hm hle hma
    rw [Function.update_apply] at hb
    split at hb
    · cases hb
      omega
    · rename_i hk
      rcases Nat.lt_or_ge count m with hlt | hge
      · have hmc : m = count + 1 := by omega
        rw [hmc]
        exact fun he => hk he.symm
      · exact h.latest k b hb m hm hge hma

/-- A request is made and not entered. -/
theorem Pending.skip (h : Pending key num asked count tbl) (hasked : ¬ asked (count + 1)) :
    Pending key num asked (count + 1) tbl := by
  refine ⟨fun k a ha => ?_, fun k a ha m hm hle hma => ?_⟩
  · obtain ⟨h1, h2, h3, h4⟩ := h.entry k a ha
    exact ⟨h1, h2, by omega, h4⟩
  · rcases Nat.lt_or_ge count m with hlt | hge
    · have hmc : m = count + 1 := by omega
      exact absurd (hmc ▸ hma) hasked
    · exact h.latest k a ha m hm hge hma

/-- An entry is taken out. -/
theorem Pending.remove [DecidableEq κ] (h : Pending key num asked count tbl) (k : κ) :
    Pending key num asked count (Function.update tbl k none) := by
  have hsub : ∀ k' a, Function.update tbl k none k' = some a → tbl k' = some a := by
    intro k' a ha
    rw [Function.update_apply] at ha
    split at ha
    · cases ha
    · exact ha
  exact ⟨fun k' a ha => h.entry k' a (hsub k' a ha), fun k' a ha => h.latest k' a (hsub k' a ha)⟩

/-- What an answer to the request `m` finds, before the keys have gone around, is
that request. -/
theorem Pending.eq_of_window (h : Pending key num asked count tbl) {w : ℕ} (hkey : Windowed w key)
    {m : ℕ} {a : α} (hm : asked m) (hpos : 1 ≤ m) (hle : m ≤ count) (hw : count - m < w)
    (ha : tbl (key m) = some a) : num a = m := by
  obtain ⟨hk, -, hcount, -⟩ := h.entry _ a ha
  rcases Nat.lt_or_ge (num a) m with hlt | hge
  · exact absurd rfl (h.latest _ a ha m hlt hle hm)
  · exact (hkey m (num a) hpos hge (by omega) hk).symm

end Pending

end Lib
end Busrt
