/-
# Agents that wait for locks

Every lock has at most one holder and every agent wants at most one lock. An
agent waits for the holder of the lock it wants (`WaitsFor`). When the locks
have levels and nobody wants a lock at or below the level of one it holds, the
levels of the wanted locks rise along every chain of waits
(`level_lt_of_transGen`): there is no cycle (`not_transGen_self`), and nobody
waits for itself (`not_waits_self`). The levels need not be fixed once and for
all, only be the same for all locks at the time of the waits.

Key definitions: `WaitsFor`, `Climbs`.
Key theorems: `not_transGen_self`, `not_waits_self`.
-/
import Mathlib.Logic.Relation
import Mathlib.Order.Basic

namespace Busrt
namespace Lib

variable {τ μ L : Type*} [Preorder L] {wants : τ → Option μ} {holder : μ → Option τ} {level : μ → L}

/-- `t` waits for a lock that `u` holds. -/
def WaitsFor (wants : τ → Option μ) (holder : μ → Option τ) (t u : τ) : Prop :=
  ∃ m, wants t = some m ∧ holder m = some u

/-- Who wants a lock holds none that is not below it. -/
def Climbs (wants : τ → Option μ) (holder : μ → Option τ) (level : μ → L) : Prop :=
  ∀ t m m', holder m = some t → wants t = some m' → level m < level m'

namespace Climbs

variable (h : Climbs wants holder level)
include h

theorem not_waits_self (t : τ) : ¬ WaitsFor wants holder t t := by
  rintro ⟨m, hw, hm⟩
  exact lt_irrefl _ (h t m m hm hw)

/-- Along a chain of waits the levels of what is wanted rise. -/
theorem level_lt_of_transGen {t u : τ} (hc : Relation.TransGen (WaitsFor wants holder) t u) {m' : μ}
    (hu : wants u = some m') : ∃ m, wants t = some m ∧ level m < level m' := by
  induction hc using Relation.TransGen.head_induction_on with
  | single hs =>
    obtain ⟨m, hw, hm⟩ := hs
    exact ⟨m, hw, h _ m m' hm hu⟩
  | head hs _ ih =>
    obtain ⟨m, hw, hm⟩ := hs
    obtain ⟨m₁, hw₁, hlt⟩ := ih
    exact ⟨m, hw, lt_trans (h _ m m₁ hm hw₁) hlt⟩

/-- **No cycle of waits.** -/
theorem not_transGen_self (t : τ) : ¬ Relation.TransGen (WaitsFor wants holder) t t := by
  intro hc
  obtain ⟨m, hw⟩ : ∃ m, wants t = some m := by
    obtain ⟨-, ⟨m, hw, -⟩, -⟩ := Relation.TransGen.head'_iff.mp hc
    exact ⟨m, hw⟩
  obtain ⟨m₁, hw₁, hlt⟩ := h.level_lt_of_transGen hc hw
  obtain rfl : m₁ = m := Option.some.inj (hw₁.symm.trans hw)
  exact lt_irrefl _ hlt

end Climbs

end Lib
end Busrt
