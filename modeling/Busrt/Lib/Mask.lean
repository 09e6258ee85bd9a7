/-
# Masks over chunks, and when one mask covers another

A mask is a list of chunks, two of which are special: `any` stands for one
chunk, `many` for everything that follows. A mask matches a list of literal
chunks (`isMatch`). Read as a literal, a mask may itself be matched by another
mask, and that says nothing about the literals it stands for: `+` matches the
chunk `#`. `covers` is the check that does, also where the two are masks of two
languages with special chunks of their own: it never lets a `many` of the
request stand under a chunk of the mask, nor its `any` under the same chunk as a
literal, and what it accepts is an inclusion of languages (`isMatch_of_covers`).
Several masks may cover between them what none of them covers alone: then it is
the readings of the request's `many` as a number of chunks that are covered one
by one (`expand`).

Strings are masks through their chunks between separators (`Cfg`).

Key definitions: `Wild`, `Mask.isMatch`, `Mask.covers`, `Mask.expand`, `Cfg.isMatch`,
`Cfg.coversAt`.
Key theorems: `Mask.isMatch_of_covers`, `Mask.isMatch_of_literal`, `Cfg.exists_isMatch`.
-/
import Mathlib.Tactic

namespace Busrt
namespace Lib

/-- The two special chunks, and whether `many` also stands for no chunk. -/
structure Wild (α : Type*) where
  any : α
  many : α
  zero : Bool

namespace Mask

variable {α : Type*} [DecidableEq α] (w : Wild α)

/-- The mask, chunk by chunk, against literal chunks. -/
def isMatch : List α → List α → Bool
  | [], ts => ts.isEmpty
  | m :: ms, ts =>
    if m = w.many then w.zero || !ts.isEmpty
    else
      match ts with
      | [] => false
      | t :: ts => (m = w.any || m = t) && isMatch ms ts

/-- The mask of the language `w` against a request that is itself a mask, of the language `v`:
no `many` of the request may be taken for a chunk, and no `any` for a literal. -/
def covers (v : Wild α) : List α → List α → Bool
  | [], ps => ps.isEmpty
  | m :: ms, ps =>
    if m = w.many then w.zero || !isMatch v ps []
    else
      match ps with
      | [] => false
      | p :: ps => p ≠ v.many && (m = w.any || m = p && p ≠ v.any) && covers v ms ps

variable {w}

theorem isMatch_many (ms ts : List α) : isMatch w (w.many :: ms) ts = (w.zero || !ts.isEmpty) := by
  simp [isMatch]

theorem isMatch_cons {m : α} (hm : m ≠ w.many) (ms : List α) (t : α) (ts : List α) :
    isMatch w (m :: ms) (t :: ts) = ((m = w.any || m = t) && isMatch w ms ts) := by
  simp [isMatch, hm]

theorem isMatch_cons_nil {m : α} (hm : m ≠ w.many) (ms : List α) :
    isMatch w (m :: ms) [] = false := by
  simp [isMatch, hm]

/-- **A covered request stands for nothing that the mask does not match.** -/
theorem isMatch_of_covers {v : Wild α} : ∀ (ms ps ts : List α),
    covers w v ms ps = true → isMatch v ps ts = true → isMatch w ms ts = true
  | [], ps, ts, hc, ht => by
    have hp : ps = [] := by simpa [covers] using hc
    subst hp
    exact ht
  | m :: ms, ps, ts, hc, ht => by
    by_cases hm : m = w.many
    · subst hm
      rw [isMatch_many]
      rcases hz : w.zero with _ | _
      · have hps : isMatch v ps [] = false := by simpa [covers, hz] using hc
        have hts : ts ≠ [] := by
          rintro rfl
          rw [hps] at ht
          cases ht
        simpa using hts
      · rfl
    · match ps with
      | [] => simp [covers, hm] at hc
      | p :: ps =>
        simp only [covers, if_neg hm, Bool.and_eq_true, decide_eq_true_eq, Bool.or_eq_true] at hc
        obtain ⟨⟨hp, hmp⟩, hc⟩ := hc
        match ts with
        | [] => rw [isMatch_cons_nil hp] at ht; cases ht
        | t :: ts =>
          rw [isMatch_cons hp] at ht
          rw [isMatch_cons hm]
          simp only [Bool.and_eq_true, Bool.or_eq_true, decide_eq_true_eq] at ht ⊢
          refine ⟨?_, isMatch_of_covers ms ps ts hc ht.2⟩
          rcases hmp with h | ⟨rfl, hany⟩
          · exact .inl h
          · exact .inr (ht.1.resolve_left hany)

/-- A request with its `many` read as `n` chunks. -/
def expand (w : Wild α) (n : ℕ) : List α → List α
  | [] => []
  | p :: ps => if p = w.many then List.replicate n w.any else p :: expand w n ps

/-- What a request matches, it matches with its `many` read as some number of
chunks. -/
theorem isMatch_expand (ha : w.any ≠ w.many) : ∀ (ps ts : List α), isMatch w ps ts = true →
    ∃ n, (w.zero = true ∨ 0 < n) ∧ isMatch w (expand w n ps) ts = true
  | [], ts, h => ⟨1, .inr Nat.one_pos, h⟩
  | p :: ps, ts, h => by
    by_cases hp : p = w.many
    · subst hp
      rw [isMatch_many] at h
      refine ⟨ts.length, ?_, ?_⟩
      · rcases Bool.or_eq_true_iff.mp h with hz | hts
        · exact .inl hz
        · exact .inr (List.length_pos_iff.mpr (by simpa using hts))
      · rw [expand, if_pos rfl]
        clear h
        induction ts with
        | nil => rfl
        | cons t ts ih =>
          rw [List.length_cons, List.replicate_succ, isMatch_cons ha, ih]
          simp
    · match ts with
      | [] => rw [isMatch_cons_nil hp] at h; cases h
      | t :: ts =>
        rw [isMatch_cons hp, Bool.and_eq_true] at h
        obtain ⟨n, hn, he⟩ := isMatch_expand ha ps ts h.2
        refine ⟨n, hn, ?_⟩
        rw [expand, if_neg hp, isMatch_cons hp, h.1, he]
        rfl

/-- A mask without special chunks matches itself only. -/
theorem isMatch_of_literal : ∀ ms ts : List α, w.any ∉ ms → w.many ∉ ms →
    isMatch w ms ts = true → ms = ts
  | [], _, _, _, h => (List.isEmpty_iff.mp h).symm
  | m :: ms, ts, ha, hm, h => by
    rw [List.mem_cons, not_or] at ha hm
    have hm' : m ≠ w.many := fun he => hm.1 he.symm
    match ts with
    | [] => rw [isMatch_cons_nil hm'] at h; cases h
    | t :: ts =>
      rw [isMatch_cons hm', Bool.and_eq_true, Bool.or_eq_true, decide_eq_true_eq,
        decide_eq_true_eq] at h
      obtain ⟨h1, h2⟩ := h
      have ht : m = t := h1.resolve_left fun he => ha.1 he.symm
      rw [ht, isMatch_of_literal ms ts ha.2 hm.2 h2]

end Mask

/-- The mask language of a map: chunks lie between separators. -/
structure Cfg where
  sep : Char
  any : String
  many : String
  zero : Bool
  deriving DecidableEq

namespace Cfg

variable (k : Cfg)

/-- The chunks of a string. -/
def chunks (s : String) : List (List Char) := s.toList.splitOn k.sep

def wild : Wild (List Char) := ⟨k.any.toList, k.many.toList, k.zero⟩

/-- The string `mask`, as a mask, matches the string `s`, as a literal. -/
def isMatch (mask s : String) : Bool := Mask.isMatch k.wild (k.chunks mask) (k.chunks s)

/-- The mask, of the language `k`, covers the request, of the language `j`, with its `many` read
as `n` chunks. -/
def coversAt (j : Cfg) (n : ℕ) (mask request : String) : Bool :=
  Mask.covers k.wild j.wild (k.chunks mask) (Mask.expand j.wild n (j.chunks request))

variable {k}

/-- A request whose every reading is covered by one of the masks stands for
nothing that none of them matches. -/
theorem exists_isMatch {j : Cfg} {masks : String → Prop} {request s : String} (ha : j.any ≠ j.many)
    (hsep : k.sep = j.sep)
    (hc : ∀ n, (j.zero = true ∨ 0 < n) → ∃ mask, masks mask ∧ k.coversAt j n mask request = true)
    (h : j.isMatch request s = true) : ∃ mask, masks mask ∧ k.isMatch mask s = true := by
  have ha' : j.wild.any ≠ j.wild.many := fun he => ha (String.toList_inj.mp he)
  have hchunks : k.chunks s = j.chunks s := by rw [chunks, chunks, hsep]
  obtain ⟨n, hn, he⟩ := Mask.isMatch_expand ha' _ _ h
  obtain ⟨mask, hm, hcov⟩ := hc n hn
  refine ⟨mask, hm, ?_⟩
  rw [isMatch, hchunks]
  exact Mask.isMatch_of_covers _ _ _ hcov he

/-- A string without special chunks stands, as a mask, for itself. -/
theorem eq_of_literal {mask s : String} (ha : k.any.toList ∉ k.chunks mask)
    (hm : k.many.toList ∉ k.chunks mask) (h : k.isMatch mask s = true) : mask = s := by
  have hc := Mask.isMatch_of_literal _ _ ha hm h
  have hj := congrArg (List.intercalate [k.sep]) hc
  rw [chunks, chunks, List.intercalate_splitOn, List.intercalate_splitOn] at hj
  exact String.toList_inj.mp hj

end Cfg

end Lib
end Busrt
