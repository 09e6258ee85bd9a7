/-
# Bytes: separators and little-endian numbers

Splitting a buffer at the first zero byte (`splitZero`), at all of them
(`splitZeros`), and numbers of a fixed number of bytes, least significant
first (`toLe`, `ofLe`). A field that has no zero byte in it comes back from
the buffer it was written into (`splitZero_append`), and a number that fits
its bytes from them (`ofLe_toLe`). Parts that are joined with a zero byte between
them come back but for empty ones at the front (`splitZeros_joinZeros`).

Key definitions: `splitZero`, `splitZeros`, `joinZeros`, `toLe`, `ofLe`.
Key theorems: `splitZero_append`, `splitZeros_joinZeros`, `ofLe_toLe`, `toLe_ofLe`.
-/
import Mathlib.Tactic

namespace Busrt
namespace Lib

/-- The bytes before the first zero byte, and those after it if there is one. -/
def splitZero : List UInt8 → List UInt8 × Option (List UInt8)
  | [] => ([], none)
  | b :: bs => if b = 0 then ([], some bs) else ((b :: (splitZero bs).1), (splitZero bs).2)

/-- The parts between zero bytes. -/
def splitZeros (bs : List UInt8) : List (List UInt8) := bs.splitOn 0

/-- A field without a zero byte, a zero byte, and the rest. -/
theorem splitZero_append : ∀ (a : List UInt8), 0 ∉ a → ∀ b, splitZero (a ++ 0 :: b) = (a, some b)
  | [], _, b => by simp [splitZero]
  | x :: a, h, b => by
    rw [List.mem_cons, not_or] at h
    have hx : x ≠ 0 := fun hx => h.1 hx.symm
    simp [splitZero, hx, splitZero_append a h.2 b]

/-- Without a zero byte there is one part. -/
theorem splitZeros_eq {bs : List UInt8} (h : 0 ∉ bs) : splitZeros bs = [bs] := by
  rw [splitZeros, List.splitOn_eq_splitOnP]
  apply List.splitOnP_eq_singleton
  intro x hx
  have hne : x ≠ 0 := fun hz => h (hz ▸ hx)
  simpa using hne

/-- What is found is the buffer itself. -/
theorem splitZero_some :
    ∀ {bs a b : List UInt8}, splitZero bs = (a, some b) → bs = a ++ 0 :: b ∧ 0 ∉ a
  | [], a, b, h => by simp [splitZero] at h
  | x :: bs, a, b, h => by
    rw [splitZero] at h
    split at h
    · rename_i hx
      obtain ⟨rfl, hb⟩ := Prod.mk.inj h
      obtain rfl := Option.some.inj hb
      simp [hx]
    · rename_i hx
      obtain ⟨rfl, hb⟩ := Prod.mk.inj h
      obtain ⟨h1, h2⟩ :=
        splitZero_some (Prod.ext rfl hb : splitZero bs = ((splitZero bs).1, some b))
      refine ⟨by rw [List.cons_append, ← h1], ?_⟩
      rw [List.mem_cons, not_or]
      exact ⟨fun hz => hx hz.symm, h2⟩

/-- The parts one after the other, with a zero byte between two only if something was written
before. -/
def joinZeros (parts : List (List UInt8)) : List UInt8 :=
  parts.foldl (fun acc part => (if acc.isEmpty then acc else acc ++ [0]) ++ part) []

theorem intercalate_append (x y : List UInt8) : ∀ parts : List (List UInt8),
    [0].intercalate ((x ++ y) :: parts) = x ++ [0].intercalate (y :: parts)
  | [] => by simp
  | p :: parts => by simp [List.intercalate_cons_cons]

/-- Once something is written all parts are kept apart. -/
theorem foldl_join : ∀ (parts : List (List UInt8)) (acc : List UInt8), acc ≠ [] →
    parts.foldl (fun acc part => (if acc.isEmpty then acc else acc ++ [0]) ++ part) acc =
      [0].intercalate (acc :: parts)
  | [], acc, _ => by simp
  | p :: parts, acc, h => by
    have hne : acc ++ [0] ++ p ≠ [] := by simp
    rw [List.foldl_cons, List.isEmpty_eq_false_iff.mpr h, if_neg Bool.false_ne_true,
      foldl_join parts _ hne, intercalate_append, List.intercalate_cons_cons]

/-- Empty parts at the front leave nothing. -/
theorem joinZeros_eq :
    ∀ parts : List (List UInt8), joinZeros parts = [0].intercalate (parts.dropWhile (·.isEmpty))
  | [] => rfl
  | [] :: parts => joinZeros_eq parts
  | (b :: bs) :: parts => foldl_join parts (b :: bs) nofun

/-- What comes back from a list of parts: it without the empty parts at its front, or one empty
part. -/
theorem splitZeros_joinZeros {parts : List (List UInt8)} (h : ∀ p ∈ parts, 0 ∉ p) :
    splitZeros (joinZeros parts) = match parts.dropWhile (·.isEmpty) with
      | [] => [[]]
      | ps => ps := by
  have hsub := (List.dropWhile_suffix (fun p : List UInt8 => p.isEmpty) (l := parts)).subset
  rw [splitZeros, joinZeros_eq]
  cases hd : parts.dropWhile (·.isEmpty) with
  | nil => rfl
  | cons p ps =>
    refine List.splitOn_intercalate 0 (fun l hl => h l (hsub ?_)) nofun
    rw [hd]
    exact hl

/-- The `w` low bytes of a number, least significant first. -/
def toLe : ℕ → ℕ → List UInt8
  | 0, _ => []
  | w + 1, n => UInt8.ofNat (n % 256) :: toLe w (n / 256)

/-- The number that bytes stand for, least significant first. -/
def ofLe : List UInt8 → ℕ
  | [] => 0
  | b :: bs => b.toNat + 256 * ofLe bs

@[simp] theorem length_toLe : ∀ w n, (toLe w n).length = w
  | 0, _ => rfl
  | w + 1, n => by simp [toLe, length_toLe w]

/-- The bytes keep a number modulo what they can hold. -/
theorem ofLe_toLe : ∀ w n, ofLe (toLe w n) = n % 256 ^ w
  | 0, n => by simp [toLe, ofLe, Nat.mod_one]
  | w + 1, n => by
    have hb : (UInt8.ofNat (n % 256)).toNat = n % 256 := by
      rw [UInt8.toNat_ofNat']
      omega
    rw [toLe, ofLe, ofLe_toLe w, hb, pow_succ, Nat.mul_comm (256 ^ w) 256, Nat.mod_mul]

/-- A number read from bytes is written as them. -/
theorem toLe_ofLe : ∀ bs : List UInt8, toLe bs.length (ofLe bs) = bs
  | [] => rfl
  | b :: bs => by
    have hb := b.toNat_lt
    have hm : (b.toNat + 256 * ofLe bs) % 256 = b.toNat := by omega
    have hd : (b.toNat + 256 * ofLe bs) / 256 = ofLe bs := by omega
    rw [List.length_cons, ofLe, toLe, hm, hd, toLe_ofLe bs, UInt8.ofNat_toNat]

theorem ofLe_lt : ∀ bs : List UInt8, ofLe bs < 256 ^ bs.length
  | [] => by simp [ofLe]
  | b :: bs => by
    have ih := ofLe_lt bs
    have hb := b.toNat_lt
    rw [ofLe, List.length_cons, pow_succ]
    omega

end Lib
end Busrt
