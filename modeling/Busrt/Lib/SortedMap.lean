/-
# Maps kept in the order of their keys

A map as the list of its entries, in strictly increasing order of the keys. Two
maps with the same entries are the same map, in whatever order the entries came
in (`ext_mem`). A scan that stops at the first entry of a kind stops at the one
with the least key (`find_eq_some`).

Among the lists that a list begins with, in the lexicographic order, the least
is the shortest (`le_iff_length_le`).

Key definitions: `SortedMap`, `SortedMap.get`, `SortedMap.insert`, `SortedMap.erase`.
Key theorems: `SortedMap.mem_insert`, `SortedMap.ext_mem`, `SortedMap.find_eq_some`,
`le_iff_length_le`.
-/
import Mathlib.Data.List.Lex
import Mathlib.Tactic

namespace Busrt
namespace Lib

/-- The entries by increasing keys. -/
structure SortedMap (κ V : Type*) [LinearOrder κ] where
  entries : List (κ × V)
  sorted : entries.Pairwise fun a b => a.1 < b.1

namespace SortedMap

variable {κ V : Type*} [LinearOrder κ]

/-- No entries. -/
def empty : SortedMap κ V := ⟨[], .nil⟩

/-- The value of a key. -/
def get (m : SortedMap κ V) (k : κ) : Option V :=
  (m.entries.find? fun e => decide (e.1 = k)).map Prod.snd

/-- The entries with a value at its place, for the value the key had if it had one. -/
def insertEntry (k : κ) (v : V) : List (κ × V) → List (κ × V)
  | [] => [(k, v)]
  | e :: l =>
    if k < e.1 then (k, v) :: e :: l
    else if e.1 < k then e :: insertEntry k v l
    else (k, v) :: l

theorem mem_insertEntry {k : κ} {v : V} {x : κ × V} :
    ∀ {l : List (κ × V)}, l.Pairwise (fun a b => a.1 < b.1) →
    (x ∈ insertEntry k v l ↔ x = (k, v) ∨ (x ∈ l ∧ x.1 ≠ k))
  | [], _ => by simp [insertEntry]
  | e :: l, hl => by
    obtain ⟨he, hl'⟩ := List.pairwise_cons.mp hl
    have ih := mem_insertEntry (k := k) (v := v) (x := x) hl'
    rw [insertEntry]
    by_cases hlt : k < e.1
    · rw [if_pos hlt, List.mem_cons]
      have hne : x ∈ e :: l → x.1 ≠ k := by
        intro hx
        obtain rfl | hx := List.mem_cons.mp hx
        · exact hlt.ne'
        · exact (hlt.trans (he x hx)).ne'
      exact or_congr_right (and_iff_left_of_imp hne).symm
    · rw [if_neg hlt]
      by_cases hgt : e.1 < k
      · rw [if_pos hgt, List.mem_cons, List.mem_cons, ih]
        have hne : x = e → x.1 ≠ k := fun hx => hx ▸ hgt.ne
        tauto
      · rw [if_neg hgt, List.mem_cons, List.mem_cons]
        have heq : e.1 = k := le_antisymm (not_lt.mp hlt) (not_lt.mp hgt)
        have hne : x ∈ l → x.1 ≠ k := fun hx => heq ▸ (he x hx).ne'
        have hno : x = e → ¬x.1 ≠ k := fun hx => not_not.mpr (hx ▸ heq)
        tauto

theorem sorted_insertEntry (k : κ) (v : V) :
    ∀ {l : List (κ × V)}, l.Pairwise (fun a b => a.1 < b.1) →
    (insertEntry k v l).Pairwise fun a b => a.1 < b.1
  | [], _ => List.pairwise_singleton _ _
  | e :: l, hl => by
    obtain ⟨he, hl'⟩ := List.pairwise_cons.mp hl
    have ih := sorted_insertEntry k v hl'
    rw [insertEntry]
    by_cases hlt : k < e.1
    · rw [if_pos hlt, List.pairwise_cons]
      refine ⟨fun x hx => ?_, hl⟩
      obtain rfl | hx := List.mem_cons.mp hx
      · exact hlt
      · exact hlt.trans (he x hx)
    · rw [if_neg hlt]
      by_cases hgt : e.1 < k
      · rw [if_pos hgt, List.pairwise_cons]
        refine ⟨fun x hx => ?_, ih⟩
        obtain rfl | ⟨hx, _⟩ := (mem_insertEntry hl').mp hx
        · exact hgt
        · exact he x hx
      · rw [if_neg hgt, List.pairwise_cons]
        have heq : e.1 = k := le_antisymm (not_lt.mp hlt) (not_lt.mp hgt)
        exact ⟨fun x hx => heq ▸ he x hx, hl'⟩

/-- The map with a value at a key. -/
def insert (m : SortedMap κ V) (k : κ) (v : V) : SortedMap κ V :=
  ⟨insertEntry k v m.entries, sorted_insertEntry k v m.sorted⟩

theorem mem_insert (m : SortedMap κ V) (k : κ) (v : V) (x : κ × V) :
    x ∈ (m.insert k v).entries ↔ x = (k, v) ∨ (x ∈ m.entries ∧ x.1 ≠ k) :=
  mem_insertEntry m.sorted

theorem nodup_keys (m : SortedMap κ V) : (m.entries.map Prod.fst).Nodup := by
  rw [List.Nodup, List.pairwise_map]
  exact m.sorted.imp fun h => h.ne

theorem find_entries (p : κ × V → Bool) (e : κ × V) :
    ∀ {l : List (κ × V)}, l.Pairwise (fun a b => a.1 < b.1) →
    (l.find? p = some e ↔ e ∈ l ∧ p e = true ∧ ∀ x ∈ l, p x = true → e.1 ≤ x.1)
  | [], _ => by simp
  | x :: l, hl => by
    obtain ⟨hx, hl'⟩ := List.pairwise_cons.mp hl
    by_cases hp : p x = true
    · rw [List.find?_cons_of_pos hp, Option.some.injEq]
      constructor
      · rintro rfl
        refine ⟨List.mem_cons_self, hp, fun y hy _ => ?_⟩
        obtain rfl | hy := List.mem_cons.mp hy
        · exact le_rfl
        · exact (hx y hy).le
      · rintro ⟨he, _, hleast⟩
        obtain rfl | he := List.mem_cons.mp he
        · rfl
        · exact absurd (hleast x List.mem_cons_self hp) (not_le.mpr (hx e he))
    · have ih := find_entries p e hl'
      rw [List.find?_cons_of_neg hp, ih, List.mem_cons, List.forall_mem_cons]
      have hne : p e = true → e ≠ x := fun h he => hp (he ▸ h)
      tauto

/-- A scan stops at the least key of its kind. -/
theorem find_eq_some (m : SortedMap κ V) (p : κ × V → Bool) (e : κ × V) :
    m.entries.find? p = some e ↔ e ∈ m.entries ∧ p e = true ∧
      ∀ x ∈ m.entries, p x = true → e.1 ≤ x.1 :=
  find_entries p e m.sorted

theorem get_eq_some (m : SortedMap κ V) (k : κ) (v : V) :
    m.get k = some v ↔ (k, v) ∈ m.entries := by
  rw [get, Option.map_eq_some_iff]
  constructor
  · rintro ⟨e, he, rfl⟩
    obtain ⟨hmem, hk, _⟩ := (m.find_eq_some _ e).mp he
    rwa [← of_decide_eq_true hk]
  · intro h
    refine ⟨(k, v), (m.find_eq_some _ _).mpr ⟨h, decide_eq_true rfl, fun x _ hx => ?_⟩, rfl⟩
    exact (of_decide_eq_true hx).ge

theorem get_eq_none (m : SortedMap κ V) (k : κ) : m.get k = none ↔ ∀ e ∈ m.entries, e.1 ≠ k := by
  rw [Option.eq_none_iff_forall_ne_some]
  constructor
  · rintro h e he rfl
    exact h e.2 ((m.get_eq_some _ _).mpr he)
  · intro h v hv
    exact h _ ((m.get_eq_some k v).mp hv) rfl

theorem get_insert (m : SortedMap κ V) (k k' : κ) (v : V) :
    (m.insert k v).get k' = if k' = k then some v else m.get k' := by
  refine Option.ext fun w => ?_
  rw [get_eq_some, mem_insert]
  by_cases hk : k' = k
  · subst hk
    simp [eq_comm]
  · rw [if_neg hk, get_eq_some]
    simp [hk]

/-- The map without a key. -/
def erase (m : SortedMap κ V) (k : κ) : SortedMap κ V :=
  ⟨m.entries.filter fun e => decide (e.1 ≠ k), m.sorted.filter _⟩

theorem get_erase (m : SortedMap κ V) (k k' : κ) :
    (m.erase k).get k' = if k' = k then none else m.get k' := by
  refine Option.ext fun w => ?_
  rw [get_eq_some, erase, List.mem_filter]
  by_cases hk : k' = k
  · subst hk
    simp
  · rw [if_neg hk, get_eq_some]
    simp [hk]

/-- The keys, in order. -/
def keys (m : SortedMap κ V) : List κ := m.entries.map Prod.fst

theorem mem_keys_of_get {m : SortedMap κ V} {k : κ} {v : V} (h : m.get k = some v) : k ∈ m.keys :=
  List.mem_map.mpr ⟨(k, v), (m.get_eq_some k v).mp h, rfl⟩

/-- The entries make the map. -/
theorem ext_mem {m m' : SortedMap κ V} (h : ∀ e, e ∈ m.entries ↔ e ∈ m'.entries) : m = m' := by
  have hperm : m.entries.Perm m'.entries :=
    (List.perm_ext_iff_of_nodup m.nodup_keys.of_map m'.nodup_keys.of_map).mpr h
  have heq : m.entries = m'.entries :=
    hperm.eq_of_pairwise (fun a b _ _ hab hba => absurd hab hba.not_gt) m.sorted m'.sorted
  cases m
  cases m'
  cases heq
  rfl

end SortedMap

/-- A list is not less than what it begins with. -/
theorem le_of_begins {α : Type*} [LinearOrder α] {a b : List α} (h : a <+: b) :
    a ≤ b := not_lt.mp h.le

/-- Of two beginnings of one list, the shorter is the lesser. -/
theorem le_iff_length_le {α : Type*} [LinearOrder α] {a b l : List α} (ha : a <+: l)
    (hb : b <+: l) :
    a ≤ b ↔ a.length ≤ b.length := by
  constructor
  · intro hab
    by_contra hlen
    have hba : b <+: a := List.prefix_of_prefix_length_le hb ha (by omega)
    have heq : a = b := le_antisymm hab (le_of_begins hba)
    exact hlen (heq ▸ le_rfl)
  · intro hlen
    exact le_of_begins (List.prefix_of_prefix_length_le ha hb hlen)

end Lib
end Busrt
