/-
# A lock for readers and one writer

Any number of readers hold it, or one writer; the type has no other states. Who
waits, and in what order, is not part of it.

Key definitions: `RwLock`.
Key theorems: `RwLock.writer_of_mem`.
-/
import Mathlib.Data.Finset.Basic

namespace Busrt
namespace Lib

variable {τ : Type*}

/-- Who holds the lock. -/
structure RwLock (τ : Type*) where
  readers : Finset τ
  writer : Option τ
  excl : writer ≠ none → readers = ∅

namespace RwLock

/-- Nobody holds it. -/
def new : RwLock τ := ⟨∅, none, fun _ => rfl⟩

def Free (l : RwLock τ) : Prop := l.readers = ∅ ∧ l.writer = none

theorem writer_of_mem {l : RwLock τ} {t : τ} (h : t ∈ l.readers) : l.writer = none := by
  by_contra hw
  rw [l.excl hw] at h
  exact Finset.notMem_empty t h

theorem not_free_of_mem {l : RwLock τ} {t : τ} (h : t ∈ l.readers) : ¬ l.Free := by
  rintro ⟨hr, -⟩
  rw [hr] at h
  exact Finset.notMem_empty t h

variable [DecidableEq τ]

instance (l : RwLock τ) : Decidable l.Free := by unfold Free; infer_instance

/-- One more reader, where there is no writer. -/
def read (l : RwLock τ) (t : τ) : Option (RwLock τ) :=
  if l.writer = none then some ⟨insert t l.readers, none, fun h => absurd rfl h⟩ else none

def unread (l : RwLock τ) (t : τ) : RwLock τ where
  readers := l.readers.erase t
  writer := l.writer
  excl h := by rw [l.excl h, Finset.erase_empty]

/-- The writer, where nobody else is. -/
def write (l : RwLock τ) (t : τ) : Option (RwLock τ) :=
  if l.Free then some ⟨∅, some t, fun _ => rfl⟩ else none

def unwrite (l : RwLock τ) : RwLock τ := ⟨l.readers, none, fun h => absurd rfl h⟩

theorem read_eq {l l' : RwLock τ} {t : τ} (h : l.read t = some l') :
    l.writer = none ∧ l'.writer = none ∧ l'.readers = insert t l.readers := by
  obtain ⟨hw, hl⟩ := Option.ite_none_right_eq_some.mp h
  obtain rfl := Option.some.inj hl
  exact ⟨hw, rfl, rfl⟩

theorem write_eq {l l' : RwLock τ} {t : τ} (h : l.write t = some l') :
    l.Free ∧ l'.writer = some t ∧ l'.readers = ∅ := by
  obtain ⟨hf, hl⟩ := Option.ite_none_right_eq_some.mp h
  obtain rfl := Option.some.inj hl
  exact ⟨hf, rfl, rfl⟩

end RwLock

end Lib
end Busrt
