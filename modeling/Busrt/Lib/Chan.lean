/-
# A bounded FIFO channel

The channel keeps every item ever accepted, in order (`put`), and how many of
them the receiver has taken (`taken`); what waits in it is the rest. A sender
puts an item behind all the others if there is room and the channel is open,
the receiver takes the oldest. A send that finds the channel full waits: it
completes when the receiver has taken an item (`sendWait`).

Key definitions: `Chan`, `Chan.push`, `Chan.sendWait`, `Chan.recv`.
Key theorems: `Chan.put_push`, `Chan.put_sendWait`, `Chan.put_recv`.
-/
import Mathlib.Data.PNat.Basic
import Mathlib.Tactic

namespace Busrt
namespace Lib

/-- A channel of positive capacity `cap`: all items accepted so far, the number of them
already received, and whether it is closed for sending. -/
structure Chan (α : Type*) where
  cap : ℕ
  put : List α
  taken : ℕ
  closed : Bool
  cap_pos : 0 < cap
  taken_le : taken ≤ put.length
  fits : put.length ≤ taken + cap

namespace Chan

variable {α : Type*}

/-- The items that wait in the channel, oldest first. -/
def buf (q : Chan α) : List α := q.put.drop q.taken

def len (q : Chan α) : ℕ := q.put.length - q.taken

/-- How many more items fit. -/
def free (q : Chan α) : ℕ := q.cap - q.len

def isFull (q : Chan α) : Bool := q.free == 0

theorem isFull_iff (q : Chan α) : q.isFull = true ↔ q.free = 0 := by simp [isFull]

theorem isFull_eq_false (q : Chan α) : q.isFull = false ↔ 0 < q.free := by
  simp [isFull, Nat.pos_iff_ne_zero]

def bounded (cap : ℕ+) : Chan α := ⟨cap, [], 0, false, cap.pos, le_rfl, by simp⟩

def close (q : Chan α) : Chan α := { q with closed := true }

/-- The receiver takes the oldest item, if there is one. -/
def recv (q : Chan α) : Chan α :=
  if h : q.taken < q.put.length then
    { q with taken := q.taken + 1, taken_le := h, fits := by have := q.fits; omega }
  else q

/-- Put an item behind the others; a full channel is left as it is. -/
def push (q : Chan α) (a : α) : Chan α :=
  if h : q.isFull then q
  else
    { q with
      put := q.put ++ [a]
      taken_le := by have := q.taken_le; simp; omega
      fits := by
        have := q.taken_le
        rw [isFull_iff, free, len] at h
        simp only [List.length_append, List.length_singleton]
        omega }

/-- Wait for room, then put: on a full channel the receiver takes one item
first. -/
def sendWait (q : Chan α) (a : α) : Chan α :=
  if q.isFull then q.recv.push a else q.push a

@[simp] theorem put_bounded (cap : ℕ+) : (bounded cap : Chan α).put = [] := rfl
@[simp] theorem cap_bounded (cap : ℕ+) : (bounded cap : Chan α).cap = cap := rfl
@[simp] theorem closed_bounded (cap : ℕ+) : (bounded cap : Chan α).closed = false := rfl
@[simp] theorem put_close (q : Chan α) : q.close.put = q.put := rfl
@[simp] theorem closed_close (q : Chan α) : q.close.closed = true := rfl
@[simp] theorem cap_close (q : Chan α) : q.close.cap = q.cap := rfl
@[simp] theorem taken_close (q : Chan α) : q.close.taken = q.taken := rfl
@[simp] theorem free_close (q : Chan α) : q.close.free = q.free := rfl
@[simp] theorem isFull_close (q : Chan α) : q.close.isFull = q.isFull := rfl

@[simp] theorem put_recv (q : Chan α) : q.recv.put = q.put := by unfold recv; split <;> rfl
@[simp] theorem cap_recv (q : Chan α) : q.recv.cap = q.cap := by unfold recv; split <;> rfl
@[simp] theorem closed_recv (q : Chan α) : q.recv.closed = q.closed := by unfold recv; split <;> rfl

/-- A channel with room accepts the item behind all earlier ones. -/
theorem put_push {q : Chan α} (h : q.isFull = false) (a : α) : (q.push a).put = q.put ++ [a] := by
  unfold push
  rw [dif_neg (by simp [h])]

@[simp] theorem cap_push (q : Chan α) (a : α) :
    (q.push a).cap = q.cap := by unfold push; split <;> rfl
@[simp] theorem taken_push (q : Chan α) (a : α) :
    (q.push a).taken = q.taken := by unfold push; split <;> rfl
@[simp] theorem closed_push (q : Chan α) (a : α) : (q.push a).closed = q.closed := by
  unfold push; split <;> rfl

theorem free_push {q : Chan α} (h : q.isFull = false) (a : α) : (q.push a).free + 1 = q.free := by
  have hf := (isFull_eq_false q).mp h
  have ht := q.taken_le
  unfold push
  rw [dif_neg (by simp [h])]
  simp only [free, len, List.length_append, List.length_singleton] at *
  omega

/-- The receiver's taking an item from a full channel makes room. -/
theorem isFull_recv {q : Chan α} (h : q.isFull = true) : q.recv.isFull = false := by
  have hc := q.cap_pos
  have hf := (isFull_iff q).mp h
  have ht := q.taken_le
  have hfit := q.fits
  simp only [free, len] at hf
  have hlt : q.taken < q.put.length := by omega
  rw [isFull_eq_false]
  simp only [free, len, recv, dif_pos hlt]
  omega

/-- Taking an item makes no less room. -/
theorem free_le_recv (q : Chan α) : q.free ≤ q.recv.free := by
  unfold recv
  split
  · simp only [free, len]
    omega
  · exact le_rfl

/-- A send that waits for room puts its item behind all earlier ones. -/
theorem put_sendWait (q : Chan α) (a : α) : (q.sendWait a).put = q.put ++ [a] := by
  unfold sendWait
  split
  · rename_i h
    rw [put_push (isFull_recv h), put_recv]
  · rename_i h
    exact put_push (by simpa using h) a

@[simp] theorem cap_sendWait (q : Chan α) (a : α) : (q.sendWait a).cap = q.cap := by
  unfold sendWait; split <;> simp

@[simp] theorem closed_sendWait (q : Chan α) (a : α) : (q.sendWait a).closed = q.closed := by
  unfold sendWait; split <;> simp

/-! ### Items seen through a function -/

section Map

variable {β : Type*} (g : α → β) (q : Chan α)

/-- The channel with every item replaced. -/
def map : Chan β where
  cap := q.cap
  put := q.put.map g
  taken := q.taken
  closed := q.closed
  cap_pos := q.cap_pos
  taken_le := by simpa using q.taken_le
  fits := by simpa using q.fits

@[simp] theorem isFull_map : (q.map g).isFull = q.isFull := by simp [isFull, free, len, map]
@[simp] theorem closed_map : (q.map g).closed = q.closed := rfl
@[simp] theorem close_map : (q.map g).close = q.close.map g := rfl

@[simp] theorem push_map (a : α) : (q.map g).push (g a) = (q.push a).map g := by
  unfold push
  by_cases h : q.isFull
  · rw [dif_pos (by simpa using h), dif_pos h]
  · rw [dif_neg (by simpa using h), dif_neg h]
    simp [map]

@[simp] theorem recv_map : (q.map g).recv = q.recv.map g := by
  unfold recv
  by_cases h : q.taken < q.put.length
  · rw [dif_pos (by simpa [map] using h), dif_pos h]
    rfl
  · rw [dif_neg (by simpa [map] using h), dif_neg h]

@[simp] theorem sendWait_map (a : α) : (q.map g).sendWait (g a) = (q.sendWait a).map g := by
  simp only [sendWait, isFull_map, recv_map, push_map]
  split <;> rfl

end Map

end Chan

end Lib
end Busrt
