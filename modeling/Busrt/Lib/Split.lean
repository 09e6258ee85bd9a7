/-
# Texts cut at a separator

The first separator of a text cuts it in two: what is before it (`upTo`) has
none, and the two parts with a separator between them are the text again
(`upTo_append_after`). Splitting at all separators is cutting over and over
(`splitText_of_mem`). A prefix that is no separator stays with the first
piece (`stripPrefix_upTo`).

Leading and trailing elements of a kind are taken off by `trim`. What is left
does not begin with one, and more of them in front make no difference
(`trim_append`).

Key definitions: `splitText`, `upTo`, `after`, `stripPrefix`, `trim`.
Key theorems: `upTo_append_after`, `splitText_of_mem`, `trim_append`, `trim_idem`.
-/
import Mathlib.Data.List.DropRight
import Mathlib.Tactic

namespace Busrt
namespace Lib

section Cut

variable (a : Char)

/-- `str::split` at a character. -/
def splitText (s : String) : List String := (s.toList.splitOn a).map String.ofList

/-- The text before the first `a`, all of it if there is none. -/
def upTo (s : String) : String := String.ofList (s.toList.takeWhile (· != a))

/-- The text after the first `a`. -/
def after (s : String) : String := String.ofList (s.toList.dropWhile (· != a)).tail

theorem toList_upTo (s : String) :
    (upTo a s).toList = s.toList.takeWhile (· != a) := String.toList_ofList

theorem toList_after (s : String) :
    (after a s).toList = (s.toList.dropWhile (· != a)).tail := String.toList_ofList

theorem notMem_upTo (s : String) : a ∉ (upTo a s).toList := by
  rw [toList_upTo]
  intro h
  simpa using List.mem_takeWhile_imp h

variable {a} {s : String}

/-- A text with an `a` is what stands before it, and after it. -/
theorem upTo_append_after (h : a ∈ s.toList) :
    s.toList = (upTo a s).toList ++ a :: (after a s).toList := by
  have happ := List.takeWhile_append_dropWhile (p := (· != a)) (l := s.toList)
  rw [toList_upTo, toList_after]
  cases hd : s.toList.dropWhile (· != a) with
  | nil =>
    have hall := List.dropWhile_eq_nil_iff.mp hd _ h
    simp at hall
  | cons x r =>
    have hx := List.head?_dropWhile_not (· != a) s.toList
    rw [hd] at hx happ
    have hx : x = a := by simpa using hx
    rw [hx] at happ
    exact happ.symm

theorem upTo_of_notMem (h : a ∉ s.toList) : upTo a s = s := by
  have hall : ∀ c ∈ s.toList, (c != a) = true := by
    intro c hc
    have hne : c ≠ a := fun he => h (he ▸ hc)
    simpa using hne
  rw [upTo, List.takeWhile_eq_self_iff.mpr hall, String.ofList_toList]

theorem upTo_eq_self : upTo a s = s ↔ a ∉ s.toList := by
  refine ⟨fun h => ?_, upTo_of_notMem⟩
  have hno := notMem_upTo a s
  rwa [h] at hno

theorem splitText_of_notMem (h : a ∉ s.toList) : splitText a s = [s] := by
  rw [splitText, List.splitOn_eq_singleton h, List.map_singleton, String.ofList_toList]

theorem splitText_of_mem (h : a ∈ s.toList) :
    splitText a s = upTo a s :: splitText a (after a s) := by
  have hcut := List.splitOn_append_cons_self_of_not_mem (notMem_upTo a s) (after a s).toList
  rw [← upTo_append_after h] at hcut
  rw [splitText, hcut, List.map_cons, String.ofList_toList, splitText]

/-- The first piece is the text before the first separator. -/
theorem splitText_eq_cons (a : Char) (s : String) : ∃ r, splitText a s = upTo a s :: r := by
  by_cases h : a ∈ s.toList
  · exact ⟨_, splitText_of_mem h⟩
  · exact ⟨[], by rw [splitText_of_notMem h, upTo_of_notMem h]⟩

/-- `str::strip_prefix` with a character. -/
def stripPrefix (c : Char) (s : String) : Option String :=
  match s.toList with
  | x :: r => if x = c then some (String.ofList r) else none
  | [] => none

theorem stripPrefix_eq_some {c : Char} {s r : String} :
    stripPrefix c s = some r ↔ s.toList = c :: r.toList := by
  unfold stripPrefix
  split
  · rename_i x l hs
    rw [hs, List.cons.injEq]
    by_cases hx : x = c
    · rw [if_pos hx, Option.some.injEq]
      constructor
      · rintro rfl
        exact ⟨hx, String.toList_ofList.symm⟩
      · rintro ⟨_, rfl⟩
        exact String.ofList_toList
    · rw [if_neg hx]
      exact iff_of_false (Option.some_ne_none r).symm fun h => hx h.1
  · rename_i hs
    rw [hs]
    exact iff_of_false (Option.some_ne_none r).symm (List.cons_ne_nil _ _).symm

section Strip

variable {a c : Char} (hne : c ≠ a) {s r : String} (h : stripPrefix c s = some r)

include hne h

/-- A prefix that is no separator stays with the first piece. -/
theorem stripPrefix_upTo : stripPrefix c (upTo a s) = some (upTo a r) := by
  rw [stripPrefix_eq_some, toList_upTo, toList_upTo, stripPrefix_eq_some.mp h,
    List.takeWhile_cons_of_pos (by simpa using hne)]

theorem after_stripPrefix : after a r = after a s := by
  rw [after, after, stripPrefix_eq_some.mp h, List.dropWhile_cons_of_pos (by simpa using hne)]

theorem mem_stripPrefix : a ∈ r.toList ↔ a ∈ s.toList := by
  rw [stripPrefix_eq_some.mp h, List.mem_cons, or_iff_right hne.symm]

/-- The other pieces are the same. -/
theorem splitText_stripPrefix {l : List String} (hs : splitText a s = upTo a s :: l) :
    splitText a r = upTo a r :: l := by
  by_cases hm : a ∈ s.toList
  · rw [splitText_of_mem hm] at hs
    rw [splitText_of_mem ((mem_stripPrefix hne h).mpr hm), after_stripPrefix hne h,
      (List.cons.inj hs).2]
  · have hr : a ∉ r.toList := fun hr => hm ((mem_stripPrefix hne h).mp hr)
    rw [splitText_of_notMem hm, ← upTo_of_notMem hm] at hs
    rw [splitText_of_notMem hr, upTo_of_notMem hr, ← (List.cons.inj hs).2]

end Strip

/-- There is none in the first piece either. -/
theorem stripPrefix_upTo_none {a c : Char} {s : String} (h : stripPrefix c s = none) :
    stripPrefix c (upTo a s) = none := by
  by_contra hs
  obtain ⟨r, hr⟩ := Option.ne_none_iff_exists'.mp hs
  have hpre : (upTo a s).toList <+: s.toList := by
    rw [toList_upTo]
    exact List.takeWhile_prefix _
  rw [stripPrefix_eq_some.mp hr] at hpre
  obtain ⟨t, ht⟩ := hpre
  have hsome : stripPrefix c s = some (String.ofList (r.toList ++ t)) := by
    rw [stripPrefix_eq_some, String.toList_ofList, ← ht, List.cons_append]
  rw [h] at hsome
  cases hsome

end Cut

section Trim

variable {α : Type*} (p : α → Bool)

/-- The list without what it begins and ends with of a kind. -/
def trim (l : List α) : List α := (l.dropWhile p).rdropWhile p

/-- More at the front makes no difference. -/
theorem trim_append {w : List α} (hw : ∀ x ∈ w, p x = true) (l : List α) :
    trim p (w ++ l) = trim p l := by
  rw [trim, trim, List.dropWhile_append_of_pos hw]

/-- What is left does not begin with one of the kind. -/
theorem head_trim {l t : List α} {x : α} (h : trim p l = x :: t) : p x = false := by
  have hpre : trim p l <+: l.dropWhile p := List.rdropWhile_prefix _ _
  rw [h] at hpre
  obtain ⟨r, hr⟩ := hpre
  have hhead := List.head?_dropWhile_not p l
  rw [← hr] at hhead
  simpa using hhead

theorem trim_idem (l : List α) : trim p (trim p l) = trim p l := by
  have hfront : (trim p l).dropWhile p = trim p l := by
    cases h : trim p l with
    | nil => rfl
    | cons x t =>
      rw [List.dropWhile_cons_of_neg]
      rw [head_trim p h]
      exact Bool.false_ne_true
  rw [trim, hfront, trim, List.rdropWhile_idempotent]

end Trim

end Lib
end Busrt
