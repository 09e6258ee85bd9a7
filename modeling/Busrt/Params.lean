/-
# Parameters given as text

`str_to_params_map` reads tokens `name=value` into a map: of a token it takes
the first two pieces between its `=`, and a later token of a name replaces an
earlier one. What a value is read as depends on its text: a boolean, a 64-bit
integer, a float, and otherwise the text itself.

A value is read whole as long as there is no `=` in it. Of one that has
another `=`, only what stands before it is left, and it is never read as it
should be: no number has an `=` in it (`read_piece_iff`).

Key definitions: `strToParamsMap`, `Value.read`, `nameOf`, `textOf`, `lastOf`, `KeepsValues`.
Key theorems: `isOk_strToParamsMap`, `lookup_strToParamsMap`, `keepsValues_iff`.
-/
import Mathlib.Data.List.AList
import Mathlib.Tactic
import Busrt.Basic
import Busrt.Lib.Split

namespace Busrt

open Lib

/-! ### Reading a value -/

/-- Decimal digits, at least one. -/
def digits (cs : List Char) : Option ℕ :=
  if cs = [] then none
  else cs.foldlM (fun n c => if c.isDigit then some (10 * n + (c.toNat - '0'.toNat)) else none) 0

/-- `str::parse::<i64>`. -/
def parseI64 (v : String) : Option Int64 :=
  match v.toList with
  | '-' :: cs => (digits cs).bind fun n => if n ≤ 2 ^ 63 then some (Int64.ofInt (-n)) else none
  | '+' :: cs => (digits cs).bind fun n => if n < 2 ^ 63 then some (Int64.ofInt n) else none
  | cs => (digits cs).bind fun n => if n < 2 ^ 63 then some (Int64.ofInt n) else none

/-- `str::parse::<f64>`: a text with `=` in it is not a number. -/
structure FloatParser (F : Type*) where
  parse : String → Option F
  parse_eq_none : ∀ v, '=' ∈ v.toList → parse v = none

/-- The parser for texts that are no numbers. -/
def FloatParser.none (F : Type*) : FloatParser F := ⟨fun _ => .none, fun _ _ => rfl⟩

/-- `serde_value::Value`, as far as it is made here. -/
inductive Value (F : Type*)
  | bool (b : Bool)
  | i64 (i : Int64)
  | f64 (f : F)
  | string (s : String)
  deriving DecidableEq, Repr

variable {F : Type*} (P : FloatParser F)

/-- What a text is read as. -/
def Value.read (v : String) : Value F :=
  if v = "false" then .bool false
  else if v = "true" then .bool true
  else match parseI64 v with
    | some i => .i64 i
    | none =>
      match P.parse v with
      | some f => .f64 f
      | none => .string v

/-! ### The map -/

/-- `HashMap<&str, Value>`. -/
abbrev Params (F : Type*) := AList fun _ : String => Value F

/-- One round of the loop. -/
def insertPair (params : Params F) (pair : String) : Except Error (Params F) :=
  if pair = "" then .ok params
  else match splitText '=' pair with
    | [] => .error ⟨.data, some "var name not specified"⟩
    | [_] => .error ⟨.data, some "var value not specified"⟩
    | var :: v :: _ => .ok (params.insert var (Value.read P v))

/-- `str_to_params_map`. -/
def strToParamsMap (s : List String) : Except Error (Params F) := s.foldlM (insertPair P) ∅

/-! ### What a token says -/

/-- The text before the first `=`. -/
def nameOf (t : String) : String := upTo '=' t

/-- The text after the first `=`. -/
def textOf (t : String) : String := after '=' t

/-- The last token with that name. -/
def lastOf (pairs : List String) (n : String) : Option String :=
  (pairs.filter fun t => t != "" && nameOf t == n).getLast?

/-- It succeeds iff every token that is not empty has an `=`, and what it returns then maps
the names of the tokens, each to what the text of the last token with that name is read as. -/
def KeepsValues (pairs : List String) : Prop :=
  ((strToParamsMap P pairs).isOk = true ↔ ∀ t ∈ pairs, t ≠ "" → '=' ∈ t.toList) ∧
    ∀ params, strToParamsMap P pairs = .ok params →
      ∀ n, params.lookup n = (lastOf pairs n).map fun t => Value.read P (textOf t)

/-! ### No number has an `=` -/

theorem isDigit_of_digits : ∀ {cs : List Char} {n m : ℕ},
    cs.foldlM
      (fun n c => if c.isDigit then some (10 * n + (c.toNat - '0'.toNat)) else none) n = some m →
      ∀ c ∈ cs, c.isDigit = true
  | [], _, _, _ => by simp
  | c :: cs, n, m, h => by
    by_cases hc : c.isDigit = true
    · rw [List.foldlM_cons, if_pos hc] at h
      have ih := isDigit_of_digits h
      simpa [hc] using ih
    · rw [List.foldlM_cons, if_neg hc] at h
      cases h

theorem digits_eq_none {cs : List Char} (h : '=' ∈ cs) : digits cs = none := by
  have hne : cs ≠ [] := List.ne_nil_of_mem h
  rw [digits, if_neg hne]
  by_contra hs
  obtain ⟨m, hm⟩ := Option.ne_none_iff_exists'.mp hs
  have hd : '='.isDigit = true := isDigit_of_digits hm _ h
  exact absurd hd (by decide)

theorem parseI64_eq_none {v : String} (h : '=' ∈ v.toList) : parseI64 v = none := by
  unfold parseI64
  split
  · rename_i cs hv
    have hcs : '=' ∈ cs := by simpa [hv] using h
    rw [digits_eq_none hcs]
    rfl
  · rename_i cs hv
    have hcs : '=' ∈ cs := by simpa [hv] using h
    rw [digits_eq_none hcs]
    rfl
  · rw [digits_eq_none h]
    rfl

/-- A text with an `=` is read as itself. -/
theorem read_of_mem {v : String} (h : '=' ∈ v.toList) : Value.read P v = .string v := by
  have hf : v ≠ "false" := fun hv => by rw [hv] at h; exact absurd h (by decide)
  have ht : v ≠ "true" := fun hv => by rw [hv] at h; exact absurd h (by decide)
  rw [Value.read, if_neg hf, if_neg ht, parseI64_eq_none h, P.parse_eq_none v h]

/-- What is read as a text is the text. -/
theorem eq_of_read {v w : String} (h : Value.read P v = .string w) : v = w := by
  unfold Value.read at h
  split at h
  · cases h
  · split at h
    · cases h
    · split at h
      · cases h
      · split at h
        · cases h
        · exact Value.string.inj h

/-! ### The pieces of a token -/

/-- The second piece of a token is its text up to the next `=`. -/
theorem splitText_token {t : String} (h : '=' ∈ t.toList) :
    ∃ r, splitText '=' t = nameOf t :: upTo '=' (textOf t) :: r := by
  obtain ⟨r, hr⟩ := splitText_eq_cons '=' (textOf t)
  exact ⟨r, by rw [splitText_of_mem h, nameOf, ← hr, textOf]⟩

/-- The value of a token is read as it should be iff there is no second `=`. -/
theorem read_piece_iff (t : String) :
    Value.read P (upTo '=' (textOf t)) = Value.read P (textOf t) ↔ '=' ∉ (textOf t).toList := by
  constructor
  · intro h hmem
    rw [read_of_mem P hmem] at h
    exact upTo_eq_self.mp (eq_of_read P h) hmem
  · intro h
    rw [upTo_of_notMem h]

/-! ### What one token adds -/

theorem insertPair_of_mem {t : String} (h : '=' ∈ t.toList) (params : Params F) :
    insertPair P params t =
      .ok (params.insert (nameOf t) (Value.read P (upTo '=' (textOf t)))) := by
  have hne : t ≠ "" := fun ht => by rw [ht] at h; exact absurd h (by decide)
  obtain ⟨r, hr⟩ := splitText_token h
  rw [insertPair, if_neg hne, hr]

theorem insertPair_of_notMem {t : String} (hne : t ≠ "") (h : '=' ∉ t.toList) (params : Params F) :
    insertPair P params t = .error ⟨.data, some "var value not specified"⟩ := by
  rw [insertPair, if_neg hne, splitText_of_notMem h]

theorem strToParamsMap_concat (ts : List String) (t : String) :
    strToParamsMap P (ts ++ [t]) =
      (strToParamsMap P ts).bind fun params => insertPair P params t := by
  rw [strToParamsMap, List.foldlM_append, ← strToParamsMap]
  cases strToParamsMap P ts with
  | error e => rfl
  | ok params =>
    show (insertPair P params t >>= fun s => pure s) = _
    rw [bind_pure]
    rfl

theorem lastOf_concat (ts : List String) (t n : String) :
    lastOf (ts ++ [t]) n = if t ≠ "" ∧ nameOf t = n then some t else lastOf ts n := by
  by_cases h : t ≠ "" ∧ nameOf t = n
  · have hc : (t != "" && nameOf t == n) = true := by simp [h.1, h.2]
    rw [if_pos h, lastOf, List.filter_append, List.filter_cons_of_pos (by exact hc)]
    simp
  · have hc : ¬(t != "" && nameOf t == n) = true := by simpa using h
    rw [if_neg h, lastOf, List.filter_append, List.filter_cons_of_neg (by exact hc)]
    simp [lastOf]

/-! ### The loop -/

/-- After some tokens: an error iff one of them has no `=`, and otherwise for every name what the
second piece of its last token is read as. -/
theorem strToParamsMap_spec (pairs : List String) :
    ((∃ t ∈ pairs, t ≠ "" ∧ '=' ∉ t.toList) ∧ (strToParamsMap P pairs).isOk = false) ∨
    ((∀ t ∈ pairs, t ≠ "" → '=' ∈ t.toList) ∧ ∃ params, strToParamsMap P pairs = .ok params ∧
      ∀ n, params.lookup n = (lastOf pairs n).map fun t => Value.read P (upTo '=' (textOf t))) := by
  induction pairs using List.reverseRecOn with
  | nil => exact .inr ⟨by simp, ∅, rfl, fun n => AList.lookup_empty n⟩
  | append_singleton ts t ih =>
    rw [strToParamsMap_concat]
    obtain ⟨⟨s, hs, hbad⟩, herr⟩ | ⟨hall, params, hok, hlook⟩ := ih
    · refine .inl ⟨⟨s, List.mem_append_left _ hs, hbad⟩, ?_⟩
      cases hmap : strToParamsMap P ts with
      | error e => rfl
      | ok params =>
        rw [hmap] at herr
        cases herr
    · rw [hok]
      show _ ∨ (_ ∧ ∃ params', insertPair P params t = .ok params' ∧ _)
      by_cases hempty : t = ""
      · refine .inr ⟨?_, params, if_pos hempty, fun n => ?_⟩
        · intro s hs hne
          obtain hs | hs := List.mem_append.mp hs
          · exact hall s hs hne
          · exact absurd ((List.mem_singleton.mp hs).trans hempty) hne
        · rw [lastOf_concat, if_neg fun h => h.1 hempty, hlook]
      · by_cases hmem : '=' ∈ t.toList
        · refine .inr ⟨?_, _, insertPair_of_mem P hmem params, fun n => ?_⟩
          · intro s hs hne
            obtain hs | hs := List.mem_append.mp hs
            · exact hall s hs hne
            · rw [List.mem_singleton.mp hs]
              exact hmem
          · rw [lastOf_concat]
            by_cases hn : nameOf t = n
            · subst hn
              rw [if_pos ⟨hempty, rfl⟩, AList.lookup_insert]
              rfl
            · rw [if_neg fun h => hn h.2, AList.lookup_insert_ne (Ne.symm hn), hlook]
        · refine .inl ⟨⟨t, by simp, hempty, hmem⟩, ?_⟩
          show (insertPair P params t).isOk = false
          rw [insertPair_of_notMem P hempty hmem]
          rfl

theorem isOk_strToParamsMap (pairs : List String) :
    (strToParamsMap P pairs).isOk = true ↔ ∀ t ∈ pairs, t ≠ "" → '=' ∈ t.toList := by
  obtain ⟨⟨t, ht, hne, hbad⟩, herr⟩ | ⟨hall, params, hok, _⟩ := strToParamsMap_spec P pairs
  · rw [herr]
    exact iff_of_false Bool.false_ne_true fun h => hbad (h t ht hne)
  · rw [hok]
    exact iff_of_true rfl hall

theorem lookup_strToParamsMap {pairs : List String} {params : Params F}
    (h : strToParamsMap P pairs = .ok params) (n : String) :
    params.lookup n = (lastOf pairs n).map fun t => Value.read P (upTo '=' (textOf t)) := by
  obtain ⟨_, herr⟩ | ⟨_, params', hok, hlook⟩ := strToParamsMap_spec P pairs
  · rw [h] at herr
    cases herr
  · rw [h] at hok
    cases hok
    exact hlook n

/-- **Values are kept iff the last token of every name has one `=`**, or the call fails as it
should. -/
theorem keepsValues_iff (pairs : List String) :
    KeepsValues P pairs ↔ (∃ t ∈ pairs, t ≠ "" ∧ '=' ∉ t.toList) ∨
      ∀ n t, lastOf pairs n = some t → '=' ∉ (textOf t).toList := by
  have hbool := isOk_strToParamsMap P pairs
  constructor
  · rintro ⟨_, hkeep⟩
    by_cases hbad : ∃ t ∈ pairs, t ≠ "" ∧ '=' ∉ t.toList
    · exact .inl hbad
    · refine .inr fun n t ht => ?_
      obtain ⟨hbad', _⟩ | ⟨_, params, hok, hlook⟩ := strToParamsMap_spec P pairs
      · exact absurd hbad' hbad
      · have heq := (hlook n).symm.trans (hkeep params hok n)
        rw [ht] at heq
        exact (read_piece_iff P t).mp (Option.some.inj heq)
  · rintro (⟨t, ht, hne, hbad⟩ | hone)
    · refine ⟨hbool, fun params hok => ?_⟩
      have hall := hbool.mp (by rw [hok]; rfl)
      exact absurd (hall t ht hne) hbad
    · refine ⟨hbool, fun params hok n => ?_⟩
      rw [lookup_strToParamsMap P hok n]
      cases hlast : lastOf pairs n with
      | none => rw [Option.map_none, Option.map_none]
      | some t => rw [Option.map_some, Option.map_some, (read_piece_iff P t).mpr (hone n t hlast)]

/-- The end of a value is lost: `f=a=b` gives `f` the value `a`. -/
theorem strToParamsMap_loses : ¬KeepsValues (FloatParser.none ℕ) ["f=a=b"] := by
  rintro ⟨_, hkeep⟩
  have hlast : lastOf ["f=a=b"] "f" = some "f=a=b" := by decide
  obtain ⟨⟨t, ht, _, hbad⟩, _⟩ | ⟨_, params, hok, hlook⟩ :=
    strToParamsMap_spec (FloatParser.none ℕ) ["f=a=b"]
  · rw [List.mem_singleton.mp ht] at hbad
    exact absurd (by decide) hbad
  · have heq := (hlook "f").symm.trans (hkeep params hok "f")
    rw [hlast] at heq
    have hone := (read_piece_iff (FloatParser.none ℕ) "f=a=b").mp (Option.some.inj heq)
    exact absurd (by decide) hone

end Busrt
