/-
# Characters and their bytes

The bytes of a text are the bytes of its characters, one after the other, and
the first character can be read off them. So a text whose bytes begin with the
bytes of another begins with that text (`encode_begins`), and what follows is no
byte in the middle of a character (`head_encode`).

Key definitions: `encode`, `isContinuation`.
Key theorems: `encode_begins`, `head_encode`.
-/
import Mathlib.Tactic

namespace Busrt
namespace Lib

/-- The UTF-8 bytes of some characters. -/
def encode (cs : List Char) : List UInt8 := cs.flatMap String.utf8EncodeChar

/-- A byte that is not the first of its character. -/
def isContinuation (b : UInt8) : Bool := 0x80 ≤ b && b < 0xC0

theorem encode_append (a b : List Char) :
    encode (a ++ b) = encode a ++ encode b := List.flatMap_append

theorem encode_cons (c : Char) (cs : List Char) :
    encode (c :: cs) = String.utf8EncodeChar c ++ encode cs :=
  List.flatMap_cons

/-- The first character is read off its bytes. -/
theorem utf8EncodeChar_inj {c d : Char} {r s : List UInt8}
    (h : String.utf8EncodeChar c ++ r = String.utf8EncodeChar d ++ s) : c = d := by
  have hread : ∀ (c : Char) (r : List UInt8),
      ByteArray.utf8DecodeChar? (String.utf8EncodeChar c ++ r).toByteArray 0 = some c := by
    intro c r
    rw [List.toByteArray_append]
    exact ByteArray.utf8DecodeChar?_utf8EncodeChar_append
  have hc := hread c r
  rw [h, hread d s] at hc
  exact (Option.some.inj hc).symm

/-- A text begins with another iff its bytes do. -/
theorem encode_begins : ∀ {p t : List Char}, encode p <+: encode t ↔ p <+: t
  | [], t => by simp [encode]
  | c :: p, [] => by
    rw [encode_cons]
    simp [encode]
  | c :: p, d :: t => by
    have ih := encode_begins (p := p) (t := t)
    rw [encode_cons, encode_cons, List.cons_prefix_cons]
    constructor
    · rintro ⟨r, hr⟩
      rw [List.append_assoc] at hr
      obtain rfl := utf8EncodeChar_inj hr
      exact ⟨rfl, ih.mp ⟨r, List.append_cancel_left hr⟩⟩
    · rintro ⟨rfl, h⟩
      exact List.prefix_append_right_inj _ |>.mpr (ih.mpr h)

theorem isContinuation_of_first (b : UInt8) (h : b.IsUTF8FirstByte) : isContinuation b = false := by
  have hall : ∀ n : Fin 256, (UInt8.ofNat n).IsUTF8FirstByte →
      isContinuation (UInt8.ofNat n) = false := by
    decide +kernel
  have hb : UInt8.ofNat (⟨b.toNat, b.toNat_lt⟩ : Fin 256) = b := UInt8.ofNat_toNat
  rw [← hb] at h ⊢
  exact hall _ h

/-- The first byte of a text is the first of a character. -/
theorem head_encode {cs : List Char} {b : UInt8} (h : (encode cs).head? = some b) :
    isContinuation b = false := by
  cases cs with
  | nil => cases h
  | cons c cs =>
    have hpos : 0 < (String.utf8EncodeChar c).length := by
      rw [String.length_utf8EncodeChar]
      exact c.utf8Size_pos
    rw [encode_cons, List.head?_append_of_ne_nil _ (List.ne_nil_of_length_pos hpos),
      List.head?_eq_getElem?, List.getElem?_eq_getElem hpos] at h
    rw [← Option.some.inj h]
    exact isContinuation_of_first _ UInt8.isUTF8FirstByte_getElem_zero_utf8EncodeChar

end Lib
end Busrt
