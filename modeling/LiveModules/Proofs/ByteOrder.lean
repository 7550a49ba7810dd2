import Mathlib.Data.String.Basic

/-!
# The order of texts

Texts are compared character by character. In UTF-8 that is the order of their bytes
(`utf8_lt_of_compare`): of two characters the smaller one has the smaller byte where their encodings
first differ.
-/

namespace LiveModules.Text

/-- The bytes of a text in UTF-8. -/
def utf8 (s : String) : List UInt8 := s.toList.flatMap String.utf8EncodeChar

theorem toUTF8_eq_utf8 (s : String) : s.toUTF8 = (utf8 s).toByteArray :=
  String.utf8Encode_toList.symm

/-- `a` comes before `b`, and does so whatever follows them. -/
def Differs (a b : List UInt8) : Prop := ∀ s t, a ++ s < b ++ t

theorem Differs.cons {p q : Nat} {a b : List UInt8} (hq : q < 256) (hle : p ≤ q)
    (h : p = q → Differs a b) : Differs (UInt8.ofNat p :: a) (UInt8.ofNat q :: b) := by
  intro s t
  rcases Nat.lt_or_eq_of_le hle with hlt | rfl
  · refine List.Lex.rel ?_
    rw [UInt8.lt_iff_toNat_lt, UInt8.toNat_ofNat', UInt8.toNat_ofNat']
    omega
  · exact List.Lex.cons (h rfl s t)

theorem encodeChar_differs {c d : Char} (h : c < d) :
    Differs (String.utf8EncodeChar c) (String.utf8EncodeChar d) := by
  have h : c.val.toNat < d.val.toNat := h
  have hd : d.val.toNat < 1114112 := by
    rcases d.valid with hd | ⟨-, hd⟩ <;> omega
  unfold String.utf8EncodeChar
  generalize c.val.toNat = m at *
  generalize d.val.toNat = n at *
  simp only
  -- the more bytes, the larger the first one; of equally many, the digits to base 64 are compared
  split_ifs <;>
  · repeat' refine Differs.cons (by omega) (by omega) fun _ => ?_
    exfalso
    omega

theorem utf8_lt_of_lt {a b : String} (h : a < b) : utf8 a < utf8 b := by
  suffices ∀ {l l' : List Char}, List.Lex (· < ·) l l' →
      l.flatMap String.utf8EncodeChar < l'.flatMap String.utf8EncodeChar from this h
  intro l l' h
  induction h with
  | @nil d l' =>
    have hd : String.utf8EncodeChar d ≠ [] := String.utf8EncodeChar_ne_nil
    rw [List.flatMap_cons]
    obtain ⟨x, rest, hx⟩ := List.exists_cons_of_ne_nil hd
    rw [hx]
    exact List.Lex.nil
  | rel h => exact encodeChar_differs h _ _
  | cons _ ih =>
    rw [List.flatMap_cons, List.flatMap_cons]
    exact List.append_left_lt ih

theorem utf8_lt_of_compare {a b : String} (h : compare a b = .lt) : utf8 a < utf8 b :=
  utf8_lt_of_lt (compareOfLessAndEq_eq_lt.1 h)

end LiveModules.Text
