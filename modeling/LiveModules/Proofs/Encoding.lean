import LiveModules.Proofs.ByteOrder
import LiveModules.Text.Utf8

/-!
# Texts and their bytes

A text is read back from its bytes in UTF-8 (`ofUtf8_toUTF8`), character by character: the first
byte of a character tells how many there are, and the others hold the digits to base 64. No other
bytes are read as that text (`ofUtf8_eq_ok_iff`).
-/

namespace LiveModules.Text

namespace Utf8

variable {p q : Nat} {c : Char}

theorem toNat_ofNat (h : p < 256) : (UInt8.ofNat p).toNat = p := by
  rw [UInt8.toNat_ofNat', Nat.mod_eq_of_lt h]

theorem width_ofNat (h : p < 256) : width (.ofNat p) =
    if p ≤ 127 then 1 else if 194 ≤ p ∧ p ≤ 223 then 2 else if 224 ≤ p ∧ p ≤ 239 then 3
    else if 240 ≤ p ∧ p ≤ 244 then 4 else 0 := by
  simp [width, UInt8.le_iff_toNat_le, toNat_ofNat h]

theorem isTail_ofNat (h : q < 64) : isTail (.ofNat (q + 128)) = true := by
  rw [isTail, Bool.and_eq_true, decide_eq_true_eq, decide_eq_true_eq, UInt8.le_iff_toNat_le,
    UInt8.le_iff_toNat_le, toNat_ofNat (by omega)]
  exact ⟨Nat.le_add_left .., Nat.add_le_add_right (Nat.le_of_lt_succ h) 128⟩

theorem payload_ofNat (h : q < 64) : payload (.ofNat (q + 128)) = q := by
  rw [payload, toNat_ofNat (by omega)]
  omega

/-- The digit behind the first byte tells long forms, surrogates and what is too large. -/
theorem isSecond_ofNat (hp : p < 256) (hq : q < 64) (h₀ : p = 224 → 32 ≤ q) (h₁ : p = 237 → q < 32)
    (h₂ : p = 240 → 16 ≤ q) (h₃ : p = 244 → q < 16) :
    isSecond (.ofNat p) (.ofNat (q + 128)) = true := by
  have heq (n : Nat) (hn : n < 256) : UInt8.ofNat p = UInt8.ofNat n ↔ p = n := by
    rw [← UInt8.toNat_inj, toNat_ofNat hp, toNat_ofNat hn]
  have hle (a b : Nat) (ha : a < 256) (hb : b < 256) :
      (decide (UInt8.ofNat a ≤ .ofNat (q + 128)) && decide (.ofNat (q + 128) ≤ UInt8.ofNat b)) =
        true ↔ a ≤ q + 128 ∧ q + 128 ≤ b := by
    rw [Bool.and_eq_true, decide_eq_true_eq, decide_eq_true_eq, UInt8.le_iff_toNat_le,
      UInt8.le_iff_toNat_le, toNat_ofNat ha, toNat_ofNat hb, toNat_ofNat (by omega)]
  unfold isSecond
  split_ifs with h h h h
  · have := h₀ ((heq 224 (by omega)).1 h)
    exact (hle 160 191 (by omega) (by omega)).2 (by omega)
  · have := h₁ ((heq 237 (by omega)).1 h)
    exact (hle 128 159 (by omega) (by omega)).2 (by omega)
  · have := h₂ ((heq 240 (by omega)).1 h)
    exact (hle 144 191 (by omega) (by omega)).2 (by omega)
  · have := h₃ ((heq 244 (by omega)).1 h)
    exact (hle 128 143 (by omega) (by omega)).2 (by omega)
  · exact isTail_ofNat hq

section Heads

variable {a b d e : UInt8} {rest : List UInt8}

theorem head_one (h : width a = 1) :
    head (a :: rest) = .character (.ofNat a.toNat) rest := by
  simp only [head, h]

theorem head_two (h : width a = 2) (hb : isSecond a b = true) :
    head (a :: b :: rest) = .character (.ofNat (a.toNat % 32 * 64 + payload b)) rest := by
  simp [head, h, hb]

theorem head_three (h : width a = 3) (hb : isSecond a b = true) (hd : isTail d = true) :
    head (a :: b :: d :: rest) =
      .character (.ofNat (a.toNat % 16 * 4096 + payload b * 64 + payload d)) rest := by
  simp [head, h, hb, hd]

theorem head_four (h : width a = 4) (hb : isSecond a b = true) (hd : isTail d = true)
    (he : isTail e = true) : head (a :: b :: d :: e :: rest) =
      .character
        (.ofNat (a.toNat % 8 * 262144 + payload b * 4096 + payload d * 64 + payload e)) rest := by
  simp [head, h, hb, hd, he]

end Heads

theorem head_encodeChar (c : Char) (rest : List UInt8) :
    head (String.utf8EncodeChar c ++ rest) = .character c rest := by
  have hc : Char.ofNat c.val.toNat = c := c.ofNat_toNat
  have hvalid : c.val.toNat < 55296 ∨ 57343 < c.val.toNat ∧ c.val.toNat < 1114112 := c.valid
  suffices head (String.utf8EncodeChar c ++ rest) = .character (.ofNat c.val.toNat) rest by
    rwa [hc] at this
  clear hc
  -- only the number counts from here on: one case for each length of its encoding
  unfold String.utf8EncodeChar
  generalize c.val.toNat = v at *
  dsimp only
  split_ifs
  · have hw : width (.ofNat v) = 1 := by rw [width_ofNat (by omega), if_pos ‹_›]
    refine (head_one hw).trans ?_
    rw [toNat_ofNat (by omega)]
    rfl
  · have hw : width (.ofNat (v / 64 % 32 + 192)) = 2 := by
      rw [width_ofNat (by omega), if_neg (by omega), if_pos (by omega)]
    have hs : isSecond (.ofNat (v / 64 % 32 + 192)) (.ofNat (v % 64 + 128)) = true :=
      isSecond_ofNat (by omega) (by omega) (by omega) (by omega) (by omega) (by omega)
    refine (head_two hw hs).trans ?_
    rw [toNat_ofNat (by omega), payload_ofNat (by omega)]
    refine congrArg (fun n => Head.character (.ofNat n) rest) ?_
    omega
  · have hw : width (.ofNat (v / 4096 % 16 + 224)) = 3 := by
      rw [width_ofNat (by omega), if_neg (by omega), if_neg (by omega), if_pos (by omega)]
    have hs : isSecond (.ofNat (v / 4096 % 16 + 224)) (.ofNat (v / 64 % 64 + 128)) = true :=
      isSecond_ofNat (by omega) (by omega) (by omega) (by omega) (by omega) (by omega)
    refine (head_three hw hs (isTail_ofNat (by omega))).trans ?_
    rw [toNat_ofNat (by omega), payload_ofNat (by omega), payload_ofNat (by omega)]
    refine congrArg (fun n => Head.character (.ofNat n) rest) ?_
    omega
  · have hw : width (.ofNat (v / 262144 % 8 + 240)) = 4 := by
      rw [width_ofNat (by omega), if_neg (by omega), if_neg (by omega), if_neg (by omega),
        if_pos (by omega)]
    have hs : isSecond (.ofNat (v / 262144 % 8 + 240)) (.ofNat (v / 4096 % 64 + 128)) = true :=
      isSecond_ofNat (by omega) (by omega) (by omega) (by omega) (by omega) (by omega)
    refine (head_four hw hs (isTail_ofNat (by omega)) (isTail_ofNat (by omega))).trans ?_
    rw [toNat_ofNat (by omega), payload_ofNat (by omega), payload_ofNat (by omega),
      payload_ofNat (by omega)]
    refine congrArg (fun n => Head.character (.ofNat n) rest) ?_
    omega

theorem decodeFrom_encode : ∀ (cs : List Char) (index : Nat) (seen : List Char),
    decodeFrom index seen (cs.flatMap String.utf8EncodeChar) = .ok (seen.reverse ++ cs)
  | [], index, seen => by
    rw [decodeFrom, List.append_nil]
    rfl
  | c :: cs, index, seen => by
    have ih := decodeFrom_encode cs (index + c.utf8Size) (c :: seen)
    rw [List.reverse_cons, List.append_assoc, List.singleton_append] at ih
    rw [List.flatMap_cons, decodeFrom]
    split <;> rename_i h <;> rw [head_encodeChar] at h
    · cases h
    · cases h
    · cases h
      exact ih

/-! ## What is read is what was written -/

theorem toNat_of_width {a : UInt8} {n : Nat} (h : width a = n) (hn : n ≠ 0) :
    n = 1 ∧ a.toNat ≤ 127 ∨ n = 2 ∧ 194 ≤ a.toNat ∧ a.toNat ≤ 223 ∨
      n = 3 ∧ 224 ≤ a.toNat ∧ a.toNat ≤ 239 ∨ n = 4 ∧ 240 ≤ a.toNat ∧ a.toNat ≤ 244 := by
  obtain ⟨p, hp, rfl⟩ : ∃ p, p < 256 ∧ a = .ofNat p := ⟨a.toNat, a.toNat_lt, by simp⟩
  rw [width_ofNat hp] at h
  rw [toNat_ofNat hp]
  split_ifs at h <;> omega

theorem toNat_of_isTail {b : UInt8} (h : isTail b = true) : 128 ≤ b.toNat ∧ b.toNat ≤ 191 := by
  simpa [isTail, UInt8.le_iff_toNat_le] using h

theorem toNat_of_isSecond {a b : UInt8} (h : isSecond a b = true) :
    128 ≤ b.toNat ∧ b.toNat ≤ 191 ∧ (a.toNat = 224 → 160 ≤ b.toNat) ∧
      (a.toNat = 237 → b.toNat ≤ 159) ∧ (a.toNat = 240 → 144 ≤ b.toNat) ∧
      (a.toNat = 244 → b.toNat ≤ 143) := by
  unfold isSecond at h
  simp only [← UInt8.toNat_inj, isTail] at h
  split_ifs at h <;> simp [UInt8.le_iff_toNat_le] at * <;> omega

theorem encodeChar_ofNat {v : Nat} (h : v.isValidChar) : String.utf8EncodeChar (.ofNat v) =
    if v ≤ 127 then [.ofNat v]
    else if v ≤ 2047 then [.ofNat (v / 64 % 32 + 192), .ofNat (v % 64 + 128)]
    else if v ≤ 65535 then
      [.ofNat (v / 4096 % 16 + 224), .ofNat (v / 64 % 64 + 128), .ofNat (v % 64 + 128)]
    else [.ofNat (v / 262144 % 8 + 240), .ofNat (v / 4096 % 64 + 128),
      .ofNat (v / 64 % 64 + 128), .ofNat (v % 64 + 128)] := by
  have hv : (Char.ofNat v).val.toNat = v := by
    rw [Char.ofNat, dif_pos h]
    rfl
  unfold String.utf8EncodeChar
  rw [hv]

/-- The bytes of a character as they are told apart when they are read. -/
inductive Spells : List UInt8 → Char → Prop where
  | one {a : UInt8} (h : width a = 1) : Spells [a] (.ofNat a.toNat)
  | two {a b : UInt8} (h : width a = 2) (hb : isSecond a b = true) :
    Spells [a, b] (.ofNat (a.toNat % 32 * 64 + payload b))
  | three {a b d : UInt8} (h : width a = 3) (hb : isSecond a b = true) (hd : isTail d = true) :
    Spells [a, b, d] (.ofNat (a.toNat % 16 * 4096 + payload b * 64 + payload d))
  | four {a b d e : UInt8} (h : width a = 4) (hb : isSecond a b = true) (hd : isTail d = true)
    (he : isTail e = true) : Spells [a, b, d, e]
      (.ofNat (a.toNat % 8 * 262144 + payload b * 4096 + payload d * 64 + payload e))

theorem eq_nil_of_head {bytes : List UInt8} (h : head bytes = .finished) : bytes = [] := by
  unfold head at h
  repeat' split at h
  all_goals first | rfl | cases h

theorem spells_of_head {bytes rest : List UInt8} {c : Char} (h : head bytes = .character c rest) :
    ∃ front, Spells front c ∧ bytes = front ++ rest := by
  unfold head at h
  split at h
  · cases h
  rename_i a rest₁
  split at h
  · cases h
  · rename_i hw
    cases h
    exact ⟨_, .one hw, rfl⟩
  · cases h
  · rename_i b rest₂ hw
    split_ifs at h with hb
    cases h
    exact ⟨_, .two hw (by simpa using hb), rfl⟩
  · rename_i b rest₂ hw
    split_ifs at h with hb
    split at h
    · cases h
    split_ifs at h with hd
    cases h
    exact ⟨_, .three hw (by simpa using hb) (by simpa using hd), rfl⟩
  · rename_i b rest₂ h₀ h₁ h₂ h₃
    split_ifs at h with hb
    split at h
    · cases h
    split_ifs at h with hd
    split at h
    · cases h
    split_ifs at h with he
    cases h
    have hw : width a = 4 := by
      rcases toNat_of_width rfl h₀ with ⟨h, -⟩ | ⟨h, -⟩ | ⟨h, -⟩ | ⟨h, -⟩
      exacts [(h₁ h).elim, (h₂ h).elim, (h₃ h).elim, h]
    exact ⟨_, .four hw (by simpa using hb) (by simpa using hd) (by simpa using he), rfl⟩

theorem Spells.eq {bytes : List UInt8} {c : Char} (h : Spells bytes c) :
    bytes = String.utf8EncodeChar c := by
  have back (a : UInt8) {n : Nat} (hn : n = a.toNat) : UInt8.ofNat n = a := by
    rw [hn, UInt8.ofNat_toNat]
  have hp (b : UInt8) : payload b = b.toNat % 64 := rfl
  cases h with
  | @one a h =>
    have ha := toNat_of_width h
    rw [encodeChar_ofNat (.inl (by omega)), if_pos (by omega), back a rfl]
  | @two a b h hb =>
    have ha : 194 ≤ a.toNat ∧ a.toNat ≤ 223 := by
      have := toNat_of_width h
      omega
    obtain ⟨hb₀, hb₁, -⟩ := toNat_of_isSecond hb
    rw [hp, encodeChar_ofNat (.inl (by omega)), if_neg (by omega), if_pos (by omega),
      back a (by omega), back b (by omega)]
  | @three a b d h hb hd =>
    have ha : 224 ≤ a.toNat ∧ a.toNat ≤ 239 := by
      have := toNat_of_width h
      omega
    obtain ⟨hb₀, hb₁, hlong, hsurrogate, -⟩ := toNat_of_isSecond hb
    have hd := toNat_of_isTail hd
    have hlow : 2047 < a.toNat % 16 * 4096 + b.toNat % 64 * 64 + d.toNat % 64 := by omega
    have hvalid : (a.toNat % 16 * 4096 + b.toNat % 64 * 64 + d.toNat % 64).isValidChar := by
      unfold Nat.isValidChar
      omega
    clear hlong hsurrogate
    rw [hp, hp, encodeChar_ofNat hvalid, if_neg (by omega), if_neg (by omega), if_pos (by omega),
      back a (by omega), back b (by omega), back d (by omega)]
  | @four a b d e h hb hd he =>
    have ha : 240 ≤ a.toNat ∧ a.toNat ≤ 244 := by
      have := toNat_of_width h
      omega
    obtain ⟨hb₀, hb₁, -, -, hlong, hlarge⟩ := toNat_of_isSecond hb
    have hd := toNat_of_isTail hd
    have he := toNat_of_isTail he
    have hlow : 65535 < a.toNat % 8 * 262144 + b.toNat % 64 * 4096 + d.toNat % 64 * 64 +
        e.toNat % 64 := by omega
    have hhigh : a.toNat % 8 * 262144 + b.toNat % 64 * 4096 + d.toNat % 64 * 64 +
        e.toNat % 64 < 1114112 := by omega
    clear hlong hlarge
    rw [hp, hp, hp, encodeChar_ofNat (.inr (by omega)), if_neg (by omega), if_neg (by omega),
      if_neg (by omega), back a (by omega), back b (by omega), back d (by omega),
      back e (by omega)]

/-- Only the bytes of a text are read as that text. -/
theorem encode_of_decodeFrom {index : Nat} {seen cs : List Char} {bytes : List UInt8}
    (h : decodeFrom index seen bytes = .ok cs) :
    ∃ more, cs = seen.reverse ++ more ∧ bytes = more.flatMap String.utf8EncodeChar := by
  induction index, seen, bytes using decodeFrom.induct with
  | case1 index seen bytes hh =>
    rw [decodeFrom] at h
    split at h <;> rename_i hh' <;> rw [hh] at hh' <;> cases hh'
    cases h
    exact ⟨[], (List.append_nil _).symm, eq_nil_of_head hh⟩
  | case2 index seen bytes n hh =>
    rw [decodeFrom] at h
    split at h <;> rename_i hh' <;> rw [hh] at hh' <;> cases hh'
    cases h
  | case3 index seen bytes c rest hh ih =>
    rw [decodeFrom] at h
    split at h <;> rename_i hh' <;> rw [hh] at hh' <;> cases hh'
    obtain ⟨more, rfl, hmore⟩ := ih h
    obtain ⟨front, hfront, rfl⟩ := spells_of_head hh
    exact ⟨c :: more, by simp, by rw [List.flatMap_cons, ← hmore, hfront.eq]⟩

end Utf8

/-! ## Texts -/

theorem toList_loop (b : ByteArray) (i : Nat) (r : List UInt8) :
    ByteArray.toList.loop b i r = r.reverse ++ b.data.toList.drop i := by
  rw [ByteArray.toList.loop]
  split
  · rename_i h
    have hi : i < b.data.toList.length := by rwa [Array.length_toList]
    have hget : b.get! i = b.data.toList[i] := by
      rw [Array.getElem_toList]
      exact getElem!_pos b.data i h
    rw [toList_loop b (i + 1), List.drop_eq_getElem_cons hi, hget, List.reverse_cons,
      List.append_assoc, List.singleton_append]
  · rename_i h
    rw [List.drop_of_length_le (by rw [Array.length_toList]; exact Nat.le_of_not_lt h),
      List.append_nil]
termination_by b.size - i

theorem toList_eq_data (b : ByteArray) : b.toList = b.data.toList := toList_loop b 0 []

theorem toList_toUTF8 (s : String) : s.toUTF8.toList = s.toList.flatMap String.utf8EncodeChar := by
  rw [toUTF8_eq_utf8, toList_eq_data, List.toList_data_toByteArray, utf8]

theorem ofUtf8_toUTF8 (s : String) : ofUtf8 s.toUTF8 = .ok s := by
  rw [ofUtf8, toList_toUTF8, Utf8.decodeFrom_encode]
  exact congrArg Except.ok String.ofList_toList

theorem ofUtf8_eq_ok_iff {bytes : ByteArray} {s : String} :
    ofUtf8 bytes = .ok s ↔ bytes = s.toUTF8 := by
  refine ⟨fun h => ?_, fun h => h ▸ ofUtf8_toUTF8 s⟩
  unfold ofUtf8 at h
  cases hd : Utf8.decodeFrom 0 [] bytes.toList with
  | error f => rw [hd] at h; cases h
  | ok cs =>
    rw [hd] at h
    cases h
    obtain ⟨more, hmore, hbytes⟩ := Utf8.encode_of_decodeFrom hd
    rw [List.reverse_nil, List.nil_append] at hmore
    subst hmore
    have htext := toList_toUTF8 (String.ofList cs)
    rw [String.toList_ofList, ← hbytes, toList_eq_data, toList_eq_data] at htext
    exact ByteArray.ext (Array.toList_inj.1 htext.symm)

end LiveModules.Text
