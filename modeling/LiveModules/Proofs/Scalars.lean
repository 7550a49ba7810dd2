import LiveModules.Json.Scan
import LiveModules.Json.Writer
import LiveModules.Proofs.Readings
import Mathlib.Tactic.SplitIfs

/-!
# Scalars are read back

A string that is written between quotes and an integer that is written in digits are read back,
whatever stands behind the string, and whatever may stand behind a value of a list or an object
behind the integer.
-/

namespace LiveModules.Json

/-! ## Strings -/

variable {c : Char} {rest tail : List Char} {n : Nat}

theorem hexValue_hexDigit : ∀ n < 16, hexValue? (hexDigit n) = some n := by decide

theorem utf8Size_hexDigit : ∀ n < 16, (hexDigit n).utf8Size = 1 := by decide

theorem readHex_control (h : n < 256) :
    readHex ('0' :: '0' :: hexDigit (n / 16) :: hexDigit (n % 16) :: rest) = .ok (n, rest) := by
  have h₁ : n / 16 < 16 := by omega
  have h₂ : n % 16 < 16 := Nat.mod_lt n (by decide)
  have hzero : hexValue? '0' = some 0 := by decide
  have hsize : ('0' : Char).utf8Size = 1 := by decide
  simp only [readHex, List.take, List.foldl, hsize, utf8Size_hexDigit _ h₁, utf8Size_hexDigit _ h₂,
    hzero, hexValue_hexDigit _ h₁, hexValue_hexDigit _ h₂]
  simp only [Nat.lt_irrefl, ↓reduceIte, Except.ok.injEq, Prod.mk.injEq, and_true, Nat.reduceAdd]
  omega

/-- An escaped character is read in one step. -/
theorem readChars_escape (fuel : Nat) (seen : List Char) :
    readChars (fuel + 1) seen (escape c ++ tail) = readChars fuel (c :: seen) tail := by
  unfold escape
  split_ifs with hquote hback hn hr ht hb hf hlow
  · subst hquote; rfl
  · subst hback; rfl
  · subst hn; rfl
  · subst hr; rfl
  · subst ht; rfl
  · obtain rfl : c = '\x08' := Char.toNat_inj.1 hb
    rfl
  · obtain rfl : c = '\x0c' := Char.toNat_inj.1 hf
    rfl
  · have hbyte : c.toNat < 256 := Nat.lt_trans hlow (by decide)
    have hread : readEscape ('u' :: '0' :: '0' :: hexDigit (c.toNat / 16) ::
        hexDigit (c.toNat % 16) :: tail) = .ok (c, tail) := by
      simp only [readEscape, readHex_control hbyte]
      rw [if_neg (by simp; omega), if_neg (by simp; omega), c.ofNat_toNat]
    simp only [List.cons_append, List.nil_append, readChars, hread]
  · rw [List.singleton_append, readChars]
    · rw [if_neg hlow]
    · exact hquote
    · exact hback

theorem readChars_escaped : ∀ (cs : List Char) (fuel : Nat) (seen : List Char), cs.length < fuel →
    readChars fuel seen (cs.flatMap escape ++ '"' :: rest) = .ok (seen.reverse ++ cs, rest)
  | [], fuel + 1, seen, _ => by
    rw [List.append_nil]
    rfl
  | c :: cs, fuel + 1, seen, h => by
    rw [List.flatMap_cons, List.append_assoc, readChars_escape,
      readChars_escaped cs fuel (c :: seen) (Nat.lt_of_succ_lt_succ h), List.reverse_cons,
      List.append_assoc, List.singleton_append]

theorem length_le_flatMap_escape (cs : List Char) : cs.length ≤ (cs.flatMap escape).length := by
  have hpos (c : Char) : 1 ≤ (escape c).length := by
    unfold escape
    split_ifs <;> simp
  induction cs with
  | nil => exact Nat.le_refl 0
  | cons c cs ih =>
    have := hpos c
    rw [List.flatMap_cons, List.length_append, List.length_cons]
    omega

/-- Behind its opening quote a written string is read back. -/
theorem readString_quote (s : String) (rest : List Char) :
    readString (s.toList.flatMap escape ++ '"' :: rest) = .ok (s, rest) := by
  have hfuel := length_le_flatMap_escape s.toList
  rw [readString, readChars_escaped s.toList _ [] (by simp only [List.length_append]; omega)]
  exact congrArg (fun s => Except.ok (s, rest)) String.ofList_toList

/-! ## Integers -/

/-- What may stand behind a value: nothing, a comma or a closing bracket. -/
inductive Delimited : List Char → Prop where
  | finished : Delimited []
  | comma (rest : List Char) : Delimited (',' :: rest)
  | bracket (rest : List Char) : Delimited (']' :: rest)
  | brace (rest : List Char) : Delimited ('\x7d' :: rest)

theorem takeDigits_eq : ∀ (ds : List Char) (n : Nat),
    Nat.ofDigitChars 10 ds n ≤ largestUnsigned → takeDigits n ds = (Nat.ofDigitChars 10 ds n, [])
  | [], _, _ => rfl
  | d :: ds, n, h => by
    have hstep : Nat.ofDigitChars 10 (d :: ds) n =
        Nat.ofDigitChars 10 ds (n * 10 + digitValue d) := by
      rw [Nat.ofDigitChars_cons, Nat.mul_comm]
      rfl
    rw [hstep] at h ⊢
    have hle : n * 10 + digitValue d ≤ Nat.ofDigitChars 10 ds (n * 10 + digitValue d) := by
      rw [Nat.ofDigitChars_eq_ofDigitChars_zero]
      exact Nat.le_add_right_of_le (Nat.le_mul_of_pos_left _ (Nat.pow_pos (by decide)))
    rw [takeDigits, if_pos (Nat.le_trans hle h), takeDigits_eq ds _ h]

theorem isDigit_of_mem_toDigits (hc : c ∈ Nat.toDigits 10 n) : isDigit c = true := by
  simpa [isDigit, Char.isDigit, Char.le_def] using
    Nat.isDigit_of_mem_toDigits (by decide) (by decide) hc

/-- Only zero is written with a leading zero. -/
theorem eq_zero_of_head_toDigits (h : (Nat.toDigits 10 n).head? = some '0') : n = 0 := by
  induction n using Nat.strongRecOn with
  | _ n ih =>
    by_cases hn : n < 10
    · rw [Nat.toDigits_of_lt_base hn] at h
      exact Nat.digitChar_eq_zero.1 (Option.some.inj h)
    · rw [Nat.toDigits_of_base_le (by decide) (Nat.le_of_not_lt hn),
        List.head?_append, Option.or_eq_left_of_isSome (by simp [Nat.toDigits_ne_nil])] at h
      have := ih (n / 10) (by omega) h
      omega

theorem span_toDigits (n : Nat) (h : Delimited rest) :
    (Nat.toDigits 10 n ++ rest).takeWhile isDigit = Nat.toDigits 10 n ∧
      (Nat.toDigits 10 n ++ rest).dropWhile isDigit = rest := by
  have hdigits : ∀ c ∈ Nat.toDigits 10 n, isDigit c = true := fun c => isDigit_of_mem_toDigits
  rw [List.takeWhile_append_of_pos hdigits, List.dropWhile_append_of_pos hdigits]
  cases h <;> exact ⟨List.append_nil _, rfl⟩

/-- Zero with a minus sign and what is below the least signed number come back as floats. -/
theorem readNumber_toDigits {negative : Bool} (hn : n ≤ largestUnsigned) (hrest : Delimited rest) :
    readNumber negative (Nat.toDigits 10 n ++ rest) =
      if !negative then .ok (.int n, rest)
      else if n = 0 || Nat.pow 2 63 < n then .ok (.float (-Float.ofNat n), rest)
      else .ok (.int (-n), rest) := by
  have hvalue : takeDigits 0 (Nat.toDigits 10 n) = (n, []) := by
    rw [takeDigits_eq _ 0 (by rwa [Nat.ofDigitChars_ten_toDigits]), Nat.ofDigitChars_ten_toDigits]
  obtain ⟨htake, hdrop⟩ := span_toDigits n hrest
  obtain ⟨d, ds, hds⟩ := List.exists_cons_of_ne_nil (Nat.toDigits_ne_nil (n := n) (b := 10))
  have hd : isDigit d = true := isDigit_of_mem_toDigits (n := n) (by simp [hds])
  have hlead : (d = '0' && (ds ++ rest).head?.any isDigit) = false := by
    rw [Bool.and_eq_false_imp, decide_eq_true_eq]
    rintro rfl
    obtain rfl := eq_zero_of_head_toDigits (n := n) (by simp [hds])
    obtain rfl : ds = [] := (List.cons.inj hds).2.symm
    cases hrest <;> rfl
  rw [hds] at htake hdrop hvalue ⊢
  unfold readNumber
  dsimp only [List.cons_append] at htake hdrop ⊢
  simp only [hd, hlead, htake, hdrop, hvalue]
  cases hrest <;> rfl

/-- The integers that are kept as such: signed or unsigned numbers of 64 bits. -/
def Kept (i : Int) : Prop := -0x8000000000000000 ≤ i ∧ i ≤ largestUnsigned

theorem writeNumber_nat (n : Nat) : writeNumber (.int n) = Nat.toDigits 10 n := by
  have hrepr : toString (n : Int) = n.repr := rfl
  rw [writeNumber, hrepr, Nat.repr_eq_ofList_toDigits, String.toList_ofList]

theorem writeNumber_negSucc (n : Nat) :
    writeNumber (.int (.negSucc n)) = '-' :: Nat.toDigits 10 (n + 1) := by
  have hrepr : toString (Int.negSucc n) = "-" ++ (n + 1).repr := rfl
  simp [writeNumber, hrepr, Nat.repr_eq_ofList_toDigits]

/-- A written integer starts with its sign or a digit, and the rest is read back. -/
theorem readNumber_writeNumber {i : Int} (h : Kept i) :
    (∃ ds, writeNumber (.int i) = '-' :: ds ∧
      ∀ rest, Delimited rest → readNumber true (ds ++ rest) = .ok (.int i, rest)) ∨
    ∃ d ds, writeNumber (.int i) = d :: ds ∧ isDigit d = true ∧
      ∀ rest, Delimited rest → readNumber false (d :: ds ++ rest) = .ok (.int i, rest) := by
  have hlargest : largestUnsigned = 18446744073709551615 := rfl
  cases i with
  | ofNat n =>
    obtain ⟨d, ds, hds⟩ := List.exists_cons_of_ne_nil (Nat.toDigits_ne_nil (n := n) (b := 10))
    have hd : isDigit d = true := isDigit_of_mem_toDigits (n := n) (by simp [hds])
    have hn : n ≤ largestUnsigned := Int.ofNat_le.1 h.2
    refine .inr ⟨d, ds, (writeNumber_nat n).trans hds, hd, fun rest hrest => ?_⟩
    rw [← hds, readNumber_toDigits hn hrest]
    rfl
  | negSucc n =>
    have hge : -0x8000000000000000 ≤ Int.negSucc n := h.1
    have hn : n + 1 ≤ largestUnsigned := by omega
    have hleast : ¬ Nat.pow 2 63 < n + 1 := by
      rw [show Nat.pow 2 63 = 9223372036854775808 from rfl]
      omega
    refine .inl ⟨_, writeNumber_negSucc n, fun rest hrest => ?_⟩
    rw [readNumber_toDigits hn hrest]
    simp [hleast, Int.negSucc_eq]

/-! ### What is read as an integer -/

section Floats

variable {negative : Bool} {e i : Int} {cs : List Char}

theorem floatOfParts_ne_int : floatOfParts negative n e ≠ .ok (.int i) := by
  unfold floatOfParts
  split <;> exact nofun

theorem readExponent_ne_int : readExponent negative n e cs ≠ .ok (.int i, rest) := by
  intro h
  unfold readExponent at h
  dsimp only at h
  split at h
  · cases h
  split at h
  · cases h
  split_ifs at h
  · cases h
  · cases h
  all_goals
    obtain ⟨x, hx, hr⟩ := Except.bind_eq_ok_iff.1 h
    cases hr
    exact floatOfParts_ne_int hx

theorem readScale_ne_int : readScale negative n e cs ≠ .ok (.int i, rest) := by
  unfold readScale
  split
  · exact readExponent_ne_int
  · exact readExponent_ne_int
  · intro h
    obtain ⟨x, hx, hr⟩ := Except.map_eq_ok_iff.1 h
    cases hr
    exact floatOfParts_ne_int hx

theorem readFraction_ne_int : readFraction negative n e cs ≠ .ok (.int i, rest) := by
  unfold readFraction
  dsimp only
  split
  · exact nofun
  · exact readScale_ne_int

end Floats

theorem takeDigits_le : ∀ (ds : List Char) (n : Nat), n ≤ largestUnsigned →
    (takeDigits n ds).1 ≤ largestUnsigned
  | [], _, h => h
  | d :: ds, n, h => by
    unfold takeDigits
    split_ifs with hd
    · exact takeDigits_le ds _ hd
    · exact h

/-- A number that is read as an integer fits 64 bits. -/
theorem kept_of_readNumber {negative : Bool} {i : Int} {cs : List Char}
    (h : readNumber negative cs = .ok (.int i, rest)) : Kept i := by
  unfold readNumber at h
  split at h
  · cases h
  split at h
  · cases h
  split at h
  · cases h
  rename_i d ds _ _
  have hle := takeDigits_le ((d :: ds).takeWhile isDigit) 0 (Nat.zero_le _)
  have hlargest : largestUnsigned = 18446744073709551615 := rfl
  generalize takeDigits 0 ((d :: ds).takeWhile isDigit) = taken at h hle
  dsimp only at h
  split at h
  · exact absurd h readFraction_ne_int
  · exact absurd h readExponent_ne_int
  · exact absurd h readExponent_ne_int
  split at h
  · obtain ⟨x, hx, hr⟩ := Except.map_eq_ok_iff.1 h
    cases hr
    exact absurd hx floatOfParts_ne_int
  split at h
  · cases h
    unfold Kept
    omega
  split at h
  · cases h
  · rename_i hzero
    simp only [Bool.or_eq_true, decide_eq_true_eq, not_or, Nat.not_lt] at hzero
    have hleast : taken.1 ≤ 9223372036854775808 := hzero.2
    cases h
    unfold Kept
    omega

end LiveModules.Json
