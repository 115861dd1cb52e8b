import CppJson.Lib.Scan
import CppJson.Libc.Lemmas.Digits

/-!
# `strtod` and `sprintf` on JSON numbers

`strtod` reads every JSON number to its end, and what `sprintf` writes is a JSON number.
-/

namespace CppJson

open Json

/-! ## `strtod` reads a number to its end -/

theorem isDigit_ne {b c : UInt8} (h : isDigit b) (hc : isDigit c = false) : b ≠ c := by
  rintro rfl
  simp [h] at hc

theorem Json.IsInt.digits {i : List UInt8} (h : IsInt i) : i ≠ [] ∧ ∀ b ∈ i, isDigit b := by
  rcases h with rfl | ⟨d, ds, rfl, -, hds⟩
  · simp; decide
  · exact ⟨by simp, hds⟩

theorem Json.IsExp.stops {e : List UInt8} (h : IsExp e) : Stops isDigit e := by
  rcases h with rfl | ⟨c, sign, ds, rfl, rfl | rfl, -⟩
  · exact stops_nil
  · exact stops_cons.mpr (by decide)
  · exact stops_cons.mpr (by decide)

theorem Json.IsFrac.stops {f k : List UInt8} (h : IsFrac f) (hk : Stops isDigit k) :
    Stops isDigit (f ++ k) := by
  rcases h with rfl | ⟨ds, rfl, -⟩
  · exact hk
  · exact stops_cons.mpr (by decide)

theorem strtodSign_digits {ds k : List UInt8} (hne : ds ≠ []) (hds : ∀ b ∈ ds, isDigit b) :
    strtodSign (ds ++ k) = (false, ds ++ k) := by
  cases ds with
  | nil => exact absurd rfl hne
  | cons d ds =>
      have hd := hds d List.mem_cons_self
      have hminus : d ≠ byte '-' := isDigit_ne hd (by decide)
      have hplus : d ≠ byte '+' := isDigit_ne hd (by decide)
      simp only [List.cons_append, strtodSign, if_neg hminus, if_neg hplus]

theorem strtodSign_number {m i k : List UInt8} (hm : IsMinus m) (hi : IsInt i) :
    strtodSign (m ++ (i ++ k)) = (decide (m = [byte '-']), i ++ k) := by
  rcases hm with rfl | rfl
  · simpa using strtodSign_digits (k := k) hi.digits.1 hi.digits.2
  · simp [strtodSign]

theorem strtodFraction_number {f e : List UInt8} (hf : IsFrac f) (he : IsExp e) :
    strtodFraction (f ++ e) = (f.tail, e) := by
  rcases hf with rfl | ⟨ds, rfl, -, hds⟩
  · rcases he with rfl | ⟨c, sign, ds, rfl, rfl | rfl, -⟩
    · rfl
    · simp [strtodFraction]
    · simp [strtodFraction]
  · simp [strtodFraction, takeWhile_append_stop hds he.stops, dropWhile_append_stop hds he.stops]

theorem strtodExponent_number {e : List UInt8} (he : IsExp e) : (strtodExponent e).2 = [] := by
  rcases he with rfl | ⟨c, sign, ds, rfl, hc, hsign, hne, hds⟩
  · rfl
  · have htake : ds.takeWhile isDigit = ds := List.takeWhile_eq_self_iff.mpr hds
    have hdrop : ds.dropWhile isDigit = [] := List.dropWhile_eq_nil_iff.mpr hds
    have hs : (strtodSign (sign ++ ds)).2 = ds := by
      rcases hsign with rfl | rfl | rfl
      · simpa using congrArg Prod.snd (strtodSign_digits (k := []) hne hds)
      · simp [strtodSign]
      · simp [strtodSign]
    simp only [strtodExponent, if_pos hc, hs, htake, hdrop, if_neg hne]

def numberValue (m i f e : List UInt8) : ℚ :=
  (if m = [byte '-'] then -1
    else 1) * (decimal (i ++ f.tail) * 10 ^ ((strtodExponent e).1 - f.tail.length))

theorem strtod_number {m i f e : List UInt8} (hm : IsMinus m) (hi : IsInt i) (hf : IsFrac f)
    (he : IsExp e) :
    strtod (m ++ i ++ f ++ e) = (roundDouble (numberValue m i f e), []) := by
  obtain ⟨hne, hds⟩ := hi.digits
  have hstop : Stops isDigit (f ++ e) := hf.stops he.stops
  have hcat : m ++ i ++ f ++ e = m ++ (i ++ (f ++ e)) := by simp
  simp only [strtod, hcat, strtodSign_number hm hi, takeWhile_append_stop hds hstop,
    dropWhile_append_stop hds hstop, strtodFraction_number hf he, strtodExponent_number he,
    List.append_eq_nil_iff, hne, false_and, ↓reduceIte, numberValue]
  by_cases h : m = [byte '-'] <;> simp [h]

theorem Json.IsNumber.strtod_rest {t : List UInt8} (h : IsNumber t) : (strtod t).2 = [] := by
  obtain ⟨m, i, f, e, rfl, hm, hi, hf, he⟩ := h
  rw [strtod_number hm hi hf he]

/-! ## Integers -/

theorem roundHalfEven_intCast (n : ℤ) : roundHalfEven n = n := by
  simp [roundHalfEven]

theorem roundBits_intCast {n : ℤ} (h : |n| < 2 ^ 53) : roundBits n = n := by
  by_cases h0 : n = 0
  · simp [h0, roundBits, roundHalfEven]
  have hpos : (0 : ℚ) < |(n : ℚ)| := by simpa using h0
  have hlog : Int.log 2 |(n : ℚ)| < 53 := by
    rw [← Int.lt_zpow_iff_log_lt (by norm_num) hpos]
    exact_mod_cast h
  have hu : ulpExponent (n : ℚ) ≤ 0 := by
    simp only [ulpExponent]; omega
  obtain ⟨k, hk⟩ : ∃ k : ℕ, ulpExponent (n : ℚ) = -k := ⟨(-ulpExponent (n : ℚ)).toNat, by omega⟩
  have hdiv : (n : ℚ) / 2 ^ (-(k : ℤ)) = ((n * 2 ^ k : ℤ) : ℚ) := by
    simp [zpow_neg, div_eq_mul_inv]
  rw [roundBits, hk, hdiv, roundHalfEven_intCast]
  simp [zpow_neg]

theorem roundDouble_intCast {n : ℤ} (h : |n| < 2 ^ 53) :
    ∃ x, roundDouble n = .finite x ∧ x.val = n := by
  have hlt : |roundBits (n : ℚ)| < 2 ^ 1024 := by
    rw [roundBits_intCast h]
    calc |(n : ℚ)| < 2 ^ 53 := by exact_mod_cast h
      _ < 2 ^ 1024 := pow_lt_pow_right₀ (by norm_num) (by norm_num)
  exact ⟨⟨roundBits n, hlt, roundBits_ge_min⟩, by simp [roundDouble, hlt], roundBits_intCast h⟩

theorem strtod_sprintfD (n : ℤ) : strtod (sprintfD n) = (roundDouble n, []) := by
  by_cases hn : n < 0
  · have h := strtod_number (.inr rfl) (isInt_decDigits n.natAbs) (.inl rfl) (.inl rfl)
    simp only [List.append_nil, List.singleton_append] at h
    have habs : ((n.natAbs : ℕ) : ℚ) = -(n : ℚ) := by
      rw [Nat.cast_natAbs, abs_of_neg hn]; simp
    rw [sprintfD, if_pos hn, h]
    simp [numberValue, decimal_decDigits, strtodExponent, habs]
  · have h := strtod_number (.inl rfl) (isInt_decDigits n.natAbs) (.inl rfl) (.inl rfl)
    simp only [List.append_nil, List.nil_append] at h
    have habs : ((n.natAbs : ℕ) : ℚ) = (n : ℚ) := by
      rw [Nat.cast_natAbs, abs_of_nonneg (by omega)]
    rw [sprintfD, if_neg hn, h]
    simp [numberValue, decimal_decDigits, strtodExponent, habs]

/-! ## `"%g"` -/

theorem roundHalfEven_mem {x : ℚ} {a b : ℤ} (ha : (a : ℚ) ≤ x) (hb : x < b) :
    a ≤ roundHalfEven x ∧ roundHalfEven x ≤ b := by
  have h₁ : a ≤ ⌊x⌋ := Int.le_floor.mpr ha
  have h₂ : ⌊x⌋ < b := Int.floor_lt.mpr hb
  unfold roundHalfEven
  split_ifs <;> omega

theorem scientific_mantissa {p : ℕ} {q : ℚ} (hp : 0 < p) (hq : 0 < q) :
    10 ^ (p - 1) ≤ (scientific p q).1 ∧ (scientific p q).1 < 10 ^ p := by
  have hlow : (10 : ℚ) ^ Int.log 10 q ≤ q := Int.zpow_log_le_self (by norm_num) hq
  have hhigh : q < (10 : ℚ) ^ (Int.log 10 q + 1) := Int.lt_zpow_succ_log_self (by norm_num) q
  have hpos : (0 : ℚ) < 10 ^ (Int.log 10 q - (p - 1)) := zpow_pos (by norm_num) _
  have h : (10 ^ (p - 1) : ℤ) ≤ roundHalfEven (q / 10 ^ (Int.log 10 q - (p - 1))) ∧
      roundHalfEven (q / 10 ^ (Int.log 10 q - (p - 1))) ≤ (10 ^ p : ℤ) := by
    refine roundHalfEven_mem ?_ ?_
    · rw [le_div_iff₀ hpos]
      refine le_trans (le_of_eq ?_) hlow
      push_cast
      rw [← zpow_natCast, ← zpow_add₀ (by norm_num), Nat.cast_sub hp]
      congr 1; push_cast; ring
    · rw [div_lt_iff₀ hpos]
      refine lt_of_lt_of_eq hhigh ?_
      push_cast
      rw [← zpow_natCast, ← zpow_add₀ (by norm_num)]
      congr 1; ring
  have hp10 : (10 : ℕ) ^ (p - 1) < 10 ^ p := Nat.pow_lt_pow_right (by norm_num) (by omega)
  obtain ⟨d, hd⟩ := Int.eq_ofNat_of_zero_le ((by positivity : (0 : ℤ) ≤ 10 ^ (p - 1)).trans h.1)
  have h₁ : 10 ^ (p - 1) ≤ d := by exact_mod_cast hd ▸ h.1
  have h₂ : d ≤ 10 ^ p := by exact_mod_cast hd ▸ h.2
  simp only [scientific, hd, Int.toNat_natCast]
  split
  · exact ⟨le_rfl, hp10⟩
  · exact ⟨h₁, by omega⟩

theorem scientific_exponent (p : ℕ) (x : Finite) (hx : x.val ≠ 0) :
    -324 ≤ (scientific p |x.val|).2 ∧ (scientific p |x.val|).2 ≤ 309 := by
  have hpos : 0 < |x.val| := abs_pos.mpr hx
  have hlow : -324 ≤ Int.log 10 |x.val| := by
    rw [← Int.zpow_le_iff_le_log (by norm_num) hpos]
    refine le_trans ?_ (x.ge_min hx)
    have h : 2 ^ 1074 ≤ 10 ^ 324 := by decide +kernel
    rw [zpow_neg, zpow_neg]
    exact inv_anti₀ (by positivity) (by exact_mod_cast h)
  have hhigh : Int.log 10 |x.val| < 309 := by
    rw [← Int.lt_zpow_iff_log_lt (by norm_num) hpos]
    have h : 2 ^ 1024 < 10 ^ 309 := by decide +kernel
    exact lt_trans x.lt_max (by exact_mod_cast h)
  simp only [scientific]
  split <;> simp only <;> omega

theorem sprintfGPos_spec {p : ℕ} {q : ℚ} (hp : 0 < p) (hq : 0 < q)
    (hx : (scientific p q).2.natAbs < 1000) :
    ∃ i f e, sprintfGPos p q = i ++ f ++ e ∧ IsInt i ∧ IsFrac f ∧ IsExp e ∧
      (i ++ f ++ e).length ≤ p + 6 := by
  obtain ⟨hd₁, hd₂⟩ := scientific_mantissa hp hq
  have hd0 : (scientific p q).1 ≠ 0 := by
    have : 0 < 10 ^ (p - 1) := by positivity
    omega
  obtain ⟨a, as, heq, ha, has⟩ := significant_digits hd0
  have hlen : (a :: as).length ≤ p :=
    heq ▸ (List.rdropWhile_prefix _ _).length_le.trans (length_decDigits_le hp hd₂)
  simp only [List.length_cons] at hlen
  have hint : ∀ k, IsInt ((a :: as).take (k + 1)) := fun k =>
    .inr ⟨a, as.take k, rfl, ha, fun b hb => has b (List.take_subset (k + 1) _ hb)⟩
  have hfrac : ∀ k, IsFrac (fraction ((a :: as).drop k)) := fun k =>
    isFrac_fraction fun b hb => has b (List.drop_subset k _ hb)
  generalize hx' : (scientific p q).2 = x at hx
  simp only [sprintfGPos, heq, hx']
  split_ifs with hstyle hneg
  · refine ⟨_, _, _, rfl, hint 0, hfrac 1, isExp_exponentText x, ?_⟩
    have h₁ := length_fraction_le as
    have h₂ := length_exponentText_le hx
    simp only [List.take_succ_cons, List.take_zero, List.drop_succ_cons, List.drop_zero,
      List.length_append, List.length_singleton]
    omega
  · refine ⟨[byte '0'], fraction (List.replicate (-x - 1).toNat (byte '0') ++ a :: as), [],
      by simp, .inl rfl, isFrac_fraction fun b hb => ?_, .inl rfl, ?_⟩
    · rcases List.mem_append.mp hb with hb | hb
      · rw [List.eq_of_mem_replicate hb]; decide
      · exact has b hb
    · have h := length_fraction_le (List.replicate (-x - 1).toNat (byte '0') ++ a :: as)
      simp only [List.length_append, List.length_replicate, List.length_cons, List.length_nil] at h ⊢
      omega
  · refine ⟨(a :: as).take (x.toNat + 1) ++ List.replicate (x.toNat + 1 - (a :: as).length) (byte '0'),
      fraction ((a :: as).drop (x.toNat + 1)), [], by simp, ?_, hfrac _, .inl rfl, ?_⟩
    · refine .inr ⟨a, as.take x.toNat ++ List.replicate (x.toNat + 1 - (a :: as).length) (byte '0'),
        rfl, ha, ?_⟩
      intro b hb
      rw [← List.cons_append, ← List.take_succ_cons] at hb
      rcases List.mem_append.mp hb with hb | hb
      · exact has b (List.take_subset _ _ hb)
      · rw [List.eq_of_mem_replicate hb]; decide
    · have h := length_fraction_le ((a :: as).drop (x.toNat + 1))
      simp only [List.length_append, List.length_take, List.length_drop, List.length_replicate,
        List.length_cons, List.length_nil] at h ⊢
      omega

theorem sprintfG_spec {p : ℕ} (hp : 0 < p) (x : Finite) :
    IsNumber (sprintfG p x) ∧ (sprintfG p x).length ≤ p + 7 := by
  by_cases h0 : x.val = 0
  · simp only [sprintfG, h0, ↓reduceIte]
    exact ⟨⟨[], [byte '0'], [], [], rfl, .inl rfl, .inl rfl, .inl rfl, .inl rfl⟩, by simp⟩
  obtain ⟨hlow, hhigh⟩ := scientific_exponent p x h0
  obtain ⟨i, f, e, heq, hi, hf, he, hlen⟩ := sprintfGPos_spec hp (abs_pos.mpr h0) (by omega)
  simp only [sprintfG, h0, ↓reduceIte, heq]
  split
  · refine ⟨⟨[byte '-'], i, f, e, by simp, .inr rfl, hi, hf, he⟩, ?_⟩
    simp only [List.length_cons]; omega
  · exact ⟨⟨[], i, f, e, by simp, .inl rfl, hi, hf, he⟩, by omega⟩

end CppJson
