import CppJson.Libc.Double
import CppJson.Lib.Json

/-!
# Decimal digits and the number grammar

The digits, fractions and exponents that `sprintf` writes are those of the grammar.
-/

namespace CppJson

open Json

/-! ## Digits -/

theorem digitByte_isDigit {d : ℕ} (h : d < 10) : isDigit (digitByte d) := by
  interval_cases d <;> decide

theorem digitVal_digitByte {d : ℕ} (h : d < 10) : digitVal (digitByte d) = d := by
  interval_cases d <;> decide

theorem digitByte_eq_zero {d : ℕ} (h : d < 10) : digitByte d = byte '0' ↔ d = 0 := by
  interval_cases d <;> decide

theorem decDigits_of_ne_zero {n : ℕ} (h : n ≠ 0) :
    decDigits n = (Nat.digits 10 n).reverse.map digitByte := by
  simp [decDigits, h]

theorem isDigit_of_mem_decDigits {n : ℕ} {b : UInt8} (h : b ∈ decDigits n) : isDigit b := by
  by_cases hn : n = 0
  · simp only [decDigits, hn, ↓reduceIte, List.mem_singleton] at h
    subst h; decide
  · rw [decDigits_of_ne_zero hn] at h
    simp only [List.mem_map, List.mem_reverse] at h
    obtain ⟨d, hd, rfl⟩ := h
    exact digitByte_isDigit (Nat.digits_lt_base (by norm_num) hd)

theorem decDigits_ne_nil (n : ℕ) : decDigits n ≠ [] := by
  by_cases hn : n = 0
  · simp [decDigits, hn]
  · simpa [decDigits_of_ne_zero hn, Nat.digits_eq_nil_iff_eq_zero] using hn

theorem decDigits_head {n : ℕ} (hn : n ≠ 0) : ∃ d ds, decDigits n = d :: ds ∧ d ≠ byte '0' := by
  have hne : Nat.digits 10 n ≠ [] := Nat.digits_ne_nil_iff_ne_zero.mpr hn
  have hlast := Nat.getLast_digit_ne_zero 10 hn
  have hlt : (Nat.digits 10 n).getLast hne < 10 :=
    Nat.digits_lt_base (by norm_num) (List.getLast_mem hne)
  refine ⟨digitByte ((Nat.digits 10 n).getLast hne),
    ((Nat.digits 10 n).dropLast).reverse.map digitByte, ?_, ?_⟩
  · rw [decDigits_of_ne_zero hn]
    conv_lhs => rw [← List.dropLast_append_getLast hne]
    simp
  · rwa [Ne, digitByte_eq_zero hlt]

theorem isInt_decDigits (n : ℕ) : IsInt (decDigits n) := by
  by_cases hn : n = 0
  · left; simp [decDigits, hn]
  · obtain ⟨d, ds, heq, hd⟩ := decDigits_head hn
    exact .inr ⟨d, ds, heq, hd, fun x hx => isDigit_of_mem_decDigits (heq ▸ hx)⟩

theorem length_decDigits_le {n k : ℕ} (hk : 0 < k) (h : n < 10 ^ k) : (decDigits n).length ≤ k := by
  by_cases hn : n = 0
  · simp only [decDigits, hn, ↓reduceIte, List.length_singleton]; omega
  · rw [decDigits_of_ne_zero hn, List.length_map, List.length_reverse]
    exact (Nat.digits_length_le_iff (by norm_num) n).mpr h

theorem decimal_append (as : List UInt8) (b : UInt8) :
    decimal (as ++ [b]) = 10 * decimal as + digitVal b := by
  simp [decimal]

theorem decimal_reverse_map {ds : List ℕ} (h : ∀ d ∈ ds, d < 10) :
    decimal (ds.reverse.map digitByte) = Nat.ofDigits 10 ds := by
  induction ds with
  | nil => rfl
  | cons d ds ih =>
      rw [List.reverse_cons, List.map_append, List.map_singleton, decimal_append,
        ih fun x hx => h x (List.mem_cons_of_mem _ hx), digitVal_digitByte (h d List.mem_cons_self),
        Nat.ofDigits_cons]
      simp [add_comm]

theorem decimal_decDigits (n : ℕ) : decimal (decDigits n) = n := by
  by_cases hn : n = 0
  · subst hn; rfl
  · rw [decDigits_of_ne_zero hn, decimal_reverse_map fun d hd => Nat.digits_lt_base (by norm_num) hd,
      Nat.ofDigits_digits]

/-! ## `sprintf` -/

theorem isNumber_sprintfD (n : ℤ) : IsNumber (sprintfD n) := by
  unfold sprintfD
  split
  · exact ⟨[byte '-'], decDigits n.natAbs, [], [], by simp, .inr rfl, isInt_decDigits _,
      .inl rfl, .inl rfl⟩
  · exact ⟨[], decDigits n.natAbs, [], [], by simp, .inl rfl, isInt_decDigits _, .inl rfl, .inl rfl⟩

theorem length_sprintfD_le {n : ℤ} (h₁ : intMin ≤ n) (h₂ : n ≤ intMax) : (sprintfD n).length ≤ 11 := by
  have h : (decDigits n.natAbs).length ≤ 10 :=
    length_decDigits_le (by norm_num) (by simp only [intMin, intMax] at h₁ h₂; omega)
  unfold sprintfD
  split
  · simp only [List.length_cons]; omega
  · omega

theorem isFrac_fraction {ds : List UInt8} (h : ∀ x ∈ ds, isDigit x) : IsFrac (fraction ds) := by
  unfold fraction
  split
  · exact .inl rfl
  · exact .inr ⟨ds, rfl, by assumption, h⟩

theorem length_fraction_le (ds : List UInt8) : (fraction ds).length ≤ ds.length + 1 := by
  unfold fraction
  split <;> simp

theorem exponentDigits (x : ℤ) :
    ∃ ds, exponentText x = byte 'e' :: ([if x < 0 then byte '-' else byte '+'] ++ ds) ∧ ds ≠ [] ∧
      (∀ b ∈ ds, isDigit b) ∧ (x.natAbs < 1000 → ds.length ≤ 3) := by
  by_cases h10 : x.natAbs < 10
  · refine ⟨byte '0' :: decDigits x.natAbs, by simp [exponentText, h10], by simp,
      fun b hb => ?_, fun _ => ?_⟩
    · rcases List.mem_cons.mp hb with rfl | hb
      · decide
      · exact isDigit_of_mem_decDigits hb
    · have := length_decDigits_le (n := x.natAbs) (k := 1) (by norm_num) (by omega)
      simp only [List.length_cons]; omega
  · refine ⟨decDigits x.natAbs, by simp [exponentText, h10], decDigits_ne_nil _,
      fun b hb => isDigit_of_mem_decDigits hb, fun h => length_decDigits_le (by norm_num) (by omega)⟩

theorem isExp_exponentText (x : ℤ) : IsExp (exponentText x) := by
  obtain ⟨ds, heq, hne, hds, -⟩ := exponentDigits x
  refine .inr ⟨byte 'e', [if x < 0 then byte '-' else byte '+'], ds, heq, .inl rfl, ?_, hne, hds⟩
  split <;> simp

theorem length_exponentText_le {x : ℤ} (h : x.natAbs < 1000) : (exponentText x).length ≤ 5 := by
  obtain ⟨ds, heq, -, -, hlen⟩ := exponentDigits x
  have := hlen h
  simp only [heq, List.length_cons, List.length_append, List.length_nil]; omega

theorem significant_digits {d : ℕ} (hd : d ≠ 0) :
    ∃ a as, (decDigits d).rdropWhile (· = byte '0') = a :: as ∧ a ≠ byte '0' ∧
      ∀ x ∈ a :: as, isDigit x := by
  obtain ⟨a, as, heq, ha⟩ := decDigits_head hd
  have hpre := List.rdropWhile_prefix (· = byte '0') (l := decDigits d)
  cases hr : (decDigits d).rdropWhile (· = byte '0') with
  | nil =>
      rw [List.rdropWhile_eq_nil_iff] at hr
      exact absurd (by simpa using hr a (heq ▸ List.mem_cons_self)) ha
  | cons b bs =>
      rw [hr] at hpre
      have hab : b = a := by
        rw [heq] at hpre
        exact (List.cons_prefix_cons.mp hpre).1
      exact ⟨b, bs, rfl, hab ▸ ha, fun x hx => isDigit_of_mem_decDigits (hpre.subset hx)⟩

end CppJson
