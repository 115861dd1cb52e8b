import CppJson.CJson.Document
import CppJson.Libc.Lemmas.Numbers

/-!
# Numbers and strings as they are printed

`print_number` writes `null` or a number of the grammar, and `print_string_ptr` writes every byte so
that the grammar reads the same byte again.
-/

namespace CppJson

open Json

-- the checks over all 256 bytes
set_option maxRecDepth 4000

/-! ## Numbers -/

theorem saturate_bounds (d : Double) : intMin ≤ saturate d ∧ saturate d ≤ intMax := by
  cases d with
  | infinite neg => cases neg <;> simp [saturate, intMin, intMax]
  | finite x =>
      simp only [saturate]
      split_ifs with h₁ h₂
      · simp [intMin, intMax]
      · simp [intMin, intMax]
      · have hden : (0 : ℤ) < x.val.den := by exact_mod_cast x.val.den_pos
        have hval : x.val * x.val.den = x.val.num := Rat.mul_den_eq_num _
        have hlt : x.val.num < intMax * x.val.den := by
          have : x.val * x.val.den < intMax * x.val.den :=
            mul_lt_mul_of_pos_right (not_le.mp h₁) (by exact_mod_cast hden)
          rw [hval] at this
          exact_mod_cast this
        have hgt : intMin * x.val.den < x.val.num := by
          have : intMin * x.val.den < x.val * x.val.den :=
            mul_lt_mul_of_pos_right (not_le.mp h₂) (by exact_mod_cast hden)
          rw [hval] at this
          exact_mod_cast this
        have hdiv := Int.mul_tdiv_add_tmod x.val.num x.val.den
        have hmod₁ := Int.tmod_lt_of_pos x.val.num hden
        have hmod₂ := Int.lt_tmod_of_pos x.val.num hden
        constructor
        · by_contra h
          nlinarith
        · by_contra h
          nlinarith

theorem saturate_intCast {x : Finite} {z : ℤ} (hx : x.val = z) (h₁ : intMin ≤ z) (h₂ : z ≤ intMax) :
    saturate (.finite x) = z := by
  simp only [saturate, hx]
  split_ifs with hmax hmin
  · exact le_antisymm (by exact_mod_cast hmax) h₂
  · exact le_antisymm h₁ (by exact_mod_cast hmin)
  · simp

theorem Number.valueint_bounds (n : Number) : intMin ≤ n.valueint ∧ n.valueint ≤ intMax :=
  n.saturated ▸ saturate_bounds n.valuedouble

theorem numberText_cases (n : Number) :
    (numberText n = ascii "null" ∧ ∃ neg, n.valuedouble = .infinite neg) ∨
    (IsNumber (numberText n) ∧ (numberText n).length ≤ 24 ∧ ∃ x, n.valuedouble = .finite x) := by
  unfold numberText
  cases n.valuedouble with
  | infinite neg => exact .inl ⟨rfl, neg, rfl⟩
  | finite x =>
      have h15 := sprintfG_spec (p := 15) (by norm_num) x
      have h17 := sprintfG_spec (p := 17) (by norm_num) x
      have hD := length_sprintfD_le n.valueint_bounds.1 n.valueint_bounds.2
      refine .inr ?_
      dsimp only
      split_ifs
      · exact ⟨isNumber_sprintfD _, by omega, x, rfl⟩
      · exact ⟨h17.1, h17.2, x, rfl⟩
      · exact ⟨h15.1, h15.2.trans (by norm_num), x, rfl⟩

theorem length_numberText_le (n : Number) : (numberText n).length ≤ 25 := by
  rcases numberText_cases n with ⟨h, -⟩ | ⟨-, h, -⟩
  · simp [h, ascii]
  · omega

theorem isDigit.isNumberChar {b : UInt8} (h : isDigit b) : isNumberChar b := by
  simp [CppJson.isNumberChar, h]

theorem Json.IsNumber.isNumberChar {t : List UInt8} (h : IsNumber t) : ∀ b ∈ t, isNumberChar b := by
  obtain ⟨m, i, f, e, rfl, hm, hi, hf, he⟩ := h
  intro b hb
  simp only [List.mem_append] at hb
  rcases hb with ((hb | hb) | hb) | hb
  · rcases hm with rfl | rfl
    · cases hb
    · rw [List.mem_singleton.mp hb]; decide
  · exact isDigit.isNumberChar (hi.digits.2 b hb)
  · rcases hf with rfl | ⟨ds, rfl, -, hds⟩
    · cases hb
    · rcases List.mem_cons.mp hb with rfl | hb
      · decide
      · exact isDigit.isNumberChar (hds b hb)
  · rcases he with rfl | ⟨c, sign, ds, rfl, hc, hsign, -, hds⟩
    · cases hb
    · simp only [List.mem_cons, List.mem_append] at hb
      rcases hb with rfl | hb | hb
      · rcases hc with rfl | rfl <;> decide
      · rcases hsign with rfl | rfl | rfl
        · cases hb
        · rw [List.mem_singleton.mp hb]; decide
        · rw [List.mem_singleton.mp hb]; decide
      · exact isDigit.isNumberChar (hds b hb)

theorem Json.IsNumber.head {t : List UInt8} (h : IsNumber t) :
    ∃ c cs, t = c :: cs ∧ (c = byte '-' ∨ isDigit c) := by
  obtain ⟨m, i, f, e, rfl, hm, hi, -⟩ := h
  rcases hm with rfl | rfl
  · obtain ⟨hne, hds⟩ := hi.digits
    cases i with
    | nil => exact absurd rfl hne
    | cons d ds => exact ⟨d, ds ++ f ++ e, by simp, .inr (hds d List.mem_cons_self)⟩
  · exact ⟨byte '-', i ++ f ++ e, by simp, .inl rfl⟩

theorem zero_notMem_numberText (n : Number) : 0 ∉ numberText n := by
  rcases numberText_cases n with ⟨h, -⟩ | ⟨h, -⟩
  · rw [h]; decide
  · intro h0
    exact absurd (h.isNumberChar 0 h0) (by decide)

/-! ## The bytes of a string -/

theorem text_escapeChr (c : UInt8) : (escapeChr c).text = escapeByte c := by
  unfold escapeChr escapeByte
  split_ifs <;> rfl

theorem length_escapeByte : ∀ c : UInt8, (escapeByte c).length = 1 + escapeCharacters c :=
  forall_byte (by decide)

theorem zero_notMem_escapeByte : ∀ c : UInt8, c ≠ 0 → 0 ∉ escapeByte c :=
  forall_byte (by decide)

theorem escapeByte_of_zero : ∀ c : UInt8, escapeCharacters c = 0 → escapeByte c = [c] :=
  forall_byte (by decide)

theorem valid_escapeChr : ∀ c : UInt8, (escapeChr c).Valid :=
  forall_byte (by decide)

/-- What a character stands for when it is not the first half of a surrogate pair. -/
def singleCode : Chr → Code
  | .plain b => .byte b
  | .escape c => .byte ((escapes.lookup c).getD c)
  | .unicode d₁ d₂ d₃ d₄ => .point (codeUnit d₁ d₂ d₃ d₄)

theorem codes_cons {c : Chr} (h : (singleCode c).isLone = false) (cs : List Chr) :
    codes (c :: cs) = singleCode c :: codes cs := by
  cases c with
  | plain b => simp only [codes, singleCode]
  | escape c => simp only [codes, singleCode]
  | unicode d₁ d₂ d₃ d₄ =>
      simp only [singleCode, Code.isLone, Bool.or_eq_false_iff] at h
      cases cs with
      | nil => simp only [codes, singleCode]
      | cons c' cs => cases c' <;> simp [codes, singleCode, h.1]

theorem isLone_escapeChr : ∀ c : UInt8, (singleCode (escapeChr c)).isLone = false :=
  forall_byte (by decide)

theorem bytes_escapeChr : ∀ c : UInt8, (singleCode (escapeChr c)).bytes = [c] :=
  forall_byte (by decide)

/-! ## Whole strings -/

theorem codes_chars (bytes : List UInt8) :
    codes (chars bytes) = bytes.map fun c => singleCode (escapeChr c) := by
  induction bytes with
  | nil => rfl
  | cons c cs ih =>
      simp only [chars, List.map_cons] at ih ⊢
      rw [codes_cons (isLone_escapeChr c), ih]

theorem decode_chars (bytes : List UInt8) : decode (chars bytes) = bytes := by
  simp [decode, codes_chars, List.flatMap_map, bytes_escapeChr]

theorem paired_chars (bytes : List UInt8) : Paired (chars bytes) := by
  intro code hcode
  rw [codes_chars, List.mem_map] at hcode
  obtain ⟨c, -, rfl⟩ := hcode
  simp [isLone_escapeChr]

theorem valid_chars (bytes : List UInt8) : ∀ c ∈ chars bytes, c.Valid := by
  intro c hc
  obtain ⟨b, -, rfl⟩ := List.mem_map.mp hc
  exact valid_escapeChr b

theorem text_chars (bytes : List UInt8) :
    (chars bytes).flatMap Chr.text = bytes.flatMap escapeByte := by
  simp [chars, List.flatMap_map, text_escapeChr]

theorem length_text_chars (bytes : List UInt8) :
    ((chars bytes).flatMap Chr.text).length = bytes.length + (bytes.map escapeCharacters).sum := by
  rw [text_chars]
  induction bytes with
  | nil => rfl
  | cons c cs ih =>
      simp only [List.flatMap_cons, List.length_append, length_escapeByte, ih, List.length_cons,
        List.map_cons, List.sum_cons]
      omega

theorem text_chars_of_sum {bytes : List UInt8} (h : (bytes.map escapeCharacters).sum = 0) :
    (chars bytes).flatMap Chr.text = bytes := by
  rw [text_chars]
  induction bytes with
  | nil => rfl
  | cons c cs ih =>
      simp only [List.map_cons, List.sum_cons, Nat.add_eq_zero_iff] at h
      rw [List.flatMap_cons, escapeByte_of_zero c h.1, ih h.2, List.singleton_append]

theorem zero_notMem_stringText {s : List UInt8} (h : 0 ∉ s) : 0 ∉ stringText (chars s) := by
  intro h0
  simp only [stringText, text_chars, List.cons_append, List.mem_cons, List.mem_append, List.mem_flatMap,
    List.not_mem_nil, or_false] at h0
  rcases h0 with h0 | ⟨c, hc, hc0⟩ | h0
  · exact absurd h0 (by decide)
  · exact zero_notMem_escapeByte c (fun h0 => h (h0 ▸ hc)) hc0
  · exact absurd h0 (by decide)

end CppJson
