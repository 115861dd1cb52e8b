import CppJson.CJson.Document

/-!
# Parsing strings

`parse_string` decodes every string of the grammar in which the surrogates are paired, and rejects
the others.
-/

namespace CppJson

open Json

-- the checks over all 256 bytes
set_option maxRecDepth 4000

/-! ## UTF-8 -/

theorem tailByte (n : ℕ) : (n ||| 0x80) &&& 0xBF = 0x80 + n % 64 := by
  have hlow : ∀ r < 256, (r ||| 0x80) &&& 0xBF = 0x80 + r % 64 := by decide
  have hlt : (n ||| 0x80) &&& 0xBF < 2 ^ 8 := Nat.and_lt_two_pow _ (by norm_num)
  calc (n ||| 0x80) &&& 0xBF = ((n ||| 0x80) &&& 0xBF) % 2 ^ 8 := (Nat.mod_eq_of_lt hlt).symm
    _ = (n % 2 ^ 8 ||| 0x80) &&& 0xBF := by rw [Nat.and_mod_two_pow, Nat.or_mod_two_pow]
    _ = 0x80 + n % 2 ^ 8 % 64 := hlow _ (Nat.mod_lt _ (by norm_num))
    _ = 0x80 + n % 64 := by rw [Nat.mod_mod_of_dvd _ (by norm_num)]

theorem firstByte {n mark : ℕ} (bound : ℕ) (hn : n < bound)
    (h : ∀ r < bound, (r ||| mark) &&& 0xFF = mark + r) :
    ((n ||| mark) &&& 0xFF).toUInt8 = (mark + n).toUInt8 := by
  rw [h n hn]

theorem encodeUtf8_eq {n : ℕ} (h : n ≤ 0x10FFFF) : encodeUtf8 n = some (utf8 n) := by
  simp only [encodeUtf8, utf8, encodeTail, tailByte, Nat.shiftRight_eq_div_pow, Nat.div_div_eq_div_mul]
  split_ifs with h₁ h₂ h₃
  · rw [Nat.and_two_pow_sub_one_eq_mod n 7, Nat.mod_eq_of_lt h₁]
  · rw [firstByte 32 (by omega) (by decide)]
  · rw [firstByte 16 (by omega) (by decide)]
  · rw [firstByte 8 (by omega) (by decide)]

/-! ## Escape sequences -/

theorem hexVal_eq : ∀ d : UInt8, isHex d → hexVal d = some (hexValue d) :=
  forall_byte (by decide)

theorem unescape_eq : ∀ e : UInt8, unescape e = escapes.lookup e :=
  forall_byte (by decide)

theorem parseHex4_eq {d₁ d₂ d₃ d₄ : UInt8} (h : (Chr.unicode d₁ d₂ d₃ d₄).Valid) (k : List UInt8) :
    parseHex4 (d₁ :: d₂ :: d₃ :: d₄ :: k) = codeUnit d₁ d₂ d₃ d₄ := by
  obtain ⟨h₁, h₂, h₃, h₄⟩ := h
  simp [parseHex4, hexVal_eq _ h₁, hexVal_eq _ h₂, hexVal_eq _ h₃, hexVal_eq _ h₄, codeUnit,
    Nat.shiftLeft_eq]

theorem codeUnit_lt (d₁ d₂ d₃ d₄ : UInt8) : codeUnit d₁ d₂ d₃ d₄ < 0x10000 := by
  have h : ∀ d : UInt8, hexValue d < 16 := forall_byte (by decide)
  have h₁ := h d₁
  have h₂ := h d₂
  have h₃ := h d₃
  have h₄ := h d₄
  simp only [codeUnit]; omega

theorem surrogatePair {u v : ℕ} (hu : isHighSurrogate u) (hv : isLowSurrogate v) :
    0x10000 + (((u &&& 0x3FF) <<< 10) ||| (v &&& 0x3FF)) =
      0x10000 + (u - 0xD800) * 0x400 + (v - 0xDC00) := by
  simp only [isHighSurrogate, isLowSurrogate, Bool.and_eq_true, decide_eq_true_eq] at hu hv
  have hu' : u &&& 0x3FF = u - 0xD800 := by
    rw [Nat.and_two_pow_sub_one_eq_mod u 10]; omega
  have hv' : v &&& 0x3FF = v - 0xDC00 := by
    rw [Nat.and_two_pow_sub_one_eq_mod v 10]; omega
  rw [hu', hv', ← Nat.shiftLeft_add_eq_or_of_lt (by omega), Nat.shiftLeft_eq]
  omega

theorem isLone_pair (u v : ℕ) : (Code.point (0x10000 + u + v)).isLone = false := by
  simp only [Code.isLone, isHighSurrogate, isLowSurrogate, Bool.or_eq_false_iff, Bool.and_eq_false_iff,
    decide_eq_false_iff_not]
  omega

theorem utf16Literal_single {d₁ d₂ d₃ d₄ : UInt8} (h : (Chr.unicode d₁ d₂ d₃ d₄).Valid)
    (hhigh : isHighSurrogate (codeUnit d₁ d₂ d₃ d₄) = false)
    (hlow : isLowSurrogate (codeUnit d₁ d₂ d₃ d₄) = false) (k : List UInt8) :
    utf16LiteralToUtf8 (byte '\\' :: byte 'u' :: d₁ :: d₂ :: d₃ :: d₄ :: k) =
      some (utf8 (codeUnit d₁ d₂ d₃ d₄), 6) := by
  have hlt := codeUnit_lt d₁ d₂ d₃ d₄
  simp only [isHighSurrogate, isLowSurrogate, Bool.and_eq_false_iff,
    decide_eq_false_iff_not] at hhigh hlow
  simp only [utf16LiteralToUtf8, List.drop_succ_cons, List.drop_zero, parseHex4_eq h]
  rw [if_neg (by simp only [List.length_cons]; omega), if_neg (by omega), if_neg (by omega),
    encodeUtf8_eq (by omega), Option.map_some]

theorem utf16Literal_low {d₁ d₂ d₃ d₄ : UInt8} (h : (Chr.unicode d₁ d₂ d₃ d₄).Valid)
    (hlow : isLowSurrogate (codeUnit d₁ d₂ d₃ d₄)) (k : List UInt8) :
    utf16LiteralToUtf8 (byte '\\' :: byte 'u' :: d₁ :: d₂ :: d₃ :: d₄ :: k) = none := by
  simp only [isLowSurrogate, Bool.and_eq_true, decide_eq_true_eq] at hlow
  simp only [utf16LiteralToUtf8, List.drop_succ_cons, List.drop_zero, parseHex4_eq h]
  rw [if_neg (by simp only [List.length_cons]; omega), if_pos (by omega)]

theorem utf16Literal_high {d₁ d₂ d₃ d₄ : UInt8} (h : (Chr.unicode d₁ d₂ d₃ d₄).Valid)
    (hhigh : isHighSurrogate (codeUnit d₁ d₂ d₃ d₄)) (k : List UInt8) :
    utf16LiteralToUtf8 (byte '\\' :: byte 'u' :: d₁ :: d₂ :: d₃ :: d₄ :: k) =
      if k.length < 6 then none
      else if k.take 2 ≠ [byte '\\', byte 'u'] then none
      else if parseHex4 (k.drop 2) < 0xDC00 ∨ 0xDFFF < parseHex4 (k.drop 2) then none
      else
        (encodeUtf8 (0x10000 +
          (((codeUnit d₁ d₂ d₃ d₄ &&& 0x3FF) <<< 10) ||| (parseHex4 (k.drop 2) &&& 0x3FF)))).map
          (·, 12) := by
  simp only [isHighSurrogate, Bool.and_eq_true, decide_eq_true_eq] at hhigh
  simp only [utf16LiteralToUtf8, List.drop_succ_cons, List.drop_zero, parseHex4_eq h]
  rw [if_neg (by simp only [List.length_cons]; omega), if_neg (by omega), if_pos (by omega)]

theorem utf16Literal_pair {d₁ d₂ d₃ d₄ e₁ e₂ e₃ e₄ : UInt8} (h : (Chr.unicode d₁ d₂ d₃ d₄).Valid)
    (h' : (Chr.unicode e₁ e₂ e₃ e₄).Valid) (hhigh : isHighSurrogate (codeUnit d₁ d₂ d₃ d₄))
    (hlow : isLowSurrogate (codeUnit e₁ e₂ e₃ e₄)) (k : List UInt8) :
    utf16LiteralToUtf8 (byte '\\' :: byte 'u' :: d₁ :: d₂ :: d₃ :: d₄ ::
        byte '\\' :: byte 'u' :: e₁ :: e₂ :: e₃ :: e₄ :: k) =
      some (utf8 (0x10000 + (codeUnit d₁ d₂ d₃ d₄ - 0xD800) * 0x400 +
        (codeUnit e₁ e₂ e₃ e₄ - 0xDC00)), 12) := by
  rw [utf16Literal_high h hhigh]
  simp only [List.drop_succ_cons, List.drop_zero, parseHex4_eq h', List.take_succ_cons,
    List.take_zero, ne_eq, not_true_eq_false, ↓reduceIte, surrogatePair hhigh hlow]
  simp only [isHighSurrogate, isLowSurrogate, Bool.and_eq_true, decide_eq_true_eq] at hhigh hlow
  rw [if_neg (by simp only [List.length_cons]; omega), if_neg (by omega), encodeUtf8_eq (by omega),
    Option.map_some]

/-! ## Decoding -/

/-- What decoding gives: nothing when a surrogate is without its other half. -/
def decoded (cs : List Chr) : Option (List UInt8) := if Paired cs then some (decode cs) else none

theorem decoded_cons {cs cs' : List Chr} {code : Code} (h : codes cs = code :: codes cs')
    (hcode : code.isLone = false) :
    decoded cs = (decoded cs').map (code.bytes ++ ·) := by
  have hpaired : Paired cs ↔ Paired cs' := by simp [Paired, h, hcode]
  by_cases hcs : Paired cs'
  · simp [decoded, hpaired, hcs, decode, h]
  · simp [decoded, hpaired, hcs]

theorem decoded_lone {cs cs' : List Chr} {code : Code} (h : codes cs = code :: codes cs')
    (hcode : code.isLone) :
    decoded cs = none := by
  have hpaired : ¬Paired cs := by simp [Paired, h, hcode]
  simp [decoded, hpaired]

theorem decodeString_unicode (n : ℕ) (k : List UInt8) :
    decodeString (n + 1) (byte '\\' :: byte 'u' :: k) =
      match utf16LiteralToUtf8 (byte '\\' :: byte 'u' :: k) with
      | none => none
      | some (out, m) => (decodeString n ((byte 'u' :: k).drop (m - 1))).map (out ++ ·) := by
  have hu : unescape (byte 'u') = none := by decide
  cases h : utf16LiteralToUtf8 (byte '\\' :: byte 'u' :: k) with
  | none => simp only [decodeString, List.headD_cons, hu, h, ne_eq, not_true_eq_false, ↓reduceIte]
  | some p => simp only [decodeString, List.headD_cons, hu, h, ne_eq, not_true_eq_false, ↓reduceIte]

section Unpaired

variable {d₁ d₂ d₃ d₄ : UInt8} {cs : List Chr}

/-- A `\u` character that is decoded on its own. -/
def Unpaired (u : ℕ) (cs : List Chr) : Prop :=
  ∀ e₁ e₂ e₃ e₄ cs', cs = .unicode e₁ e₂ e₃ e₄ :: cs' →
    ¬(isHighSurrogate u ∧ isLowSurrogate (codeUnit e₁ e₂ e₃ e₄))

theorem codes_unpaired (h : Unpaired (codeUnit d₁ d₂ d₃ d₄) cs) :
    codes (.unicode d₁ d₂ d₃ d₄ :: cs) = .point (codeUnit d₁ d₂ d₃ d₄) :: codes cs := by
  cases cs with
  | nil => simp only [codes]
  | cons c cs =>
      cases c with
      | plain b => simp only [codes]
      | escape e => simp only [codes]
      | unicode e₁ e₂ e₃ e₄ => rw [codes, if_neg (h e₁ e₂ e₃ e₄ cs rfl)]

theorem utf16Literal_unpaired (hvalid : (Chr.unicode d₁ d₂ d₃ d₄).Valid) (hcs : ∀ c ∈ cs, c.Valid)
    (hhigh : isHighSurrogate (codeUnit d₁ d₂ d₃ d₄)) (h : Unpaired (codeUnit d₁ d₂ d₃ d₄) cs) :
    utf16LiteralToUtf8 (byte '\\' :: byte 'u' :: d₁ :: d₂ :: d₃ :: d₄ :: cs.flatMap Chr.text) =
      none := by
  rw [utf16Literal_high hvalid hhigh]
  cases cs with
  | nil => rfl
  | cons c cs =>
      have hc := hcs c List.mem_cons_self
      cases c with
      | plain b =>
          have hb : b ≠ byte '\\' := hc.2.2
          have htake : ((Chr.plain b :: cs).flatMap Chr.text).take 2 ≠ [byte '\\', byte 'u'] := by
            intro h
            exact hb (List.cons.inj h).1
          rw [if_pos htake, ite_self]
      | escape e =>
          have he : e ≠ byte 'u' := by
            rintro rfl
            exact absurd hc (by decide)
          have htake : ((Chr.escape e :: cs).flatMap Chr.text).take 2 ≠ [byte '\\', byte 'u'] := by
            intro h
            exact he (List.cons.inj (List.cons.inj h).2).1
          rw [if_pos htake, ite_self]
      | unicode e₁ e₂ e₃ e₄ =>
          have hlow := h e₁ e₂ e₃ e₄ cs rfl
          simp only [hhigh, true_and, isLowSurrogate, Bool.and_eq_true, decide_eq_true_eq] at hlow
          have hcode : codeUnit e₁ e₂ e₃ e₄ < 0xDC00 ∨ 0xDFFF < codeUnit e₁ e₂ e₃ e₄ := by omega
          simp only [List.flatMap_cons, Chr.text, List.cons_append, List.drop_succ_cons, List.drop_zero,
            parseHex4_eq hc]
          rw [if_pos hcode, ite_self, ite_self]

theorem decodeString_unpaired {n : ℕ} (hvalid : (Chr.unicode d₁ d₂ d₃ d₄).Valid)
    (hcs : ∀ c ∈ cs, c.Valid) (h : Unpaired (codeUnit d₁ d₂ d₃ d₄) cs)
    (ih : decodeString n (cs.flatMap Chr.text) = decoded cs) :
    decodeString (n + 1) ((Chr.unicode d₁ d₂ d₃ d₄ :: cs).flatMap Chr.text) =
      decoded (.unicode d₁ d₂ d₃ d₄ :: cs) := by
  simp only [List.flatMap_cons, Chr.text, List.cons_append, List.nil_append, decodeString_unicode]
  by_cases hhigh : isHighSurrogate (codeUnit d₁ d₂ d₃ d₄)
  · rw [utf16Literal_unpaired hvalid hcs hhigh h,
      decoded_lone (codes_unpaired h) (by simp [Code.isLone, hhigh])]
  by_cases hlow : isLowSurrogate (codeUnit d₁ d₂ d₃ d₄)
  · rw [utf16Literal_low hvalid hlow, decoded_lone (codes_unpaired h) (by simp [Code.isLone, hlow])]
  simp only [Bool.not_eq_true] at hhigh hlow
  rw [utf16Literal_single hvalid hhigh hlow,
    decoded_cons (codes_unpaired h) (by simp [Code.isLone, hhigh, hlow])]
  simp only [Nat.add_one_sub_one, List.drop_succ_cons, List.drop_zero, ih, Code.bytes]

end Unpaired

/-- The second loop of `parse_string` on a string of the grammar. -/
theorem decodeString_text (cs : List Chr) (hcs : ∀ c ∈ cs, c.Valid) {n : ℕ}
    (hn : (cs.flatMap Chr.text).length ≤ n) :
    decodeString n (cs.flatMap Chr.text) = decoded cs := by
  induction cs using codes.induct generalizing n with
  | case1 => cases n <;> rfl
  | case2 b cs ih =>
      rw [List.flatMap_cons, List.length_append] at hn
      simp only [Chr.text, List.length_singleton] at hn
      obtain ⟨n, rfl⟩ : ∃ m, n = m + 1 := ⟨n - 1, by omega⟩
      obtain ⟨-, -, hb⟩ := hcs _ List.mem_cons_self
      have hrest := ih (fun c hc => hcs c (List.mem_cons_of_mem _ hc)) (n := n) (by omega)
      rw [decoded_cons (codes.eq_2 b cs) rfl, List.flatMap_cons]
      simp only [Chr.text, List.singleton_append, decodeString, ne_eq, hb, not_false_eq_true,
        ↓reduceIte, hrest, Code.bytes]
  | case3 c cs ih =>
      rw [List.flatMap_cons, List.length_append] at hn
      simp only [Chr.text, List.length_cons, List.length_nil] at hn
      obtain ⟨n, rfl⟩ : ∃ m, n = m + 1 := ⟨n - 1, by omega⟩
      have hc : (escapes.lookup c).isSome := hcs _ List.mem_cons_self
      obtain ⟨b, hb⟩ := Option.isSome_iff_exists.mp hc
      have hrest := ih (fun c hc => hcs c (List.mem_cons_of_mem _ hc)) (n := n) (by omega)
      rw [decoded_cons (codes.eq_3 c cs) rfl, List.flatMap_cons]
      simp only [Chr.text, List.cons_append, List.nil_append, decodeString, ne_eq,
        not_true_eq_false, ↓reduceIte, List.headD_cons, unescape_eq, hb, List.drop_succ_cons,
        List.drop_zero, hrest, Code.bytes, Option.getD_some]
  | case4 d₁ d₂ d₃ d₄ e₁ e₂ e₃ e₄ cs h ih =>
      simp only [List.flatMap_cons, List.length_append, Chr.text, List.length_cons,
        List.length_nil] at hn
      obtain ⟨n, rfl⟩ : ∃ m, n = m + 1 := ⟨n - 1, by omega⟩
      have hd := hcs _ List.mem_cons_self
      have he := hcs _ (List.mem_cons_of_mem _ List.mem_cons_self)
      have hrest :=
        ih (fun c hc => hcs c (List.mem_cons_of_mem _ (List.mem_cons_of_mem _ hc))) (n := n) (by omega)
      have hcodes := codes.eq_4 d₁ d₂ d₃ d₄ e₁ e₂ e₃ e₄ cs
      rw [if_pos h] at hcodes
      rw [decoded_cons hcodes (isLone_pair _ _)]
      simp only [List.flatMap_cons, Chr.text, List.cons_append, List.nil_append, decodeString_unicode,
        utf16Literal_pair hd he h.1 h.2]
      simp only [Nat.add_one_sub_one, List.drop_succ_cons, List.drop_zero, hrest, Code.bytes]
  | case5 d₁ d₂ d₃ d₄ e₁ e₂ e₃ e₄ cs h ih =>
      rw [List.flatMap_cons, List.length_append] at hn
      simp only [Chr.text, List.length_cons, List.length_nil] at hn
      obtain ⟨n, rfl⟩ : ∃ m, n = m + 1 := ⟨n - 1, by omega⟩
      have hrest : ∀ c ∈ Chr.unicode e₁ e₂ e₃ e₄ :: cs, c.Valid :=
        fun c hc => hcs c (List.mem_cons_of_mem _ hc)
      refine decodeString_unpaired (hcs _ List.mem_cons_self) hrest ?_ (ih hrest (by omega))
      rintro _ _ _ _ _ ⟨⟩
      exact h
  | case6 d₁ d₂ d₃ d₄ cs h ih =>
      rw [List.flatMap_cons, List.length_append] at hn
      simp only [Chr.text, List.length_cons, List.length_nil] at hn
      obtain ⟨n, rfl⟩ : ∃ m, n = m + 1 := ⟨n - 1, by omega⟩
      have hrest : ∀ c ∈ cs, c.Valid := fun c hc => hcs c (List.mem_cons_of_mem _ hc)
      exact decodeString_unpaired (hcs _ List.mem_cons_self) hrest
        (fun e₁ e₂ e₃ e₄ cs' heq => (h e₁ e₂ e₃ e₄ cs' heq).elim) (ih hrest (by omega))

/-! ## `parse_string` -/

theorem scanString_other {c : UInt8} (h : c ≠ byte '"' ∧ c ≠ byte '\\') (k : List UInt8) :
    scanString (c :: k) = (scanString k).map (· + 1) := by
  rw [scanString.eq_def]
  simp only [if_neg h.1, if_neg h.2]

theorem scanString_quote (k : List UInt8) : scanString (byte '"' :: k) = some 0 := by
  rw [scanString.eq_def]
  simp only [↓reduceIte]

theorem scanString_escape (c : UInt8) (k : List UInt8) :
    scanString (byte '\\' :: c :: k) = (scanString k).map (· + 2) := by
  have h : byte '\\' ≠ byte '"' := by decide
  rw [scanString.eq_def]
  simp only [if_neg h, ↓reduceIte]

theorem isHex_not_special : ∀ c : UInt8, isHex c → c ≠ byte '"' ∧ c ≠ byte '\\' :=
  forall_byte (by decide)

theorem scanString_chr {c : Chr} (h : c.Valid) (k : List UInt8) :
    scanString (c.text ++ k) = (scanString k).map (· + c.text.length) := by
  cases c with
  | plain b => exact scanString_other h.2 k
  | escape e => exact scanString_escape e k
  | unicode d₁ d₂ d₃ d₄ =>
      obtain ⟨h₁, h₂, h₃, h₄⟩ := h
      simp only [Chr.text, List.cons_append, List.nil_append, scanString_escape,
        scanString_other (isHex_not_special _ h₁), scanString_other (isHex_not_special _ h₂),
        scanString_other (isHex_not_special _ h₃), scanString_other (isHex_not_special _ h₄),
        Option.map_map]
      rfl

theorem scanString_text (cs : List Chr) (hcs : ∀ c ∈ cs, c.Valid) (k : List UInt8) :
    scanString (cs.flatMap Chr.text ++ byte '"' :: k) = some (cs.flatMap Chr.text).length := by
  induction cs with
  | nil => exact scanString_quote k
  | cons c cs ih =>
      rw [List.flatMap_cons, List.append_assoc, scanString_chr (hcs c List.mem_cons_self),
        ih fun c hc => hcs c (List.mem_cons_of_mem _ hc), Option.map_some,
        List.length_append, Nat.add_comm]

theorem parseString_text {cs : List Chr} (hcs : ∀ c ∈ cs, c.Valid) {b : ParseBuffer} {k : List UInt8}
    (hb : b.rest = stringText cs ++ k) :
    parseString b =
      if Paired cs then .ok (cstr (decode cs), b.advance (stringText cs).length)
        else .error .rejected := by
  have hrest : b.rest = byte '"' :: (cs.flatMap Chr.text ++ byte '"' :: k) := by simp [hb, stringText]
  have hlen : (stringText cs).length = (cs.flatMap Chr.text).length + 2 := by simp [stringText]
  simp only [parseString, hrest, ne_eq, not_true_eq_false, ↓reduceIte, scanString_text cs hcs,
    List.take_left, decodeString_text cs hcs le_rfl, decoded, hlen]
  split_ifs <;> rfl

end CppJson
