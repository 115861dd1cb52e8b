import CppJson.CJson.Document

/-!
# Parsing

`parse_value` returns on every text, and what it accepts is a well-formed tree (`parseValue_spec`).
-/

namespace CppJson

/-! ## The parse buffer -/

namespace ParseBuffer

variable {b b' b'' : ParseBuffer}

@[simp] theorem rest_advance (b : ParseBuffer) (n : ℕ) : (b.advance n).rest = b.rest.drop n := by
  simp [rest, advance]

@[simp] theorem rest_enter (b : ParseBuffer) : b.enter.rest = b.rest := rfl
@[simp] theorem advance_advance (b : ParseBuffer) (m n : ℕ) :
    (b.advance m).advance n = b.advance (m + n) := by
  simp [advance, Nat.add_assoc]

theorem rest_stepBack_advance (h : 0 < b.offset) : (b.stepBack.advance 1).rest = b.rest := by
  rw [rest, rest, advance, stepBack, Nat.sub_add_cancel h]

theorem offset_lt_of_rest {c : UInt8} {k : List UInt8} (h : b.rest = c :: k) :
    b.offset < b.content.length := by
  by_contra hle
  rw [rest, List.drop_eq_nil_of_le (by omega)] at h
  cases h

theorem peek_of_rest {c : UInt8} {k : List UInt8} (h : b.rest = c :: k) : b.peek = some c := by
  simp [peek, h]

theorem offset_lt_of_peek (h : b.peek ≠ none) : b.offset < b.content.length := by
  cases hr : b.rest with
  | nil => simp [peek, hr] at h
  | cons c k => exact offset_lt_of_rest hr

/-- `b'` lies at or behind `b` in the same text, at the same depth. -/
structure Reaches (b b' : ParseBuffer) : Prop where
  content_eq : b'.content = b.content
  depth_eq : b'.depth = b.depth
  le : b.offset ≤ b'.offset

structure Advances (b b' : ParseBuffer) : Prop extends Reaches b b' where
  lt : b.offset < b'.offset

theorem Reaches.trans (h : Reaches b b') (h' : Reaches b' b'') : Reaches b b'' :=
  ⟨h'.content_eq.trans h.content_eq, h'.depth_eq.trans h.depth_eq, h.le.trans h'.le⟩

theorem Advances.trans (h : Advances b b') (h' : Reaches b' b'') : Advances b b'' :=
  ⟨h.toReaches.trans h', h.lt.trans_le h'.le⟩

theorem Reaches.advances (h : Reaches b b') (h' : Advances b' b'') : Advances b b'' :=
  ⟨h.trans h'.toReaches, h.le.trans_lt h'.lt⟩

theorem reaches_advance (b : ParseBuffer) (n : ℕ) :
    Reaches b (b.advance n) := ⟨rfl, rfl, Nat.le_add_right _ _⟩

theorem advances_advance (b : ParseBuffer) {n : ℕ} (h : 0 < n) : Advances b (b.advance n) :=
  ⟨reaches_advance b n, Nat.lt_add_of_pos_right h⟩

end ParseBuffer

open ParseBuffer

/-- A buffer that goes on still does so behind whitespace. -/
theorem rest_skip_ne_nil {b : ParseBuffer} (h : b.rest ≠ []) : (bufferSkipWhitespace b).rest ≠ [] := by
  have hlen : b.rest.length = b.content.length - b.offset := by rw [rest, List.length_drop]
  have hpos : 0 < b.rest.length := List.length_pos_iff.mpr h
  have hle := (List.takeWhile_prefix (l := b.rest) fun c => decide (c ≤ 32)).length_le
  rw [bufferSkipWhitespace, if_neg h]
  dsimp only
  split <;> simp only [rest, advance, stepBack, ne_eq, List.drop_eq_nil_iff, not_le] at * <;> omega

theorem reaches_skip (b : ParseBuffer) : Reaches b (bufferSkipWhitespace b) := by
  unfold bufferSkipWhitespace
  split
  · exact ⟨rfl, rfl, le_rfl⟩
  · rename_i hrest
    have hlt : b.offset < b.content.length := by
      cases hr : b.rest with
      | nil => exact absurd hr hrest
      | cons c k => exact offset_lt_of_rest hr
    dsimp only
    split
    · refine ⟨rfl, rfl, ?_⟩
      simp only [advance, stepBack] at *
      omega
    · exact reaches_advance b _

/-! ## Numbers and strings -/

theorem length_strtodSign_le (t : List UInt8) : (strtodSign t).2.length ≤ t.length := by
  unfold strtodSign
  split
  · exact le_rfl
  · split_ifs <;> simp

theorem length_strtodFraction_le (t : List UInt8) : (strtodFraction t).2.length ≤ t.length := by
  unfold strtodFraction
  split
  · exact le_rfl
  · split_ifs
    · exact (List.length_dropWhile_le _ _).trans (Nat.le_succ _)
    · exact le_rfl

theorem length_strtodExponent_le (t : List UInt8) : (strtodExponent t).2.length ≤ t.length := by
  unfold strtodExponent
  split
  · exact le_rfl
  · rename_i b s
    have hsign := length_strtodSign_le s
    have hdrop := List.length_dropWhile_le isDigit (strtodSign s).2
    dsimp only
    split
    · split
      · exact Nat.le_refl _
      · simp only [List.length_cons]; omega
    · exact Nat.le_refl _

theorem length_strtod_le (t : List UInt8) : (strtod t).2.length ≤ t.length := by
  have hsign := length_strtodSign_le t
  have hdrop := List.length_dropWhile_le isDigit (strtodSign t).2
  have hfraction := length_strtodFraction_le ((strtodSign t).2.dropWhile isDigit)
  have hexponent := length_strtodExponent_le (strtodFraction ((strtodSign t).2.dropWhile isDigit)).2
  unfold strtod
  dsimp only
  split
  · exact Nat.le_refl _
  · dsimp only; omega

theorem parseNumber_advances {b b' : ParseBuffer} {n : Number} (h : parseNumber b = .ok (n, b')) :
    Advances b b' := by
  have hle := length_strtod_le ((b.rest.take 63).takeWhile isNumberChar)
  simp only [parseNumber] at h
  split_ifs at h with hne
  simp only [Except.ok.injEq, Prod.mk.injEq] at h
  exact h.2 ▸ advances_advance b (by omega)

theorem parseNumber_error {b : ParseBuffer} {e : Stop} (h : parseNumber b = .error e) :
    e = .rejected := by
  simp only [parseNumber] at h
  split_ifs at h
  exact (Except.error.inj h).symm

theorem parseString_advances {b b' : ParseBuffer} {s : CStr} (h : parseString b = .ok (s, b')) :
    Advances b b' := by
  unfold parseString at h
  split at h
  · cases h
  · split_ifs at h
    split at h
    · cases h
    · split at h
      · cases h
      · simp only [Except.ok.injEq, Prod.mk.injEq] at h
        exact h.2 ▸ advances_advance b (by omega)

/-- `parse_string` returns unless the buffer has come to its end. -/
theorem parseString_error {b : ParseBuffer} {e : Stop} (h : parseString b = .error e) :
    e = .rejected ∨ e = .overread ∧ b.rest = [] := by
  unfold parseString at h
  split at h
  · rename_i hrest
    exact .inr ⟨(Except.error.inj h).symm, hrest⟩
  · split_ifs at h
    · exact .inl (Except.error.inj h).symm
    · split at h
      · exact .inl (Except.error.inj h).symm
      · split at h
        · exact .inl (Except.error.inj h).symm
        · cases h

/-! ## Values -/

/-- What a parse function gives for a buffer: it does not run out of fuel, an accepted value
satisfies `good` and ends behind the buffer's offset, and it reads behind a buffer only where that
ends in a comma. -/
def Parsed {α : Type} (good : α → Prop) (b : ParseBuffer) : Except Stop (α × ParseBuffer) → Prop
  | .ok (a, b') => good a ∧ Advances b b'
  | .error .rejected => True
  | .error .overread => b.content.getLast? = some (byte ',')
  | .error .outOfFuel => False

theorem Parsed.mono {α : Type} {good : α → Prop} {b b' : ParseBuffer}
    {r : Except Stop (α × ParseBuffer)} (h : Parsed good b' r) (hb : Reaches b b') :
    Parsed good b r := by
  match r with
  | .ok (a, b'') => exact ⟨h.1, hb.advances h.2⟩
  | .error .rejected => trivial
  | .error .overread => exact (congrArg List.getLast? hb.content_eq).symm.trans h

theorem Parsed.bind {α β : Type} {good : α → Prop} {good' : β → Prop} {b : ParseBuffer}
    {r : Except Stop (α × ParseBuffer)} {f : α × ParseBuffer → Except Stop (β × ParseBuffer)}
    (h : Parsed good b r) (hf : ∀ a b', good a → Advances b b' → Parsed good' b (f (a, b'))) :
    Parsed good' b (r >>= f) := by
  match r with
  | .ok (a, b') => exact hf a b' h.1 h.2
  | .error .rejected => trivial
  | .error .overread => exact h

theorem parsed_number (b : ParseBuffer) : Parsed (fun _ => True) b (parseNumber b) := by
  cases h : parseNumber b with
  | ok r => exact ⟨trivial, parseNumber_advances h⟩
  | error e =>
      obtain rfl := parseNumber_error h
      trivial

theorem parsed_string {b : ParseBuffer} (hend : b.rest = [] → b.content.getLast? = some (byte ',')) :
    Parsed (fun _ => True) b (parseString b) := by
  cases h : parseString b with
  | ok r => exact ⟨trivial, parseString_advances h⟩
  | error e =>
      rcases parseString_error h with rfl | ⟨rfl, hrest⟩
      · trivial
      · exact hend hrest

/-- A comma with nothing behind it is the last byte of the buffer. -/
theorem getLast_of_peek {b : ParseBuffer} {c : UInt8} (hpeek : b.peek = some c)
    (hrest : (b.advance 1).rest = []) :
    b.content.getLast? = some c := by
  obtain ⟨k, hk⟩ : ∃ k, b.rest = c :: k := by
    cases hb : b.rest with
    | nil => simp [peek, hb] at hpeek
    | cons d k => exact ⟨k, by simpa [peek, hb] using hpeek⟩
  rw [rest_advance, hk, List.drop_one, List.tail_cons] at hrest
  rw [← List.take_append_drop b.offset b.content,
    show b.content.drop b.offset = [c] from hrest ▸ hk, List.getLast?_concat]

section Loops

variable {n : ℕ} {pv : ParseValue}

/-- The functions behind `parse_value`, at the depth that leaves room for `n` levels. -/
def GoodValue (n : ℕ) (pv : ParseValue) : Prop :=
  ∀ string b, b.depth + n = nestingLimit →
    Parsed (fun item : Item => item.WellFormed n ∧ item.string = string) b (pv string b)

theorem parsed_elements (hpv : GoodValue n pv) {N : ℕ} {b : ParseBuffer}
    (hdepth : b.depth + n = nestingLimit) (hlt : b.offset < b.content.length)
    (hN : b.content.length < b.offset + N) :
    Parsed (fun items : List Item => ∀ c ∈ items, c.WellFormed n ∧ c.string = none) b
      (parseElements pv N b) := by
  induction N generalizing b with
  | zero => omega
  | succ N ih =>
      have hstart : Reaches b (bufferSkipWhitespace (b.advance 1)) :=
        (reaches_advance b 1).trans (reaches_skip _)
      refine ((hpv none _ (by rw [hstart.depth_eq, hdepth])).mono hstart).bind
        fun item b₁ hitem hb₁ => ?_
      have hb₂ := hb₁.trans (reaches_skip b₁)
      dsimp only
      split
      · rename_i hpeek
        have hlt₂ := offset_lt_of_peek (b := bufferSkipWhitespace b₁) (by rw [hpeek]; simp)
        have hitems := ih (b := bufferSkipWhitespace b₁) (by rw [hb₂.depth_eq, hdepth]) hlt₂
          (by have := hb₂.lt; rw [hb₂.content_eq]; omega)
        refine (hitems.mono hb₂.toReaches).bind fun items b₃ hgood hb₃ => ⟨?_, hb₃⟩
        exact List.forall_mem_cons.mpr ⟨hitem, hgood⟩
      · exact ⟨List.forall_mem_cons.mpr ⟨hitem, by simp⟩, hb₂⟩

theorem parsed_members (hpv : GoodValue n pv) {N : ℕ} {b : ParseBuffer}
    (hdepth : b.depth + n = nestingLimit) (hlt : b.offset < b.content.length)
    (hN : b.content.length < b.offset + N)
    (hend : (b.advance 1).rest = [] → b.content.getLast? = some (byte ',')) :
    Parsed (fun items : List Item => ∀ c ∈ items, c.WellFormed n ∧ c.string ≠ none) b
      (parseMembers pv N b) := by
  induction N generalizing b with
  | zero => omega
  | succ N ih =>
      have hstart : Reaches b (bufferSkipWhitespace (b.advance 1)) :=
        (reaches_advance b 1).trans (reaches_skip _)
      have hname : (bufferSkipWhitespace (b.advance 1)).rest = [] →
          (bufferSkipWhitespace (b.advance 1)).content.getLast? = some (byte ',') := by
        rw [hstart.content_eq]
        exact fun hrest => hend (by_contra fun hne => rest_skip_ne_nil hne hrest)
      refine ((parsed_string hname).mono hstart).bind fun name b₁ _ hb₁ => ?_
      have hb₂ := hb₁.trans (reaches_skip b₁)
      dsimp only
      split
      · trivial
      have hb₃ := hb₂.trans ((reaches_advance _ 1).trans (reaches_skip _))
      refine ((hpv (some name) _ (by rw [hb₃.depth_eq, hdepth])).mono hb₃.toReaches).bind
        fun item b₄ hitem hb₄ => ?_
      have hb₅ := hb₄.trans (reaches_skip b₄)
      have hitem' : item.WellFormed n ∧ item.string ≠ none := ⟨hitem.1, by simp [hitem.2]⟩
      dsimp only
      split
      · rename_i hpeek
        have hlt₅ := offset_lt_of_peek (b := bufferSkipWhitespace b₄) (by rw [hpeek]; simp)
        have hitems := ih (b := bufferSkipWhitespace b₄) (by rw [hb₅.depth_eq, hdepth]) hlt₅
          (by have := hb₅.lt; rw [hb₅.content_eq]; omega) (getLast_of_peek hpeek)
        refine (hitems.mono hb₅.toReaches).bind fun items b₆ hgood hb₆ => ⟨?_, hb₆⟩
        exact List.forall_mem_cons.mpr ⟨hitem', hgood⟩
      · exact ⟨List.forall_mem_cons.mpr ⟨hitem', by simp⟩, hb₅⟩

/-- What `parse_array` and `parse_object` share, behind the check of the nesting limit. -/
def container (opening closing : UInt8) (build : List Item → Item)
    (loop : ParseBuffer → Except Stop (List Item × ParseBuffer)) (b : ParseBuffer) :
    Except Stop (Item × ParseBuffer) := do
  let b := b.enter
  if b.peek ≠ some opening then throw .rejected
  let b := bufferSkipWhitespace (b.advance 1)
  if b.peek = some closing then return (build [], b.leave.advance 1)
  if b.peek = none then throw .rejected
  let (items, b) ← loop b.stepBack
  if b.peek ≠ some closing then throw .rejected
  return (build items, b.leave.advance 1)

theorem parseArray_eq (string : Option CStr) {b : ParseBuffer} (h : b.depth < nestingLimit) :
    parseArray pv string b = container (byte '[') (byte ']') (fun items => .mk .array string items)
      (fun b' => parseElements pv (b'.content.length + 1) b') b := by
  rw [parseArray, if_neg (by omega)]
  rfl

theorem parseObject_eq (string : Option CStr) {b : ParseBuffer} (h : b.depth < nestingLimit) :
    parseObject pv string b = container (byte '{') (byte '}') (fun items => .mk .object string items)
      (fun b' => parseMembers pv (b'.content.length + 1) b') b := by
  rw [parseObject, if_neg (by omega)]
  rfl

theorem parseArray_limit (string : Option CStr) {b : ParseBuffer} (h : nestingLimit ≤ b.depth) :
    parseArray pv string b = .error .rejected := by
  rw [parseArray, if_pos h]
  rfl

theorem parseObject_limit (string : Option CStr) {b : ParseBuffer} (h : nestingLimit ≤ b.depth) :
    parseObject pv string b = .error .rejected := by
  rw [parseObject, if_pos h]
  rfl

theorem parsed_container {loop : ParseBuffer → Except Stop (List Item × ParseBuffer)}
    {good : List Item → Prop}
    {good' : Item → Prop} {build : List Item → Item} {opening closing : UInt8} {b : ParseBuffer}
    (hloop : ∀ b', Reaches b.enter b' → b'.offset < b'.content.length → (b'.advance 1).rest ≠ [] →
      Parsed good b' (loop b'))
    (hempty : good' (build [])) (hbuild : ∀ items, good items → good' (build items)) :
    Parsed good' b (container opening closing build loop b) := by
  have hleave : ∀ b', Advances b.enter b' → Advances b (b'.leave.advance 1) := fun b' h =>
    { content_eq := h.content_eq
      depth_eq := by simp [leave, advance, h.depth_eq, enter]
      le := h.le.trans (Nat.le_succ _)
      lt := h.lt.trans (Nat.lt_succ_self _) }
  unfold container
  dsimp only
  split
  · trivial
  have hb₁ : Advances b.enter (bufferSkipWhitespace (b.enter.advance 1)) :=
    (advances_advance _ Nat.one_pos).trans (reaches_skip _)
  split
  · exact ⟨hempty, hleave _ hb₁⟩
  split
  · trivial
  rename_i hpeek
  have hlt := offset_lt_of_peek hpeek
  have hback : Reaches b.enter (bufferSkipWhitespace (b.enter.advance 1)).stepBack :=
    ⟨hb₁.content_eq, hb₁.depth_eq, by have := hb₁.lt; simp only [stepBack]; omega⟩
  have hgoes : ((bufferSkipWhitespace (b.enter.advance 1)).stepBack.advance 1).rest ≠ [] := by
    rw [rest_stepBack_advance (Nat.zero_lt_of_lt hb₁.lt)]
    exact fun hnil => hpeek (by rw [peek, hnil]; rfl)
  have hitems := hloop _ hback (by simp only [stepBack]; omega) hgoes
  match hr : loop (bufferSkipWhitespace (b.enter.advance 1)).stepBack with
  | .error .rejected => trivial
  | .error .overread =>
      rw [hr] at hitems
      exact (congrArg List.getLast? hback.content_eq).symm.trans hitems
  | .error .outOfFuel => simp only [hr] at hitems; exact hitems
  | .ok (items, b') =>
      rw [hr] at hitems
      simp only [bind, Except.bind]
      split
      · trivial
      · exact ⟨hbuild items hitems.1, hleave b' (hback.advances hitems.2)⟩

theorem parsed_array (hpv : GoodValue n pv) (string : Option CStr) {b : ParseBuffer}
    (hdepth : b.depth + (n + 1) = nestingLimit) :
    Parsed (fun item : Item => item.WellFormed (n + 1) ∧ item.string = string) b
      (parseArray pv string b) := by
  rw [parseArray_eq string (by omega)]
  refine parsed_container (fun b' hb' hlt _ => parsed_elements hpv ?_ hlt (by omega)) ?_ ?_
  · rw [hb'.depth_eq]; simp only [enter]; omega
  · exact ⟨.array (by simp) (by simp), rfl⟩
  · exact fun items h => ⟨.array (fun c hc => (h c hc).2) fun c hc => (h c hc).1, rfl⟩

theorem parsed_object (hpv : GoodValue n pv) (string : Option CStr) {b : ParseBuffer}
    (hdepth : b.depth + (n + 1) = nestingLimit) :
    Parsed (fun item : Item => item.WellFormed (n + 1) ∧ item.string = string) b
      (parseObject pv string b) := by
  rw [parseObject_eq string (by omega)]
  refine parsed_container (fun b' hb' hlt hgoes => parsed_members hpv ?_ hlt (by omega) fun h =>
    absurd h hgoes) ?_ ?_
  · rw [hb'.depth_eq]; simp only [enter]; omega
  · exact ⟨.object (by simp) (by simp), rfl⟩
  · exact fun items h => ⟨.object (fun c hc => (h c hc).2) fun c hc => (h c hc).1, rfl⟩

end Loops

theorem parsed_value {n : ℕ}
    (harray : ∀ string b, b.depth + n = nestingLimit →
      Parsed (fun item : Item => item.WellFormed n ∧ item.string = string) b
        (parseArray (parseValue n) string b))
    (hobject : ∀ string b, b.depth + n = nestingLimit →
      Parsed (fun item : Item => item.WellFormed n ∧ item.string = string) b
        (parseObject (parseValue n) string b)) :
    GoodValue n (parseValue (n + 1)) := by
  intro string b hdepth
  simp only [parseValue]
  split
  · exact ⟨⟨.scalar trivial, rfl⟩, advances_advance b (by omega)⟩
  split
  · exact ⟨⟨.scalar trivial, rfl⟩, advances_advance b (by omega)⟩
  split
  · exact ⟨⟨.scalar trivial, rfl⟩, advances_advance b (by omega)⟩
  split
  · trivial
  rename_i hpeek
  have hrest : b.rest ≠ [] := fun hnil => by simp [peek, hnil] at hpeek
  split
  · exact (parsed_string fun hnil => absurd hnil hrest).bind fun s b' _ hb' =>
      ⟨⟨.scalar trivial, rfl⟩, hb'⟩
  split
  · exact (parsed_number b).bind fun number b' _ hb' => ⟨⟨.scalar trivial, rfl⟩, hb'⟩
  split
  · exact harray string b hdepth
  split
  · exact hobject string b hdepth
  · trivial

/-- `parse_value` returns, and a tree that it accepts is well formed. -/
theorem parseValue_spec (n : ℕ) : GoodValue n (parseValue (n + 1)) := by
  induction n with
  | zero =>
      refine parsed_value (fun string b hdepth => ?_) (fun string b hdepth => ?_)
      · rw [parseArray_limit string (by omega)]
        trivial
      · rw [parseObject_limit string (by omega)]
        trivial
  | succ n ih =>
      exact parsed_value (fun string b => parsed_array ih string)
        (fun string b => parsed_object ih string)

theorem reaches_bom (b : ParseBuffer) : Reaches b (skipUtf8Bom b) := by
  unfold skipUtf8Bom
  split
  · exact reaches_advance b 3
  · exact ⟨rfl, rfl, le_rfl⟩

/-- `parse_value` at the start of a text. -/
theorem parsed_text (value : List UInt8) :
    Parsed (fun item : Item => item.WellFormed nestingLimit ∧ item.string = none) ⟨value, 0, 0⟩
      (parseValue (nestingLimit + 1) none (bufferSkipWhitespace (skipUtf8Bom ⟨value, 0, 0⟩))) := by
  have hstart := (reaches_bom ⟨value, 0, 0⟩).trans (reaches_skip _)
  exact (parseValue_spec nestingLimit none _ (by rw [hstart.depth_eq, Nat.zero_add])).mono hstart

/-- `cJSON_Parse` accepts well-formed trees only, and gives NULL only where `parse_value` rejects
the text: the NUL behind the text keeps it inside the buffer. -/
theorem cjsonParse_spec (value : CStr) :
    match cjsonParse value with
    | some item => item.WellFormed nestingLimit ∧ item.string = none
    | none =>
        parseValue (nestingLimit + 1) none
          (bufferSkipWhitespace (skipUtf8Bom ⟨value.bytes ++ [0], 0, 0⟩)) =
          .error .rejected := by
  have h := parsed_text (value.bytes ++ [0])
  simp only [cjsonParse]
  match hr : parseValue (nestingLimit + 1) none
    (bufferSkipWhitespace (skipUtf8Bom ⟨value.bytes ++ [0], 0, 0⟩)) with
  | .ok (item, b') =>
      rw [hr] at h
      exact h.1
  | .error .rejected => trivial
  | .error .overread =>
      rw [hr] at h
      simp [Parsed, byte] at h
  | .error .outOfFuel =>
      rw [hr] at h
      exact h.elim

theorem wellFormed_of_cjsonParse {value : CStr} {item : Item} (h : cjsonParse value = some item) :
    item.WellFormed nestingLimit ∧ item.string = none := by
  have hspec := cjsonParse_spec value
  rwa [h] at hspec

theorem cjsonParse_eq_some {value : CStr} {item : Item} :
    cjsonParse value = some item ↔
      ∃ e, cjsonParseWithLengthOpts (value.bytes ++ [0]) false = .ok (item, e) := by
  rw [cjsonParse, cjsonParseWithLengthOpts, if_neg (by simp)]
  split <;> simp_all

/-- Only a text that ends in a comma is read past its end. -/
theorem getLast_of_overread {value : List UInt8} {requireNullTerminated : Bool}
    (h : cjsonParseWithLengthOpts value requireNullTerminated = .error .overread) :
    value.getLast? = some (byte ',') := by
  have hparsed := parsed_text value
  unfold cjsonParseWithLengthOpts at h
  split at h
  · cases h
  · split at h
    · rename_i e hr
      cases h
      rwa [hr] at hparsed
    · dsimp only at h
      split_ifs at h
      cases h

/-- A text with a NUL behind it is not read past its end. -/
theorem ne_overread_of_nul (value : CStr) (requireNullTerminated : Bool) :
    cjsonParseWithLengthOpts (value.bytes ++ [0]) requireNullTerminated ≠ .error .overread := by
  intro h
  have hlast := getLast_of_overread h
  simp [byte] at hlast

end CppJson
