import CppJson.CJson.Lemmas.Lexemes
import CppJson.CJson.Lemmas.Strings
import CppJson.CJson.Lemmas.Parse

/-!
# The parser on JSON texts

On a text of the grammar `cJSON_Parse` gives the tree of its syntax tree, or NULL when the text
nests too deep, has a number of more than 63 characters or an unpaired surrogate
(`cjsonParse_text`).
-/

namespace CppJson

-- the checks over all 256 bytes
set_option maxRecDepth 4000

open Json ParseBuffer

/-! ## Whitespace -/

theorem Json.IsWs.le {w : List UInt8} (h : IsWs w) : ∀ c ∈ w, decide (c ≤ 32) := by
  intro c hc
  rcases h c hc with rfl | rfl | rfl | rfl <;> decide

theorem Json.IsWs.append {w w' : List UInt8} (h : IsWs w) (h' : IsWs w') : IsWs (w ++ w') := by
  intro c hc
  rcases List.mem_append.mp hc with hc | hc
  · exact h c hc
  · exact h' c hc

theorem isWs_nil : IsWs [] := by simp [IsWs]

/-- A text that `buffer_skip_whitespace` stops at. -/
def Visible (k : List UInt8) : Prop := ∃ c k', k = c :: k' ∧ 32 < c

theorem skip_eq {b : ParseBuffer} {w k : List UInt8} (hb : b.rest = w ++ k) (hw : IsWs w)
    (hk : Visible k) :
    bufferSkipWhitespace b = b.advance w.length := by
  obtain ⟨c, k', rfl, hc⟩ := hk
  have hstop : Stops (fun c : UInt8 => decide (c ≤ 32)) (c :: k') := stops_cons.mpr (by simpa using hc)
  have hne : b.rest ≠ [] := by simp [hb]
  have hrest : (b.advance w.length).rest = c :: k' := by simp [hb]
  have hlt := offset_lt_of_rest hrest
  rw [bufferSkipWhitespace, if_neg hne, hb, takeWhile_append_stop hw.le hstop]
  exact if_neg hlt.ne

theorem skip_of_visible {b : ParseBuffer} (hb : Visible b.rest) : bufferSkipWhitespace b = b := by
  simpa [advance] using skip_eq (w := []) rfl isWs_nil hb

theorem rest_advance_append {b : ParseBuffer} {t k : List UInt8} (hb : b.rest = t ++ k) :
    (b.advance t.length).rest = k := by
  rw [rest_advance, hb, List.drop_left]

/-! ## How texts begin -/

theorem isDigit_visible : ∀ c : UInt8, isDigit c → 32 < c ∧ c < 127 ∧ c ≠ byte ']' :=
  forall_byte (by decide)

theorem Json.IsValue.head {t : List UInt8} {x : Json} (h : IsValue t x) :
    ∃ c k, t = c :: k ∧ 32 < c ∧ c < 127 ∧ c ≠ byte ']' := by
  cases h with
  | null => exact ⟨_, _, rfl, by decide, by decide, by decide⟩
  | false => exact ⟨_, _, rfl, by decide, by decide, by decide⟩
  | true => exact ⟨_, _, rfl, by decide, by decide, by decide⟩
  | number hn =>
      obtain ⟨c, k, rfl, hc⟩ := hn.head
      refine ⟨c, k, rfl, ?_⟩
      rcases hc with rfl | hc
      · decide
      · exact isDigit_visible c hc
  | string hcs => exact ⟨_, _, rfl, by decide, by decide, by decide⟩
  | emptyArray hw => exact ⟨_, _, rfl, by decide, by decide, by decide⟩
  | array hxs => exact ⟨_, _, rfl, by decide, by decide, by decide⟩
  | emptyObject hw => exact ⟨_, _, rfl, by decide, by decide, by decide⟩
  | object hms => exact ⟨_, _, rfl, by decide, by decide, by decide⟩

theorem Json.IsValue.visible {t : List UInt8} {x : Json} (h : IsValue t x) (k : List UInt8) :
    Visible (t ++ k) := by
  obtain ⟨c, t', rfl, hc, -⟩ := h.head
  exact ⟨c, t' ++ k, rfl, hc⟩

theorem Json.IsElements.head {t : List UInt8} {xs : List Json} (h : IsElements t xs) :
    ∃ w c k, t = w ++ c :: k ∧ IsWs w ∧ 32 < c ∧ c ≠ byte ']' := by
  cases h with
  | @one w v w' x hw hv hw' =>
      obtain ⟨c, k, rfl, hc, -, hc'⟩ := hv.head
      exact ⟨w, c, k ++ w', by simp, hw, hc, hc'⟩
  | @cons w v w' x ts xs hw hv hw' hxs =>
      obtain ⟨c, k, rfl, hc, -, hc'⟩ := hv.head
      exact ⟨w, c, k ++ w' ++ byte ',' :: ts, by simp, hw, hc, hc'⟩

theorem Json.IsMembers.head {t : List UInt8} {ms : List (List Chr × Json)} (h : IsMembers t ms) :
    ∃ w k, t = w ++ byte '"' :: k ∧ IsWs w := by
  cases h with
  | @one w cs w₁ w₂ v w' x hw hcs hw₁ hw₂ hv hw' =>
      exact ⟨w, cs.flatMap Chr.text ++ [byte '"'] ++ w₁ ++ byte ':' :: w₂ ++ v ++ w',
        by simp [stringText], hw⟩
  | @cons w cs w₁ w₂ v w' x ts ms hw hcs hw₁ hw₂ hv hw' hms =>
      exact ⟨w, cs.flatMap Chr.text ++ [byte '"'] ++ w₁ ++ byte ':' :: w₂ ++ v ++ w' ++ byte ',' :: ts,
        by simp [stringText], hw⟩

/-! ## Numbers -/

/-- The parser has stopped inside a number. -/
def Stuck (b : ParseBuffer) : Prop := ∃ c k, b.rest = c :: k ∧ isNumberChar c

theorem isNumberChar_visible : ∀ c : UInt8, isNumberChar c →
    32 < c ∧ c ≠ byte ',' ∧ c ≠ byte ']' ∧ c ≠ byte '}' :=
  forall_byte (by decide)

theorem Stuck.skip {b : ParseBuffer} (h : Stuck b) : bufferSkipWhitespace b = b := by
  obtain ⟨c, k, hb, hc⟩ := h
  exact skip_of_visible ⟨c, k, hb, (isNumberChar_visible c hc).1⟩

theorem Stuck.peek {b : ParseBuffer} (h : Stuck b) :
    b.peek ≠ some (byte ',') ∧ b.peek ≠ some (byte ']') ∧ b.peek ≠ some (byte '}') := by
  obtain ⟨c, k, hb, hc⟩ := h
  obtain ⟨-, h₁, h₂, h₃⟩ := isNumberChar_visible c hc
  simpa [peek_of_rest hb] using ⟨h₁, h₂, h₃⟩

theorem parseNumber_short {b : ParseBuffer} {t k : List UInt8} (ht : IsNumber t) (hb : b.rest = t ++ k)
    (hk : Stops isNumberChar k) (hlen : t.length ≤ 63) :
    parseNumber b = .ok (.ofDouble (strtod t).1, b.advance t.length) := by
  obtain ⟨c, cs, hcons, -⟩ := ht.head
  have htake : (b.rest.take 63).takeWhile isNumberChar = t := by
    rw [hb, List.take_append, List.take_of_length_le hlen,
      takeWhile_append_stop ht.isNumberChar (hk.take _)]
  have hpos : t.length ≠ 0 := by simp [hcons]
  simp only [parseNumber, htake, ht.strtod_rest, List.length_nil, Nat.sub_zero]
  rw [if_neg hpos.symm]

/-- Of a number of more than 63 characters the temporary buffer holds the first 63. -/
theorem take_long {b : ParseBuffer} {t k : List UInt8} (ht : IsNumber t) (hb : b.rest = t ++ k)
    (hlen : 63 < t.length) :
    (b.rest.take 63).takeWhile isNumberChar = t.take 63 := by
  rw [hb, List.take_append_of_le_length hlen.le, List.takeWhile_eq_self_iff]
  exact fun c hc => ht.isNumberChar c (List.take_subset _ _ hc)

/-- A number of more than 63 characters is read in part. -/
theorem parseNumber_long {b : ParseBuffer} {t k : List UInt8} (ht : IsNumber t) (hb : b.rest = t ++ k)
    (hlen : 63 < t.length) :
    parseNumber b = .error .rejected ∨ ∃ n b', parseNumber b = .ok (n, b') ∧ Stuck b' := by
  simp only [parseNumber, take_long ht hb hlen]
  split
  · exact .inl rfl
  · refine .inr ⟨_, _, rfl, ?_⟩
    have hm : (t.take 63).length - (strtod (t.take 63)).2.length < t.length :=
      (Nat.sub_le _ _).trans_lt (by simpa using hlen)
    cases hdrop : t.drop ((t.take 63).length - (strtod (t.take 63)).2.length) with
    | nil => exact absurd (List.drop_eq_nil_iff.mp hdrop) (by omega)
    | cons c cs =>
        refine ⟨c, cs ++ k, ?_, ht.isNumberChar c (List.drop_subset _ _ (hdrop ▸ List.mem_cons_self))⟩
        rw [rest_advance, hb, List.drop_append_of_le_length hm.le, hdrop, List.cons_append]

/-! ## `parse_value` on one value -/

/-- `parse_value` on a text that starts with a value: an accepted one is read to its end. A number
that is not accepted may be read in part. -/
structure Reads (n : ℕ) (string : Option CStr) (b : ParseBuffer) (t : List UInt8) (x : Json)
    (r : Except Stop (Item × ParseBuffer)) : Prop where
  accepted : Accepted n x → r = .ok (ofJson string x, b.advance t.length)
  refused : ¬Accepted n x →
    r = .error .rejected ∨ (∃ u, x = .number u) ∧ ∃ item b', r = .ok (item, b') ∧ Stuck b'

theorem not_prefix_of_head {s : List UInt8} {c c' : UInt8} {k : List UInt8} (h : c' ≠ c) :
    ¬(c' :: s <+: c :: k) := by
  intro hp
  exact h (List.cons_prefix_cons.mp hp).1

theorem parseValue_cons {n : ℕ} {string : Option CStr} {b : ParseBuffer} {c : UInt8} {k : List UInt8}
    (hb : b.rest = c :: k) (hc : c ≠ byte 'n' ∧ c ≠ byte 'f' ∧ c ≠ byte 't') :
    parseValue (n + 1) string b =
      if c = byte '"' then do
        let (s, b) ← parseString b
        return (.mk (.string s) string [], b)
      else if c = byte '-' ∨ isDigit c then do
        let (num, b) ← parseNumber b
        return (.mk (.number num) string [], b)
      else if c = byte '[' then parseArray (parseValue n) string b
      else if c = byte '{' then parseObject (parseValue n) string b
      else .error .rejected := by
  have hnull : ¬(ascii "null" <+: b.rest) := hb ▸ not_prefix_of_head hc.1.symm
  have hfalse : ¬(ascii "false" <+: b.rest) := hb ▸ not_prefix_of_head hc.2.1.symm
  have htrue : ¬(ascii "true" <+: b.rest) := hb ▸ not_prefix_of_head hc.2.2.symm
  rw [parseValue, if_neg hnull, if_neg hfalse, if_neg htrue, peek_of_rest hb]
  rfl

theorem reads_null {n : ℕ} {string : Option CStr} {b : ParseBuffer} {k : List UInt8}
    (hb : b.rest = ascii "null" ++ k) :
    Reads n string b (ascii "null") .null (parseValue (n + 1) string b) := by
  have hnull : ascii "null" <+: b.rest := hb ▸ List.prefix_append _ _
  refine ⟨fun _ => ?_, fun h => absurd trivial h⟩
  rw [parseValue, if_pos hnull]
  rfl

theorem reads_false {n : ℕ} {string : Option CStr} {b : ParseBuffer} {k : List UInt8}
    (hb : b.rest = ascii "false" ++ k) :
    Reads n string b (ascii "false") (.bool false) (parseValue (n + 1) string b) := by
  have hnull : ¬(ascii "null" <+: b.rest) := hb ▸ not_prefix_of_head (by decide)
  have hfalse : ascii "false" <+: b.rest := hb ▸ List.prefix_append _ _
  refine ⟨fun _ => ?_, fun h => absurd trivial h⟩
  rw [parseValue, if_neg hnull, if_pos hfalse]
  rfl

theorem reads_true {n : ℕ} {string : Option CStr} {b : ParseBuffer} {k : List UInt8}
    (hb : b.rest = ascii "true" ++ k) :
    Reads n string b (ascii "true") (.bool true) (parseValue (n + 1) string b) := by
  have hnull : ¬(ascii "null" <+: b.rest) := hb ▸ not_prefix_of_head (by decide)
  have hfalse : ¬(ascii "false" <+: b.rest) := hb ▸ not_prefix_of_head (by decide)
  have htrue : ascii "true" <+: b.rest := hb ▸ List.prefix_append _ _
  refine ⟨fun _ => ?_, fun h => absurd trivial h⟩
  rw [parseValue, if_neg hnull, if_neg hfalse, if_pos htrue]
  rfl

theorem number_head : ∀ c : UInt8, c = byte '-' ∨ isDigit c →
    (c ≠ byte 'n' ∧ c ≠ byte 'f' ∧ c ≠ byte 't') ∧ c ≠ byte '"' :=
  forall_byte (by decide)

theorem parseValue_number (n : ℕ) (string : Option CStr) {b : ParseBuffer} {t k : List UInt8}
    (ht : IsNumber t) (hb : b.rest = t ++ k) :
    parseValue (n + 1) string b = (do
      let (num, b) ← parseNumber b
      return (.mk (.number num) string [], b)) := by
  obtain ⟨c, cs, hcons, hc⟩ := ht.head
  obtain ⟨hne, hquote⟩ := number_head c hc
  rw [parseValue_cons (by rw [hb, hcons, List.cons_append]) hne, if_neg hquote, if_pos hc]

theorem reads_number {n : ℕ} {string : Option CStr} {b : ParseBuffer} {t k : List UInt8}
    (ht : IsNumber t) (hb : b.rest = t ++ k) (hk : Stops isNumberChar k) :
    Reads n string b t (.number t) (parseValue (n + 1) string b) := by
  have hvalue := parseValue_number n string ht hb
  refine ⟨fun h => ?_, fun h => ?_⟩
  · rw [hvalue, parseNumber_short ht hb hk h]
    rfl
  · rcases parseNumber_long ht hb (not_le.mp h) with hr | ⟨m, b', hr, hstuck⟩
    · rw [hvalue, hr]
      exact .inl rfl
    · rw [hvalue, hr]
      exact .inr ⟨⟨t, rfl⟩, _, b', rfl, hstuck⟩

theorem reads_string {n : ℕ} {string : Option CStr} {b : ParseBuffer} {cs : List Chr} {k : List UInt8}
    (hcs : ∀ c ∈ cs, c.Valid) (hb : b.rest = stringText cs ++ k) :
    Reads n string b (stringText cs) (.string cs) (parseValue (n + 1) string b) := by
  have hvalue : parseValue (n + 1) string b = (do
      let (s, b) ← parseString b
      return (.mk (.string s) string [], b)) := by
    rw [parseValue_cons (c := byte '"') (k := cs.flatMap Chr.text ++ [byte '"'] ++ k)
      (by simp [hb, stringText]) (by decide), if_pos rfl]
  refine ⟨fun h => ?_, fun h => .inl ?_⟩
  · rw [hvalue, parseString_text hcs hb, if_pos (show Paired cs from h)]
    rfl
  · rw [hvalue, parseString_text hcs hb, if_neg (show ¬Paired cs from h)]
    rfl

/-! ## Elements and members -/

/-- What the grammar says about a value, used at any place where it stands: only a number depends on
what follows. -/
def ReadsValue (n : ℕ) (t : List UInt8) (x : Json) : Prop :=
  ∀ (string : Option CStr) (b : ParseBuffer) (k : List UInt8), b.rest = t ++ k →
    ((∃ u, x = .number u) → Stops isNumberChar k) → b.depth + n = nestingLimit →
    Reads n string b t x (parseValue (n + 1) string b)

/-- A loop over elements or members, started at the byte in front of `t`. -/
structure ReadsAll (ok : Prop) (b : ParseBuffer) (t : List UInt8) (items : List Item)
    (r : Except Stop (List Item × ParseBuffer)) : Prop where
  accepted : ok → r = .ok (items, b.advance (1 + t.length))
  refused : ¬ok → r = .error .rejected ∨ ∃ items' b', r = .ok (items', b') ∧ Stuck b'

theorem stops_ws {w k : List UInt8} {c : UInt8} (hw : IsWs w) (hc : isNumberChar c = false) :
    Stops isNumberChar (w ++ c :: k) := by
  refine Stops.append (fun a ha => ?_) (stops_cons.mpr hc)
  rcases hw a (List.mem_of_mem_head? ha) with rfl | rfl | rfl | rfl <;> decide

theorem visible_cons {c : UInt8} (hc : 32 < c) (k : List UInt8) : Visible (c :: k) := ⟨c, k, rfl, hc⟩

theorem element_round {n N : ℕ} {b : ParseBuffer} {w v w' k : List UInt8} {x : Json} {c : UInt8}
    (hw : IsWs w) (hv : IsValue v x) (hread : ReadsValue n v x) (hw' : IsWs w') (hc : 32 < c)
    (hnum : isNumberChar c = false) (hb : (b.advance 1).rest = w ++ v ++ w' ++ c :: k)
    (hdepth : b.depth + n = nestingLimit) :
    (Accepted n x →
      parseElements (parseValue (n + 1)) (N + 1) b =
        if c = byte ',' then do
          let (items, b) ← parseElements (parseValue (n + 1)) N (b.advance (1 + (w ++ v ++ w').length))
          return (ofJson none x :: items, b)
        else .ok ([ofJson none x], b.advance (1 + (w ++ v ++ w').length))) ∧
    (¬Accepted n x → parseElements (parseValue (n + 1)) (N + 1) b = .error .rejected ∨
      ∃ items' b', parseElements (parseValue (n + 1)) (N + 1) b = .ok (items', b') ∧ Stuck b') := by
  have hskip : bufferSkipWhitespace (b.advance 1) = b.advance (1 + w.length) := by
    rw [skip_eq (w := w) (k := v ++ (w' ++ c :: k)) (by rw [hb]; simp) hw (hv.visible _),
      advance_advance]
  have hrest : (b.advance (1 + w.length)).rest = v ++ (w' ++ c :: k) := by
    rw [← advance_advance, rest_advance, hb]; simp
  have hr := hread none _ _ hrest (fun _ => stops_ws hw' hnum) hdepth
  constructor
  · intro hx
    have hrest' : ((b.advance (1 + w.length)).advance v.length).rest = w' ++ c :: k := by
      rw [rest_advance, hrest]; simp
    have hskip' : bufferSkipWhitespace ((b.advance (1 + w.length)).advance v.length) =
        b.advance (1 + (w ++ v ++ w').length) := by
      rw [skip_eq hrest' hw' (visible_cons hc k), advance_advance, advance_advance]
      simp [Nat.add_assoc]
    have hpeek : (b.advance (1 + (w ++ v ++ w').length)).peek = some c := by
      refine peek_of_rest (k := k) ?_
      rw [← hskip', skip_eq hrest' hw' (visible_cons hc k), rest_advance, hrest']; simp
    rw [parseElements, hskip, hr.accepted hx]
    simp only [bind, Except.bind, hskip', hpeek, Option.some.injEq]
    rfl
  · intro hx
    rw [parseElements, hskip]
    rcases hr.refused hx with hr | ⟨-, item, b', hr, hstuck⟩
    · rw [hr]
      exact .inl rfl
    · rw [hr]
      simp only [bind, Except.bind, hstuck.skip, if_neg hstuck.peek.1]
      exact .inr ⟨_, b', rfl, hstuck⟩

def ReadsElements (n : ℕ) (t : List UInt8) (xs : List Json) : Prop :=
  ∀ (N : ℕ) (b : ParseBuffer) (k : List UInt8), (b.advance 1).rest = t ++ byte ']' :: k →
    b.depth + n = nestingLimit → xs.length ≤ N →
    ReadsAll (AcceptedElements n xs) b t (ofElements xs) (parseElements (parseValue (n + 1)) N b)

theorem readsElements_one {n : ℕ} {w v w' : List UInt8} {x : Json} (hw : IsWs w) (hv : IsValue v x)
    (hread : ReadsValue n v x) (hw' : IsWs w') : ReadsElements n (w ++ v ++ w') [x] := by
  intro N b k hb hdepth hN
  obtain ⟨N, rfl⟩ : ∃ m, N = m + 1 := ⟨N - 1, by simp only [List.length_singleton] at hN; omega⟩
  obtain ⟨hok, hbad⟩ := element_round (N := N) hw hv hread hw' (by decide) (by decide) hb hdepth
  refine ⟨fun h => ?_, fun h => hbad fun hx => h ⟨hx, trivial⟩⟩
  rw [hok h.1, if_neg (by decide)]
  rfl

theorem readsElements_cons {n : ℕ} {w v w' ts : List UInt8} {x : Json} {xs : List Json} (hw : IsWs w)
    (hv : IsValue v x) (hread : ReadsValue n v x) (hw' : IsWs w') (hxs : ReadsElements n ts xs) :
    ReadsElements n (w ++ v ++ w' ++ byte ',' :: ts) (x :: xs) := by
  intro N b k hb hdepth hN
  obtain ⟨N, rfl⟩ : ∃ m, N = m + 1 := ⟨N - 1, by simp only [List.length_cons] at hN; omega⟩
  rw [List.append_assoc (w ++ v ++ w'), List.cons_append] at hb
  obtain ⟨hok, hbad⟩ := element_round (N := N) hw hv hread hw' (by decide) (by decide) hb hdepth
  have hnext : ((b.advance (1 + (w ++ v ++ w').length)).advance 1).rest = ts ++ byte ']' :: k := by
    rw [← advance_advance, rest_advance, rest_advance, hb]
    simp
  have htail := hxs N _ k hnext hdepth (by simpa using hN)
  by_cases hx : Accepted n x
  · rw [hok hx, if_pos rfl]
    refine ⟨fun h => ?_, fun h => ?_⟩
    · rw [htail.accepted h.2, advance_advance]
      simp only [bind, Except.bind, pure, Except.pure, ofElements]
      simp [Nat.add_assoc, Nat.add_comm 1]
    · rcases htail.refused fun hxs => h ⟨hx, hxs⟩ with hr | ⟨items, b', hr, hstuck⟩
      · rw [hr]
        exact .inl rfl
      · rw [hr]
        exact .inr ⟨_, b', rfl, hstuck⟩
  · exact ⟨fun h => absurd h.1 hx, fun _ => hbad hx⟩

theorem Json.IsElements.length_le {t : List UInt8} {xs : List Json} (h : IsElements t xs) :
    xs.length ≤ t.length := by
  cases h with
  | one _ hv =>
      obtain ⟨c, k, rfl, -⟩ := hv.head
      simp only [List.length_append, List.length_cons, List.length_nil]
      omega
  | cons _ _ _ hxs =>
      have := hxs.length_le
      simp only [List.length_append, List.length_cons]
      omega

/-! ## Arrays and objects -/

section Container

variable {opening closing : UInt8} {build : List Item → Item} {b : ParseBuffer}
  {loop : ParseBuffer → Except Stop (List Item × ParseBuffer)}

theorem leave_enter (b : ParseBuffer) (m n : ℕ) :
    (b.enter.advance m).leave.advance n = b.advance (m + n) := by
  simp [enter, leave, advance, Nat.add_assoc]

theorem container_empty {w k : List UInt8} (hb : b.rest = opening :: w ++ closing :: k) (hw : IsWs w)
    (hclosing : 32 < closing) :
    container opening closing build loop b = .ok (build [], b.advance (w.length + 2)) := by
  have hpeek : b.enter.peek = some opening :=
    peek_of_rest (k := w ++ closing :: k) (by rw [rest_enter, hb]; rfl)
  have hrest : (b.enter.advance 1).rest = w ++ closing :: k := by rw [rest_advance, rest_enter, hb]; rfl
  have hskip : bufferSkipWhitespace (b.enter.advance 1) = b.enter.advance (1 + w.length) := by
    rw [skip_eq hrest hw (visible_cons hclosing k), advance_advance]
  have hpeek' : (b.enter.advance (1 + w.length)).peek = some closing := by
    refine peek_of_rest (k := k) ?_
    rw [← advance_advance, rest_advance, hrest, List.drop_left]
  simp only [container, hpeek, ne_eq, not_true_eq_false, ↓reduceIte, hskip, hpeek', leave_enter]
  rw [show 1 + w.length + 1 = w.length + 2 by omega]
  rfl

/-- Brackets around at least one element. `hcongr` says that the loop begins with whitespace. -/
theorem container_loop (build : List Item → Item)
    (loop : ParseBuffer → Except Stop (List Item × ParseBuffer)) {t w k t' : List UInt8} {c : UInt8}
    {items : List Item} {ok : Prop} (hb : b.rest = opening :: t ++ closing :: k)
    (ht : t = w ++ c :: t') (hw : IsWs w) (hc : 32 < c) (hc' : c ≠ closing)
    (hclosing : ∀ b' : ParseBuffer, Stuck b' → b'.peek ≠ some closing)
    (hcongr : ∀ b₁ b₂ : ParseBuffer, b₁.content = b₂.content →
      bufferSkipWhitespace (b₁.advance 1) = bufferSkipWhitespace (b₂.advance 1) → loop b₁ = loop b₂)
    (hloop : ReadsAll ok b.enter t items (loop b.enter)) :
    (ok → container opening closing build loop b = .ok (build items, b.advance (t.length + 2))) ∧
    (¬ok → container opening closing build loop b = .error .rejected) := by
  have hpeek : b.enter.peek = some opening :=
    peek_of_rest (k := t ++ closing :: k) (by rw [rest_enter, hb]; rfl)
  have hrest : (b.enter.advance 1).rest = w ++ (c :: (t' ++ closing :: k)) := by
    rw [rest_advance, rest_enter, hb, ht]; simp
  have hskip : bufferSkipWhitespace (b.enter.advance 1) = b.enter.advance (1 + w.length) := by
    rw [skip_eq hrest hw (visible_cons hc _), advance_advance]
  have hrest' : (b.enter.advance (1 + w.length)).rest = c :: (t' ++ closing :: k) := by
    rw [← advance_advance, rest_advance, hrest, List.drop_left]
  -- the step back in front of the loop
  have hback : loop (b.enter.advance (1 + w.length)).stepBack = loop b.enter := by
    refine hcongr _ _ rfl ?_
    have hstep : (b.enter.advance (1 + w.length)).stepBack.advance 1 =
        b.enter.advance (1 + w.length) := by
      simp only [stepBack, advance, ParseBuffer.mk.injEq, true_and, and_true]; omega
    rw [hstep, hskip, skip_of_visible ⟨c, _, hrest', hc⟩]
  simp only [container, hpeek, ne_eq, not_true_eq_false, ↓reduceIte, hskip, peek_of_rest hrest',
    Option.some.injEq, hc', reduceCtorEq, hback]
  refine ⟨fun hok => ?_, fun hok => ?_⟩
  · have hend : (b.enter.advance (1 + t.length)).peek = some closing := by
      refine peek_of_rest (k := k) ?_
      rw [← advance_advance, rest_advance, rest_advance, rest_enter, hb]
      simp
    rw [hloop.accepted hok]
    simp only [bind, Except.bind, hend, not_true_eq_false, ↓reduceIte, leave_enter]
    rw [show 1 + t.length + 1 = t.length + 2 by omega]
    rfl
  · rcases hloop.refused hok with hr | ⟨items', b', hr, hstuck⟩
    · rw [hr]
      rfl
    · rw [hr]
      simp only [bind, Except.bind, hclosing b' hstuck, not_false_eq_true, ↓reduceIte]
      rfl

end Container

theorem parseValue_array {n : ℕ} {string : Option CStr} {b : ParseBuffer} {k : List UInt8}
    (hb : b.rest = byte '[' :: k) :
    parseValue (n + 1) string b = parseArray (parseValue n) string b := by
  rw [parseValue_cons hb (by decide), if_neg (by decide), if_neg (by decide), if_pos rfl]

theorem parseValue_object {n : ℕ} {string : Option CStr} {b : ParseBuffer} {k : List UInt8}
    (hb : b.rest = byte '{' :: k) :
    parseValue (n + 1) string b = parseObject (parseValue n) string b := by
  rw [parseValue_cons hb (by decide), if_neg (by decide), if_neg (by decide),
    if_neg (by decide), if_pos rfl]

theorem parseElements_congr {pv : ParseValue} {N : ℕ} {b₁ b₂ : ParseBuffer}
    (h : bufferSkipWhitespace (b₁.advance 1) = bufferSkipWhitespace (b₂.advance 1)) :
    parseElements pv N b₁ = parseElements pv N b₂ := by
  cases N with
  | zero => rfl
  | succ N => rw [parseElements, parseElements, h]

theorem parseMembers_congr {pv : ParseValue} {N : ℕ} {b₁ b₂ : ParseBuffer}
    (h : bufferSkipWhitespace (b₁.advance 1) = bufferSkipWhitespace (b₂.advance 1)) :
    parseMembers pv N b₁ = parseMembers pv N b₂ := by
  cases N with
  | zero => rfl
  | succ N => rw [parseMembers, parseMembers, h]

theorem length_le_content {b : ParseBuffer} {t k : List UInt8} (h : b.rest = t ++ k) :
    t.length ≤ b.content.length := by
  have hlen := congrArg List.length h
  simp only [rest, List.length_drop, List.length_append] at hlen
  omega

theorem readsValue_emptyArray {n : ℕ} {w : List UInt8} (hw : IsWs w) :
    ReadsValue n (byte '[' :: w ++ [byte ']']) (.array []) := by
  intro string b k hb _ hdepth
  rw [List.append_assoc, List.singleton_append] at hb
  rw [parseValue_array hb]
  cases n with
  | zero => exact ⟨fun h => h.elim, fun _ => .inl (parseArray_limit string (by omega))⟩
  | succ n =>
      refine ⟨fun _ => ?_, fun h => absurd trivial h⟩
      rw [parseArray_eq string (by omega), container_empty hb hw (by decide)]
      simp [ofJson, ofElements]

theorem readsValue_array {n : ℕ} {t : List UInt8} {xs : List Json} (hxs : IsElements t xs)
    (hread : ∀ m, ReadsElements m t xs) : ReadsValue n (byte '[' :: t ++ [byte ']']) (.array xs) := by
  intro string b k hb _ hdepth
  rw [List.append_assoc, List.singleton_append] at hb
  rw [parseValue_array hb]
  cases n with
  | zero => exact ⟨fun h => h.elim, fun _ => .inl (parseArray_limit string (by omega))⟩
  | succ n =>
      obtain ⟨w, c, t', ht, hw, hc, hc'⟩ := hxs.head
      have hrest : (b.enter.advance 1).rest = t ++ byte ']' :: k := by
        rw [rest_advance, rest_enter, hb]; rfl
      have hlen := hxs.length_le.trans (length_le_content hrest)
      have hloop := hread n (b.enter.content.length + 1) b.enter k hrest (by simp only [enter]; omega)
        (hlen.trans (Nat.le_succ _))
      obtain ⟨hok, hbad⟩ := container_loop (fun items => .mk .array string items)
        (fun b' => parseElements (parseValue (n + 1)) (b'.content.length + 1) b')
        hb ht hw hc hc' (fun b' hb' => hb'.peek.2.1)
        (fun b₁ b₂ h₁ h₂ => by simp only [h₁, parseElements_congr h₂]) hloop
      rw [parseArray_eq string (by omega)]
      refine ⟨fun h => ?_, fun h => .inl (hbad h)⟩
      rw [hok h]
      simp [ofJson]

/-! ## Members -/

theorem member_round {n N : ℕ} {b : ParseBuffer} {w w₁ w₂ v w' k : List UInt8} {cs : List Chr}
    {x : Json} {c : UInt8} (hw : IsWs w) (hcs : ∀ c ∈ cs, c.Valid) (hw₁ : IsWs w₁) (hw₂ : IsWs w₂)
    (hv : IsValue v x) (hread : ReadsValue n v x) (hw' : IsWs w') (hc : 32 < c)
    (hnum : isNumberChar c = false)
    (hb : (b.advance 1).rest = w ++ stringText cs ++ w₁ ++ byte ':' :: w₂ ++ v ++ w' ++ c :: k)
    (hdepth : b.depth + n = nestingLimit) :
    (Paired cs ∧ Accepted n x →
      parseMembers (parseValue (n + 1)) (N + 1) b =
        if c = byte ',' then do
          let (items, b) ← parseMembers (parseValue (n + 1)) N
            (b.advance (1 + (w ++ stringText cs ++ w₁ ++ byte ':' :: w₂ ++ v ++ w').length))
          return (ofJson (some (cstr (decode cs))) x :: items, b)
        else .ok ([ofJson (some (cstr (decode cs))) x],
          b.advance (1 + (w ++ stringText cs ++ w₁ ++ byte ':' :: w₂ ++ v ++ w').length))) ∧
    (¬(Paired cs ∧ Accepted n x) → parseMembers (parseValue (n + 1)) (N + 1) b = .error .rejected ∨
      ∃ items' b', parseMembers (parseValue (n + 1)) (N + 1) b = .ok (items', b') ∧ Stuck b') := by
  have hb₀ : (b.advance 1).rest =
      w ++ (stringText cs ++ (w₁ ++ (byte ':' :: (w₂ ++ (v ++ (w' ++ c :: k)))))) := by rw [hb]; simp
  -- the name
  have hskip₁ := skip_eq hb₀ hw (visible_cons (by decide) _)
  have hb₁ := rest_advance_append hb₀
  have hstring := parseString_text hcs hb₁
  -- the colon
  have hb₂ := rest_advance_append hb₁
  have hskip₃ := skip_eq hb₂ hw₁ (visible_cons (by decide) _)
  have hb₃ := rest_advance_append hb₂
  have hcolon := peek_of_rest hb₃
  -- the value
  have hb₄ : ((((b.advance 1).advance w.length).advance (stringText cs).length).advance w₁.length
      |>.advance 1).rest = w₂ ++ (v ++ (w' ++ c :: k)) := by rw [rest_advance, hb₃]; rfl
  have hskip₅ := skip_eq hb₄ hw₂ (hv.visible _)
  have hb₅ := rest_advance_append hb₄
  have hr := hread (some (cstr (decode cs))) _ _ hb₅ (fun _ => stops_ws hw' hnum) hdepth
  -- what stands behind it
  have hb₆ := rest_advance_append hb₅
  have hskip₇ := skip_eq hb₆ hw' (visible_cons hc k)
  have hpeek := peek_of_rest (rest_advance_append hb₆)
  rw [parseMembers, hskip₁, hstring]
  by_cases hpaired : Paired cs
  · rw [if_pos hpaired]
    simp only [bind, Except.bind, hskip₃, hcolon, ne_eq, not_true_eq_false, ↓reduceIte, hskip₅]
    constructor
    · intro hx
      rw [hr.accepted hx.2]
      simp only [hskip₇, hpeek, Option.some.injEq]
      have hlen : 1 + w.length + (stringText cs).length + w₁.length + 1 + w₂.length +
          v.length + w'.length =
            1 + (w ++ stringText cs ++ w₁ ++ byte ':' :: w₂ ++ v ++ w').length := by
        simp only [List.length_append, List.length_cons]; omega
      simp only [advance_advance, hlen]
      rfl
    · intro hx
      rcases hr.refused fun h => hx ⟨hpaired, h⟩ with hr | ⟨-, item, b', hr, hstuck⟩
      · rw [hr]
        exact .inl rfl
      · rw [hr]
        simp only [hstuck.skip, if_neg hstuck.peek.1]
        exact .inr ⟨_, b', rfl, hstuck⟩
  · rw [if_neg hpaired]
    exact ⟨fun h => absurd h.1 hpaired, fun _ => .inl rfl⟩

def ReadsMembers (n : ℕ) (t : List UInt8) (ms : List (List Chr × Json)) : Prop :=
  ∀ (N : ℕ) (b : ParseBuffer) (k : List UInt8), (b.advance 1).rest = t ++ byte '}' :: k →
    b.depth + n = nestingLimit → ms.length ≤ N →
    ReadsAll (AcceptedMembers n ms) b t (ofMembers ms) (parseMembers (parseValue (n + 1)) N b)

theorem readsMembers_one {n : ℕ} {w w₁ w₂ v w' : List UInt8} {cs : List Chr} {x : Json}
    (hw : IsWs w) (hcs : ∀ c ∈ cs, c.Valid) (hw₁ : IsWs w₁) (hw₂ : IsWs w₂) (hv : IsValue v x)
    (hread : ReadsValue n v x) (hw' : IsWs w') :
    ReadsMembers n (w ++ stringText cs ++ w₁ ++ byte ':' :: w₂ ++ v ++ w') [(cs, x)] := by
  intro N b k hb hdepth hN
  obtain ⟨N, rfl⟩ : ∃ m, N = m + 1 := ⟨N - 1, by simp only [List.length_singleton] at hN; omega⟩
  obtain ⟨hok, hbad⟩ :=
    member_round (N := N) hw hcs hw₁ hw₂ hv hread hw' (by decide) (by decide) hb hdepth
  refine ⟨fun h => ?_, fun h => hbad fun hx => h ⟨hx.1, hx.2, trivial⟩⟩
  rw [hok ⟨h.1, h.2.1⟩, if_neg (by decide)]
  rfl

theorem readsMembers_cons {n : ℕ} {w w₁ w₂ v w' ts : List UInt8} {cs : List Chr} {x : Json}
    {ms : List (List Chr × Json)} (hw : IsWs w) (hcs : ∀ c ∈ cs, c.Valid) (hw₁ : IsWs w₁)
    (hw₂ : IsWs w₂) (hv : IsValue v x) (hread : ReadsValue n v x) (hw' : IsWs w')
    (hms : ReadsMembers n ts ms) :
    ReadsMembers n (w ++ stringText cs ++ w₁ ++ byte ':' :: w₂ ++ v ++ w' ++ byte ',' :: ts)
      ((cs, x) :: ms) := by
  intro N b k hb hdepth hN
  obtain ⟨N, rfl⟩ : ∃ m, N = m + 1 := ⟨N - 1, by simp only [List.length_cons] at hN; omega⟩
  generalize ht : w ++ stringText cs ++ w₁ ++ byte ':' :: w₂ ++ v ++ w' = t at hb
  rw [List.append_assoc t, List.cons_append] at hb
  obtain ⟨hok, hbad⟩ :=
    member_round (N := N) hw hcs hw₁ hw₂ hv hread hw' (by decide) (by decide) (ht ▸ hb) hdepth
  rw [ht] at hok
  have hnext : ((b.advance (1 + t.length)).advance 1).rest = ts ++ byte '}' :: k := by
    rw [← advance_advance, rest_advance, rest_advance, hb]
    simp
  have htail := hms N _ k hnext hdepth (by simpa using hN)
  by_cases hx : Paired cs ∧ Accepted n x
  · rw [hok hx, if_pos rfl]
    refine ⟨fun h => ?_, fun h => ?_⟩
    · rw [htail.accepted h.2.2, advance_advance]
      simp only [bind, Except.bind, pure, Except.pure, ofMembers]
      simp [Nat.add_assoc, Nat.add_comm 1]
    · rcases htail.refused fun hms => h ⟨hx.1, hx.2, hms⟩ with hr | ⟨items, b', hr, hstuck⟩
      · rw [hr]
        exact .inl rfl
      · rw [hr]
        exact .inr ⟨_, b', rfl, hstuck⟩
  · exact ⟨fun h => absurd ⟨h.1, h.2.1⟩ hx, fun _ => hbad hx⟩

theorem Json.IsMembers.length_le {t : List UInt8} {ms : List (List Chr × Json)} (h : IsMembers t ms) :
    ms.length ≤ t.length := by
  cases h with
  | one =>
      simp only [stringText, List.length_append, List.length_cons, List.length_nil]
      omega
  | cons _ _ _ _ _ _ hms =>
      have := hms.length_le
      simp only [List.length_append, List.length_cons]
      omega

theorem readsValue_emptyObject {n : ℕ} {w : List UInt8} (hw : IsWs w) :
    ReadsValue n (byte '{' :: w ++ [byte '}']) (.object []) := by
  intro string b k hb _ hdepth
  rw [List.append_assoc, List.singleton_append] at hb
  rw [parseValue_object hb]
  cases n with
  | zero => exact ⟨fun h => h.elim, fun _ => .inl (parseObject_limit string (by omega))⟩
  | succ n =>
      refine ⟨fun _ => ?_, fun h => absurd trivial h⟩
      rw [parseObject_eq string (by omega), container_empty hb hw (by decide)]
      simp [ofJson, ofMembers]

theorem readsValue_object {n : ℕ} {t : List UInt8} {ms : List (List Chr × Json)} (hms : IsMembers t ms)
    (hread : ∀ m, ReadsMembers m t ms) : ReadsValue n (byte '{' :: t ++ [byte '}']) (.object ms) := by
  intro string b k hb _ hdepth
  rw [List.append_assoc, List.singleton_append] at hb
  rw [parseValue_object hb]
  cases n with
  | zero => exact ⟨fun h => h.elim, fun _ => .inl (parseObject_limit string (by omega))⟩
  | succ n =>
      obtain ⟨w, t', ht, hw⟩ := hms.head
      have hrest : (b.enter.advance 1).rest = t ++ byte '}' :: k := by
        rw [rest_advance, rest_enter, hb]; rfl
      have hlen := hms.length_le.trans (length_le_content hrest)
      have hloop := hread n (b.enter.content.length + 1) b.enter k hrest (by simp only [enter]; omega)
        (hlen.trans (Nat.le_succ _))
      obtain ⟨hok, hbad⟩ := container_loop (fun items => .mk .object string items)
        (fun b' => parseMembers (parseValue (n + 1)) (b'.content.length + 1) b')
        hb ht hw (by decide) (by decide) (fun b' hb' => hb'.peek.2.2)
        (fun b₁ b₂ h₁ h₂ => by simp only [h₁, parseMembers_congr h₂]) hloop
      rw [parseObject_eq string (by omega)]
      refine ⟨fun h => ?_, fun h => .inl (hbad h)⟩
      rw [hok h]
      simp [ofJson]

/-! ## Texts -/

mutual
theorem readsValue {t : List UInt8} {x : Json} (n : ℕ) : IsValue t x → ReadsValue n t x
  | .null => fun _ _ _ hb _ _ => reads_null hb
  | .false => fun _ _ _ hb _ _ => reads_false hb
  | .true => fun _ _ _ hb _ _ => reads_true hb
  | .number ht => fun _ _ _ hb hk _ => reads_number ht hb (hk ⟨_, rfl⟩)
  | .string hcs => fun _ _ _ hb _ _ => reads_string hcs hb
  | .emptyArray hw => readsValue_emptyArray hw
  | .array hxs => readsValue_array hxs fun m => readsElements m hxs
  | .emptyObject hw => readsValue_emptyObject hw
  | .object hms => readsValue_object hms fun m => readsMembers m hms

theorem readsElements {t : List UInt8} {xs : List Json} (n : ℕ) : IsElements t xs → ReadsElements n t xs
  | .one hw hv hw' => readsElements_one hw hv (readsValue n hv) hw'
  | .cons hw hv hw' hxs => readsElements_cons hw hv (readsValue n hv) hw' (readsElements n hxs)

theorem readsMembers {t : List UInt8} {ms : List (List Chr × Json)} (n : ℕ) :
    IsMembers t ms → ReadsMembers n t ms
  | .one hw hcs hw₁ hw₂ hv hw' => readsMembers_one hw hcs hw₁ hw₂ hv (readsValue n hv) hw'
  | .cons hw hcs hw₁ hw₂ hv hw' hms =>
      readsMembers_cons hw hcs hw₁ hw₂ hv (readsValue n hv) hw' (readsMembers n hms)
end

theorem Json.IsWs.zero_notMem {w : List UInt8} (h : IsWs w) : 0 ∉ w := by
  intro h0
  rcases h 0 h0 with h | h | h | h <;> exact absurd h (by decide)

theorem zero_notMem_chr {c : Chr} (h : c.Valid) : 0 ∉ c.text := by
  have hhex : ∀ d : UInt8, isHex d → 0 ≠ d := forall_byte (by decide)
  cases c with
  | plain b =>
      have hb : 0 ≠ b := by
        rintro rfl
        exact absurd h.1 (by decide)
      simpa [Chr.text] using hb
  | escape e =>
      have he : 0 ≠ e := by
        rintro rfl
        exact absurd h (by decide)
      simpa [Chr.text] using he
  | unicode d₁ d₂ d₃ d₄ =>
      obtain ⟨h₁, h₂, h₃, h₄⟩ := h
      simp [Chr.text, hhex _ h₁, hhex _ h₂, hhex _ h₃, hhex _ h₄]

theorem zero_notMem_string {cs : List Chr} (h : ∀ c ∈ cs, c.Valid) : 0 ∉ stringText cs := by
  have hcs : ∀ c ∈ cs, 0 ∉ c.text := fun c hc => zero_notMem_chr (h c hc)
  simpa [stringText, List.mem_flatMap] using hcs

mutual
theorem Json.IsValue.zero_notMem {t : List UInt8} {x : Json} : IsValue t x → 0 ∉ t
  | .null => by decide
  | .false => by decide
  | .true => by decide
  | .number ht => fun h0 => absurd (ht.isNumberChar 0 h0) (by decide)
  | .string hcs => zero_notMem_string hcs
  | .emptyArray hw => by simpa using hw.zero_notMem
  | .array hxs => by simpa using hxs.zero_notMem
  | .emptyObject hw => by simpa using hw.zero_notMem
  | .object hms => by simpa using hms.zero_notMem

theorem Json.IsElements.zero_notMem {t : List UInt8} {xs : List Json} : IsElements t xs → 0 ∉ t
  | .one hw hv hw' => by simp [hw.zero_notMem, hv.zero_notMem, hw'.zero_notMem]
  | .cons hw hv hw' hxs => by simp [hw.zero_notMem, hv.zero_notMem, hw'.zero_notMem, hxs.zero_notMem]

theorem Json.IsMembers.zero_notMem {t : List UInt8} {ms : List (List Chr × Json)} :
    IsMembers t ms → 0 ∉ t
  | .one hw hcs hw₁ hw₂ hv hw' => by
      simp [hw.zero_notMem, zero_notMem_string hcs, hw₁.zero_notMem, hw₂.zero_notMem,
        hv.zero_notMem, hw'.zero_notMem]
  | .cons hw hcs hw₁ hw₂ hv hw' hms => by
      simp [hw.zero_notMem, zero_notMem_string hcs, hw₁.zero_notMem, hw₂.zero_notMem,
        hv.zero_notMem, hw'.zero_notMem, hms.zero_notMem]
end

theorem Json.IsText.zero_notMem {t : List UInt8} {x : Json} (h : IsText t x) : 0 ∉ t := by
  obtain ⟨w, v, w', rfl, hw, hv, hw'⟩ := h
  simp [hw.zero_notMem, hv.zero_notMem, hw'.zero_notMem]

theorem not_bom {w v k : List UInt8} {x : Json} (hw : IsWs w) (hv : IsValue v x) :
    ¬(utf8Bom <+: w ++ (v ++ k)) := by
  intro hbom
  cases w with
  | nil =>
      obtain ⟨c, t, rfl, -, hc, -⟩ := hv.head
      have heq : 0xEF = c := (List.cons_prefix_cons.mp hbom).1
      exact absurd (heq ▸ hc) (by decide)
  | cons c w =>
      have heq : 0xEF = c := (List.cons_prefix_cons.mp hbom).1
      rcases hw c List.mem_cons_self with h | h | h | h <;> exact absurd (heq.trans h) (by decide)

/-- In front of a value blanks are skipped. -/
theorem skip_to_value {w v k : List UInt8} {x : Json} (hw : IsWs w) (hv : IsValue v x) (h0 : 0 ∉ k) :
    bufferSkipWhitespace (skipUtf8Bom ⟨(cstr (w ++ v ++ k)).bytes ++ [0], 0, 0⟩) =
      ⟨w ++ v ++ k ++ [0], w.length, 0⟩ ∧
    (⟨w ++ v ++ k ++ [0], w.length, 0⟩ : ParseBuffer).rest = v ++ (k ++ [0]) := by
  have hbytes : (cstr (w ++ v ++ k)).bytes = w ++ v ++ k :=
    cstr_of_nul_free (by simp [hw.zero_notMem, hv.zero_notMem, h0])
  have hrest : (⟨w ++ v ++ k ++ [0], 0, 0⟩ : ParseBuffer).rest = w ++ (v ++ (k ++ [0])) := by
    simp [rest]
  have hbom : skipUtf8Bom ⟨w ++ v ++ k ++ [0], 0, 0⟩ = ⟨w ++ v ++ k ++ [0], 0, 0⟩ := by
    rw [skipUtf8Bom, if_neg]
    rw [hrest]
    exact fun hb => not_bom hw hv hb.2
  rw [hbytes, hbom, skip_eq hrest hw (hv.visible _)]
  exact ⟨by simp [advance], by simp [rest]⟩

/-- `cJSON_Parse` starts at the value of a text. -/
theorem Json.IsText.start {t : List UInt8} {x : Json} (h : IsText t x) :
    ∃ v k b, IsValue v x ∧ b.rest = v ++ k ∧ Stops isNumberChar k ∧ b.depth = 0 ∧
      cjsonParse (cstr t) =
        match parseValue (nestingLimit + 1) none b with
        | .ok (item, _) => some item
        | .error _ => none := by
  obtain ⟨w, v, w', rfl, hw, hv, hw'⟩ := h
  obtain ⟨hskip, hrest⟩ := skip_to_value hw hv hw'.zero_notMem
  refine ⟨v, w' ++ [0], _, hv, hrest, stops_ws hw' (by decide), rfl, ?_⟩
  rw [← hskip]
  rfl

/-- `cJSON_Parse` on a text of the grammar. -/
theorem cjsonParse_text {t : List UInt8} {x : Json} (h : IsText t x) :
    (Accepted nestingLimit x → cjsonParse (cstr t) = some (ofJson none x)) ∧
    (¬Accepted nestingLimit x → (∀ u, x ≠ .number u) → cjsonParse (cstr t) = none) := by
  obtain ⟨v, k, b, hv, hb, hk, hdepth, hparse⟩ := h.start
  have hr := readsValue nestingLimit hv none b k hb (fun _ => hk) (by rw [hdepth, Nat.zero_add])
  rw [hparse]
  constructor
  · intro hx
    rw [hr.accepted hx]
  · intro hx hnumber
    rcases hr.refused hx with hr | ⟨⟨u, hu⟩, -⟩
    · rw [hr]
    · exact absurd hu (hnumber u)

/-- `cJSON_Parse` makes the same of all texts of a document. -/
theorem cjsonParse_congr {t t' : List UInt8} {x : Json} (h : IsText t x) (h' : IsText t' x) :
    cjsonParse (cstr t) = cjsonParse (cstr t') := by
  by_cases hx : Accepted nestingLimit x
  · rw [(cjsonParse_text h).1 hx, (cjsonParse_text h').1 hx]
  by_cases hnumber : ∀ u, x ≠ .number u
  · rw [(cjsonParse_text h).2 hx hnumber, (cjsonParse_text h').2 hx hnumber]
  -- of a number that is too long the same first characters are read
  obtain ⟨u, rfl⟩ : ∃ u, x = .number u := by simpa using hnumber
  obtain ⟨v, k, b, hv, hb, -, -, hparse⟩ := h.start
  obtain ⟨v', k', b', hv', hb', -, -, hparse'⟩ := h'.start
  cases hv with
  | number hu =>
      cases hv' with
      | number _ =>
          have hlong : 63 < u.length := not_le.mp hx
          rw [hparse, hparse', parseValue_number _ _ hu hb, parseValue_number _ _ hu hb']
          simp only [parseNumber, take_long hu hb hlong, take_long hu hb' hlong]
          by_cases hnone : (strtod (u.take 63)).2.length = (u.take 63).length
          · rw [if_pos hnone, if_pos hnone]
          · rw [if_neg hnone, if_neg hnone]
            rfl

theorem eq_ofJson_of_cjsonParse {t : List UInt8} {x : Json} {item : Item} (h : IsText t x)
    (hx : ∀ u, x ≠ .number u) (hparse : cjsonParse (cstr t) = some item) : item = ofJson none x := by
  by_cases hacc : Accepted nestingLimit x
  · rw [(cjsonParse_text h).1 hacc, Option.some.injEq] at hparse
    exact hparse.symm
  · rw [(cjsonParse_text h).2 hacc hx] at hparse
    cases hparse

end CppJson
