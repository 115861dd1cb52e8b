import CppJson.CJson.Lemmas.Grammar
import CppJson.CJson.Lemmas.Minify

/-!
# What `cJSON_Minify` leaves

It takes the blanks and comments away from between the lexemes of a text. A string that ends with an
escaped backslash is where this goes wrong: the quotation mark behind it is taken for an escaped
one.
-/

namespace CppJson

open Json Minify

/-- `cJSON_Minify` returns and leaves the text without blanks and comments, and does not write
behind the NUL that the text had. -/
theorem minify_in_place {mem : ℕ → UInt8} {text : List UInt8} (h : TextAt mem 0 text) {fuel : ℕ}
    (hfuel : text.length < fuel) :
    ∃ mem', cjsonMinify fuel mem = some mem' ∧ TextAt mem' 0 (minified text) ∧
      ∀ j > text.length, mem' j = mem j := by
  have hstart : Minifies mem text.length ⟨mem, 0, 0⟩ [] text :=
    ⟨rfl, le_rfl, by simp, by simp, h, fun _ _ => rfl, Nat.zero_add _⟩
  obtain ⟨c, hc, htext, hsame⟩ := loop_spec hstart hfuel
  exact ⟨c.mem, by rw [cjsonMinify, hc, Option.map_some], htext, hsame⟩

theorem minify_in_place_blank :
    ∃ mem', cjsonMinify 5 (fun j => ([byte ' ', byte '1', byte ' '][j]?).getD 0) = some mem' ∧
      TextAt mem' 0 (minified [byte ' ', byte '1', byte ' ']) ∧
      ∀ j > 3, mem' j = ([byte ' ', byte '1', byte ' '][j]?).getD 0 :=
  minify_in_place (by simp [TextAt]) (by decide)

/-! ## Strings -/

/-- The last character of a string is not an escaped backslash. -/
def Closes (cs : List Chr) : Prop := cs.getLast? ≠ some (.escape (byte '\\'))

theorem splitString_quote (k : List UInt8) : splitString (byte '"' :: k) = ([byte '"'], k) := by
  rw [splitString_cons, if_pos rfl]

theorem splitString_copy {b : UInt8} {l : List UInt8} (hb : b ≠ byte '"')
    (hl : b = byte '\\' → l.head? ≠ some (byte '"')) :
    splitString (b :: l) = (b :: (splitString l).1, (splitString l).2) := by
  rw [splitString_cons, if_neg hb, if_neg fun h => hl h.1 h.2]

theorem splitString_copies {t l : List UInt8} (ht : ∀ b ∈ t, b ≠ byte '"' ∧ b ≠ byte '\\') :
    splitString (t ++ l) = (t ++ (splitString l).1, (splitString l).2) := by
  induction t with
  | nil => rfl
  | cons b t ih =>
      rw [List.forall_mem_cons] at ht
      rw [List.cons_append, splitString_copy ht.1.1 fun hb => absurd hb ht.1.2, ih ht.2]
      rfl

theorem isHex_ne (c : UInt8) (h : isHex c) : c ≠ byte '"' ∧ c ≠ byte '\\' := by
  constructor
  · rintro rfl
    exact absurd h (by decide)
  · rintro rfl
    exact absurd h (by decide)

theorem head_chars (cs : List Chr) (k : List UInt8) (hcs : ∀ c ∈ cs, c.Valid) (hne : cs ≠ []) :
    (cs.flatMap Chr.text ++ k).head? ≠ some (byte '"') := by
  cases cs with
  | nil => exact absurd rfl hne
  | cons c cs =>
      have hc := hcs c List.mem_cons_self
      cases c with
      | plain b => simpa [Chr.text] using hc.2.1
      | escape e => simp [Chr.text]
      | unicode d₁ d₂ d₃ d₄ => simp [Chr.text]

/-- A string ends for `minify_string` where it ends. -/
theorem splitString_chars {cs : List Chr} (hcs : ∀ c ∈ cs, c.Valid) (hclose : Closes cs)
    (k : List UInt8) :
    splitString (cs.flatMap Chr.text ++ byte '"' :: k) = (cs.flatMap Chr.text ++ [byte '"'], k) := by
  induction cs with
  | nil => exact splitString_quote k
  | cons c cs ih =>
      rw [List.forall_mem_cons] at hcs
      obtain ⟨hc, hcs⟩ := hcs
      have hclose' : Closes cs := by
        cases cs with
        | nil => simp [Closes]
        | cons d cs => simpa [Closes] using hclose
      have ih := ih hcs hclose'
      rw [List.flatMap_cons, List.append_assoc]
      cases c with
      | plain b =>
          rw [Chr.text, splitString_copies (by simpa using hc.2), ih, List.append_assoc]
      | unicode d₁ d₂ d₃ d₄ =>
          obtain ⟨h₁, h₂, h₃, h₄⟩ := hc
          rw [Chr.text, List.cons_append, splitString_copy (by decide) (by simp)]
          have hdigits : ∀ b ∈ [byte 'u', d₁, d₂, d₃, d₄], b ≠ byte '"' ∧ b ≠ byte '\\' := by
            simp only [List.forall_mem_cons]
            exact ⟨by decide, isHex_ne d₁ h₁, isHex_ne d₂ h₂, isHex_ne d₃ h₃, isHex_ne d₄ h₄, by simp⟩
          rw [splitString_copies hdigits, ih]
          simp
      | escape e =>
          rw [Chr.text, List.cons_append, List.cons_append, List.nil_append]
          by_cases hquote : e = byte '"'
          · rw [splitString_cons, if_neg (by decide), if_pos (by simp [hquote]),
              List.tail_cons, ih, hquote]
            rfl
          rw [splitString_copy (by decide) (by simpa using hquote)]
          rw [splitString_copy hquote, ih]
          · rfl
          · intro he
            -- behind an escaped backslash stands another character
            have hne : cs ≠ [] := by
              rintro rfl
              exact hclose (by rw [he]; rfl)
            exact head_chars cs _ hcs hne

/-! ## Texts -/

/-- The text `u` with blanks and comments put in between its bytes, but not into its strings. -/
inductive Spaced : List UInt8 → List UInt8 → Prop where
  | nil : Spaced [] []
  | blank {c t u} : isBlank c → Spaced t u → Spaced (c :: t) u
  | line {body t u} : byte '\n' ∉ body → Spaced t u → Spaced (ascii "//" ++ body ++ byte '\n' :: t) u
  | lines {body t u} : ¬(ascii "*/" <:+: body) → Spaced t u →
      Spaced (ascii "/*" ++ body ++ ascii "*/" ++ t) u
  | string {cs t u} : (∀ c ∈ cs, c.Valid) → Closes cs → Spaced t u →
      Spaced (stringText cs ++ t) (stringText cs ++ u)
  | other {c t u} : ¬isBlank c → c ≠ byte '/' → c ≠ byte '"' → Spaced t u → Spaced (c :: t) (c :: u)

theorem dropLine_body {body t : List UInt8} (h : byte '\n' ∉ body) :
    dropLine (body ++ byte '\n' :: t) = t := by
  induction body with
  | nil => rw [List.nil_append, dropLine, if_pos rfl]
  | cons c body ih =>
      rw [List.mem_cons, not_or] at h
      rw [List.cons_append, dropLine, if_neg (Ne.symm h.1), ih h.2]

theorem dropLines_body {body t : List UInt8} (h : ¬(ascii "*/" <:+: body)) :
    dropLines (body ++ ascii "*/" ++ t) = t := by
  induction body with
  | nil => rfl
  | cons c body ih =>
      have hbody : ¬(ascii "*/" <:+: body) := fun hin => h (hin.trans (List.suffix_cons c body).isInfix)
      rw [List.cons_append, List.cons_append, dropLines, if_neg, ih hbody]
      rintro ⟨hc, hhead⟩
      cases body with
      | nil => simp [ascii] at hhead
      | cons d body =>
          obtain rfl : d = byte '/' := by simpa using hhead
          exact h ⟨[], body, by rw [hc]; rfl⟩

theorem minified_spaced {t u : List UInt8} (h : Spaced t u) : minified t = u := by
  induction h with
  | nil => rw [minified]
  | blank hc _ ih => rw [minified, if_pos hc, ih]
  | @line body t u hbody _ ih =>
      have htext : ascii "//" ++ body ++ byte '\n' :: t =
          byte '/' :: byte '/' :: (body ++ byte '\n' :: t) := by
        simp [ascii]
      rw [htext, minified, if_neg (by decide), if_pos rfl, if_pos List.head?_cons, List.tail_cons,
        dropLine_body hbody, ih]
  | @lines body t u hbody _ ih =>
      have htext : ascii "/*" ++ body ++ ascii "*/" ++ t =
          byte '/' :: byte '*' :: (body ++ ascii "*/" ++ t) := by
        simp [ascii]
      rw [htext, minified, if_neg (by decide), if_pos rfl, if_neg (by simp), if_pos List.head?_cons,
        List.tail_cons, dropLines_body hbody, ih]
  | @string cs t u hcs hclose _ ih =>
      have htext : stringText cs ++ t = byte '"' :: (cs.flatMap Chr.text ++ byte '"' :: t) := by
        simp [stringText]
      rw [htext, minified, if_neg (by decide), if_neg (by decide), if_pos rfl,
        splitString_chars hcs hclose, ih]
      simp [stringText]
  | other hblank hslash hquote _ ih => rw [minified, if_neg hblank, if_neg hslash, if_neg hquote, ih]

mutual
/-- No string of the document ends with an escaped backslash. -/
def AllClose : Json → Prop
  | .null | .bool _ | .number _ => True
  | .string cs => Closes cs
  | .array xs => ElementsClose xs
  | .object ms => MembersClose ms

def ElementsClose : List Json → Prop
  | [] => True
  | x :: xs => AllClose x ∧ ElementsClose xs

def MembersClose : List (List Chr × Json) → Prop
  | [] => True
  | (cs, x) :: ms => Closes cs ∧ AllClose x ∧ MembersClose ms
end

/-- In front of any text `t` becomes `u`. -/
def Shrinks (t u : List UInt8) : Prop := ∀ k l, Spaced k l → Spaced (t ++ k) (u ++ l)

namespace Shrinks

variable {t u t' u' : List UInt8}

theorem append (h : Shrinks t u) (h' : Shrinks t' u') : Shrinks (t ++ t') (u ++ u') := by
  intro k l hk
  rw [List.append_assoc, List.append_assoc]
  exact h _ _ (h' k l hk)

theorem ws {w : List UInt8} (hw : IsWs w) : Shrinks w [] := by
  intro k l hk
  induction w with
  | nil => exact hk
  | cons c w ih =>
      rw [IsWs, List.forall_mem_cons] at hw
      refine .blank ?_ (ih hw.2)
      rcases hw.1 with rfl | rfl | rfl | rfl <;> simp [isBlank]

theorem others {t : List UInt8} (ht : ∀ c ∈ t, ¬isBlank c ∧ c ≠ byte '/' ∧ c ≠ byte '"') :
    Shrinks t t := by
  intro k l hk
  induction t with
  | nil => exact hk
  | cons c t ih =>
      rw [List.forall_mem_cons] at ht
      exact .other ht.1.1 ht.1.2.1 ht.1.2.2 (ih ht.2)

theorem string {cs : List Chr} (hcs : ∀ c ∈ cs, c.Valid) (hclose : Closes cs) :
    Shrinks (stringText cs) (stringText cs) := fun _ _ hk => .string hcs hclose hk

end Shrinks

theorem shrinks_number {t : List UInt8} (ht : IsNumber t) : Shrinks t t := by
  refine .others fun c hc => ?_
  have hnumber := ht.isNumberChar c hc
  refine ⟨?_, ?_, ?_⟩
  · rintro (rfl | rfl | rfl | rfl) <;> exact absurd hnumber (by decide)
  · rintro rfl
    exact absurd hnumber (by decide)
  · rintro rfl
    exact absurd hnumber (by decide)

mutual
/-- A value becomes a text of the same value. -/
theorem exists_value {t : List UInt8} {x : Json} :
    IsValue t x → AllClose x → ∃ u, Shrinks t u ∧ IsValue u x
  | .null, _ => ⟨_, .others (by decide +kernel), .null⟩
  | .false, _ => ⟨_, .others (by decide +kernel), .false⟩
  | .true, _ => ⟨_, .others (by decide +kernel), .true⟩
  | .number ht, _ => ⟨_, shrinks_number ht, .number ht⟩
  | .string hcs, hx => ⟨_, .string hcs hx, .string hcs⟩
  | .emptyArray hw, _ =>
      ⟨[byte '['] ++ [] ++ [byte ']'],
        ((Shrinks.others (t := [byte '[']) (by decide +kernel)).append (.ws hw)).append
        (.others (by decide +kernel)), .emptyArray isWs_nil⟩
  | .array hxs, hx => by
      obtain ⟨u, hu, hxs⟩ := exists_elements hxs hx
      exact ⟨[byte '['] ++ u ++ [byte ']'],
        ((Shrinks.others (t := [byte '[']) (by decide +kernel)).append hu).append
        (.others (by decide +kernel)), .array hxs⟩
  | .emptyObject hw, _ =>
      ⟨[byte '{'] ++ [] ++ [byte '}'],
        ((Shrinks.others (t := [byte '{']) (by decide +kernel)).append (.ws hw)).append
        (.others (by decide +kernel)), .emptyObject isWs_nil⟩
  | .object hms, hx => by
      obtain ⟨u, hu, hms⟩ := exists_members hms hx
      exact ⟨[byte '{'] ++ u ++ [byte '}'],
        ((Shrinks.others (t := [byte '{']) (by decide +kernel)).append hu).append
        (.others (by decide +kernel)), .object hms⟩

theorem exists_elements {t : List UInt8} {xs : List Json} : IsElements t xs → ElementsClose xs →
    ∃ u, Shrinks t u ∧ IsElements u xs
  | .one hw hv hw', ⟨hx, _⟩ => by
      obtain ⟨u, hu, hv⟩ := exists_value hv hx
      exact ⟨[] ++ u ++ [], ((Shrinks.ws hw).append hu).append (.ws hw'), .one isWs_nil hv isWs_nil⟩
  | .cons hw hv hw' hxs, ⟨hx, hclose⟩ => by
      obtain ⟨u, hu, hv⟩ := exists_value hv hx
      obtain ⟨us, hus, hxs⟩ := exists_elements hxs hclose
      exact ⟨[] ++ u ++ [] ++ ([byte ','] ++ us), (((Shrinks.ws hw).append hu).append (.ws hw')).append
        ((Shrinks.others (t := [byte ',']) (by decide +kernel)).append hus),
        .cons isWs_nil hv isWs_nil hxs⟩

theorem exists_members {t : List UInt8} {ms : List (List Chr × Json)} :
    IsMembers t ms → MembersClose ms →
    ∃ u, Shrinks t u ∧ IsMembers u ms
  | .one hw hcs hw₁ hw₂ hv hw', ⟨hname, hx, _⟩ => by
      obtain ⟨u, hu, hv⟩ := exists_value hv hx
      have hhead := ((Shrinks.ws hw).append (.string hcs hname)).append (.ws hw₁)
      have hbody :=
        (hhead.append ((Shrinks.others (t := [byte ':']) (by decide +kernel)).append
          (.ws hw₂))).append hu
      exact ⟨_, hbody.append (.ws hw'), .one isWs_nil hcs isWs_nil isWs_nil hv isWs_nil⟩
  | .cons hw hcs hw₁ hw₂ hv hw' hms, ⟨hname, hx, hclose⟩ => by
      obtain ⟨u, hu, hv⟩ := exists_value hv hx
      obtain ⟨us, hus, hms⟩ := exists_members hms hclose
      have hhead := ((Shrinks.ws hw).append (.string hcs hname)).append (.ws hw₁)
      have hbody :=
        (hhead.append ((Shrinks.others (t := [byte ':']) (by decide +kernel)).append
          (.ws hw₂))).append hu
      exact ⟨_, (hbody.append (.ws hw')).append
        ((Shrinks.others (t := [byte ',']) (by decide +kernel)).append hus),
        .cons isWs_nil hcs isWs_nil isWs_nil hv isWs_nil hms⟩
end

/-- A text whose strings all end where `minify_string` ends them is left as a text of the same
document. -/
theorem minify_keeps_document {t : List UInt8} {x : Json} (h : IsText t x) (hclose : AllClose x) :
    IsValue (minified t) x ∧ cjsonParse (cstr (minified t)) = cjsonParse (cstr t) := by
  obtain ⟨w, v, w', rfl, hw, hv, hw'⟩ := id h
  obtain ⟨u, hu, hvalue⟩ := exists_value hv hclose
  have hspaced := (((Shrinks.ws hw).append hu).append (.ws hw')) [] [] .nil
  simp only [List.nil_append, List.append_nil] at hspaced
  rw [minified_spaced hspaced]
  exact ⟨hvalue, cjsonParse_congr ⟨[], u, [], by simp, isWs_nil, hvalue, isWs_nil⟩ h⟩

/-- `[1, "\n"]` -/
def escapedText : List UInt8 := ascii "[1, " ++ stringText [.escape (byte 'n')] ++ ascii "]"

theorem isText_escapedText :
    IsText escapedText (.array [.number [byte '1'], .string [.escape (byte 'n')]]) := by
  have hone : IsNumber [byte '1'] :=
    ⟨[], [byte '1'], [], [], rfl, .inl rfl, .inr ⟨_, [], rfl, by decide, by simp [isDigit]⟩,
      .inl rfl, .inl rfl⟩
  have hchar : ∀ c ∈ [Chr.escape (byte 'n')], c.Valid := by decide
  have hblank : IsWs [byte ' '] := by simp [IsWs]
  have helements :=
    IsElements.cons isWs_nil (.number hone) isWs_nil (.one hblank (.string hchar) isWs_nil)
  exact ⟨[], escapedText, [], by simp, isWs_nil, .array helements, isWs_nil⟩

theorem minify_keeps_document_escapedText :
    IsValue (minified escapedText) (.array [.number [byte '1'], .string [.escape (byte 'n')]]) ∧
      cjsonParse (cstr (minified escapedText)) = cjsonParse (cstr escapedText) :=
  minify_keeps_document isText_escapedText ⟨trivial, by simp [AllClose, Closes], trivial⟩

/-- Behind an escaped backslash at the end of a string, strings and what is between them change
places. -/
example : minified (ascii "[\"\\\\\", \"a b\"]") = ascii "[\"\\\\\", \"ab\"]" := by
  simp [minified, splitString, ascii, isBlank]

/-- A text with comments, which `cJSON_Parse` would not accept, is left as the text without them. -/
theorem minify_removes_comments {t u : List UInt8} {x : Json} (h : Spaced t u) (hu : IsText u x)
    (hx : Accepted nestingLimit x) :
    minified t = u ∧ cjsonParse (cstr (minified t)) = some (ofJson none x) := by
  rw [minified_spaced h, (cjsonParse_text hu).1 hx]
  exact ⟨rfl, rfl⟩

theorem minify_removes_comments_null :
    minified (ascii "//x\n" ++ ascii "null") = ascii "null" ∧
      cjsonParse (cstr (minified (ascii "//x\n" ++ ascii "null"))) = some (ofJson none .null) := by
  have hnull : Spaced (ascii "null") (ascii "null") := by
    simpa using Shrinks.others (t := ascii "null") (by decide +kernel) [] [] .nil
  have hline : Spaced (ascii "//" ++ [byte 'x'] ++ byte '\n' :: ascii "null") (ascii "null") :=
    .line (by decide) hnull
  exact minify_removes_comments hline ⟨[], ascii "null", [], rfl, isWs_nil, .null, isWs_nil⟩ trivial

end CppJson
