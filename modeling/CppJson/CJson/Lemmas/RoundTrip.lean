import CppJson.CJson.Lemmas.Grammar
import CppJson.CJson.Lemmas.Print

/-!
# Printing and parsing again

A well-formed tree is printed as a text of its syntax tree (`isValue_render`), and `cJSON_Parse`
reads that text as the same tree, but for numbers that are no integers (`cjsonParse_print`).
-/

namespace CppJson

open Json

/-! ## The printed text -/

theorem Item.WellFormed.printable {n : ℕ} {item : Item} (h : item.WellFormed n) : item.Printable := by
  induction h with
  | scalar hkind => exact .mk (by rintro rfl; exact hkind) (by simp)
  | array _ _ ih => exact .mk (by simp) ih
  | object _ _ ih => exact .mk (by simp) ih

theorem isWs_space (format : Bool) {w : List UInt8} (h : IsWs w) : IsWs (space format w) := by
  cases format
  · exact isWs_nil
  · exact h

theorem isWs_tabs (format : Bool) (d : ℕ) : IsWs (tabs format d) :=
  isWs_space format fun c hc => .inr (.inl (by rw [List.eq_of_mem_replicate hc]; decide))

theorem Json.IsElements.space_append {w t : List UInt8} {xs : List Json} (hw : IsWs w)
    (h : IsElements t xs) :
    IsElements (w ++ t) xs := by
  cases h with
  | one hw₀ hv hw' => simpa [List.append_assoc] using IsElements.one (hw.append hw₀) hv hw'
  | cons hw₀ hv hw' hxs => simpa [List.append_assoc] using IsElements.cons (hw.append hw₀) hv hw' hxs

theorem Json.IsMembers.space_append {w t : List UInt8} {ms : List (List Chr × Json)} (hw : IsWs w)
    (h : IsMembers t ms) : IsMembers (w ++ t) ms := by
  cases h with
  | one hw₀ hcs hw₁ hw₂ hv hw' =>
      simpa [List.append_assoc] using IsMembers.one (hw.append hw₀) hcs hw₁ hw₂ hv hw'
  | cons hw₀ hcs hw₁ hw₂ hv hw' hms =>
      simpa [List.append_assoc] using IsMembers.cons (hw.append hw₀) hcs hw₁ hw₂ hv hw' hms

theorem Json.IsMembers.append_space {w t : List UInt8} {ms : List (List Chr × Json)} (hw : IsWs w)
    (h : IsMembers t ms) : IsMembers (t ++ w) ms := by
  cases h with
  | one hw₀ hcs hw₁ hw₂ hv hw' =>
      simpa [List.append_assoc] using IsMembers.one hw₀ hcs hw₁ hw₂ hv (hw'.append hw)
  | cons hw₀ hcs hw₁ hw₂ hv hw' hms =>
      simpa [List.append_assoc] using IsMembers.cons hw₀ hcs hw₁ hw₂ hv hw' (hms.append_space hw)

theorem isValue_number (n : Number) : IsValue (numberText n) (numberJson n) := by
  rcases numberText_cases n with ⟨ht, neg, hd⟩ | ⟨hn, -, x, hd⟩
  · simp only [numberJson, hd, ht]
    exact .null
  · simp only [numberJson, hd]
    exact .number hn

mutual
/-- The printed text is a text of the syntax tree. -/
theorem isValue_render (format : Bool) (d : ℕ) {n : ℕ} :
    (item : Item) → item.WellFormed n → IsValue (render format d item) (toJson item)
  | .mk kind _ child, h => by
      cases h with
      | scalar hkind =>
          cases kind with
          | null => exact .null
          | false => exact .false
          | true => exact .true
          | number num => exact isValue_number num
          | string s => exact .string (valid_chars _)
          | invalid => exact hkind.elim
          | array => exact hkind.elim
          | object => exact hkind.elim
          | raw s => exact hkind.elim
      | array _ hchild =>
          cases child with
          | nil => exact .emptyArray isWs_nil
          | cons c cs => exact .array (isElements_render format (d + 1) c cs hchild)
      | object _ hchild =>
          have hnl : IsWs (space format [byte '\n']) := isWs_space format (by simp [IsWs])
          cases child with
          | nil =>
              have h := IsValue.emptyObject (hnl.append (isWs_tabs format d))
              simpa [render, renderMembers, toJson, toMembers] using h
          | cons c cs =>
              have h := IsValue.object
                ((isMembers_render format (d + 1) c cs hchild).space_append hnl |>.append_space
                (isWs_tabs format d))
              simpa [render, toJson, List.append_assoc] using h

theorem isElements_render (format : Bool) (d : ℕ) {n : ℕ} :
    (item : Item) → (items : List Item) → (∀ c ∈ item :: items, c.WellFormed n) →
    IsElements (renderElements format d (item :: items)) (toElements (item :: items))
  | item, [], h => by
      have hv := isValue_render format d item (h item List.mem_cons_self)
      simpa [renderElements, elementComma, toElements] using IsElements.one isWs_nil hv isWs_nil
  | item, c :: cs, h => by
      have hv := isValue_render format d item (h item List.mem_cons_self)
      have hcs := isElements_render format d c cs fun x hx => h x (List.mem_cons_of_mem _ hx)
      have hspace : IsWs (space format [byte ' ']) := isWs_space format (by simp [IsWs])
      have h := IsElements.cons isWs_nil hv isWs_nil (hcs.space_append hspace)
      rw [renderElements, toElements]
      simpa [elementComma, List.append_assoc] using h

theorem isMembers_render (format : Bool) (d : ℕ) {n : ℕ} :
    (item : Item) → (items : List Item) → (∀ c ∈ item :: items, c.WellFormed n) →
    IsMembers (renderMembers format d (item :: items)) (toMembers (item :: items))
  | item, [], h => by
      have hv := isValue_render format d item (h item List.mem_cons_self)
      have htab : IsWs (space format [byte '\t']) := isWs_space format (by simp [IsWs])
      have hnl : IsWs (space format [byte '\n']) := isWs_space format (by simp [IsWs])
      have h := IsMembers.one (isWs_tabs format d) (valid_chars (memberName item))
        isWs_nil htab hv hnl
      simpa [renderMembers, memberComma, toMembers, List.append_assoc] using h
  | item, c :: cs, h => by
      have hv := isValue_render format d item (h item List.mem_cons_self)
      have hcs := isMembers_render format d c cs fun x hx => h x (List.mem_cons_of_mem _ hx)
      have htab : IsWs (space format [byte '\t']) := isWs_space format (by simp [IsWs])
      have hnl : IsWs (space format [byte '\n']) := isWs_space format (by simp [IsWs])
      have h := IsMembers.cons (isWs_tabs format d) (valid_chars (memberName item))
        isWs_nil htab hv isWs_nil (hcs.space_append hnl)
      rw [renderMembers, toMembers]
      simpa [memberComma, List.append_assoc] using h
end

/-! ## The tree read back -/

mutual
theorem accepted_toJson {n : ℕ} : (item : Item) → item.WellFormed n → Accepted n (toJson item)
  | .mk kind _ child, h => by
      cases h with
      | scalar hkind =>
          cases kind with
          | null => trivial
          | false => trivial
          | true => trivial
          | number num =>
              rcases numberText_cases num with ⟨-, neg, hd⟩ | ⟨-, hlen, x, hd⟩
              · simp only [toJson, numberJson, hd, Accepted]
              · simp only [toJson, numberJson, hd, Accepted]; omega
          | string s => exact paired_chars s.bytes
          | invalid => exact hkind.elim
          | array => exact hkind.elim
          | object => exact hkind.elim
          | raw s => exact hkind.elim
      | array _ hchild => exact accepted_toElements child hchild
      | object _ hchild => exact accepted_toMembers child hchild

theorem accepted_toElements {n : ℕ} :
    (items : List Item) → (∀ c ∈ items, c.WellFormed n) → AcceptedElements n (toElements items)
  | [], _ => trivial
  | item :: items, h =>
      ⟨accepted_toJson item (h item List.mem_cons_self),
        accepted_toElements items fun c hc => h c (List.mem_cons_of_mem _ hc)⟩

theorem accepted_toMembers {n : ℕ} :
    (items : List Item) → (∀ c ∈ items, c.WellFormed n) → AcceptedMembers n (toMembers items)
  | [], _ => trivial
  | item :: items, h =>
      ⟨paired_chars _, accepted_toJson item (h item List.mem_cons_self),
        accepted_toMembers items fun c hc => h c (List.mem_cons_of_mem _ hc)⟩
end

/-- The tree that `cJSON_Parse` gives for the print of a tree. -/
def reread (item : Item) : Item := ofJson item.string (toJson item)

@[simp] theorem string_ofJson (string : Option CStr) (x : Json) :
    (ofJson string x).string = string := by
  cases x with
  | bool b => cases b <;> rfl
  | _ => rfl

@[simp] theorem string_reread (item : Item) : (reread item).string = item.string := string_ofJson _ _

theorem ofElements_toElements {items : List Item} (h : ∀ c ∈ items, c.string = none) :
    ofElements (toElements items) = items.map reread := by
  induction items with
  | nil => rfl
  | cons item items ih =>
      rw [toElements, ofElements, List.map_cons, ih fun c hc => h c (List.mem_cons_of_mem _ hc), reread,
        h item List.mem_cons_self]

theorem ofMembers_toMembers {items : List Item} (h : ∀ c ∈ items, c.string ≠ none) :
    ofMembers (toMembers items) = items.map reread := by
  induction items with
  | nil => rfl
  | cons item items ih =>
      obtain ⟨s, hs⟩ := Option.ne_none_iff_exists'.mp (h item List.mem_cons_self)
      have hname : cstr (decode (chars (memberName item))) = s := by
        rw [decode_chars]; simp [memberName, hs]
      rw [toMembers, ofMembers, List.map_cons, ih fun c hc => h c (List.mem_cons_of_mem _ hc),
        reread, hname, hs]

theorem reread_array {string : Option CStr} {child : List Item} (h : ∀ c ∈ child, c.string = none) :
    reread (.mk .array string child) = .mk .array string (child.map reread) := by
  simp [reread, toJson, ofJson, ofElements_toElements h]

theorem reread_object {string : Option CStr} {child : List Item} (h : ∀ c ∈ child, c.string ≠ none) :
    reread (.mk .object string child) = .mk .object string (child.map reread) := by
  simp [reread, toJson, ofJson, ofMembers_toMembers h]

theorem reread_string (s : CStr) (string : Option CStr) :
    reread (.mk (.string s) string []) = .mk (.string s) string [] := by
  simp [reread, toJson, ofJson, decode_chars]

theorem reread_number {n : Number} (h : n.IsInt) (string : Option CStr) :
    reread (.mk (.number n) string []) = .mk (.number n) string [] := by
  obtain ⟨x, hd, z, hx, h₁, h₂⟩ := h
  have hint : n.valueint = z := by rw [n.saturated, hd, saturate_intCast hx h₁ h₂]
  have htext : numberText n = sprintfD z := by simp [numberText, hd, hint, hx]
  have hz : |z| < 2 ^ 53 := by
    simp only [intMin, intMax] at h₁ h₂
    rw [abs_lt]; omega
  obtain ⟨y, hy, hyz⟩ := roundDouble_intCast hz
  have hxy : y = x := by
    cases x; cases y
    simp only at hx hyz
    subst hx
    simp [hyz]
  have hn : Number.ofDouble (.finite x) = n := by rw [← hd, ← n.eq_ofDouble]
  simp only [reread, toJson, numberJson, hd, ofJson, htext, strtod_sprintfD, hy, hxy, hn,
    Item.string_mk]

/-- A tree without fractions and large numbers is read back as it was. -/
theorem reread_of_integral {n : ℕ} {item : Item} (h : item.WellFormed n) :
    item.Integral → reread item = item := by
  induction h with
  | @scalar n kind string hkind =>
      rintro ⟨hint, -⟩
      cases kind with
      | null => rfl
      | false => rfl
      | true => rfl
      | number num => exact reread_number (hint num rfl) _
      | string s => exact reread_string s _
      | invalid => exact hkind.elim
      | array => exact hkind.elim
      | object => exact hkind.elim
      | raw s => exact hkind.elim
  | @array n string child hname _ ih =>
      rintro ⟨-, hint⟩
      rw [reread_array hname, List.map_congr_left (g := id) fun c hc => ih c hc (hint c hc),
        List.map_id]
  | @object n string child hname _ ih =>
      rintro ⟨-, hint⟩
      rw [reread_object hname, List.map_congr_left (g := id) fun c hc => ih c hc (hint c hc),
        List.map_id]

/-! ## The text read and printed -/

mutual
theorem kept_toJson (string : Option CStr) : (x : Json) → Kept x (toJson (ofJson string x))
  | .null => .null
  | .bool false => .bool
  | .bool true => .bool
  | .number t => by
      simp only [ofJson, toJson, numberJson]
      cases (Number.ofDouble (strtod t).1).valuedouble with
      | infinite neg => exact .infinite
      | finite x => exact .number
  | .string cs => .string (decode_chars _)
  | .array xs => .array (keptElements_toElements xs)
  | .object ms => .object (keptMembers_toMembers ms)

theorem keptElements_toElements : (xs : List Json) → KeptElements xs (toElements (ofElements xs))
  | [] => .nil
  | x :: xs => .cons (kept_toJson none x) (keptElements_toElements xs)

theorem keptMembers_toMembers :
    (ms : List (List Chr × Json)) → KeptMembers ms (toMembers (ofMembers ms))
  | [] => .nil
  | (name, x) :: ms => by
      refine .cons ?_ (kept_toJson (some (cstr (decode name))) x) (keptMembers_toMembers ms)
      rw [decode_chars, memberName, string_ofJson]
end

/-- What `cJSON_Print` writes, `cJSON_Parse` reads. -/
theorem cjsonParse_print {item : Item} {format : Bool} {s : CStr} (h : item.WellFormed nestingLimit)
    (hname : item.string = none) (hprint : print item format = .ok s) :
    IsText s.bytes (toJson item) ∧ cjsonParse s = some (reread item) := by
  obtain ⟨-, hs⟩ := (print_eq_ok h.printable format s).mp hprint
  have htext : IsText s.bytes (toJson item) :=
    ⟨[], s.bytes, [], by simp, isWs_nil, hs ▸ isValue_render format 0 item h, isWs_nil⟩
  refine ⟨htext, ?_⟩
  have hparse := (cjsonParse_text htext).1 (accepted_toJson item h)
  rwa [cstr_bytes, ← hname] at hparse

end CppJson
