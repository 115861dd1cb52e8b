import CppJson.CJson.Lemmas.RoundTrip

/-!
# Where a text ends

`cJSON_ParseWithOpts` tells its caller where the value that it read ends, and looks behind it only
when it is asked to.
-/

namespace CppJson

open Json ParseBuffer

/-- At the end of the buffer `buffer_skip_whitespace` finds the NUL exactly when nothing visible is
in front of it. -/
theorem skip_rest {b : ParseBuffer} {k : List UInt8} (hb : b.rest = k ++ [0]) (h0 : 0 ∉ k) :
    if k.all (· ≤ 32) then
      (bufferSkipWhitespace b).peek = some 0 ∧ (bufferSkipWhitespace b).offset = b.offset + k.length
    else (bufferSkipWhitespace b).peek ≠ some 0 := by
  have hne : b.rest ≠ [] := by simp [hb]
  have hlen : b.content.length = b.offset + k.length + 1 := by
    have hlt := offset_lt_of_peek (b := b) (by simpa [peek] using hne)
    have := congrArg List.length hb
    simp only [rest, List.length_drop, List.length_append, List.length_singleton] at this
    omega
  rw [bufferSkipWhitespace, if_neg hne, hb]
  split
  · rename_i hk
    have hall : (k ++ [0]).takeWhile (fun c : UInt8 => decide (c ≤ 32)) = k ++ [0] := by
      rw [List.takeWhile_eq_self_iff]
      intro c hc
      rcases List.mem_append.mp hc with hc | hc
      · exact List.all_eq_true.mp hk c hc
      · obtain rfl := List.mem_singleton.mp hc
        rfl
    have hoffset :
        (b.advance (k ++ [0]).length).offset = (b.advance (k ++ [0]).length).content.length := by
      simp [advance, hlen, Nat.add_assoc]
    have hback : (b.advance (k ++ [0]).length).stepBack = b.advance k.length := by
      simp [advance, stepBack]
    rw [hall]
    dsimp only
    rw [if_pos hoffset, hback]
    exact ⟨by rw [peek, rest_advance, hb, List.drop_left]; rfl, rfl⟩
  · rename_i hk
    -- the first visible byte is not NUL
    obtain ⟨c, hc, hvisible⟩ : ∃ c ∈ k, decide (c ≤ 32) = false := by simpa using hk
    obtain ⟨w, d, k', rfl, hw, hd⟩ := exists_first (p := fun c : UInt8 => decide (c ≤ 32)) hc hvisible
    have hd0 : d ≠ 0 := fun heq => h0 (by simp [heq])
    rw [List.append_assoc, List.cons_append] at hb ⊢
    have hrest : (b.advance w.length).rest = d :: (k' ++ [0]) := by
      rw [rest_advance, hb, List.drop_left]
    rw [takeWhile_append_stop hw (stops_cons.mpr hd)]
    dsimp only
    rw [if_neg (offset_lt_of_rest hrest).ne, peek_of_rest hrest]
    simpa using hd0

variable {w v k : List UInt8} {x : Json}

/-- What `parse_value` makes of a text that starts with a value, whatever follows: only a number may
go on. -/
theorem parse_start (hw : IsWs w) (hv : IsValue v x) (hx : Accepted nestingLimit x)
    (hk : (∃ u, x = .number u) → Stops isNumberChar k) (h0 : 0 ∉ k) :
    parseValue (nestingLimit + 1) none
        (bufferSkipWhitespace (skipUtf8Bom ⟨(cstr (w ++ v ++ k)).bytes ++ [0], 0, 0⟩)) =
      .ok (ofJson none x, ⟨w ++ v ++ k ++ [0], (w ++ v).length, 0⟩) := by
  obtain ⟨hskip, hrest⟩ := skip_to_value hw hv h0
  have hstops : (∃ u, x = .number u) → Stops isNumberChar (k ++ [0]) := fun hnumber => by
    cases k with
    | nil => exact stops_cons.mpr rfl
    | cons c k => exact hk hnumber
  have hr := readsValue nestingLimit hv none _ _ hrest hstops (Nat.zero_add _)
  rw [hskip, hr.accepted hx]
  simp [advance]

theorem parseWithOpts_front (hw : IsWs w) (hv : IsValue v x) (hx : Accepted nestingLimit x)
    (hk : (∃ u, x = .number u) → Stops isNumberChar k) (h0 : 0 ∉ k) :
    cjsonParseWithOpts (cstr (w ++ v ++ k)) false = some (ofJson none x, (w ++ v).length) := by
  have hne : (cstr (w ++ v ++ k)).bytes ++ [0] ≠ [] := by simp
  simp only [cjsonParseWithOpts, cjsonParseWithLengthOpts, parse_start hw hv hx hk h0, if_neg hne]
  rfl

/-- `return_parse_end` is set to the end of the value that was read, whatever follows it; only a
number must not be followed by a character that continues it. When a NUL is required, what follows
may be anything up to the space character, and the end is the NUL. -/
theorem parse_end_of_value (hw : IsWs w) (hv : IsValue v x) (hx : Accepted nestingLimit x)
    (hk : (∃ u, x = .number u) → Stops isNumberChar k) (h0 : 0 ∉ k) :
    cjsonParseWithOpts (cstr (w ++ v ++ k)) false = some (ofJson none x, (w ++ v).length) ∧
    cjsonParseWithOpts (cstr (w ++ v ++ k)) true =
      if k.all (· ≤ 32) then some (ofJson none x, (w ++ v ++ k).length) else none := by
  have hstart := parse_start hw hv hx hk h0
  have hne : (cstr (w ++ v ++ k)).bytes ++ [0] ≠ [] := by simp
  refine ⟨parseWithOpts_front hw hv hx hk h0, ?_⟩
  simp only [cjsonParseWithOpts, cjsonParseWithLengthOpts, hstart, if_neg hne]
  have hrest : (⟨w ++ v ++ k ++ [0], (w ++ v).length, 0⟩ : ParseBuffer).rest = k ++ [0] := by
    rw [rest, List.append_assoc, List.drop_left]
  have hskip := skip_rest hrest h0
  simp only [↓reduceIte]
  split at hskip
  · rename_i hall
    rw [if_pos hskip.1, if_pos hall, hskip.2]
    simp [Except.toOption, Nat.add_assoc]
  · rename_i hall
    rw [if_neg hskip, if_neg hall]
    rfl

/-- The digit behind `null` is not part of it. -/
theorem parse_end_of_value_null :
    cjsonParseWithOpts (cstr ([byte ' '] ++ ascii "null" ++ ascii "1")) false =
      some (ofJson none .null, ([byte ' '] ++ ascii "null").length) ∧
    cjsonParseWithOpts (cstr ([byte ' '] ++ ascii "null" ++ ascii "1")) true =
      if (ascii "1").all (· ≤ 32) then
        some (ofJson none .null, ([byte ' '] ++ ascii "null" ++ ascii "1").length)
      else none :=
  parse_end_of_value (by simp [IsWs]) .null trivial (by rintro ⟨u, ⟨⟩⟩) (by decide)

/-- Prints that stand one behind the other are read back one by one. -/
theorem print_is_read_back_in_front {item : Item} (hitem : item.WellFormed nestingLimit)
    (hname : item.string = none) (format : Bool) (hk : Stops isNumberChar k) (h0 : 0 ∉ k) :
    cjsonParseWithOpts (cstr (render format 0 item ++ k)) false =
      some (reread item, (render format 0 item).length) := by
  have hv := isValue_render format 0 item hitem
  have h := parseWithOpts_front isWs_nil hv (accepted_toJson item hitem) (fun _ => hk) h0
  rwa [List.nil_append, ← hname] at h

/-- `null` in front of another value. -/
theorem print_is_read_back_in_front_null :
    cjsonParseWithOpts (cstr (render true 0 (.mk .null none []) ++ ascii ",1")) false =
      some (reread (.mk .null none []), (render true 0 (.mk .null none [])).length) := by
  have hnull : (Item.mk .null none []).WellFormed nestingLimit := .scalar trivial
  exact print_is_read_back_in_front hnull rfl true (stops_cons.mpr rfl) (by decide)

end CppJson
