import CppJson.CJson.Lemmas.Print

/-!
# Printing into a buffer

The text of a tree does not depend on the buffer that it is printed into; only the room for it does.
-/

namespace CppJson

variable {item : Item}

theorem printInto_eq (h : item.Printable) {m : Medium} {format : Bool} {length : ℕ}
    (hstart : Settled m format 0 [] ⟨[], length, 0, 0, m.noalloc, format⟩) :
    printInto (some item) length m.noalloc format =
      if (render format 0 item).length + 2 ≤ m.cap then some (render format 0 item) else none := by
  have hprint := puts_printValue m format 0 item h [] _ hstart
  simp only [List.length_nil, Nat.zero_add, List.nil_append, settle, bind, Except.bind, pure,
    Except.pure] at hprint
  simp only [printInto, Int.toNat_natCast, if_neg (not_lt.mpr (Int.natCast_nonneg length))]
  split_ifs at hprint ⊢ with hfit
  · obtain ⟨p', heq, hp'⟩ := hprint
    cases hrun : printValue item ⟨[], length, 0, 0, m.noalloc, format⟩ with
    | error why =>
        rw [hrun] at heq
        cases heq
    | ok p =>
        rw [hrun] at heq
        cases heq
        exact congrArg some hp'.buffer
  · cases hrun : printValue item ⟨[], length, 0, 0, m.noalloc, format⟩ with
    | error why => rfl
    | ok p =>
        rw [hrun] at hprint
        cases hprint

/-- A buffer without a byte is too small for every tree. -/
theorem printValue_of_empty (item : Item) (format : Bool) :
    ∃ why, printValue item ⟨[], 0, 0, 0, true, format⟩ = .error why := by
  have hensure : ∀ needed, ensure ⟨[], 0, 0, 0, true, format⟩ needed = .error .bufferRefused := by
    intro needed
    rw [ensure, if_neg (by simp)]
    split
    · rfl
    · simp
  obtain ⟨kind, name, child⟩ := item
  cases kind with
  | number n =>
      rw [printValue, printNumber]
      split
      · exact ⟨_, rfl⟩
      · exact ⟨_, by rw [hensure]; rfl⟩
  | invalid => exact ⟨_, rfl⟩
  | string s => exact ⟨_, by rw [printValue, printStringPtr, hensure]; rfl⟩
  | array => exact ⟨_, by rw [printValue, printArray, hensure]; rfl⟩
  | object => exact ⟨_, by rw [printValue, printObject, hensure]; rfl⟩
  | _ => exact ⟨_, by rw [printValue, printLiteral, hensure]; rfl⟩

/-- `cJSON_PrintPreallocated` needs two bytes more than the text has, one of them for the NUL. If
they are there it leaves the text that `cJSON_Print` gives, and otherwise it returns false. -/
theorem print_preallocated (h : item.Printable) {length : ℤ} (hlength : length ≤ intMax)
    (format : Bool) :
    cjsonPrintPreallocated (some item) length format =
      if (render format 0 item).length + 2 ≤ length then some (render format 0 item) else none := by
  rcases lt_trichotomy length 0 with hneg | rfl | hpos
  · rw [cjsonPrintPreallocated, printInto, if_pos hneg, if_neg (by omega)]
  · rw [cjsonPrintPreallocated, printInto, if_neg (by omega), if_neg (by omega)]
    obtain ⟨why, hwhy⟩ := printValue_of_empty item format
    simp only [Int.toNat_zero, hwhy]
  · lift length to ℕ using hpos.le
    let m : Medium := ⟨true, length, by omega, by omega, by simp⟩
    have hstart : Settled m format 0 [] ⟨[], length, 0, 0, true, format⟩ :=
      ⟨rfl, rfl, .inl (by simpa using hpos), le_rfl, fun _ => rfl, rfl, rfl, rfl, by simp⟩
    rw [cjsonPrintPreallocated, printInto_eq h hstart]
    norm_cast

/-- `[true]` -/
def trueArray : Item := .mk .array none [.mk .true none []]

theorem printable_trueArray : trueArray.Printable :=
  .mk (by simp) (by simpa using .mk (by simp) (by simp))

theorem print_preallocated_trueArray :
    cjsonPrintPreallocated (some trueArray) 8 true = some (ascii "[true]") ∧
    cjsonPrintPreallocated (some trueArray) 7 true = none :=
  ⟨print_preallocated printable_trueArray (by decide) true,
    print_preallocated printable_trueArray (by decide) true⟩

/-- `cJSON_PrintBuffered` gives the text that `cJSON_Print` gives, whatever it starts with. -/
theorem print_buffered (h : item.Printable) {prebuffer : ℤ} (hzero : 0 ≤ prebuffer)
    (hmax : prebuffer ≤ intMax) (fmt : Bool) :
    cjsonPrintBuffered (some item) prebuffer fmt = ((print item fmt).map CStr.bytes).toOption := by
  lift prebuffer to ℕ using hzero
  have hstart : Settled .growing fmt 0 [] ⟨[], prebuffer, 0, 0, false, fmt⟩ := by
    refine ⟨rfl, rfl, ?_, by simpa [Medium.growing] using hmax, by simp [Medium.growing], rfl,
      rfl, rfl, by simp⟩
    rcases Nat.eq_zero_or_pos prebuffer with rfl | hpos
    · exact .inr ⟨rfl, rfl, rfl⟩
    · exact .inl hpos
  have hrun := print_run h fmt
  have hinto : printInto (some item) prebuffer false fmt = _ := printInto_eq h hstart
  rw [cjsonPrintBuffered, hinto, show Medium.growing.cap = intMax from rfl]
  split_ifs at hrun ⊢ with hfit
  · obtain ⟨s, heq, hs⟩ := hrun
    rw [heq, ← hs]
    rfl
  · rw [hrun]
    rfl

theorem print_buffered_trueArray : cjsonPrintBuffered (some trueArray) 0 true = some (ascii "[true]") :=
  print_buffered printable_trueArray (by decide) (by decide) true

end CppJson
