import CppJson.CJson.Lemmas.Lexemes

/-!
# Printing

A printable tree is printed as its `render`, or the buffer would have to be larger than `INT_MAX`
(`print_eq_ok`).
-/

namespace CppJson

open Json

/-! ## The print buffer -/

/-- A buffer that may grow up to `INT_MAX` bytes, or one of a fixed length. -/
structure Medium where
  noalloc : Bool
  cap : ℕ
  pos : 0 < cap
  le : cap ≤ intMax
  grows : noalloc = false → cap = intMax

/-- The buffer of `cJSON_Print`. -/
def Medium.growing : Medium := ⟨false, intMax, by decide, le_rfl, fun _ => rfl⟩

/-- The buffer holds the text `T`, the offset is at its end, and a NUL still fits behind it, or
there is no buffer yet. -/
structure Settled (m : Medium) (format : Bool) (depth : ℕ) (T : List UInt8) (p : PrintBuffer) :
    Prop where
  buffer : p.buffer = T
  offset : p.offset = T.length
  room : T.length < p.length ∨ T = [] ∧ p.length = 0 ∧ m.noalloc = false
  bound : p.length ≤ m.cap
  fixed : m.noalloc = true → p.length = m.cap
  noalloc : p.noalloc = m.noalloc
  depth_eq : p.depth = depth
  format_eq : p.format = format
  nul_free : 0 ∉ T

namespace Settled

variable {m : Medium} {format : Bool} {depth : ℕ} {T t : List UInt8} {p : PrintBuffer}

theorem enter (h : Settled m format depth T p) : Settled m format (depth + 1) T p.enter :=
  { h with depth_eq := by simp [PrintBuffer.enter, h.depth_eq] }

theorem leave (h : Settled m format (depth + 1) T p) : Settled m format depth T p.leave :=
  { h with depth_eq := by simp [PrintBuffer.leave, h.depth_eq] }

theorem updateOffset (h : Settled m format depth T p) : p.updateOffset = p := by
  have hdrop : p.buffer.drop p.offset = [] := by simp [h.buffer, h.offset]
  simp only [PrintBuffer.updateOffset, hdrop, List.takeWhile_nil, List.length_nil, Nat.add_zero]

theorem put (h : Settled m format depth T p) (hroom : T.length + t.length < p.length) (h0 : 0 ∉ t) :
    Settled m format depth (T ++ t) (p.put t) where
  buffer := by simp [PrintBuffer.put, PrintBuffer.write, h.buffer, h.offset]
  offset := by simp [PrintBuffer.put, h.offset]
  room := .inl (by simpa [PrintBuffer.put, PrintBuffer.write] using hroom)
  bound := h.bound
  fixed := h.fixed
  noalloc := h.noalloc
  depth_eq := h.depth_eq
  format_eq := h.format_eq
  nul_free := by simp [h.nul_free, h0]

/-- `update_offset` finds the end of what was stored without moving the offset. -/
theorem write (h : Settled m format depth T p) (h0 : 0 ∉ t) : (p.write t).updateOffset = p.put t := by
  have htake : t.takeWhile (· ≠ 0) = t := takeWhile_ne_nul h0
  simp only [PrintBuffer.updateOffset, PrintBuffer.put, PrintBuffer.write, h.buffer, h.offset,
    List.take_length, List.drop_left, htake]

end Settled

/-- `op` prints `text`, and is refused the buffer exactly when less than `slack` bytes are left
behind it. -/
def Puts (m : Medium) (format : Bool) (d d' : ℕ) (op : PrintBuffer → Except PrintFail PrintBuffer)
    (text : List UInt8) (slack : ℕ) : Prop :=
  ∀ T p, Settled m format d T p →
    if T.length + text.length + slack ≤ m.cap then ∃ p', op p = .ok p' ∧
      Settled m format d' (T ++ text) p'
    else op p = .error .bufferRefused

def settle (op : PrintBuffer → Except PrintFail PrintBuffer) (p : PrintBuffer) :
    Except PrintFail PrintBuffer := do
  let p ← op p
  return p.updateOffset

theorem ensure_eq {m : Medium} {format : Bool} {d : ℕ} {T : List UInt8} {p : PrintBuffer}
    (h : Settled m format d T p) (needed : ℕ) :
    if T.length + needed + 1 ≤ m.cap then
      ∃ p', ensure p needed = .ok p' ∧ Settled m format d T p' ∧ T.length + needed < p'.length
    else ensure p needed = .error .bufferRefused := by
  have hbound := h.bound
  have hoffset := h.offset
  have hle := m.le
  have hvalid : ¬(0 < p.length ∧ p.length ≤ p.offset) := by
    rcases h.room with hroom | ⟨-, hzero, -⟩ <;> omega
  rw [ensure, if_neg hvalid, h.noalloc]
  dsimp only
  cases hm : m.noalloc with
  | true =>
      have hlength := h.fixed hm
      by_cases hfit : T.length + needed + 1 ≤ m.cap
      · rw [if_pos hfit, if_neg (by omega), if_pos (by omega)]
        exact ⟨p, rfl, h, by omega⟩
      · rw [if_neg hfit]
        simp only [↓reduceIte]
        split_ifs <;> first | rfl | omega
  | false =>
      have hcap := m.grows hm
      have hfixed : ∀ length, m.noalloc = true → length = m.cap :=
        fun _ heq => absurd (hm.symm.trans heq) (by decide)
      simp only [Bool.false_eq_true, ↓reduceIte]
      by_cases hfit : T.length + needed + 1 ≤ m.cap
      · rw [if_pos hfit, if_neg (by omega)]
        split_ifs with h₁ h₂ h₃
        · exact ⟨p, rfl, h, by omega⟩
        · have hlen : T.length + needed < intMax := by omega
          have hroom : T.length < intMax := by omega
          exact ⟨_, rfl,
            { h with room := .inl hroom, bound := hcap.ge, fixed := hfixed _, noalloc := hm.symm },
              hlen⟩
        · omega
        · have hlen : T.length + needed < (needed + p.offset + 1) * 2 := by omega
          have hroom : T.length < (needed + p.offset + 1) * 2 := by omega
          have hmax : (needed + p.offset + 1) * 2 ≤ m.cap := by omega
          exact ⟨_, rfl,
            { h with room := .inl hroom, bound := hmax, fixed := hfixed _, noalloc := hm.symm }, hlen⟩
      · rw [if_neg hfit]
        split_ifs <;> first | rfl | omega

namespace Puts

variable {m : Medium} {format : Bool} {d d' d'' k k₁ k₂ : ℕ} {t t₁ t₂ : List UInt8}
  {op op₁ op₂ : PrintBuffer → Except PrintFail PrintBuffer}

theorem congr (h : ∀ p, p.depth = d → p.format = format → op p = op₁ p)
    (h₁ : Puts m format d d' op₁ t k) :
    Puts m format d d' op t k := by
  intro T p hp
  rw [h p hp.depth_eq hp.format_eq]
  exact h₁ T p hp

theorem nothing : Puts m format d d .ok [] 1 := by
  intro T p hp
  have hfit : T.length + 1 ≤ m.cap := by
    have := hp.bound
    have := m.pos
    rcases hp.room with hroom | ⟨rfl, -, -⟩
    · omega
    · rwa [List.length_nil]
  rw [List.length_nil, Nat.add_zero, if_pos hfit]
  exact ⟨p, rfl, by simpa using hp⟩

theorem ensureThen {n : ℕ} {g : PrintBuffer → PrintBuffer}
    (hg : ∀ T p, Settled m format d T p → T.length + t.length < p.length →
      Settled m format d' (T ++ t) (g p))
    (hlen : t.length ≤ n) (hk : t.length + k = n + 1) :
    Puts m format d d' (fun p => do let p ← ensure p n; return g p) t k := by
  intro T p hp
  have h := ensure_eq hp n
  by_cases hfit : T.length + n + 1 ≤ m.cap
  · rw [if_pos hfit] at h
    obtain ⟨p', heq, hp', hroom⟩ := h
    rw [if_pos (by omega)]
    exact ⟨g p', by simp [heq, bind, Except.bind, pure, Except.pure], hg T p' hp' (by omega)⟩
  · rw [if_neg hfit] at h
    rw [if_neg (by omega)]
    simp [h, bind, Except.bind]

theorem settled (h : Puts m format d d' op t k) : Puts m format d d' (settle op) t k := by
  intro T p hp
  have h := h T p hp
  split_ifs with hfit
  · rw [if_pos hfit] at h
    obtain ⟨p', heq, hp'⟩ := h
    exact ⟨p', by simp [settle, heq, hp'.updateOffset, bind, Except.bind, pure, Except.pure], hp'⟩
  · rw [if_neg hfit] at h
    simp [settle, h, bind, Except.bind]

/-- One print function behind another: what the first asked for beyond its text may lie in the text
of the second. -/
theorem andThen (h₁ : Puts m format d d' op₁ t₁ k₁) (h₂ : Puts m format d' d'' op₂ t₂ k₂)
    (hk : k = max (k₁ - t₂.length) k₂) : Puts m format d d'' (fun p => op₁ p >>= op₂) (t₁ ++ t₂) k := by
  intro T p hp
  have h₁ := h₁ T p hp
  rw [List.length_append]
  by_cases hfit₁ : T.length + t₁.length + k₁ ≤ m.cap
  · rw [if_pos hfit₁] at h₁
    obtain ⟨p₁, heq₁, hp₁⟩ := h₁
    have h₂ := h₂ (T ++ t₁) p₁ hp₁
    rw [List.length_append] at h₂
    simp only [heq₁, bind, Except.bind, ← List.append_assoc]
    by_cases hfit₂ : T.length + t₁.length + t₂.length + k₂ ≤ m.cap
    · rw [if_pos hfit₂] at h₂
      rwa [if_pos (by omega)]
    · rw [if_neg hfit₂] at h₂
      rwa [if_neg (by omega)]
  · rw [if_neg hfit₁] at h₁
    rw [if_neg (by omega)]
    simp [h₁, bind, Except.bind]

end Puts

/-! ## The print functions -/

section Functions

variable (m : Medium) (format : Bool) (d : ℕ)

theorem puts_printLiteral {t : List UInt8} (h0 : 0 ∉ t) :
    Puts m format d d (settle (printLiteral t)) t 2 := by
  have h : Puts m format d d
      (fun p => do let p ← ensure p (t.length + 1); return (p.write t).updateOffset) t 2 :=
    Puts.ensureThen (fun T p hp hroom => hp.write h0 ▸ hp.put hroom h0) (Nat.le_succ _) rfl
  exact Puts.congr (fun p _ _ => by simp [settle, printLiteral]) h

theorem puts_printNumber (n : Number) :
    Puts m format d d (settle (printNumber n)) (numberText n) 2 := by
  have h0 := zero_notMem_numberText n
  have h : Puts m format d d
      (fun p => do let p ← ensure p ((numberText n).length + 1); return p.put (numberText n))
      (numberText n) 2 := Puts.ensureThen (fun T p hp hroom => hp.put hroom h0) (Nat.le_succ _) rfl
  refine Puts.settled (Puts.congr (fun p _ _ => ?_) h)
  have hlen := length_numberText_le n
  simp [printNumber, not_lt.mpr hlen]

theorem puts_printStringPtr_some (s : CStr) :
    Puts m format d d (settle (printStringPtr (some s))) (stringText (chars s.bytes)) 2 := by
  have h0 := zero_notMem_stringText s.nul_free
  have hlen : (stringText (chars s.bytes)).length + 2 =
      s.bytes.length + (s.bytes.map escapeCharacters).sum + 3 + 1 := by
    simp only [stringText, List.cons_append, List.length_cons, List.length_append, List.length_nil,
      length_text_chars]
  have h : Puts m format d d (fun p => do
      let p ← ensure p (s.bytes.length + (s.bytes.map escapeCharacters).sum + 3)
      return (p.write (stringText (chars s.bytes))).updateOffset) (stringText (chars s.bytes)) 2 :=
    Puts.ensureThen (fun T p hp hroom => hp.write h0 ▸ hp.put hroom h0) (by omega) hlen
  refine Puts.congr (fun p _ _ => ?_) h
  by_cases hesc : (s.bytes.map escapeCharacters).sum = 0
  · simp [settle, printStringPtr, hesc, stringText, text_chars_of_sum hesc]
  · simp [settle, printStringPtr, hesc, stringText, text_chars]

theorem puts_printStringPtr (item : Item) :
    Puts m format d d (settle (printStringPtr item.string))
      (stringText (chars (memberName item))) 2 := by
  cases hs : item.string with
  | some s =>
      simp only [memberName, hs]
      exact puts_printStringPtr_some m format d s
  | none =>
      simp only [memberName, hs]
      have h : Puts m format d d
          (fun p => do let p ← ensure p 3; return (p.write (stringText [])).updateOffset)
          (stringText []) 2 :=
        Puts.ensureThen (fun T p hp hroom => hp.write (t := stringText []) (by decide)
          ▸ hp.put hroom (by decide))
          (by decide) rfl
      exact Puts.congr (fun p _ _ => by simp [settle, printStringPtr, stringText]) h

theorem puts_printArrayComma (more : Bool) :
    Puts m format d d (printArrayComma more) (elementComma format more) (if more then 2 else 1) := by
  cases more with
  | false => exact Puts.nothing
  | true =>
      have h0 : 0 ∉ elementComma format true := by cases format <;> decide
      refine Puts.congr (fun p _ hf => ?_)
        (Puts.ensureThen (fun T p hp hroom => hp.put hroom h0) (Nat.le_succ _) rfl)
      cases format <;> simp [printArrayComma, elementComma, hf, space]

theorem puts_printIndent : Puts m format d d printIndent (tabs format d) 1 := by
  cases format with
  | false => exact Puts.congr (fun p _ hf => by simp [printIndent, hf]; rfl) Puts.nothing
  | true =>
      have h0 : 0 ∉ List.replicate d (byte '\t') :=
        fun h => absurd (List.eq_of_mem_replicate h) (by decide)
      have h : Puts m true d d
          (fun p => do let p ← ensure p d; return p.put (List.replicate p.depth (byte '\t')))
          (List.replicate d (byte '\t')) 1 :=
        Puts.ensureThen (fun T p hp hroom => hp.depth_eq ▸ hp.put (hp.depth_eq ▸ hroom)
          (hp.depth_eq ▸ h0))
          (by simp) (by simp)
      exact Puts.congr (fun p hd hf => by simp [printIndent, hf, hd]) h

theorem puts_printColon : Puts m format d d printColon (byte ':' :: space format [byte '\t']) 1 := by
  have h0 : 0 ∉ byte ':' :: space format [byte '\t'] := by cases format <;> decide
  refine Puts.congr (fun p _ hf => ?_)
    (Puts.ensureThen (fun T p hp hroom => hp.put hroom h0) le_rfl rfl)
  cases format <;> simp [printColon, hf, space]

theorem puts_printObjectComma (more : Bool) :
    Puts m format d d (printObjectComma more) (memberComma format more) 2 := by
  have h0 : 0 ∉ memberComma format more := by cases format <;> cases more <;> decide
  refine Puts.congr (fun p _ hf => ?_)
    (Puts.ensureThen (fun T p hp hroom => hp.put hroom h0) (Nat.le_succ _) rfl)
  simp only [printObjectComma, memberComma, space, hf]

theorem puts_printArray {loop : PrintBuffer → Except PrintFail PrintBuffer} {t : List UInt8} {k : ℕ}
    (hk : k ≤ 2) (h : Puts m format (d + 1) (d + 1) loop t k) :
    Puts m format d d (settle (printArray loop)) (byte '[' :: t ++ [byte ']']) 2 := by
  have hopen : Puts m format d (d + 1)
      (fun p => do let p ← ensure p 1; return (p.put [byte '[']).enter) [byte '['] 1 :=
    Puts.ensureThen (fun T p hp hroom => (hp.put hroom (by decide)).enter) le_rfl rfl
  have hclose : Puts m format (d + 1) d
      (fun p => do let p ← ensure p 2; return (p.write [byte ']']).leave.updateOffset)
      [byte ']'] 2 := by
    refine Puts.ensureThen (fun T p hp hroom => ?_) (by decide) rfl
    have hput := hp.put hroom (by decide)
    rw [← hp.write (by decide)] at hput
    exact hput.leave
  have hall := hopen.andThen (h.andThen (k := 2) hclose (by simp; omega)) (k := 2) (by simp)
  simp only [bind_assoc, pure_bind] at hall
  exact Puts.congr (fun p _ _ => by simp only [settle, printArray, bind_assoc, pure_bind]) hall

theorem puts_printObject {loop : PrintBuffer → Except PrintFail PrintBuffer} {t : List UInt8} {k : ℕ}
    (hk : k ≤ 2) (h : Puts m format (d + 1) (d + 1) loop t k) :
    Puts m format d d (settle (printObject loop))
      (byte '{' :: space format [byte '\n'] ++ t ++ tabs format d ++ [byte '}']) 2 := by
  have hbrace : 0 ∉ byte '{' :: space format [byte '\n'] := by cases format <;> decide
  have htabs : 0 ∉ tabs format d ++ [byte '}'] := by
    intro h0
    rcases List.mem_append.mp h0 with h0 | h0
    · cases format with
      | false => cases h0
      | true => exact absurd (List.eq_of_mem_replicate h0) (by decide)
    · exact absurd h0 (by decide)
  have hopen : Puts m format d (d + 1) (fun p => do
      let p ← ensure p ((byte '{' :: space format [byte '\n']).length + 1)
      return (p.put (byte '{' :: space format [byte '\n'])).enter)
        (byte '{' :: space format [byte '\n']) 2 :=
    Puts.ensureThen (fun T p hp hroom => (hp.put hroom hbrace).enter) (Nat.le_succ _) rfl
  have hclose : Puts m format (d + 1) d (fun p => do
      let p ← ensure p (if p.format then p.depth + 1 else 2)
      return (p.write ((if p.format then List.replicate (p.depth - 1) (byte '\t') else []) ++
        [byte '}'])).leave.updateOffset)
      (tabs format d ++ [byte '}']) 2 := by
    have h : Puts m format (d + 1) d (fun p => do
        let p ← ensure p (if format then d + 2 else 2)
        return (p.write ((if p.format then List.replicate (p.depth - 1) (byte '\t') else []) ++
          [byte '}'])).leave.updateOffset) (tabs format d ++ [byte '}']) 2 := by
      refine Puts.ensureThen (fun T p hp hroom => ?_) ?_ ?_
      · have hput := hp.put hroom htabs
        rw [← hp.write htabs] at hput
        simp only [hp.depth_eq, hp.format_eq, Nat.add_sub_cancel]
        exact hput.leave
      · cases format <;> simp [tabs, space]
      · cases format <;> simp [tabs, space]
    exact Puts.congr (fun p hd hf => by simp only [hd, hf]) h
  have hall := hopen.andThen (h.andThen (k := 2) hclose (by simp; omega)) (k := 2) (by simp)
  simp only [bind_assoc, pure_bind] at hall
  rw [List.append_assoc (_ ++ t), List.append_assoc]
  refine Puts.congr (fun p _ hf => ?_) hall
  cases format <;> simp [settle, printObject, hf, space]

/-! ## Whole trees -/

mutual
theorem puts_printValue (d : ℕ) :
    (item : Item) → item.Printable →
      Puts m format d d (settle (printValue item)) (render format d item) 2
  | .mk kind _ child, h => by
      obtain ⟨hkind, hchild⟩ := h
      cases kind with
      | invalid => exact absurd rfl hkind
      | null => exact puts_printLiteral m format d (by decide)
      | false => exact puts_printLiteral m format d (by decide)
      | true => exact puts_printLiteral m format d (by decide)
      | raw s => exact puts_printLiteral m format d s.nul_free
      | number n => exact puts_printNumber m format d n
      | string s => exact puts_printStringPtr_some m format d s
      | array =>
          refine puts_printArray m format d ?_ (puts_printElements (d + 1) child hchild)
          split <;> decide
      | object =>
          refine puts_printObject m format d ?_ (puts_printMembers (d + 1) child hchild)
          split <;> decide

theorem puts_printElements (d : ℕ) : (items : List Item) → (∀ c ∈ items, c.Printable) →
    Puts m format d d (printElements items) (renderElements format d items)
      (if items.isEmpty then 1 else 2)
  | [], _ => Puts.nothing
  | item :: items, h => by
      have hvalue := puts_printValue d item (h item List.mem_cons_self)
      have hitems := puts_printElements d items fun c hc => h c (List.mem_cons_of_mem _ hc)
      have hcomma := puts_printArrayComma m format d (!items.isEmpty)
      have hall := hvalue.andThen (hcomma.andThen hitems rfl) (k := 2) (by
        cases items with
        | nil => simp [elementComma, renderElements]
        | cons c cs => simp)
      simp only [settle, bind_assoc, pure_bind] at hall
      simpa only [printElements, renderElements, List.append_assoc, List.isEmpty_cons,
        Bool.false_eq_true, ↓reduceIte] using hall

theorem puts_printMembers (d : ℕ) : (items : List Item) → (∀ c ∈ items, c.Printable) →
    Puts m format d d (printMembers items) (renderMembers format d items)
      (if items.isEmpty then 1 else 2)
  | [], _ => Puts.nothing
  | item :: items, h => by
      have hname := puts_printStringPtr m format d item
      have hvalue := puts_printValue d item (h item List.mem_cons_self)
      have hitems := puts_printMembers d items fun c hc => h c (List.mem_cons_of_mem _ hc)
      have hcomma := puts_printObjectComma m format d (!items.isEmpty)
      have hrest := hcomma.andThen hitems (k := 2) (by cases items <;> simp [renderMembers])
      have hbehind := hvalue.andThen hrest (k := 2) (by omega)
      have hall :=
        (puts_printIndent m format d).andThen
          (hname.andThen ((puts_printColon m format d).andThen hbehind (k := 2) (by omega)) (k := 2)
          (by omega)) (k := 2) (by omega)
      simp only [settle, bind_assoc, pure_bind] at hall
      simpa only [printMembers, renderMembers, List.append_assoc, List.isEmpty_cons,
        Bool.false_eq_true, ↓reduceIte] using hall
end

end Functions

theorem print_run {item : Item} (h : item.Printable) (format : Bool) :
    if (render format 0 item).length + 2 ≤ intMax then
      ∃ s : CStr, print item format = .ok s ∧ s.bytes = render format 0 item
    else print item format = .error .bufferRefused := by
  have hstart : Settled .growing format 0 [] ⟨[], 256, 0, 0, false, format⟩ :=
    ⟨rfl, rfl, .inl (by simp), by simp [Medium.growing, intMax], by simp [Medium.growing], rfl,
      rfl, rfl, by simp⟩
  have hprint := puts_printValue _ format 0 item h [] _ hstart
  simp only [List.length_nil, Nat.zero_add, List.nil_append] at hprint
  rw [show Medium.growing.cap = intMax from rfl] at hprint
  have hsettle : print item format =
      (fun p => cstr (p.buffer.take p.offset)) <$> settle (printValue item) ⟨[], 256, 0, 0,
        false, format⟩ := by
    simp [print, settle]
  rw [hsettle]
  split_ifs with hfit
  · rw [if_pos hfit] at hprint
    obtain ⟨p, heq, hp⟩ := hprint
    refine ⟨cstr (render format 0 item), by simp [heq, hp.buffer, hp.offset],
      cstr_of_nul_free hp.nul_free⟩
  · rw [if_neg hfit] at hprint
    simp [hprint]

/-- `print` of a tree without invalid nodes gives its text, unless the text and two more bytes
exceed `INT_MAX`. -/
theorem print_eq_ok {item : Item} (h : item.Printable) (format : Bool) (s : CStr) :
    print item format = .ok s ↔ (render format 0 item).length + 2 ≤ intMax ∧
      s.bytes = render format 0 item := by
  have hrun := print_run h format
  split_ifs at hrun with hfit
  · obtain ⟨s', heq, hs'⟩ := hrun
    rw [heq, Except.ok.injEq]
    exact ⟨fun h => ⟨hfit, h ▸ hs'⟩, fun h => CStr.ext_bytes (hs'.trans h.2.symm)⟩
  · rw [hrun]
    exact ⟨fun h => (by cases h), fun h => absurd h.1 hfit⟩

theorem print_eq_error {item : Item} (h : item.Printable) (format : Bool) (why : PrintFail) :
    print item format = .error why ↔ intMax < (render format 0 item).length + 2 ∧
      why = .bufferRefused := by
  have hrun := print_run h format
  split_ifs at hrun with hfit
  · obtain ⟨s', heq, -⟩ := hrun
    rw [heq]
    exact ⟨fun h => (by cases h), fun h => absurd h.1 (by omega)⟩
  · rw [hrun, Except.error.injEq]
    exact ⟨fun h => ⟨by omega, h.symm⟩, fun h => h.2.symm⟩

end CppJson
