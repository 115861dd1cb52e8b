import CppJson.Elog.Lemmas.Logger

/-!
# Reading a line back
-/

namespace CppJson

variable {s : EasyLogger} {c : ElogCall} {level : UInt8} {text : CStr}

theorem level_cases : level ≤ elogLvlVerbose →
    level = 0 ∨ level = 1 ∨ level = 2 ∨ level = 3 ∨ level = 4 ∨ level = 5 :=
  forall_byte (P := fun level => level ≤ elogLvlVerbose →
    level = 0 ∨ level = 1 ∨ level = 2 ∨ level = 3 ∨ level = 4 ∨ level = 5) (by decide +kernel) level

theorem length_levelOutputInfo (level : UInt8) : (levelOutputInfo level).length = 2 := by
  rw [levelOutputInfo]
  split <;> rfl

/-- A line with level and tag begins with them, and a space follows the tag. -/
theorem header_eq (hlvl : getFmtEnabled s c.level elogFmtLvl = true)
    (htag : getFmtEnabled s c.level elogFmtTag = true) :
    ∃ rest, (c.header (getFmtEnabled s c.level)).flatten =
      levelOutputInfo c.level ++ (c.tag.bytes ++ byte ' ' :: rest) := by
  obtain ⟨srcs, hsrcs⟩ : ∃ srcs, c.header (getFmtEnabled s c.level) =
      [levelOutputInfo c.level] ++
        ([c.tag.bytes] ++ (if c.tag.bytes.length ≤ elogFilterTagMaxLen / 2 then
        [List.replicate (elogFilterTagMaxLen / 2 - c.tag.bytes.length) (byte ' ')] else []) ++
          [ascii " "]) ++ srcs :=
    ⟨_, by rw [ElogCall.header, if_pos hlvl, if_pos htag, List.append_assoc]⟩
  rw [hsrcs]
  simp only [List.flatten_append, List.flatten_cons, List.flatten_nil, List.append_nil,
    List.append_assoc]
  by_cases hshort : c.tag.bytes.length ≤ elogFilterTagMaxLen / 2
  · -- the tag is filled up with spaces
    rw [if_pos hshort, List.flatten_cons, List.flatten_nil, List.append_nil]
    cases elogFilterTagMaxLen / 2 - c.tag.bytes.length with
    | zero => exact ⟨_, rfl⟩
    | succ n => exact ⟨_, rfl⟩
  · rw [if_neg hshort]
    exact ⟨_, rfl⟩

theorem body_eq (hlvl : getFmtEnabled s c.level elogFmtLvl = true)
    (htag : getFmtEnabled s c.level elogFmtTag = true) (text : CStr) :
    ∃ rest, c.body s text =
      levelOutputInfo c.level ++ (c.tag.bytes ++ byte ' ' :: rest).take (elogLineBufSize - 3) := by
  obtain ⟨rest, hrest⟩ := header_eq hlvl htag
  refine ⟨rest ++ text.bytes, ?_⟩
  rw [ElogCall.body, hrest, List.append_assoc, List.append_assoc, List.cons_append, List.take_append,
    length_levelOutputInfo, List.take_of_length_le (by rw [length_levelOutputInfo]; decide)]
  rfl

theorem elogFindLvl_eq (hall : ∀ l, l ≤ elogLvlVerbose → getFmtEnabled s l elogFmtLvl = true)
    (hlevel : level ≤ elogLvlVerbose) (rest : List UInt8) :
    elogFindLvl s (levelOutputInfo level ++ rest) = some (level.toNat : ℤ) := by
  rw [elogFindLvl, if_pos]
  · rcases level_cases hlevel with rfl | rfl | rfl | rfl | rfl | rfl <;> rfl
  · simp only [List.all_cons, List.all_nil, Bool.and_true, Bool.and_eq_true]
    exact ⟨hall 0 (by decide), hall 1 (by decide), hall 2 (by decide), hall 3 (by decide),
      hall 4 (by decide), hall 5 (by decide)⟩

/-- The tag is found up to the first space, which has to be among the first 30 bytes. -/
theorem elogFindTag_eq (hlevel : level ≤ elogLvlVerbose)
    (htag : getFmtEnabled s level elogFmtTag = true) {tag rest : List UInt8}
    (hspace : byte ' ' ∉ tag) (newline : List UInt8) :
    elogFindTag s (levelOutputInfo level ++ (tag ++ byte ' ' :: rest).take (elogLineBufSize - 3) ++
      newline) level =
      some (if tag.length < elogFilterTagMaxLen then some tag else none) := by
  have hno : ∀ b ∈ tag, ¬decide (b = byte ' ') = true := by
    intro b hb he
    rw [of_decide_eq_true he] at hb
    exact hspace hb
  have hmax : elogFilterTagMaxLen < elogLineBufSize - 3 := by decide
  rw [elogFindTag, if_pos ⟨hlevel, htag⟩, List.append_assoc, List.drop_left]
  by_cases hshort : tag.length < elogFilterTagMaxLen
  · obtain ⟨n, hn⟩ : ∃ n, elogLineBufSize - 3 = tag.length + (n + 1) :=
      ⟨elogLineBufSize - 3 - tag.length - 1, by omega⟩
    obtain ⟨m, hm⟩ : ∃ m, elogFilterTagMaxLen = tag.length + (m + 1) :=
      ⟨elogFilterTagMaxLen - tag.length - 1, by omega⟩
    have hcut : (tag ++ byte ' ' :: rest).take (elogLineBufSize - 3) ++ newline =
        tag ++ byte ' ' :: (rest.take n ++ newline) := by
      rw [hn, List.take_length_add_append, List.take_succ_cons, List.append_assoc, List.cons_append]
    have hfind : ((tag ++ byte ' ' :: (rest.take n ++ newline)).take elogFilterTagMaxLen).findIdx?
        (fun b => decide (b = byte ' ')) = some tag.length := by
      rw [hm, List.take_length_add_append, List.take_succ_cons, List.findIdx?_append,
        List.findIdx?_eq_none_iff.mpr (by simpa using hno), List.findIdx?_cons]
      simp
    rw [if_pos hshort, hcut]
    simp only [hfind]
    rw [List.take_left]
  · have hfirst :
        ((tag ++ byte ' ' :: rest).take (elogLineBufSize - 3) ++ newline).take elogFilterTagMaxLen =
          tag.take elogFilterTagMaxLen := by
      rw [take_take_append (by omega), List.append_assoc, List.take_append_of_le_length (by omega)]
    have hnone : (tag.take elogFilterTagMaxLen).findIdx? (fun b => decide (b = byte ' ')) = none :=
      List.findIdx?_eq_none_iff.mpr fun b hb => by simpa using hno b (List.mem_of_mem_take hb)
    rw [if_neg hshort]
    simp only [hfirst, hnone]

end CppJson
