import CppJson.Elog.Lemmas.Logger

/-!
# The levels of the tags

The five filters of `tag_lvl` stand for a function from tags to levels.
-/

namespace CppJson

/-- The tag that a filter is in use for. -/
def ElogTagLvlFilter.key (e : ElogTagLvlFilter) : Option CStr :=
  if e.tagUseFlag then some e.tag else none

/-- What the filters say about a tag. -/
def tagLevels (tagLvl : List ElogTagLvlFilter) (tag : CStr) : Option UInt8 :=
  (slotOf ElogTagLvlFilter.key tag tagLvl).map ElogTagLvlFilter.level

/-- A level is set for a tag. `ELOG_FILTER_LVL_ALL` takes the tag out. A tag that has no level gets
none while five others have one. -/
noncomputable def setLevel (tag : CStr) (level : UInt8) (levels : CStr → Option UInt8) :
    CStr → Option UInt8 :=
  if level = elogFilterLvlAll then Function.update levels tag none
  else
    open Classical in
    if levels tag ≠ none ∨ {t | levels t ≠ none}.ncard < elogFilterTagLvlMaxNum then
      Function.update levels tag (some level)
    else levels

/-- No tag is in two filters, and none is longer than a filter can keep. -/
structure TagTable (tagLvl : List ElogTagLvlFilter) : Prop where
  length : tagLvl.length = elogFilterTagLvlMaxNum
  keys : SlotKeys ElogTagLvlFilter.key tagLvl
  short : ∀ e ∈ tagLvl, e.tag.take elogFilterTagMaxLen = e.tag

variable {tagLvl l₁ l₂ : List ElogTagLvlFilter} {tag : CStr} {level : UInt8} {e e' : ElogTagLvlFilter}

theorem CStr.take_take (s : CStr) (n : ℕ) : (s.take n).take n = s.take n :=
  CStr.ext_bytes (by simp [CStr.take])

theorem strncmpEq_iff (he : e.tag.take elogFilterTagMaxLen = e.tag) :
    (e.tagUseFlag && strncmpEq tag e.tag elogFilterTagMaxLen) = true ↔
      e.key = some (tag.take elogFilterTagMaxLen) := by
  rw [ElogTagLvlFilter.key, strncmpEq]
  cases e.tagUseFlag with
  | false => simp
  | true =>
      simp only [Bool.true_and, decide_eq_true_eq, ↓reduceIte, Option.some.injEq]
      constructor
      · intro h
        rw [← he]
        exact CStr.ext_bytes h.symm
      · intro h
        rw [h]
        simp [CStr.take]

theorem TagTable.find_none (h : TagTable tagLvl) (hfind : findTagLvl tag tagLvl = none) :
    slotOf ElogTagLvlFilter.key (tag.take elogFilterTagMaxLen) tagLvl = none := by
  rw [findTagLvl, List.findIdx?_eq_none_iff] at hfind
  refine List.find?_eq_none.mpr fun e he hkey => ?_
  have htrue := (strncmpEq_iff (h.short e he)).mpr (by simpa using hkey)
  rw [hfind e he] at htrue
  cases htrue

/-- The table after a filter has got another tag, another level or none of either. -/
theorem TagTable.replaced (h : TagTable (l₁ ++ e :: l₂))
    (hshort : e'.tag.take elogFilterTagMaxLen = e'.tag)
    (hreplace : Replaces ElogTagLvlFilter.key tag l₁ e e' l₂) : TagTable (l₁ ++ e' :: l₂) where
  length := by
    have hlength := h.length
    rw [List.length_append, List.length_cons] at hlength ⊢
    exact hlength
  keys := hreplace.keys_replaced
  short := by
    intro x hx
    rcases List.mem_append.mp hx with hx | hx
    · exact h.short x (List.mem_append_left _ hx)
    · rcases List.mem_cons.mp hx with rfl | hx
      · exact hshort
      · exact h.short x (List.mem_append_right _ (List.mem_cons_of_mem _ hx))

theorem tagLevels_replaced (hreplace : Replaces ElogTagLvlFilter.key tag l₁ e e' l₂) :
    tagLevels (l₁ ++ e' :: l₂) =
      Function.update (tagLevels (l₁ ++ e :: l₂)) tag
        (if e'.key = some tag then some e'.level else none) := by
  funext t
  by_cases ht : t = tag
  · subst ht
    rw [Function.update_self, tagLevels, hreplace.slotOf_self]
    split_ifs <;> rfl
  · rw [Function.update_of_ne ht, tagLevels, tagLevels, hreplace.slotOf_ne ht]

/-- `elog_set_filter_tag_lvl` sets the level of the tag, cut to the length that a filter can
keep. -/
theorem TagTable.setTagLvl (h : TagTable tagLvl) (tag : CStr) (level : UInt8) :
    TagTable (setTagLvl tag level tagLvl) ∧
      tagLevels (CppJson.setTagLvl tag level tagLvl) =
        setLevel (tag.take elogFilterTagMaxLen) level (tagLevels tagLvl) := by
  obtain ⟨k, hk⟩ : ∃ k, k = tag.take elogFilterTagMaxLen := ⟨_, rfl⟩
  have hkshort : k.take elogFilterTagMaxLen = k := by rw [hk, CStr.take_take]
  rw [CppJson.setTagLvl, setLevel, ← hk]
  cases hfind : findTagLvl tag tagLvl with
  | some i =>
      obtain ⟨l₁, e, l₂, rfl, hp, -, hset, hmodify⟩ := exists_of_findIdx? hfind
      have hshort := h.short e (List.mem_append_right _ List.mem_cons_self)
      have hkey : e.key = some k := by rw [hk]; exact (strncmpEq_iff hshort).mp hp
      have hold : ∀ k', e.key = some k' → k' = k := fun k' hk' => by simpa [hkey] using hk'.symm
      have hhas : tagLevels (l₁ ++ e :: l₂) k ≠ none := by
        intro hnone
        rw [tagLevels, Option.map_eq_none_iff, slotOf_eq_none] at hnone
        exact hnone (List.mem_filterMap.mpr ⟨e, List.mem_append_right _ List.mem_cons_self, hkey⟩)
      simp only
      by_cases hall : level = elogFilterLvlAll
      · -- the tag is taken out
        rw [if_pos hall, if_pos hall]
        have hreplace : Replaces ElogTagLvlFilter.key k l₁ e noTagLvl l₂ :=
          ⟨h.keys, hold, by simp [ElogTagLvlFilter.key, noTagLvl], by simp [hkey]⟩
        rw [hset]
        exact ⟨h.replaced rfl hreplace, tagLevels_replaced hreplace⟩
      · have hkey' : ({ e with level } : ElogTagLvlFilter).key = some k := hkey
        have hreplace : Replaces ElogTagLvlFilter.key k l₁ e { e with level } l₂ :=
          ⟨h.keys, hold, fun k' hk' => by simpa [hkey'] using hk'.symm, by simp [hkey]⟩
        rw [if_neg hall, if_neg hall, if_pos (Or.inl hhas), hmodify]
        refine ⟨h.replaced hshort hreplace, ?_⟩
        rw [tagLevels_replaced hreplace, if_pos hkey']
  | none =>
      have hnone : tagLevels tagLvl k = none := by
        rw [tagLevels, hk, h.find_none hfind, Option.map_none]
      have hroom : (∃ e ∈ tagLvl, e.key = none) ↔
          {t | tagLevels tagLvl t ≠ none}.ncard < elogFilterTagLvlMaxNum := by
        rw [exists_free_iff h.keys, h.length]
        simp only [tagLevels, Ne, Option.map_eq_none_iff]
      simp only
      by_cases hall : level = elogFilterLvlAll
      · -- there is nothing to take out
        rw [if_neg (not_not.mpr hall), if_pos hall, ← hnone, Function.update_eq_self]
        exact ⟨h, rfl⟩
      · rw [if_pos hall, if_neg hall]
        cases hslot : tagLvl.findIdx? fun e => !e.tagUseFlag with
        | some i =>
            obtain ⟨l₁, e, l₂, rfl, hp, -, hset, -⟩ := exists_of_findIdx? hslot
            have hfree : e.key = none := by simpa [ElogTagLvlFilter.key] using hp
            have hkey' : (⟨level, k, true⟩ : ElogTagLvlFilter).key = some k := rfl
            have hother : k ∉ (l₁ ++ l₂).filterMap ElogTagLvlFilter.key := by
              have hno := slotOf_eq_none.mp (h.find_none hfind)
              rw [← hk, List.filterMap_append, List.filterMap_cons_none hfree] at hno
              rwa [List.filterMap_append]
            have hreplace : Replaces ElogTagLvlFilter.key k l₁ e ⟨level, k, true⟩ l₂ :=
              ⟨h.keys, by simp [hfree], fun k' hk' => by simpa [hkey'] using hk'.symm, fun _ => hother⟩
            rw [if_pos (Or.inr (hroom.mp ⟨e, List.mem_append_right _ List.mem_cons_self, hfree⟩))]
            simp only [hset]
            refine ⟨h.replaced hkshort hreplace, ?_⟩
            rw [tagLevels_replaced hreplace, if_pos hkey']
        | none =>
            have hfull : ¬∃ e ∈ tagLvl, e.key = none := by
              rintro ⟨e, he, hfree⟩
              have hused := List.findIdx?_eq_none_iff.mp hslot e he
              rw [ElogTagLvlFilter.key] at hfree
              split_ifs at hfree with huse
              simp [huse] at hused
            rw [if_neg fun hor => hor.elim (fun hne => hne hnone) fun hlt => hfull (hroom.mpr hlt)]
            exact ⟨h, rfl⟩

theorem tagTable_init : TagTable (List.replicate elogFilterTagLvlMaxNum noTagLvl) where
  length := List.length_replicate
  keys := by
    have hkeys : (List.replicate elogFilterTagLvlMaxNum noTagLvl).filterMap ElogTagLvlFilter.key =
        [] := by decide
    rw [SlotKeys, hkeys]
    exact List.nodup_nil
  short e he := by
    rw [(List.mem_replicate.mp he).2]
    rfl

theorem tagLevels_init :
    tagLevels (List.replicate elogFilterTagLvlMaxNum noTagLvl) = fun _ => none := by
  funext tag
  rw [tagLevels, Option.map_eq_none_iff, slotOf_eq_none]
  have hkeys : (List.replicate elogFilterTagLvlMaxNum noTagLvl).filterMap ElogTagLvlFilter.key =
      [] := by decide
  simp [hkeys]

theorem TagTable.getTagLvl (h : TagTable tagLvl) (tag : CStr) :
    getTagLvl tag tagLvl = (tagLevels tagLvl (tag.take elogFilterTagMaxLen)).getD elogFilterLvlAll := by
  rw [CppJson.getTagLvl, tagLevels]
  cases hfind : findTagLvl tag tagLvl with
  | none =>
      rw [h.find_none hfind]
      rfl
  | some i =>
      obtain ⟨l₁, e, l₂, rfl, hp, hget, -, -⟩ := exists_of_findIdx? hfind
      have hshort := h.short e (List.mem_append_right _ List.mem_cons_self)
      have hkey := (strncmpEq_iff hshort).mp hp
      have hreplace : Replaces ElogTagLvlFilter.key (tag.take elogFilterTagMaxLen) l₁ e e l₂ :=
        ⟨h.keys, by simp [hkey], by simp [hkey], by simp [hkey]⟩
      rw [hreplace.slotOf_self, if_pos hkey, Option.bind_some, hget]
      rfl

/-- What the calls of `elog_set_filter_tag_lvl` in a run set. -/
noncomputable def levelsSet : List ElogAct → (CStr → Option UInt8) → CStr → Option UInt8
  | [], levels => levels
  | .setFilterTagLvl tag level :: acts, levels =>
      levelsSet acts (setLevel (tag.take elogFilterTagMaxLen) level levels)
  | _ :: acts, levels => levelsSet acts levels

variable {s s' : EasyLogger} {a : ElogAct} {acts : List ElogAct}

theorem EasyLogger.step_tagLvl (hinit : s.initOk = true) (h : EasyLogger.step a s = some s') :
    s'.filter.tagLvl = match a with
      | .setFilterTagLvl tag level => CppJson.setTagLvl tag level s.filter.tagLvl
      | _ => s.filter.tagLvl := by
  cases a with
  | setFilterTagLvl tag level =>
      simp only [EasyLogger.step, elogSetFilterTagLvl, elogPortOutputLock, hinit] at h
      split_ifs at h with hlevel hinit' hlock
      · simp at hinit'
      · cases h
      · cases h
        exact congrArg ElogFilter.tagLvl (elogOutputUnlock_filter _)
  | getFilterTagLvl tag =>
      obtain ⟨⟨lvl, s₁⟩, hget, rfl⟩ := Option.map_eq_some_iff.mp h
      obtain ⟨p, e, d, rfl⟩ := elogGetFilterTagLvl_cases hget
      rfl
  | raw args => rw [(elogRaw_cases h).1.filter]
  | output c args => rw [(elogOutput_cases h).2.1.filter]
  | setOutputEnabled enabled => cases h; rfl
  | setFilterTag tag => cases h; rfl
  | setFilterKw keyword => cases h; rfl
  | outputLockEnabled enabled =>
      simp only [EasyLogger.step, elogOutputLockEnabled, elogPortOutputLock] at h
      split_ifs at h <;> cases h <;> rfl
  | setFmt level set =>
      simp only [EasyLogger.step, elogSetFmt] at h
      split_ifs at h
      cases h
      rfl
  | setFilterLvl level =>
      simp only [EasyLogger.step, elogSetFilterLvl] at h
      split_ifs at h
      cases h
      rfl

theorem tagLevels_of_run (hinit : s.initOk = true) (htable : TagTable s.filter.tagLvl)
    (hrun : run EasyLogger.step acts s = some s') :
    TagTable s'.filter.tagLvl ∧
      tagLevels s'.filter.tagLvl = levelsSet acts (tagLevels s.filter.tagLvl) := by
  induction acts generalizing s with
  | nil =>
      cases hrun
      exact ⟨htable, rfl⟩
  | cons a acts ih =>
      obtain ⟨s₁, hstep, hrest⟩ := run_cons_eq_some.mp hrun
      have htagLvl := EasyLogger.step_tagLvl hinit hstep
      have hinit₁ := (EasyLogger.step_cases hstep).1.trans hinit
      cases a with
      | setFilterTagLvl tag level =>
          obtain ⟨htable₁, hlevels⟩ := htable.setTagLvl tag level
          have hih := ih hinit₁ (by rw [htagLvl]; exact htable₁) hrest
          rw [htagLvl, hlevels] at hih
          exact hih
      | _ =>
          have hih := ih hinit₁ (by rw [htagLvl]; exact htable) hrest
          rw [htagLvl] at hih
          exact hih

end CppJson
