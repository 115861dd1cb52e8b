import CppJson.CJson.Lemmas.RoundTrip
import CppJson.Radio.Abstract

/-!
# What `Display` does to a document

The document that `Display` leaves is `record` of the members it found (`displayRoot_eq`), and it
stays well formed.
-/

namespace CppJson

theorem namesKey_stateMember (v : CStr) : namesKey (stateMember v) := by
  simp [namesKey, sameName, stateMember]

theorem isNull_stateMember (v : CStr) : isNull (stateMember v) = false := rfl

theorem displayRoot_none (v : CStr) : displayRoot none v = none := rfl

theorem displayRoot_eq (root : Item) (v : CStr) :
    displayRoot (some root) v = some (root.withChild (record v root.child)) := by
  have hfound : (do
      let i ← cjsonGetObjectItem (some root) jsonKey
      let root ← some root
      root.child[i]?) = root.child.find? namesKey := by
    rw [List.find?_eq_bind_findIdx?_getElem?, cjsonGetObjectItem_eq]
    rfl
  simp only [displayRoot, hfound, record]
  cases hfind : root.child.find? namesKey with
  | none =>
      have hnone : ∀ x ∈ root.child, namesKey x = false := by simpa using hfind
      simp only [Option.any_none, Bool.false_eq_true, ↓reduceIte, upsert_of_none hnone]
      rfl
  | some e =>
      have hmem : ∃ x ∈ root.child, namesKey x :=
        ⟨e, List.mem_of_find?_eq_some hfind, List.find?_some hfind⟩
      obtain ⟨i, hi⟩ : ∃ i, root.child.findIdx? (sameName jsonKey) = some i :=
        Option.isSome_iff_exists.mp (by simpa [List.findIdx?_isSome, namesKey] using hmem)
      have hreplace := cjsonReplaceItemInObject_eq (cjsonCreateString v) hi
      cases hkind : e.kind with
      | null =>
          simp only [Option.any_some, isNull, hkind, ↓reduceIte]
          rfl
      | _ =>
          simp only [Option.any_some, isNull, hkind, Bool.false_eq_true, ↓reduceIte, hreplace]
          rfl

/-! ## The members -/

theorem record_of_notNull {child : List Item} (h : FirstNotNull child) (v : CStr) :
    record v child = upsert namesKey (stateMember v) child := by
  unfold record
  cases he : child.find? namesKey with
  | none => rfl
  | some e => simp [h e he]

theorem record_of_null {child : List Item} {e : Item} (he : child.find? namesKey = some e)
    (hnull : isNull e) (v : CStr) : record v child = child ++ [stateMember v] := by
  simp [record, he, hnull]

theorem firstNotNull_or (child : List Item) :
    FirstNotNull child ∨ ∃ e, child.find? namesKey = some e ∧ isNull e := by
  by_cases h : FirstNotNull child
  · exact .inl h
  · exact .inr (by simpa [FirstNotNull] using h)

/-- What was recorded is found again. -/
theorem find?_record {child : List Item} (h : FirstNotNull child) (v : CStr) :
    (record v child).find? namesKey = some (stateMember v) := by
  rw [record_of_notNull h, find?_upsert (namesKey_stateMember v)]

theorem firstNotNull_record {child : List Item} (h : FirstNotNull child) (v : CStr) :
    FirstNotNull (record v child) := by
  intro e he
  rw [find?_record h, Option.some.injEq] at he
  exact he ▸ isNull_stateMember v

/-- A document whose first match is not `null` keeps no trace of the states recorded before. -/
theorem record_record {child : List Item} (h : FirstNotNull child) (v w : CStr) :
    record w (record v child) = record w child := by
  rw [record_of_notNull (firstNotNull_record h v), record_of_notNull h, record_of_notNull h,
    upsert_upsert (namesKey_stateMember v)]

/-- The recorded state is found by the lookup of `cJSON_GetObjectItem`. -/
theorem lookup_record {root : Item} (h : FirstNotNull root.child) (v : CStr) :
    ∃ i, cjsonGetObjectItem (some (root.withChild (record v root.child))) jsonKey = some i ∧
      (root.withChild (record v root.child)).child[i]? = some (stateMember v) := by
  have hfind := find?_record h v
  rw [List.find?_eq_bind_findIdx?_getElem?, Option.bind_eq_some_iff] at hfind
  obtain ⟨i, hi, hmember⟩ := hfind
  refine ⟨i, ?_⟩
  rw [cjsonGetObjectItem_eq, Item.child_withChild]
  exact ⟨hi, hmember⟩

theorem namesKey_of_string {e : Item} (h : e.string = some jsonKey) : namesKey e := by
  simp [namesKey, sameName, h]

/-- Recording a state adds a member of this key, unless the state takes the place of one. -/
theorem keyCount_record {child : List Item} (h : FirstNotNull child) (v : CStr) :
    keyCount (record v child) =
      keyCount child +
        if (child.find? namesKey).any fun e => e.string = some jsonKey then 0 else 1 := by
  rw [record_of_notNull h, keyCount, countP_upsert (by simp [stateMember])]
  rfl

theorem keyCount_record_le_one {child : List Item} (h : FirstNotNull child) (v : CStr)
    (hone : keyCount child ≤ 1) :
    keyCount (record v child) =
      if (child.find? namesKey).any fun e => e.string ≠ some jsonKey then keyCount child + 1
        else 1 := by
  rw [keyCount_record h]
  cases he : child.find? namesKey with
  | none =>
      have hnone : ∀ x ∈ child, ¬namesKey x := by simpa using he
      have hzero : keyCount child = 0 := by
        refine List.countP_eq_zero.mpr fun x hx hkey => hnone x hx ?_
        exact namesKey_of_string (by simpa using hkey)
      simp [hzero]
  | some e =>
      by_cases hkey : e.string = some jsonKey
      · have hpos : 0 < keyCount child :=
          List.countP_pos_iff.mpr ⟨e, List.mem_of_find?_eq_some he, by simp [hkey]⟩
        simp only [Option.any_some, hkey, decide_true, ↓reduceIte, ne_eq,
          not_true_eq_false, decide_false, Bool.false_eq_true]
        omega
      · simp [hkey]

theorem reread_stateMember (v : CStr) : reread (stateMember v) = stateMember v := reread_string v _

/-- What was recorded is found again by the parser. -/
theorem find?_reread_record {child : List Item} (h : FirstNotNull child) (v : CStr) :
    ((record v child).map reread).find? namesKey = some (stateMember v) := by
  have hnames : namesKey ∘ reread = namesKey := by
    funext e
    simp [namesKey, sameName]
  rw [List.find?_map, hnames, find?_record h, Option.map_some, reread_stateMember]

/-! ## The members without the recorded one -/

def isOther (e : Item) : Bool := e.string ≠ some jsonKey

theorem isOther_stateMember (v : CStr) : isOther (stateMember v) = false := by
  simp [isOther, stateMember]

/-- The members that recording a state leaves alone. -/
def others (child : List Item) : List Item :=
  (if (child.find? namesKey).any isNull then child else child.eraseP namesKey).filter isOther

theorem others_of_notNull {child : List Item} (h : FirstNotNull child) :
    others child = (child.eraseP namesKey).filter isOther := by
  unfold others
  cases he : child.find? namesKey with
  | none => rfl
  | some e => simp [h e he]

theorem others_of_null {child : List Item} {e : Item} (he : child.find? namesKey = some e)
    (hnull : isNull e) :
    others child = child.filter isOther := by
  simp [others, he, hnull]

theorem filter_record (v : CStr) (child : List Item) :
    (record v child).filter isOther = others child := by
  rcases firstNotNull_or child with h | ⟨e, he, hnull⟩
  · rw [record_of_notNull h, others_of_notNull h, filter_upsert (isOther_stateMember v)]
  · rw [record_of_null he hnull, others_of_null he hnull, List.filter_append]
    simp [isOther_stateMember]

theorem others_record (v : CStr) (child : List Item) : others (record v child) = others child := by
  rcases firstNotNull_or child with h | ⟨e, he, hnull⟩
  · rw [others_of_notNull (firstNotNull_record h v), others_of_notNull h, record_of_notNull h,
      eraseP_upsert (namesKey_stateMember v)]
  · have he' : (record v child).find? namesKey = some e := by
      rw [record_of_null he hnull, List.find?_append, he]; rfl
    rw [others_of_null he' hnull, filter_record]

/-- What holds of the members and of the recorded state holds of all members afterwards. -/
theorem forall_mem_record {P : Item → Prop} {v : CStr} {child : List Item} (hstate : P (stateMember v))
    (hchild : ∀ c ∈ child, P c) : ∀ c ∈ record v child, P c := by
  intro c hc
  unfold record at hc
  split at hc
  · rcases List.mem_append.mp hc with hc | hc
    · exact hchild c hc
    · exact List.mem_singleton.mp hc ▸ hstate
  · rcases mem_upsert hc with rfl | hc
    · exact hstate
    · exact hchild c hc

/-! ## Well-formedness -/

theorem printable_record {root : Item} (h : root.Printable) (v : CStr) :
    (root.withChild (record v root.child)).Printable := by
  obtain ⟨hkind, hchild⟩ := h
  exact .mk hkind (forall_mem_record (.mk (by simp) (by simp)) hchild)

theorem wellFormed_record {n : ℕ} {root : Item} (h : root.WellFormed n) (hobj : root.kind = .object)
    (v : CStr) :
    (root.withChild (record v root.child)).WellFormed n := by
  cases h with
  | scalar hkind => simp only [Item.kind_mk] at hobj; subst hobj; exact hkind.elim
  | array => cases hobj
  | object hname hchild =>
      have hstate : (stateMember v).string ≠ none := by simp [stateMember]
      exact .object (forall_mem_record hstate hname) (forall_mem_record (.scalar trivial) hchild)

theorem integral_record {root : Item} (h : root.Integral) (v : CStr) :
    (root.withChild (record v root.child)).Integral := by
  obtain ⟨hkind, hchild⟩ := h
  exact .mk hkind (forall_mem_record (.mk (by simp) (by simp)) hchild)

end CppJson
