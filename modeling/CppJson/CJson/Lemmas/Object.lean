import CppJson.CJson.Object
import CppJson.CJson.Document
import CppJson.Lib.Upsert

/-!
# Lookup in an object
-/

namespace CppJson

-- the checks over all 256 bytes
set_option maxRecDepth 4000

/-- The names that `case_insensitive_strcmp` takes for `name`. -/
def sameName (name : CStr) (e : Item) : Bool :=
  match e.string with
  | none => false
  | some s => s.bytes.map tolower = name.bytes.map tolower

theorem tolower_ne_zero : ∀ c : UInt8, c ≠ 0 → (tolower c).toNat ≠ 0 :=
  forall_byte (by decide)

theorem compareInsensitive_eq_zero (s t : List UInt8) (hs : 0 ∉ s) (ht : 0 ∉ t) :
    compareInsensitive s t = 0 ↔ t.map tolower = s.map tolower := by
  induction s generalizing t with
  | nil =>
      cases t with
      | nil => simp [compareInsensitive]
      | cons c t =>
          have := tolower_ne_zero c fun h => ht (h ▸ List.mem_cons_self)
          simp only [compareInsensitive, List.map_cons, List.map_nil, reduceCtorEq, iff_false]
          omega
  | cons c s ih =>
      cases t with
      | nil =>
          have := tolower_ne_zero c fun h => hs (h ▸ List.mem_cons_self)
          simp only [compareInsensitive, List.map_cons, List.map_nil, reduceCtorEq, iff_false]
          omega
      | cons c' t =>
          simp only [compareInsensitive, List.map_cons, List.cons.injEq]
          split
          · rename_i heq
            rw [ih t (fun h => hs (List.mem_cons_of_mem _ h)) fun h => ht (List.mem_cons_of_mem _ h)]
            simp [heq]
          · rename_i hne
            have hne' : (tolower c).toNat ≠ (tolower c').toNat := fun h => hne (UInt8.toNat_inj.mp h)
            simp only [Ne.symm hne, false_and, iff_false]
            omega

theorem caseInsensitiveStrcmp_eq_zero (name : CStr) (e : Item) :
    decide (caseInsensitiveStrcmp (some name) e.string = 0) = sameName name e := by
  unfold sameName
  cases h : e.string with
  | none => rfl
  | some s => simp [caseInsensitiveStrcmp, compareInsensitive_eq_zero _ _ name.nul_free s.nul_free]

/-- `cJSON_GetObjectItem` finds the first member of that name. -/
theorem cjsonGetObjectItem_eq (o : Item) (name : CStr) :
    cjsonGetObjectItem (some o) name = o.child.findIdx? (sameName name) := by
  have hfun : (fun e : Item => decide (caseInsensitiveStrcmp (some name) e.string = 0)) =
    sameName name :=
    funext fun e => caseInsensitiveStrcmp_eq_zero name e
  simp only [cjsonGetObjectItem, getObjectItem, Bool.false_eq_true, ↓reduceIte, hfun,
    Option.bind_eq_bind, Option.bind_some]
  cases hi : o.child.findIdx? (sameName name) with
  | none => rfl
  | some i =>
      obtain ⟨hlt, hp, -⟩ := List.findIdx?_eq_some_iff_getElem.mp hi
      have hstring : o.child[i].string ≠ none := by
        intro h
        simp [sameName, h] at hp
      simp [List.getElem?_eq_getElem hlt, hstring]

theorem cjsonReplaceItemInObject_eq {o : Item} {name : CStr} (newitem : Item) {i : ℕ}
    (h : o.child.findIdx? (sameName name) = some i) :
    cjsonReplaceItemInObject (some o) name newitem =
      some (o.withChild (upsert (sameName name) (newitem.withString name) o.child)) := by
  have hfound : getObjectItem (some o) name false = some i := (cjsonGetObjectItem_eq o name).trans h
  simp only [cjsonReplaceItemInObject, replaceItemInObject, hfound, cjsonReplaceItemViaPointer,
    Option.map_some, upsert_eq_findIdx, h]

end CppJson
