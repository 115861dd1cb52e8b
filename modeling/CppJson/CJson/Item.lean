import CppJson.Libc.Double

/-!
# The cJSON tree

A `cJSON` node without its links: `child` is the chain of `next` pointers as a list. No function of
the program sets `cJSON_IsReference` or `cJSON_StringIsConst`, so the type holds neither flag.
-/

namespace CppJson

/-- What `parse_number` stores: the `double`, and the `int` it saturates to. -/
structure Number where
  valuedouble : Double
  valueint : ℤ
  saturated : valueint = saturate valuedouble

def Number.ofDouble (d : Double) : Number := ⟨d, saturate d, rfl⟩

theorem Number.eq_ofDouble (n : Number) : n = .ofDouble n.valuedouble := by
  obtain ⟨d, i, rfl⟩ := n; rfl

/-- The `type` of a node, with the payload that goes with it. -/
inductive Kind where
  | invalid
  | false
  | true
  | null
  | number (n : Number)
  | string (valuestring : CStr)
  | array
  | object
  | raw (valuestring : CStr)

/-- A node; `string` is the member's name, NULL outside objects. -/
inductive Item where
  | mk (kind : Kind) (string : Option CStr) (child : List Item)

namespace Item

def kind : Item → Kind
  | mk kind _ _ => kind

def string : Item → Option CStr
  | mk _ string _ => string

def child : Item → List Item
  | mk _ _ child => child

def withString : Item → CStr → Item
  | mk kind _ child, s => mk kind (some s) child

def withChild : Item → List Item → Item
  | mk kind string _, child => mk kind string child

@[simp] theorem kind_mk (k s c) : (mk k s c).kind = k := rfl
@[simp] theorem string_mk (k s c) : (mk k s c).string = s := rfl
@[simp] theorem child_mk (k s c) : (mk k s c).child = c := rfl
@[simp] theorem kind_withChild (i : Item) (c) : (i.withChild c).kind = i.kind := by cases i; rfl
@[simp] theorem string_withChild (i : Item) (c) : (i.withChild c).string = i.string := by cases i; rfl
@[simp] theorem child_withChild (i : Item) (c) : (i.withChild c).child = c := by cases i; rfl
@[simp] theorem withChild_withChild (i : Item) (c c') :
    (i.withChild c).withChild c' = i.withChild c' := by
  cases i; rfl

end Item

end CppJson
