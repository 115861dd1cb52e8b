import CppJson.CJson.Item

/-!
# Members of a cJSON object

A pointer to a child is its position in the chain, and a function that changes an object in place
returns the changed object. A NULL object is `none`.
-/

namespace CppJson

/-- The loop of `case_insensitive_strcmp`, and its result, on two strings without their NUL. -/
def compareInsensitive : List UInt8 → List UInt8 → ℤ
  | [], [] => 0
  | [], b :: _ => 0 - (tolower b).toNat
  | a :: _, [] => (tolower a).toNat
  | a :: as, b :: bs =>
      if tolower a = tolower b then compareInsensitive as bs else (tolower a).toNat - (tolower b).toNat

/-- `case_insensitive_strcmp`: two NULL pointers are not equal. -/
def caseInsensitiveStrcmp (string1 string2 : Option CStr) : ℤ :=
  match string1, string2 with
  | some s, some t => compareInsensitive s.bytes t.bytes
  | _, _ => 1

def getObjectItem (object : Option Item) (name : CStr) (caseSensitive : Bool) : Option ℕ := do
  let object ← object
  let i ←
    if caseSensitive then object.child.findIdx? fun e => e.string = none ∨ e.string = some name
    else object.child.findIdx? fun e => caseInsensitiveStrcmp (some name) e.string = 0
  let e ← object.child[i]?
  if e.string = none then none else some i

def cjsonGetObjectItem (object : Option Item) (string : CStr) : Option ℕ :=
  getObjectItem object string false

def addItemToArray (array : Option Item) (item : Item) : Option Item :=
  array.map fun a => a.withChild (a.child ++ [item])

def addItemToObject (object : Option Item) (string : CStr) (item : Item) : Option Item :=
  addItemToArray object (item.withString string)

def cjsonCreateString (string : CStr) : Item := .mk (.string string) none []

def cjsonAddStringToObject (object : Option Item) (name string : CStr) : Option Item :=
  addItemToObject object name (cjsonCreateString string)

def cjsonReplaceItemViaPointer (parent : Option Item) (item : Option ℕ) (replacement : Item) :
    Option Item :=
  match item with
  | none => parent
  | some i => parent.map fun o => o.withChild (o.child.set i replacement)

def replaceItemInObject (object : Option Item) (string : CStr) (replacement : Item)
    (caseSensitive : Bool) :
    Option Item :=
  cjsonReplaceItemViaPointer object (getObjectItem object string caseSensitive)
    (replacement.withString string)

def cjsonReplaceItemInObject (object : Option Item) (string : CStr) (newitem : Item) : Option Item :=
  replaceItemInObject object string newitem false

end CppJson
