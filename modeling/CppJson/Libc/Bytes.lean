import Mathlib.Data.List.TakeWhile
import CppJson.Lib.Ascii

/-!
# C strings

The program handles text as `unsigned char`. A C string ends at its first NUL byte, so `CStr` keeps
the bytes in front of it, and no value of the type contains a NUL.
-/

namespace CppJson

/-- What a `char *` points at: the bytes in front of the terminating NUL. -/
structure CStr where
  bytes : List UInt8
  nul_free : 0 ∉ bytes
deriving DecidableEq

/-- Reading a byte buffer as a C string stops at the first NUL. -/
def cstr (raw : List UInt8) : CStr where
  bytes := raw.takeWhile (· ≠ 0)
  nul_free := fun h => by simpa using List.mem_takeWhile_imp h

theorem CStr.ext_bytes {s t : CStr} (h : s.bytes = t.bytes) : s = t := by
  cases s; cases t; simp_all

theorem takeWhile_ne_nul {raw : List UInt8} (h : 0 ∉ raw) : raw.takeWhile (· ≠ 0) = raw := by
  rw [List.takeWhile_eq_self_iff]
  intro b hb
  simpa using fun h0 : b = 0 => h (h0 ▸ hb)

theorem cstr_of_nul_free {raw : List UInt8} (h : 0 ∉ raw) : (cstr raw).bytes = raw := takeWhile_ne_nul h

@[simp] theorem cstr_bytes (s : CStr) : cstr s.bytes = s := CStr.ext_bytes (takeWhile_ne_nul s.nul_free)

/-- `tolower` in the C locale. -/
def tolower (b : UInt8) : UInt8 := if byte 'A' ≤ b ∧ b ≤ byte 'Z' then b + 32 else b

end CppJson
