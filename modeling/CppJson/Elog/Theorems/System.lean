import CppJson.Elog.Theorems.Async
import CppJson.Elog.Theorems.Logger

/-!
# From `elog_output` to `elog_port_output`
-/

namespace CppJson

variable {N pollSize : ℕ} {lineBuf logBuf : ℕ → UInt8} {calls : List ElogAct} {acts : List AsyncAct}
  {l : EasyLogger} {s : Async}

end CppJson
