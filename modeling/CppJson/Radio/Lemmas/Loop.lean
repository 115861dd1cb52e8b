import CppJson.Radio.Lemmas.Log

/-!
# The command loop

A property that every call of `DT_Run` keeps, and that gives what is wanted where the document
cannot be printed, holds through the whole program (`main_post`).
-/

namespace CppJson

section Invariant

variable {I : RadioWorld → Prop} {E : Fault RadioFault → RadioWorld → Prop}
  (hrun : ∀ e w, I w → ((dtRun e).run w).Post (fun _ => I) E)
  (hprint : ∀ why w, I w → cjsonPrint w.mem.root = .error why → E (.app (.nullString why)) w)

include hprint in
theorem streamRoot_post {w : RadioWorld} (hw : I w) : (streamRoot.run w).Post (fun _ => I) E := by
  simp only [streamRoot, Prog.run_get_bind]
  cases h : cjsonPrint w.mem.root with
  | ok res => exact hw
  | error why => exact hprint why w hw h

include hrun hprint

theorem loopBody_post (input : UInt8) {w : RadioWorld} (hw : I w) :
    ((loopBody input).run w).Post (fun _ => I) E := by
  unfold loopBody
  cases command input with
  | none => exact streamRoot_post hprint hw
  | some e => exact Prog.post_bind (hrun e w hw) fun _ w' hw' => streamRoot_post hprint hw'

theorem commandLoop_post (inputs : List UInt8) {w : RadioWorld} (hw : I w) :
    ((commandLoop inputs).run w).Post (fun _ => I) E := by
  induction inputs generalizing w with
  | nil => exact hw
  | cons input inputs ih =>
      rw [commandLoop]
      split
      · exact hw
      · exact Prog.post_bind (loopBody_post hrun hprint input hw) fun _ w' hw' => ih hw'

theorem main_post {file : Option (List UInt8)} {writes : List WriteOutcome}
    (hinit : I (initWorld (loadMemory file writes))) (inputs : List UInt8) :
    (main file writes inputs).Post (fun _ => I) E := by
  simp only [main, dtInit_eq]
  exact commandLoop_post hrun hprint inputs hinit

end Invariant

/-! ## Without a document -/

theorem loopBody_null (input : UInt8) {w : RadioWorld} (hidle : Idle w) (hroot : w.mem.root = none) :
    ((loopBody input).run w).Post (fun _ _ => False) fun f _ =>
      f = .app (.nullString .notPrintable) := by
  have hstream : ∀ w : RadioWorld, w.mem.root = none →
      (streamRoot.run w).Post (fun _ _ => False) fun f _ => f = .app (.nullString .notPrintable) := by
    intro w hroot
    simp only [streamRoot, Prog.run_get_bind, hroot, cjsonPrint]
    rfl
  unfold loopBody
  cases command input with
  | none => exact hstream w hroot
  | some e => exact Prog.post_bind (dtRun_null hidle hroot e) fun _ w' hw' => hstream w' hw'.2

end CppJson
