import CppJson.Radio.Lemmas.Run

/-!
# The document and the file over whole runs

The document stays one that the parser could have given, and after the first transition the file
holds its print.
-/

namespace CppJson

open Json

/-! ## Documents of the program -/

/-- The shape of a document whose root is an object, as it is parsed. -/
structure Loaded (item : Item) : Prop where
  wellFormed : item.WellFormed nestingLimit
  string : item.string = none
  kind : item.kind = .object

theorem loaded_of_cjsonParse {value : CStr} {root : Item} (h : cjsonParse value = some root)
    (hobj : root.kind = .object) : Loaded root :=
  ⟨(wellFormed_of_cjsonParse h).1, (wellFormed_of_cjsonParse h).2, hobj⟩

theorem Loaded.record {item : Item} (h : Loaded item) (v : CStr) :
    Loaded (item.withChild (record v item.child)) where
  wellFormed := wellFormed_record h.wellFormed h.kind v
  string := by rw [Item.string_withChild, h.string]
  kind := by rw [Item.kind_withChild, h.kind]

theorem Loaded.named {item : Item} (h : Loaded item) : ∀ c ∈ item.child, c.string ≠ none := by
  obtain ⟨hwf, -, hkind⟩ := h
  cases hwf with
  | scalar hscalar => simp only [Item.kind_mk] at hkind; subst hkind; exact hscalar.elim
  | array => cases hkind
  | object hname => exact hname

theorem Loaded.eq_mk {item : Item} (h : Loaded item) : item = .mk .object none item.child := by
  obtain ⟨kind, string, child⟩ := item
  obtain ⟨-, hstring, hkind⟩ := h
  simp only [Item.kind_mk, Item.string_mk] at hkind hstring
  rw [hkind, hstring, Item.child_mk]

theorem Loaded.reread {item : Item} {res : CStr} (h : Loaded item)
    (hprint : cjsonPrint (some item) = .ok res) :
    IsText res.bytes (.object (toMembers item.child)) ∧
    cjsonParse (cstr res.bytes) = some (item.withChild (item.child.map CppJson.reread)) := by
  obtain ⟨htext, hparse⟩ := cjsonParse_print h.wellFormed h.string hprint
  have heq := h.eq_mk
  have hread : CppJson.reread item = item.withChild (item.child.map CppJson.reread) := by
    rw [heq]
    exact reread_object h.named
  have hjson : toJson item = .object (toMembers item.child) := by
    rw [heq]
    rfl
  rw [cstr_bytes, hparse, hread, ← hjson]
  exact ⟨htext, rfl⟩

/-! ## Runs -/

/-- What holds of the document found and is kept by recording a state holds at every point of a
run. -/
theorem Steps.doc_invariant {mem : Memory} {root : Item} {es : List HsmEvent} {w : RadioWorld}
    {P : Item → Prop} (h : Steps (initWorld mem) es w) (hroot : mem.root = some root) (hP : P root)
    (hrecord : ∀ item v, P item → P (item.withChild (record v item.child))) :
    ∃ item, w.mem.root = some item ∧ P item := by
  induction h with
  | nil => exact ⟨root, hroot, hP⟩
  | snoc _ hran ih =>
      obtain ⟨item, hitem, hPitem⟩ := ih
      rcases hran.doc with ⟨-, hsame⟩ | ⟨-, hrec⟩
      · exact ⟨item, by rw [hsame.root, hitem], hPitem⟩
      · exact ⟨_, by rw [hrec.root, hitem, displayRoot_eq], hrecord item _ hPitem⟩

theorem Steps.null {mem : Memory} {es : List HsmEvent} {w : RadioWorld} (h : Steps (initWorld mem) es w)
    (hroot : mem.root = none) : w.mem.root = none ∧ transitions w.trace = [] := by
  induction h with
  | nil => exact ⟨hroot, rfl⟩
  | snoc _ hran ih =>
      obtain ⟨hnull, htrans⟩ := ih
      rcases hran.doc with ⟨htrans', hsame⟩ | ⟨-, hrec⟩
      · exact ⟨by rw [hsame.root, hnull], by rw [htrans', htrans]⟩
      · obtain ⟨res, hprint, -⟩ := hrec.file
        rw [hrec.root, hnull, displayRoot_none] at hprint
        cases hprint

/-- Behind a transition the document records the current state, and the file holds its print. -/
theorem Steps.recorded {mem : Memory} {root : Item} {es : List HsmEvent} {w : RadioWorld}
    {P : Item → Prop} (h : Steps (initWorld mem) es w) (hroot : mem.root = some root)
    (hwrites : mem.writes = []) (hP : P root)
    (hrecord : ∀ item v, P item → P (item.withChild (record v item.child)))
    (hsome : transitions w.trace ≠ []) :
    ∃ item res, w.mem.root = some (item.withChild (record (stateName w.curState) item.child)) ∧ P item ∧
      cjsonPrint w.mem.root = .ok res ∧ w.mem.file = some res.bytes := by
  obtain ⟨es₁, w₁, hsteps₁, hrec⟩ := steps_recorded h hsome
  obtain ⟨item, hitem, hPitem⟩ := hsteps₁.doc_invariant hroot hP hrecord
  obtain ⟨res, hprint, hfile⟩ := hrec.saved (steps_writes hsteps₁ hwrites)
  exact ⟨item, res, by rw [hrec.root, hitem, displayRoot_eq], hPitem, hprint, hfile⟩

/-- A run that died has left the file as it was in front of the last event. -/
theorem afterRun_eq (file : Option (List UInt8)) (es : List HsmEvent) :
    ∃ es₁ w, Steps (initWorld (loadMemory file [])) es₁ w ∧ afterRun file es = w.mem.file := by
  unfold afterRun
  cases hrun : session (loadMemory file []) es with
  | ok _ w => exact ⟨es, w, session_eq_ok.mp hrun, rfl⟩
  | stop f w =>
      obtain ⟨pre, e, post, w₁, -, hsteps, -, t, why, -, -, -, rfl⟩ := session_eq_stop hrun
      exact ⟨pre, w₁, hsteps, rfl⟩

theorem afterRun_singleton {text : List UInt8} {root : Item} {e : HsmEvent} {t : StateRef}
    (hparse : cjsonParse (cstr text) = some root) (hnext : next .dtsNormal e = some t)
    (hfits : (render true 0 (root.withChild (record (stateName t) root.child))).length + 2 ≤ intMax) :
    ∃ res, cjsonPrint (some (root.withChild (record (stateName t) root.child))) = .ok res ∧
      afterRun (some text) [e] = some res.bytes := by
  have hrun :=
    print_run (printable_record (wellFormed_of_cjsonParse hparse).1.printable (stateName t)) true
  rw [if_pos hfits] at hrun
  obtain ⟨res, hres, -⟩ := hrun
  have hprint : cjsonPrint (displayRoot (loadMemory (some text) []).root (stateName t)) = .ok res := by
    rw [(root_loadMemory (some text) []).trans hparse, displayRoot_eq]
    exact hres
  refine ⟨res, hres, ?_⟩
  have hstep := dtRun_ok (w := initWorld (loadMemory (some text) [])) rfl hnext hprint
  rw [afterRun, session_eq, Prog.runAll_cons, Prog.run_bind_ok hstep]
  rfl

/-! ## Starting again -/

/-- A document in which every state that is recorded will be found. -/
structure Recordable (item : Item) : Prop extends Loaded item where
  first : FirstNotNull item.child

theorem Recordable.record {item : Item} (h : Recordable item) (v : CStr) :
    Recordable (item.withChild (record v item.child)) where
  toLoaded := h.toLoaded.record v
  first := by
    rw [Item.child_withChild]
    exact firstNotNull_record h.first v

/-- The parser finds the recorded state in the print. -/
theorem Recordable.reread {item : Item} {v res : CStr} (h : Recordable item)
    (hprint : cjsonPrint (some (item.withChild (CppJson.record v item.child))) = .ok res) :
    ∃ again, cjsonParse (cstr res.bytes) = some again ∧ Recordable again ∧
      again.child.find? namesKey = some (stateMember v) := by
  have hdoc := h.toLoaded.record v
  have hparse := (hdoc.reread hprint).2
  have hloaded := loaded_of_cjsonParse hparse (by rw [Item.kind_withChild, hdoc.kind])
  have hfind := find?_reread_record h.first v
  simp only [Item.child_withChild] at hparse hloaded
  refine ⟨_, hparse, ⟨hloaded, fun e he => ?_⟩, by rw [Item.child_withChild, hfind]⟩
  rw [Item.child_withChild, hfind, Option.some.injEq] at he
  exact he ▸ isNull_stateMember v

def Restartable (file : Option (List UInt8)) : Prop :=
  ∃ root, cjsonParse (cstr (readFile file).2) = some root ∧ Recordable root

theorem Restartable.afterRun {file : Option (List UInt8)} (h : Restartable file) (es : List HsmEvent) :
    Restartable (afterRun file es) := by
  obtain ⟨root, hparse, hroot⟩ := h
  obtain ⟨es₁, w, hsteps, hfile⟩ := afterRun_eq file es
  rw [hfile]
  by_cases hnone : transitions w.trace = []
  · rw [(steps_untouched hsteps hnone).file]
    exact ⟨root, hparse, hroot⟩
  · obtain ⟨item, res, hdoc, hitem, hprint, hfile⟩ :=
      hsteps.recorded hparse rfl hroot (fun item v h => h.record v) hnone
    rw [hdoc] at hprint
    obtain ⟨again, hread, hagain, -⟩ := hitem.reread hprint
    rw [hfile]
    exact ⟨again, hread, hagain⟩

theorem Restartable.foldl {file : Option (List UInt8)} (h : Restartable file)
    (earlier : List (List HsmEvent)) :
    Restartable (earlier.foldl CppJson.afterRun file) := by
  induction earlier generalizing file with
  | nil => exact h
  | cons es earlier ih => exact ih (h.afterRun es)

/-! ## Members of the text -/

theorem ofMembers_eq_map (ms : List (List Chr × Json)) :
    ofMembers ms = ms.map fun m => ofJson (some (keyOf m)) m.2 := by
  induction ms with
  | nil => rfl
  | cons m ms ih =>
      obtain ⟨name, x⟩ := m
      rw [ofMembers, ih]
      rfl

theorem toMembers_eq_map (items : List Item) :
    toMembers items = items.map fun item => (chars (memberName item), toJson item) := by
  induction items with
  | nil => rfl
  | cons item items ih => rw [toMembers, ih]; rfl

theorem namesKey_ofJson (m : List Chr × Json) :
    namesKey (ofJson (some (keyOf m)) m.2) = textNamesKey m := by
  simp [namesKey, sameName, textNamesKey]

theorem isOther_ofJson (m : List Chr × Json) :
    isOther (ofJson (some (keyOf m)) m.2) = textIsOther m := by
  simp [isOther, textIsOther]

theorem isNull_ofJson (string : Option CStr) (x : Json) : isNull (ofJson string x) ↔ x = .null := by
  cases x with
  | bool b => cases b <;> simp [ofJson, isNull]
  | _ => simp [ofJson, isNull]

/-- The members that recording a state leaves alone, in the text and in the tree. -/
theorem others_ofMembers (ms : List (List Chr × Json)) :
    others (ofMembers ms) = ofMembers ((unrecorded ms).filter textIsOther) := by
  have hnames : (namesKey ∘ fun m : List Chr × Json => ofJson (some (keyOf m)) m.2) = textNamesKey :=
    funext namesKey_ofJson
  have hother : (isOther ∘ fun m : List Chr × Json => ofJson (some (keyOf m)) m.2) = textIsOther :=
    funext isOther_ofJson
  rw [others, ofMembers_eq_map, ofMembers_eq_map, List.find?_map, List.eraseP_map, hnames]
  cases hfind : ms.find? textNamesKey with
  | none => simp [unrecorded, hfind, List.filter_map, hother]
  | some m =>
      obtain ⟨name, x⟩ := m
      by_cases hx : x = .null
      · subst hx
        simp [unrecorded, hfind, List.filter_map, hother, isNull_ofJson]
      · simp [unrecorded, hfind, List.filter_map, hother, isNull_ofJson, hx]

theorem filter_toMembers {items : List Item} (h : ∀ c ∈ items, c.string ≠ none) :
    (toMembers items).filter textIsOther = toMembers (items.filter isOther) := by
  rw [toMembers_eq_map, toMembers_eq_map, List.filter_map]
  congr 1
  refine List.filter_congr fun c hc => ?_
  obtain ⟨s, hs⟩ := Option.ne_none_iff_exists'.mp (h c hc)
  simp [textIsOther, isOther, keyOf, decode_chars, memberName, hs]

end CppJson
