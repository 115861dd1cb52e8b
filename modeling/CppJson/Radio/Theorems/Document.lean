import CppJson.Radio.Lemmas.Document

/-!
# What becomes of the document

What one update does to the document, and the results about whole runs: the document tells the state
and nothing else of it changes, the file holds its print, and the next start of the program reads it
back.
-/

namespace CppJson

open Json

variable {text : List UInt8} {root : Item}

/-! ## One update -/

/-- What is recorded is found, the value recorded last is the one that counts, and a document with
at most one member `dt` has one afterwards, or one more when the state took the place of a member in
other letters. -/
theorem display_updates_keyed_field (hfirst : FirstNotNull root.child) (v w : CStr) :
    (∃ root' i item, displayRoot (some root) v = some root' ∧
      cjsonGetObjectItem (some root') jsonKey = some i ∧ root'.child[i]? = some item ∧
        item.kind = .string v) ∧
    displayRoot (displayRoot (some root) v) w = displayRoot (some root) w ∧
    (keyCount root.child ≤ 1 → ∃ root', displayRoot (some root) v = some root' ∧
      keyCount root'.child =
        if (root.child.find? namesKey).any fun e => e.string ≠ some jsonKey then
          keyCount root.child + 1
        else 1) := by
  refine ⟨?_, ?_, fun hone => ⟨_, displayRoot_eq root v, ?_⟩⟩
  · obtain ⟨i, hi, hitem⟩ := lookup_record hfirst v
    exact ⟨_, i, stateMember v, displayRoot_eq root v, hi, hitem, rfl⟩
  · simp only [displayRoot_eq, Item.child_withChild, Item.withChild_withChild, record_record hfirst]
  · rw [Item.child_withChild, keyCount_record_le_one hfirst v hone]

theorem display_updates_keyed_field_emptyObject :
    (∃ root' i item, displayRoot (some emptyObject) jsonDamage = some root' ∧
      cjsonGetObjectItem (some root') jsonKey = some i ∧ root'.child[i]? = some item ∧
      item.kind = .string jsonDamage) ∧
    displayRoot (displayRoot (some emptyObject) jsonDamage) jsonJoin =
      displayRoot (some emptyObject) jsonJoin ∧
    (keyCount emptyObject.child ≤ 1 → ∃ root', displayRoot (some emptyObject) jsonDamage = some root' ∧
      keyCount root'.child =
        if (emptyObject.child.find? namesKey).any fun e => e.string ≠ some jsonKey then
          keyCount emptyObject.child + 1
        else 1) :=
  display_updates_keyed_field (by simp [FirstNotNull, emptyObject]) jsonDamage jsonJoin

def nullText : List UInt8 := ascii "\x7b\"dt\":null\x7d"

def nullMembers : List (List Chr × Json) := [(chars (ascii "dt"), .null)]

theorem isText_nullText : IsText nullText (.object nullMembers) := by
  have hmember := IsMembers.one isWs_nil (valid_chars (ascii "dt")) isWs_nil isWs_nil .null isWs_nil
  exact ⟨[], _, [], rfl, isWs_nil, .object hmember, isWs_nil⟩

theorem cjsonParse_nullText :
    cjsonParse (cstr nullText) = some (.mk .object none (ofMembers nullMembers)) :=
  (cjsonParse_text isText_nullText).1 ⟨paired_chars _, trivial, trivial⟩

/-- A text with the key in capital letters in front of the key. -/
def twiceText : List UInt8 := ascii "\x7b\"DT\":\"x\",\"dt\":\"y\"\x7d"

def twiceMembers : List (List Chr × Json) :=
  [(chars (ascii "DT"), .string (chars (ascii "x"))), (chars (ascii "dt"), .string (chars (ascii "y")))]

theorem isText_twiceText : IsText twiceText (.object twiceMembers) := by
  have hx := IsValue.string (valid_chars (ascii "x"))
  have hy := IsValue.string (valid_chars (ascii "y"))
  have hmember := IsMembers.one isWs_nil (valid_chars (ascii "dt")) isWs_nil isWs_nil hy isWs_nil
  have hmembers :=
    IsMembers.cons isWs_nil (valid_chars (ascii "DT")) isWs_nil isWs_nil hx isWs_nil hmember
  exact ⟨[], _, [], rfl, isWs_nil, .object hmembers, isWs_nil⟩

theorem cjsonParse_twiceText :
    cjsonParse (cstr twiceText) = some (.mk .object none (ofMembers twiceMembers)) :=
  (cjsonParse_text isText_twiceText).1 ⟨paired_chars _, paired_chars _, paired_chars _,
    paired_chars _, trivial⟩

/-- A `null` under the key stays in front of the recorded state, and a document with one member `dt`
has two after a state took the place of `DT`. -/
theorem null_hides_state_and_capital_key_doubles :
    (∃ root, cjsonParse (cstr nullText) = some root ∧ root.kind = .object ∧
      ∃ root' item, displayRoot (some root) jsonDamage = some root' ∧
        cjsonGetObjectItem (some root') jsonKey = some 0 ∧ root'.child[0]? = some item ∧
          item.kind = .null) ∧
    ∃ root, cjsonParse (cstr twiceText) = some root ∧ root.kind = .object ∧ keyCount root.child = 1 ∧
      ∃ root', displayRoot (some root) jsonDamage = some root' ∧ keyCount root'.child = 2 := by
  refine ⟨⟨_, cjsonParse_nullText, rfl, _, .mk .null (some jsonKey) [], displayRoot_eq _ _, ?_, ?_⟩,
    ⟨_, cjsonParse_twiceText, rfl, ?_, _, displayRoot_eq _ _, ?_⟩⟩
  · rw [cjsonGetObjectItem_eq]
    rfl
  · exact ⟨rfl, rfl⟩
  · decide
  · decide

/-! ## A canonical document -/

/-- After a transition the document is the one found, with the current state in the place of the
first member under the key or, when there is none, at the end, and the file holds its print. So the
file depends on the current state only. -/
theorem document_depends_on_state (hparse : cjsonParse (cstr text) = some root)
    (hfirst : FirstNotNull root.child) :
    (∀ es, BufferSuffices (session (loadMemory (some text) []) es) →
      ∃ w, session (loadMemory (some text) []) es = .ok () w ∧
        (transitions w.trace ≠ [] →
          (∀ pre x post, root.child = pre ++ x :: post → (∀ y ∈ pre, namesKey y = false) → namesKey x →
            w.mem.root = some (root.withChild (pre ++ stateMember (stateName w.curState) :: post))) ∧
          ((∀ x ∈ root.child, namesKey x = false) →
            w.mem.root = some (root.withChild (root.child ++ [stateMember (stateName w.curState)]))) ∧
          ∃ res, cjsonPrint w.mem.root = .ok res ∧ w.mem.file = some res.bytes)) ∧
    (∀ es es' w w', session (loadMemory (some text) []) es = .ok () w →
      session (loadMemory (some text) []) es' = .ok () w' → transitions w.trace ≠ [] →
        transitions w'.trace ≠ [] →
      w.curState = w'.curState → w.mem.file = w'.mem.file) := by
  have hroot : (loadMemory (some text) []).root = some root := hparse
  have hsaved : ∀ {es w}, session (loadMemory (some text) []) es = .ok () w → transitions w.trace ≠ [] →
      w.mem.root =
        some (root.withChild (upsert namesKey (stateMember (stateName w.curState)) root.child)) ∧
      ∃ res, cjsonPrint w.mem.root = .ok res ∧ w.mem.file = some res.bytes := by
    intro es w hw hsome
    have hsteps := session_eq_ok.mp hw
    obtain ⟨es₁, w₁, hsteps₁, hrec⟩ := steps_recorded hsteps hsome
    refine ⟨?_, hrec.saved (steps_writes hsteps₁ rfl)⟩
    rw [(steps_root hsteps hroot hfirst).2 hsome, record_of_notNull hfirst]
  constructor
  · intro es hfit
    obtain ⟨w, hw⟩ := session_returns hroot (wellFormed_of_cjsonParse hparse).1.printable hfit
    refine ⟨w, hw, fun hsome => ?_⟩
    obtain ⟨hdoc, hprint⟩ := hsaved hw hsome
    refine ⟨fun pre x post hchild hpre hx => ?_, fun hnone => ?_, hprint⟩
    · rw [hdoc, hchild, upsert_append_cons hpre hx]
    · rw [hdoc, upsert_of_none hnone]
  · intro es es' w w' hw hw' hsome hsome' hstate
    obtain ⟨hdoc, res, hprint, hfile⟩ := hsaved hw hsome
    obtain ⟨hdoc', res', hprint', hfile'⟩ := hsaved hw' hsome'
    have hres : res = res' := by
      rw [hdoc, hstate, ← hdoc', hprint', Except.ok.injEq] at hprint
      exact hprint.symm
    rw [hfile, hfile', hres]

theorem document_depends_on_state_emptyObject :
    (∀ es, BufferSuffices (session (loadMemory (some (ascii "\x7b\x7d")) []) es) →
      ∃ w, session (loadMemory (some (ascii "\x7b\x7d")) []) es = .ok () w ∧
        (transitions w.trace ≠ [] →
          (∀ pre x post, emptyObject.child = pre ++ x :: post → (∀ y ∈ pre, namesKey y = false) →
            namesKey x →
              w.mem.root =
                some (emptyObject.withChild (pre ++ stateMember (stateName w.curState) :: post))) ∧
          ((∀ x ∈ emptyObject.child, namesKey x = false) →
            w.mem.root = some
              (emptyObject.withChild (emptyObject.child ++ [stateMember (stateName w.curState)]))) ∧
          ∃ res, cjsonPrint w.mem.root = .ok res ∧ w.mem.file = some res.bytes)) ∧
    (∀ es es' w w', session (loadMemory (some (ascii "\x7b\x7d")) []) es = .ok () w →
      session (loadMemory (some (ascii "\x7b\x7d")) []) es' = .ok () w' → transitions w.trace ≠ [] →
      transitions w'.trace ≠ [] → w.curState = w'.curState → w.mem.file = w'.mem.file) :=
  document_depends_on_state cjsonParse_emptyObject (by simp [FirstNotNull, emptyObject])

/-! ## Saving and starting again -/

/-- The next start of the program gets the document that the run ended with. -/
theorem restart_reads_document (hparse : cjsonParse (cstr text) = some root)
    (hobj : root.kind = .object) (hint : root.Integral) (es : List HsmEvent)
    (hfit : BufferSuffices (session (loadMemory (some text) []) es)) :
    ∃ w, session (loadMemory (some text) []) es = .ok () w ∧
      (transitions w.trace ≠ [] → ∃ item, w.mem.root = some item ∧ (readFile w.mem.file).1 = true ∧
        cjsonParse (cstr (readFile w.mem.file).2) = some item) := by
  have hroot : (loadMemory (some text) []).root = some root := hparse
  obtain ⟨w, hw⟩ := session_returns hroot (wellFormed_of_cjsonParse hparse).1.printable hfit
  refine ⟨w, hw, fun hsome => ?_⟩
  have hP : Loaded root ∧ root.Integral := ⟨loaded_of_cjsonParse hparse hobj, hint⟩
  obtain ⟨item, res, hitem, ⟨hloaded, hint⟩, hprint, hfile⟩ :=
    (session_eq_ok.mp hw).recorded (P := fun item => Loaded item ∧ item.Integral) hroot rfl hP
      (fun item v h => ⟨h.1.record v, integral_record h.2 v⟩) hsome
  have hrec := hloaded.record (stateName w.curState)
  refine ⟨_, hitem, by rw [hfile]; rfl, ?_⟩
  rw [hitem] at hprint
  obtain ⟨-, hread⟩ := cjsonParse_print hrec.wellFormed hrec.string hprint
  rw [hfile]
  simp only [readFile, cstr_bytes, hread, reread_of_integral hrec.wellFormed (integral_record hint _)]

theorem restart_reads_document_emptyObject :
    ∃ w, session (loadMemory (some (ascii "\x7b\x7d")) []) [dteError] = .ok () w ∧
      (transitions w.trace ≠ [] → ∃ item, w.mem.root = some item ∧ (readFile w.mem.file).1 = true ∧
        cjsonParse (cstr (readFile w.mem.file).2) = some item) :=
  restart_reads_document cjsonParse_emptyObject rfl (.mk (by simp) (by simp)) _
    (bufferSuffices_emptyObject _ _)

/-! ## Runs one after the other -/

/-- Every run starts in DTS_NORMAL with the document found in the file. After its first transition
the first member under the key tells the current state, and so it does in the document that the next
run finds. -/
theorem state_recorded_after_transition (hparse : cjsonParse (cstr text) = some root)
    (hobj : root.kind = .object) (hfirst : FirstNotNull root.child) (earlier : List (List HsmEvent))
    (es : List HsmEvent)
    (hfit : BufferSuffices (session (loadMemory (earlier.foldl afterRun (some text)) []) es)) :
    ∃ w, session (loadMemory (earlier.foldl afterRun (some text)) []) es = .ok () w ∧
      (transitions w.trace = [] →
        w.curState = .dtsNormal ∧ w.mem.file = earlier.foldl afterRun (some text) ∧
          w.mem.root = cjsonParse (cstr (readFile w.mem.file).2)) ∧
      (transitions w.trace ≠ [] →
        (∃ item, w.mem.root = some item ∧ item.kind = .object ∧
          item.child.find? namesKey = some (stateMember (stateName w.curState))) ∧
        ∃ item, cjsonParse (cstr (readFile w.mem.file).2) = some item ∧ item.kind = .object ∧
          item.child.find? namesKey = some (stateMember (stateName w.curState))) := by
  have hstart : Restartable (some text) := ⟨root, hparse, loaded_of_cjsonParse hparse hobj, hfirst⟩
  obtain ⟨found, hfound, hinit⟩ := hstart.foldl earlier
  obtain ⟨w, hw⟩ := session_returns hfound hinit.wellFormed.printable hfit
  have hsteps := session_eq_ok.mp hw
  refine ⟨w, hw, fun hnone => ?_, fun hsome => ?_⟩
  · have hsame := steps_untouched hsteps hnone
    refine ⟨hsame.curState, hsame.file, ?_⟩
    rw [hsame.root, hsame.file]
    rfl
  · obtain ⟨item, res, hroot, hitem, hprint, hfile⟩ :=
      hsteps.recorded hfound rfl hinit (fun item v h => h.record v) hsome
    rw [hroot] at hprint
    obtain ⟨again, hread, hagain, hfind⟩ := hitem.reread hprint
    rw [hfile]
    refine ⟨⟨_, hroot, (hitem.record _).kind, ?_⟩, again, hread, hagain.kind, hfind⟩
    rw [Item.child_withChild, find?_record hitem.first]

/-- The document after a run that ended in DTS_MAINTENANCE. -/
theorem loaded_after_maintain :
    cjsonParse (cstr (readFile ([[dteMaintain]].foldl afterRun (some (ascii "\x7b\x7d")))).2) =
      some (.mk .object none [stateMember jsonMaintain]) := by
  have hloaded : Loaded emptyObject := loaded_of_cjsonParse cjsonParse_emptyObject rfl
  obtain ⟨res, hprint, hfile⟩ :=
    afterRun_singleton (t := .dtsMaintenance) (e := dteMaintain) cjsonParse_emptyObject rfl (by decide)
  have hrecord : record (stateName .dtsMaintenance) emptyObject.child =
      [stateMember jsonMaintain] := rfl
  rw [List.foldl_cons, hfile, List.foldl_nil, readFile, ((hloaded.record _).reread hprint).2, hrecord,
    Item.child_withChild, List.map_cons, List.map_nil, reread_stateMember]
  rfl

theorem state_recorded_after_transition_maintain :
    ∃ w, session (loadMemory ([[dteMaintain]].foldl afterRun (some (ascii "\x7b\x7d"))) [])
      [dteJoinN1] = .ok () w ∧
      (transitions w.trace = [] → w.curState = .dtsNormal ∧
        w.mem.file = [[dteMaintain]].foldl afterRun (some (ascii "\x7b\x7d")) ∧
        w.mem.root = cjsonParse (cstr (readFile w.mem.file).2)) ∧
      (transitions w.trace ≠ [] →
        (∃ item, w.mem.root = some item ∧ item.kind = .object ∧
          item.child.find? namesKey = some (stateMember (stateName w.curState))) ∧
        ∃ item, cjsonParse (cstr (readFile w.mem.file).2) = some item ∧ item.kind = .object ∧
          item.child.find? namesKey = some (stateMember (stateName w.curState))) := by
  refine state_recorded_after_transition cjsonParse_emptyObject rfl
    (by simp [FirstNotNull, emptyObject]) _ _ ?_
  have hempty : FirstNotNull [] := by simp [FirstNotNull]
  have hp := (wellFormed_of_cjsonParse loaded_after_maintain).1.printable
  refine bufferSuffices_of_fits ((root_loadMemory _ _).trans loaded_after_maintain) hp
    (firstNotNull_record hempty jsonMaintain) (fun s => ?_) _
  have hrecord : record (stateName s) [stateMember jsonMaintain] = [stateMember (stateName s)] :=
    record_record hempty jsonMaintain (stateName s)
  rw [Item.child_mk, hrecord]
  cases s <;> decide

/-- The run that follows starts in DTS_NORMAL, and its document says `maintenance`. -/
theorem next_run_starts_in_normal :
    ∃ w item v, session (loadMemory ([[dteMaintain]].foldl afterRun (some (ascii "\x7b\x7d"))) [])
      [] = .ok () w ∧
      w.mem.root = some item ∧ item.child.find? namesKey = some (stateMember v) ∧
        v ≠ stateName w.curState :=
  ⟨initWorld _, _, jsonMaintain, session_eq _ _, (root_loadMemory _ _).trans loaded_after_maintain,
    rfl, by decide⟩

/-! ## The other members -/

/-- The file still holds the text of the start, or an object whose other members are those of the
text, in order and with the same values, but for the one that a recorded state replaces. -/
theorem file_keeps_other_members {ms : List (List Chr × Json)} (htext : IsText text (.object ms))
    (es : List HsmEvent) :
    afterRun (some text) es = some text ∨
    ∃ text' ms', afterRun (some text) es = some text' ∧ IsText text' (.object ms') ∧
      KeptMembers ((unrecorded ms).filter textIsOther) (ms'.filter textIsOther) := by
  obtain ⟨es₁, w, hsteps, hfile⟩ := afterRun_eq (some text) es
  rw [hfile]
  by_cases hnone : transitions w.trace = []
  · exact .inl (steps_untouched hsteps hnone).file
  -- a transition was completed, so the text was accepted
  cases hparse : cjsonParse (cstr text) with
  | none => exact absurd (hsteps.null hparse).2 hnone
  | some root =>
      have hroot : root = .mk .object none (ofMembers ms) :=
        eq_ofJson_of_cjsonParse htext (by simp) hparse
      have hP : Loaded root ∧ others root.child = others (ofMembers ms) :=
        ⟨loaded_of_cjsonParse hparse (by rw [hroot]; rfl), by rw [hroot]; rfl⟩
      obtain ⟨item, res, hitem, ⟨hloaded, hothers⟩, hprint, hfile⟩ :=
        hsteps.recorded (P := fun item => Loaded item ∧ others item.child = others (ofMembers ms))
          hparse rfl hP
          (fun item v h => ⟨h.1.record v, by rw [Item.child_withChild, others_record, h.2]⟩) hnone
      have hrec := hloaded.record (stateName w.curState)
      rw [hitem] at hprint
      refine .inr ⟨res.bytes, _, hfile, (hrec.reread hprint).1, ?_⟩
      rw [filter_toMembers hrec.named, Item.child_withChild, filter_record, hothers, others_ofMembers]
      exact keptMembers_toMembers _

/-- A text with the key in capital letters. -/
def capitalText : List UInt8 := ascii "\x7b\"DT\":\"x\"\x7d"

def capitalMembers : List (List Chr × Json) := [(chars (ascii "DT"), .string (chars (ascii "x")))]

theorem isText_capitalText : IsText capitalText (.object capitalMembers) := by
  have hvalue := IsValue.string (valid_chars (ascii "x"))
  have hmember := IsMembers.one isWs_nil (valid_chars (ascii "DT")) isWs_nil isWs_nil hvalue isWs_nil
  exact ⟨[], _, [], rfl, isWs_nil, .object hmember, isWs_nil⟩

theorem file_keeps_other_members_capitalText :
    afterRun (some capitalText) [dteError] = some capitalText ∨
    ∃ text' ms', afterRun (some capitalText) [dteError] = some text' ∧ IsText text' (.object ms') ∧
      KeptMembers ((unrecorded capitalMembers).filter textIsOther) (ms'.filter textIsOther) :=
  file_keeps_other_members isText_capitalText _

theorem cjsonParse_capitalText :
    cjsonParse (cstr capitalText) = some (.mk .object none (ofMembers capitalMembers)) :=
  (cjsonParse_text isText_capitalText).1 ⟨paired_chars _, paired_chars _, trivial⟩

theorem record_capitalMembers (v : CStr) : record v (ofMembers capitalMembers) = [stateMember v] := by
  have hnames : textNamesKey (chars (ascii "DT"), .string (chars (ascii "x"))) := by decide
  rw [← namesKey_ofJson] at hnames
  have hfirst : FirstNotNull (ofMembers capitalMembers) := by
    rw [ofMembers_eq_map]
    simp only [FirstNotNull, capitalMembers, List.map_singleton, List.find?_singleton, hnames]
    rintro e ⟨⟩
    rfl
  rw [record_of_notNull hfirst, ofMembers_eq_map]
  exact upsert_append_cons (List.forall_mem_nil _) hnames

/-- The member `DT` is lost when `dt` is recorded. -/
theorem capital_member_is_lost :
    ∃ text', afterRun (some capitalText) [dteError] = some text' ∧
      ∀ ms', IsText text' (.object ms') →
        (ms'.filter fun m => decode m.1 ≠ ascii "dt").map (fun m => decode m.1) ≠
          (capitalMembers.filter fun m => decode m.1 ≠ ascii "dt").map (fun m => decode m.1) := by
  have hloaded := loaded_of_cjsonParse cjsonParse_capitalText rfl
  obtain ⟨res, hprint, hfile⟩ :=
    afterRun_singleton (t := .dtsDamage) (e := dteError) cjsonParse_capitalText rfl
      (by rw [Item.child_mk, record_capitalMembers]; decide)
  have hread := ((hloaded.record _).reread hprint).2
  rw [Item.child_withChild, Item.child_mk, record_capitalMembers] at hread
  refine ⟨res.bytes, hfile, fun ms' htext heq => ?_⟩
  have hmembers : [reread (stateMember (stateName .dtsDamage))] = ofMembers ms' :=
    congrArg Item.child (eq_ofJson_of_cjsonParse htext (by simp) hread)
  rw [ofMembers_eq_map] at hmembers
  obtain ⟨m, rfl, hm⟩ := List.map_eq_singleton_iff.mp hmembers.symm
  have hkey : keyOf m = jsonKey := by
    have hstring := congrArg Item.string hm
    rw [string_ofJson, string_reread] at hstring
    exact Option.some.inj hstring
  have hcapital : ((capitalMembers.filter fun m => decode m.1 ≠ ascii "dt").map fun m => decode m.1) =
      [ascii "DT"] := by
    decide
  rw [hcapital] at heq
  by_cases hdt : decode m.1 = ascii "dt"
  · simp [hdt] at heq
  · obtain hDT : decode m.1 = ascii "DT" := by simpa [hdt] using heq
    rw [keyOf, hDT] at hkey
    exact absurd hkey (by decide)

end CppJson
