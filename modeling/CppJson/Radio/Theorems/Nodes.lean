import CppJson.CJson.Theorems.Nodes
import CppJson.Radio.Lemmas.Nodes
import CppJson.Radio.Lemmas.Run

/-!
# The document in memory

The document of a run is one tree of nodes, and memory has no other nodes: nothing that was replaced
is left.
-/

namespace CppJson

open Nodes Shape

variable {Ptr : Type} [DecidableEq Ptr] {A : Allocator Ptr} {s : Shape Ptr} {nodes : Nodes Ptr}

/-- The document of a run is the one found, with the values that `Display` was called with recorded
in it. -/
theorem steps_displayed {w w' : RadioWorld} {es : List HsmEvent} (h : Steps w es w')
    (hw : w.mem.displayed = []) :
    w'.mem.root = w'.mem.displayed.foldl displayRoot w.mem.root := by
  induction h with
  | nil => rw [hw, List.foldl_nil]
  | snoc _ hran ih =>
      rcases hran.doc with ⟨-, hsame⟩ | ⟨-, hrec⟩
      · rw [hsame.root, hsame.displayed, ih]
      · rw [hrec.root, hrec.displayed, List.foldl_append, ← ih, List.foldl_cons, List.foldl_nil]

omit [DecidableEq Ptr] in
theorem Shape.Added.only {s' : Shape Ptr} {p : Ptr} {item : Item}
    (h : Shape.empty.Added s' p item) :
    Only s' p item :=
  ⟨h.tree, fun a => (h.live a).trans ⟨fun ha => ha.resolve_left id, .inr⟩⟩

/-- Nodes for a document and the values that are displayed. -/
def Fits (m : ℕ) (root : Item) (jsonValues : List CStr) : Prop :=
  root.size + jsonValues.length ≤ m ∨ FirstNotNull root.child ∧ root.size + 2 ≤ m

theorem Fits.prefix_size {m : ℕ} {root root' : Item} {pre post : List CStr}
    (h : Fits m root (pre ++ post)) (hpost : post ≠ [])
    (hfold : pre.foldl displayRoot (some root) = some root') : root'.size < m := by
  rcases h with hsize | ⟨hfirst, hsize⟩
  · have := size_foldl_displayRoot hfold
    have := List.length_pos_iff.mpr hpost
    rw [List.length_append] at hsize
    omega
  · have := size_foldl_displayRoot_of_notNull hfirst hfold
    omega

theorem Fits.size {m : ℕ} {root : Item} {jsonValues : List CStr} (h : Fits m root jsonValues) :
    root.size ≤ m := by
  rcases h with hsize | ⟨-, hsize⟩ <;> omega

/-- Where there is room for the document of a file it is put into empty memory. -/
theorem parse_document {m : ℕ} (hm : A.Room m) {value : CStr} {doc : Item}
    (hparse : CppJson.cjsonParse value = some doc) (hsize : doc.size ≤ m) :
    ∃ p nodes' s', Prog.Settles (fun n => Nodes.cjsonParse A n value) Nodes.empty (some p) nodes' ∧
      nodes'.Represents s' ∧ Only s' p doc := by
  obtain ⟨e, hvalue⟩ := cjsonParse_eq_some.mp hparse
  obtain ⟨r, nodes', hrun, hres⟩ :=
    Nodes.cjsonParseWithLengthOpts_sim (A := A) Nodes.empty (ne_overread_of_nul value false)
  have hsettles :
      Prog.Settles (fun n => Nodes.cjsonParse A n value) Nodes.empty (r.map Prod.fst) nodes' :=
    hrun.bind (.of_run rfl)
  cases r with
  | none =>
      have hlt := (hres.2.2 doc e hvalue).lt (l := []) represents_empty hm fun _ ha => ha.elim
      rw [List.length_nil, Nat.zero_add] at hlt
      exact absurd hsize (not_le.mpr hlt)
  | some r =>
      obtain ⟨p, e'⟩ := r
      obtain ⟨ts, hchain, hitem⟩ := hres
      obtain ⟨s', h', hadded, -⟩ := hchain.represents represents_empty
      rw [hvalue] at hitem
      cases hitem
      exact ⟨p, nodes', s', hsettles, h', hadded.only⟩

/-- The nodes of the document after a run are those of the document that the run is about, and there
are no others: nothing that was replaced is left, and nothing that is there was freed. Memory needs
a node more for each value that is displayed; for a document whose first match is not `null` two are
enough, however long the run is. -/
theorem nodes_of_run {m : ℕ} (hm : A.Room m) {file : Option (List UInt8)}
    {writes : List WriteOutcome} {es : List HsmEvent} {w : RadioWorld}
    (hrun : session (loadMemory file writes) es = .ok () w) {doc : Item}
    (hparse : CppJson.cjsonParse (cstr (readFile file).2) = some doc)
    (hfits : Fits m doc w.mem.displayed) :
    ∃ p nodes' s' root, Prog.Settles (fun n => documentNodes A n (readFile file).2 w.mem.displayed)
      Nodes.empty (some p)
        nodes' ∧
      nodes'.Represents s' ∧ w.mem.root = some root ∧ Only s' p root ∧
      ∃ l : List Ptr, (∀ a, nodes'.allocated a = true ↔ a ∈ l) ∧ l.length = root.size := by
  obtain ⟨p, nodes₁, s₁, hrun₁, h₁, hdoc₁⟩ := parse_document hm hparse hfits.size
  obtain ⟨nodes', s', root, kept, hrun', h', hdoc', -, hfold, hall⟩ :=
    displayAllNodes_spec (A := A) h₁ hdoc₁ w.mem.displayed
  obtain rfl := hall m hm fun pre post item₁ heq hpost hpre => by
    rw [heq] at hfits
    exact hfits.prefix_size hpost hpre
  have hroot : w.mem.root = some root := by
    rw [steps_displayed (session_eq_ok.mp hrun) rfl]
    exact (congrArg (fun r => w.mem.displayed.foldl displayRoot r) hparse).trans hfold
  obtain ⟨l, hl, hlen⟩ := hdoc'.nodes ⟨nodes', h'⟩
  refine ⟨p, nodes', s', root, hrun₁.bind (hrun'.bind (.of_run rfl)), h', hroot, hdoc', l,
    fun a => ?_, hlen⟩
  rw [h'.live, hl]

/-- The first transition adds a node, and the second one replaces it. -/
theorem nodes_of_run_emptyObject :
    ∃ p nodes' s' root,
      Prog.Settles (fun n => documentNodes (pool 3) n (ascii "\x7b\x7d") [jsonDamage, jsonJoin])
      Nodes.empty (some p)
        nodes' ∧
      nodes'.Represents s' ∧
      (session (loadMemory (some (ascii "\x7b\x7d")) []) [dteError, dteJoin]).state.mem.root =
        some root ∧
      Only s' p root ∧ ∃ l : List ℕ, (∀ a, nodes'.allocated a = true ↔ a ∈ l) ∧
        l.length = root.size := by
  have hrun : session (loadMemory (some (ascii "\x7b\x7d")) []) [dteError, dteJoin] = .ok () _ := rfl
  exact nodes_of_run (room_pool 3) hrun cjsonParse_emptyObject
    (.inr ⟨by simp [FirstNotNull, emptyObject], by decide⟩)

end CppJson
