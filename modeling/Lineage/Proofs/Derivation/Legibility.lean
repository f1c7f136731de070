import Lineage.Proofs.Derivation.Ancestry
import Lineage.Proofs.Derivation.Nodes
import Lineage.Proofs.Derivation.Ranging
import Lineage.Proofs.Report.Lines
import Lineage.Proofs.Store.Names

/-!
Reports can be read back.

The nodes that a decoded program gives rise to are called after constants and after operands that
the instructions can get at, and derivations are labelled with operators. None of that looks like
the brackets and commas of a report, so that each of its lines is read as the derivation that it was
written for, whatever the input source is.
-/

namespace Lineage

open Text Report

variable {g g' : Graph} {s t : Store} {d : Decision} {i : Instruction} {id : OperandId}
  {m m' : Machine Tracker} {r : Except Fault Bool} {cs : List Char}

/-! ### Names and labels -/

lemma unmarked_append {l r : List Char} (hl : Unmarked l) (hr : Unmarked r) : Unmarked (l ++ r) :=
  fun c hc => (List.mem_append.1 hc).elim (hl c) (hr c)

lemma not_marked_of_isNameChar {c : Char} (h : isNameChar c = true) :
    c ∉ ['(', ')', ',', '<'] := by
  intro hc
  simp only [List.mem_cons, List.not_mem_nil, or_false] at hc
  rcases hc with rfl | rfl | rfl | rfl <;> exact absurd h (by decide)

lemma unmarked_intNumeral (i : Int) : Unmarked (intNumeral i) := fun _ hc =>
  not_marked_of_isNameChar (isNameChar_intNumeral hc)

lemma toList_valueText (v : Value) : (Value.text v).toList = intNumeral v.toInt :=
  String.toList_ofList

/-- What is written in a program has a name that does not look like anything else. -/
lemma Instruction.Complete.unmarked_name (h : i.Complete s) (hl : s.Laid) (hr : i.Reaches s id) :
    Unmarked (s.operand id).name.toList := by
  have hname : ∀ {k : Kind}, (∀ name, k = .register name → isIdentifier name.toList = true) →
      Unmarked k.name.toList := fun hk c hc =>
    not_marked_of_isNameChar (Kind.isNameChar_name hk c hc)
  rcases hr with ⟨slot, hslot⟩ | rfl | ⟨address, hcell⟩
  · exact hname (h.named slot id hslot)
  · rw [Operand.name, hl.kind_pc.2]
    decide
  · rw [Operand.name, (hl.kind_memoryCell hcell).2]
    exact hname fun _ hk => by cases hk

namespace Operator

lemma text_ne_empty (op : Operator) : op.text ≠ "" := by
  intro h
  have hchars := congrArg String.toList h
  cases op with
  | both op => cases op <;> exact absurd hchars (by decide)
  | jump taken => cases taken <;> exact absurd hchars (by decide)
  | left | right => simp [text] at hchars
  | negate | isZero | copy | undefined => exact absurd hchars (by decide)

/-- The characters of labels are those of names, and some others. -/
def isLabelChar (c : Char) : Bool :=
  isNameChar c || c ∈ [' ', '(', ')', '+', '*', '/', '>', '&', '|', '^', '=', '?']

lemma isLabelChar_text (op : Operator) : op.text.toList.all isLabelChar = true := by
  have hsymbol : ∀ op : BinaryOp, op.symbol.toList.all isLabelChar = true := by
    intro op
    cases op <;> decide
  have hvalue : ∀ v : Value, (Value.text v).toList.all isLabelChar = true := by
    intro v
    refine List.all_eq_true.2 fun c hc => ?_
    rw [toList_valueText] at hc
    rw [isLabelChar, isNameChar_intNumeral hc, Bool.true_or]
  have hblank : " ".toList.all isLabelChar = true := by decide
  cases op with
  | both op => exact hsymbol op
  | left k op =>
    simp only [text, String.toList_append, List.all_append, hvalue k, hblank, hsymbol op,
      Bool.and_self]
  | right op k =>
    simp only [text, String.toList_append, List.all_append, hsymbol op, hblank, hvalue k,
      Bool.and_self]
  | jump taken => cases taken <;> decide
  | negate | isZero | copy | undefined => decide

lemma not_mem_text {c : Char} (hc : isLabelChar c = false) (op : Operator) :
    c ∉ op.text.toList := fun hmem => by
  rw [List.all_eq_true.1 op.isLabelChar_text c hmem] at hc
  cases hc

end Operator

/-! ### Graphs -/

/-- The node has a name and a label that can be told apart in a line. -/
structure Node.Legible (n : Node) : Prop where
  name : Unmarked n.name.toList
  label : ∀ d, n.derivation? = some d → ∃ op : Operator, d.label = op.text

lemma Node.legible_constant (v : Value) : (Node.constant v).Legible where
  name := by
    rw [constant, String.toList_append, toList_valueText]
    exact unmarked_append (by decide) (unmarked_intNumeral _)
  label := nofun

lemma Node.Legible.isClean_text {n : Node} (h : n.Legible) : IsClean n.text := by
  have htail : ∀ cs : String, Unmarked cs.toList → ∀ v, Unmarked (cs ++ Value.text v).toList := by
    intro cs hcs v
    rw [String.toList_append, toList_valueText]
    exact unmarked_append hcs (unmarked_intNumeral _)
  have hne : ∀ (cs : String) (c : Char) v, cs ++ String.singleton c ++ Value.text v ≠ "" := by
    intro cs c v heq
    have hchars := congrArg String.toList heq
    simp at hchars
  unfold Node.text
  cases n.origin with
  | constant => exact ⟨hne "" '%' n.value, htail "%" (by decide) n.value⟩
  | leaf | derived =>
    refine ⟨hne n.name '=' n.value, htail (n.name ++ "=") ?_ n.value⟩
    rw [String.toList_append]
    exact unmarked_append h.name (by decide)

def Graph.Legible (g : Graph) : Prop := ∀ n < g.size, (g.node n).Legible

/-! ### Lines -/

lemma Graph.line_of_derived {n : NodeId} {dv : Derivation} (h : (g.node n).derivation? = some dv) :
    g.line n = ⟨(g.node n).text, [⟨dv.label, dv.sources.map fun k => (g.node k).text⟩]⟩ := by
  rw [line, h]
  rfl

/-- A derived node of a graph into which a legible one embeds is one of that, and so are its
sources. -/
lemma Graph.Embeds.clean_line {ρ : Renaming} (h : Embeds ρ g g') (hg : g.Legible) {n : NodeId}
    (hn : n < g'.size) (hd : g'.IsDerived n = true) : (g'.line n).Clean := by
  obtain ⟨dv', hdv'⟩ := Option.isSome_iff_exists.1 hd
  have hj : ρ.symm n < g.size := h.derived hn (by rw [hdv']; exact nofun)
  have hnode : g'.node n = (g.node (ρ.symm n)).rename ρ := by
    rw [← h.node hj, Equiv.apply_symm_apply]
  rw [hnode, Node.rename_derivation?, Option.map_eq_some_iff] at hdv'
  obtain ⟨dv, hdv, rfl⟩ := hdv'
  obtain ⟨op, hop⟩ := (hg _ hj).label dv hdv
  have hlabel : (dv.rename ρ).label = op.text := hop
  have hderivation : (g'.node n).derivation? = some (dv.rename ρ) := by
    rw [hnode, Node.rename_derivation?, hdv]
    rfl
  rw [line_of_derived hderivation]
  refine ⟨?_, fun r hr => ?_, List.cons_ne_nil _ _⟩
  · show IsClean (g'.node n).text
    rw [hnode, Node.rename_text]
    exact (hg _ hj).isClean_text
  · rw [List.mem_singleton] at hr
    subst hr
    refine ⟨?_, ?_, fun name hname => ?_⟩
    · show (dv.rename ρ).label ≠ ""
      rw [hlabel]
      exact op.text_ne_empty
    · show ¬ [')', ',', ' '] <:+: (dv.rename ρ).label.toList
      rw [hlabel]
      have hcomma : ',' ∉ op.text.toList := op.not_mem_text (by decide)
      exact fun hi => hcomma (hi.subset (by simp))
    · obtain ⟨k', hk', rfl⟩ := List.mem_map.1 hname
      obtain ⟨k, hk, rfl⟩ := List.mem_map.1 hk'
      have hlt : k < g.size := Nat.lt_trans ((h.consed.within hj dv hdv).1 k hk) hj
      rw [h.node hlt, Node.rename_text]
      exact (hg k hlt).isClean_text

/-! ### Machines -/

namespace Machine

lemma Course.legible (hc : m.Course r m') (h : m.Placed) (hg : m.observer.graph.Legible) :
    m'.observer.graph.Legible := by
  refine hc.all hg Node.legible_constant (fun id hid _ v external => ?_)
    fun id hid v op dv hlabel => ?_
  · exact ⟨h.next.unmarked_name h.laid hid, nofun⟩
  · exact ⟨h.next.unmarked_name h.laid hid, fun d hd => ⟨op, by cases hd; exact hlabel⟩⟩

lemma legible_after {program : String} (hl : s.Laid)
    (hload : loadText { store := s, observer := {} } program = (.ok (), m)) (n : Nat) :
    (m.after n).observer.graph.Legible := by
  have hplaced := placed_of_loadText hl hload
  induction n with
  | zero =>
    show m.observer.graph.Legible
    rw [(decode_of_loadText hload).2]
    exact Graph.All.empty
  | succ n ih => exact (m.after n).step_course.legible (hplaced.after n) ih

lemma acts_steps (m : Machine Tracker) (as : List Action) :
    (m.acts (as.filter Action.isStep)).2 = m.after (as.countP Action.isStep) := by
  induction as generalizing m with
  | nil => rfl
  | cons a as ih =>
    cases ha : a.isStep with
    | false =>
      have hnot : ¬ a.isStep = true := by simp [ha]
      rw [List.filter_cons_of_neg hnot, List.countP_cons_of_neg hnot, ih]
    | true =>
      have hstep : a = .step := by cases a <;> simp_all [Action.isStep]
      rw [List.filter_cons_of_pos ha, List.countP_cons_of_pos ha, hstep, ← after_step, ← ih]
      rfl

/-- **Every line of a report is read back**: a report, at whatever time it is asked for, has one
line for each derived node that stems from the roots, in the order of the lineage. The line is read
as the text of the node with one record, of the label and the texts of the sources, and the sources
that are derived have their lines before it. -/
theorem reports_read_back {program : String} (hl : s.Laid) (hu : s.Unbound)
    (hload : loadText { store := s, observer := {} } program = (.ok (), m)) (as : List Action)
    (roots : List OperandId) :
    let asked := (m.acts as).2
    let ns := (asked.observer.nodesOf asked.store roots).1
    let g := (asked.observer.nodesOf asked.store roots).2.graph
    let derived := (g.lineage ns).filter g.IsDerived
    (Lines.ofEvents (asked.report roots).1).texts = derived.map (fun n => (g.line n).text) ∧
      derived.Nodup ∧
      (∀ n, n ∈ derived ↔ g.IsDerived n ∧ ∃ root ∈ ns, g.Stems root n) ∧
      (∀ n ∈ derived, ∃ dv, (g.node n).derivation? = some dv ∧ Line.parse (g.line n).text =
        .ok ⟨(g.node n).text, [⟨dv.label, dv.sources.map fun k => (g.node k).text⟩]⟩) ∧
      ∀ before n behind, derived = before ++ n :: behind →
        ∀ k ∈ (g.node n).sources, g.IsDerived k → k ∈ before := by
  intro asked ns g derived
  -- the graph that was not asked is legible, and embeds into the one that was
  obtain ⟨-, ρ, htwin⟩ := (twin_of_loadText hu hload).acts as
  have hlegible := legible_after hl hload (as.countP Action.isStep)
  rw [← acts_steps] at hlegible
  have hembeds : Graph.Embeds ρ _ g := (htwin.observer.nodesOf_right roots).graph
  have hdescending : g.Descending := hembeds.consed'.descending
  have hns : ∀ n ∈ ns, n < g.size := by
    obtain ⟨ρ', htwin', hnodes, -, -, hlt⟩ := htwin.observer.nodesOf htwin.bound roots
    rw [← htwin.store] at htwin' hnodes
    intro n hn
    rw [show ns = _ from hnodes] at hn
    obtain ⟨k, hk, rfl⟩ := List.mem_map.1 hn
    exact htwin'.graph.lt (hlt k hk)
  have hlineage : ∀ n ∈ g.lineage ns, n < g.size := fun n hn => by
    obtain ⟨root, hroot, hstems⟩ := (Graph.mem_lineage hdescending hns).1 hn
    exact Nat.lt_of_le_of_lt (hstems.le hdescending) (hns root hroot)
  refine ⟨?_, (Graph.nodup_lineage hdescending hns).filter _, fun n => ?_, fun n hn => ?_,
    fun before n behind hsplit k hk hkd => ?_⟩
  · have hevents : (asked.report roots).1 = g.events ns := rfl
    rw [hevents, Lines.texts, Graph.lines_events, List.map_map]
    rfl
  · rw [List.mem_filter, Graph.mem_lineage hdescending hns, and_comm]
  · obtain ⟨hmem, hd⟩ := List.mem_filter.1 hn
    obtain ⟨dv, hdv⟩ := Option.isSome_iff_exists.1 hd
    refine ⟨dv, hdv, ?_⟩
    rw [(hembeds.clean_line hlegible (hlineage n hmem) hd).parse_text, Graph.line_of_derived hdv]
  · obtain ⟨l₁, l₂, hl, rfl, hfilter⟩ := List.filter_eq_append_iff.1 hsplit
    obtain ⟨l₃, l₄, rfl, hnot, -, -⟩ := List.filter_eq_cons_iff.1 hfilter
    rw [← List.append_assoc] at hl
    rcases List.mem_append.1 (Graph.source_before hdescending hns hl hk) with hk | hk
    · exact List.mem_filter.2 ⟨hk, hkd⟩
    · exact absurd hkd (hnot k hk)

/-- A jump in a loop that counts down from what came in. -/
theorem reports_read_back_countdown :
    let s : Store :=
      { layout := { registers := ["A"], inputs := 1 }
        operands := #[{ kind := .register pcName }, { kind := .register "A" }, { kind := .input 0 }]
        source := .queues [[-5]] }
    let program := "STR IN0, , A\nSUB %0, A, A\nSUB A, %1, A\nJCC A, , %2"
    let m := (loadText { store := s, observer := ({} : Tracker) } program).2
    let as : List Action := [.step, .step, .nodeOf 2, .step, .step]
    let line := "PC=2 <= jcc (Y)(%3, A=4)"
    (s.Laid ∧ s.Unbound ∧ loadText { store := s, observer := {} } program = (.ok (), m)) ∧
      line ∈ (Lines.ofEvents ((m.acts as).2.report [0]).1).texts ∧
      Line.parse line = .ok ⟨"PC=2", [⟨"jcc (Y)", ["%3", "A=4"]⟩]⟩ := by
  intro s program m as line
  have hbuild : ({ registers := ["A"], inputs := 1, source := .queues [[-5]] } :
      Config).build = .ok s := rfl
  obtain ⟨hl, hu⟩ := Config.laid_of_build hbuild
  have hload : loadText { store := s, observer := {} } program = (.ok (), m) :=
    Prod.ext (by decide +kernel) rfl
  obtain ⟨htexts, -, hmem, hparse, -⟩ := reports_read_back hl hu hload as [0]
  have hns : ((m.acts as).2.observer.nodesOf (m.acts as).2.store [0]).1 = [6] := by decide +kernel
  have hline : ((m.acts as).2.observer.nodesOf (m.acts as).2.store [0]).2.graph.line 6 =
      ⟨"PC=2", [⟨"jcc (Y)", ["%3", "A=4"]⟩]⟩ := by decide +kernel
  have htext : (Line.mk "PC=2" [⟨"jcc (Y)", ["%3", "A=4"]⟩]).text = line := by decide +kernel
  have hderived := (hmem 6).2 ⟨by decide +kernel, 6, by rw [hns]; exact List.mem_cons_self, .refl⟩
  obtain ⟨dv, hdv, hread⟩ := hparse 6 hderived
  rw [← Graph.line_of_derived hdv, hline, htext] at hread
  refine ⟨⟨hl, hu, hload⟩, ?_, hread⟩
  rw [htexts]
  exact List.mem_map.2 ⟨6, hderived, by rw [hline, htext]⟩

end Machine

end Lineage
