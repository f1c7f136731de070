import Lineage.Derivation.Report
import Lineage.Proofs.Text.Cut
import Lineage.Report.Lines
import Mathlib.Data.List.Infix

/-!
Lines of a report are read as what they were written for.

The names in a line must not be empty and must not have brackets, commas and angle brackets, and a
label must not be empty and not look like the end of a record. A report on a graph has a line for
every derived node of the lineage, in the order of the lineage.
-/

namespace Lineage

open Text

namespace Report

def Unmarked (cs : List Char) : Prop := ∀ c ∈ cs, c ∉ ['(', ')', ',', '<']

instance (cs : List Char) : Decidable (Unmarked cs) :=
  List.decidableBAll (· ∉ ['(', ')', ',', '<']) cs

/-- A name that can stand in a line. -/
def IsClean (name : String) : Prop := name ≠ "" ∧ Unmarked name.toList

instance (name : String) : Decidable (IsClean name) := inferInstanceAs (Decidable (_ ∧ _))

namespace Record

structure Clean (r : Record) : Prop where
  label : r.label ≠ ""
  open_label : ¬ [')', ',', ' '] <:+: r.label.toList
  dependencies : ∀ name ∈ r.dependencies, IsClean name

instance (r : Record) : Decidable r.Clean :=
  decidable_of_iff (r.label ≠ "" ∧ ¬ [')', ',', ' '] <:+: r.label.toList ∧
    ∀ name ∈ r.dependencies, IsClean name) ⟨fun ⟨h, h', h''⟩ => ⟨h, h', h''⟩,
    fun ⟨h, h', h''⟩ => ⟨h, h', h''⟩⟩

def front (r : Record) : List Char :=
  r.label.toList ++ '(' :: [',', ' '].intercalate (r.dependencies.map String.toList)

variable {r : Record} {l cs : List Char}

lemma toList_text (r : Record) : r.text.toList = r.front ++ [')'] := by
  simp only [text, front, String.toList_append, String.toList_intercalate, List.append_assoc]
  rfl

lemma cutLast?_append (h : '(' ∉ cs) : cutLast? (l ++ '(' :: cs) = some (l, cs) := by
  have hrest : ∀ c ∈ cs.reverse, decide (c ≠ '(') = true := fun c hc =>
    decide_eq_true fun heq => h (heq ▸ List.mem_reverse.1 hc)
  have hrev : (l ++ '(' :: cs).reverse = cs.reverse ++ '(' :: l.reverse := by simp
  have hdrop : (cs.reverse ++ '(' :: l.reverse).dropWhile (fun c => decide (c ≠ '(')) =
      '(' :: l.reverse := by
    rw [List.dropWhile_append_of_pos hrest]
    rfl
  have htake : (cs.reverse ++ '(' :: l.reverse).takeWhile (fun c => decide (c ≠ '(')) =
      cs.reverse := by
    rw [List.takeWhile_append_of_pos hrest]
    simp
  simp only [cutLast?, hrev, hdrop, htake, List.reverse_reverse]

lemma Clean.not_mem (h : r.Clean) {c : Char} (hc : c = '(' ∨ c = ')') :
    c ∉ [',', ' '].intercalate (r.dependencies.map String.toList) := by
  intro hmem
  rcases mem_of_mem_intercalate hmem with hsep | ⟨l, hl, hcl⟩
  · rcases hc with rfl | rfl <;> simp at hsep
  · obtain ⟨name, hname, rfl⟩ := List.mem_map.1 hl
    have hnot := (h.dependencies name hname).2 c hcl
    rcases hc with rfl | rfl <;> simp at hnot

lemma Clean.split_dependencies (h : r.Clean) (hne : r.dependencies ≠ []) :
    (split [',', ' '] ([',', ' '].intercalate (r.dependencies.map String.toList))).map
      String.ofList = r.dependencies := by
  rw [split_intercalate (List.cons_ne_nil _ _) (by simpa using hne), List.map_map]
  · simp [Function.comp_def]
  · intro l hl
    obtain ⟨name, hname, rfl⟩ := List.mem_map.1 hl
    exact not_infix_of_head _ fun hc => (h.dependencies name hname).2 ',' hc (by simp)

lemma Clean.intercalate_ne_nil (h : r.Clean) (hne : r.dependencies ≠ []) :
    [',', ' '].intercalate (r.dependencies.map String.toList) ≠ [] := by
  obtain ⟨name, names, hdeps⟩ := List.exists_cons_of_ne_nil hne
  have hname : name.toList ≠ [] := fun hnil =>
    (h.dependencies name (by rw [hdeps]; exact List.mem_cons_self)).1
      (String.toList_inj.1 (hnil.trans rfl))
  intro hnil
  rw [hdeps, List.map_cons] at hnil
  by_cases hnames : names.map String.toList = []
  · rw [hnames, List.intercalate_singleton] at hnil
    exact hname hnil
  · rw [intercalate_cons hnames] at hnil
    simp at hnil

lemma Clean.parse (h : r.Clean) : Record.parse (r.front ++ [')']) = .ok r := by
  have hcut := cutLast?_append (l := r.label.toList) (h.not_mem (.inl rfl))
  have hlabel : r.label.toList ≠ [] := fun hnil => h.label (String.toList_inj.1 (hnil.trans rfl))
  have hparse : parse? (r.front ++ [')']) = some r := by
    rw [← front] at hcut
    simp only [parse?, List.getLast?_concat, List.dropLast_concat, hcut, if_neg hlabel,
      String.ofList_toList]
    by_cases hne : r.dependencies = []
    · rw [hne, List.map_nil, List.intercalate_nil, if_pos rfl, ← hne]
    · rw [if_neg (h.intercalate_ne_nil hne), h.split_dependencies hne]
  rw [Record.parse, hparse]

/-- A record that does not end a line ends at the comma behind it. -/
lemma Clean.stands_apart (h : r.Clean) : ¬ [')', ',', ' '] <:+: r.front ++ [')', ','] := by
  intro hi
  rw [front, List.append_assoc, List.cons_append] at hi
  rcases infix_append_cons (by decide) hi with hi | hi
  · exact h.open_label hi
  · exact not_infix_of_head [',', ' '] (h.not_mem (.inr rfl)) hi

end Record

namespace Line

variable {l : Line} {rs : List Record}

structure Clean (l : Line) : Prop where
  name : IsClean l.name
  records : ∀ r ∈ l.records, r.Clean
  records_ne_nil : l.records ≠ []

instance (l : Line) : Decidable l.Clean :=
  decidable_of_iff (IsClean l.name ∧ (∀ r ∈ l.records, r.Clean) ∧ l.records ≠ [])
    ⟨fun ⟨h, h', h''⟩ => ⟨h, h', h''⟩, fun ⟨h, h', h''⟩ => ⟨h, h', h''⟩⟩

/-- Records are split at their closing brackets, which are then put back. -/
lemma closeAll_split (hne : rs ≠ []) (h : ∀ r ∈ rs, r.Clean) :
    closeAll (split [')', ',', ' '] ([',', ' '].intercalate (rs.map fun r => r.front ++ [')']))) =
      rs.map fun r => r.front ++ [')'] := by
  induction rs with
  | nil => exact absurd rfl hne
  | cons r rs ih =>
    have hr := (h r List.mem_cons_self).stands_apart
    by_cases hrs : rs = []
    · have hlast : ¬ [')', ',', ' '] <:+: r.front ++ [')'] := fun hi =>
        hr (hi.trans ⟨[], [','], by simp⟩)
      rw [hrs, List.map_singleton, List.intercalate_singleton,
        split_of_not_infix (List.cons_ne_nil _ _) hlast]
      rfl
    · have ih' := ih hrs fun r hr => h r (List.mem_cons_of_mem _ hr)
      have hmap : rs.map (fun r => r.front ++ [')']) ≠ [] := by simpa using hrs
      have hjoined : r.front ++ [')'] ++ [',', ' '] ++
          [',', ' '].intercalate (rs.map fun r => r.front ++ [')']) =
          r.front ++ [')', ',', ' '] ++
            [',', ' '].intercalate (rs.map fun r => r.front ++ [')']) := by simp
      rw [List.map_cons, intercalate_cons hmap, hjoined,
        split_append (List.cons_ne_nil _ _) hr, closeAll, ih']
      exact split_ne_nil _ _

lemma Clean.stands_apart (h : l.Clean) :
    ¬ [' ', '<', '=', ' '] <:+: l.name.toList ++ [' ', '<', '='] := by
  have hname : '<' ∉ l.name.toList := fun hc => h.name.2 '<' hc (by simp)
  generalize l.name.toList = cs at hname
  induction cs with
  | nil => decide
  | cons c cs ih =>
    intro hi
    rw [List.cons_append, List.infix_cons_iff] at hi
    rcases hi with hp | hi
    · -- the second character of the separator would be one of the name, or the blank behind it
      have hp' := (List.cons_prefix_cons.1 hp).2
      cases cs with
      | nil => simp at hp'
      | cons d cs =>
        rw [List.cons_append, List.cons_prefix_cons] at hp'
        exact hname (by rw [hp'.1]; simp)
    · exact ih (fun hc => hname (List.mem_cons_of_mem c hc)) hi

lemma mapM_parse (h : ∀ r ∈ rs, r.Clean) :
    (rs.map fun r => r.front ++ [')']).mapM Record.parse = .ok rs := by
  induction rs with
  | nil => rfl
  | cons r rs ih =>
    rw [List.map_cons, List.mapM_cons, (h r List.mem_cons_self).parse,
      ih fun r hr => h r (List.mem_cons_of_mem _ hr)]
    rfl

lemma toList_text (l : Line) : l.text.toList = l.name.toList ++ [' ', '<', '=', ' '] ++
    [',', ' '].intercalate (l.records.map fun r => r.front ++ [')']) := by
  have htexts : l.records.map (String.toList ∘ Record.text) =
      l.records.map fun r => r.front ++ [')'] :=
    List.map_congr_left fun r _ => r.toList_text
  rw [text, String.toList_append, String.toList_append, String.toList_intercalate, List.map_map,
    htexts]
  rfl

lemma Clean.parse_text (h : l.Clean) : parse l.text = .ok l := by
  have hcut := cut?_append h.stands_apart
    ([',', ' '].intercalate (l.records.map fun r => r.front ++ [')']))
  rw [← toList_text] at hcut
  rw [parse, hcut]
  simp only [closeAll_split h.records_ne_nil h.records, mapM_parse h.records,
    String.ofList_toList]
  rfl

end Line

/-! ### Lines of events -/

/-- An entry with its records, each a label and the entries that it depends on. -/
structure Account where
  entry : Entry
  records : List (String × List Entry) := []

namespace Account

def recordEvents (r : String × List Entry) : List Event :=
  .openRecord r.1 :: r.2.map .dependency ++ [.closeRecord]

def events (a : Account) : List Event :=
  .openEntry a.entry :: a.records.flatMap recordEvents ++ [.closeEntry]

def line (a : Account) : Line where
  name := a.entry.name
  records := a.records.map fun r => ⟨r.1, r.2.map Entry.name⟩

lemma foldl_dependency (es : List Entry) (l : Lines) :
    (es.map Event.dependency).foldl Lines.add l =
      { l with dependencies := l.dependencies ++ es.map Entry.name } := by
  induction es generalizing l with
  | nil => simp
  | cons e es ih =>
    rw [List.map_cons, List.foldl_cons, ih]
    simp [Lines.add]

/-- The records of an entry are added to those that it has. -/
lemma foldl_records (rs : List (String × List Entry)) (l : Lines) :
    let l' := (rs.flatMap recordEvents).foldl Lines.add l
    l'.lines = l.lines ∧ l'.entry = l.entry ∧
      l'.records = l.records ++ rs.map fun r => ⟨r.1, r.2.map Entry.name⟩ := by
  induction rs generalizing l with
  | nil => simp
  | cons r rs ih =>
    have hr : (recordEvents r).foldl Lines.add l =
        { l with
          label := r.1, dependencies := r.2.map Entry.name
          records := l.records ++ [⟨r.1, r.2.map Entry.name⟩] } := by
      rw [recordEvents, List.cons_append, List.foldl_cons, List.foldl_append, foldl_dependency]
      simp [Lines.add]
    obtain ⟨hlines, hentry, hrecords⟩ := ih ((recordEvents r).foldl Lines.add l)
    rw [List.flatMap_cons, List.foldl_append]
    refine ⟨hlines.trans (by rw [hr]), hentry.trans (by rw [hr]), hrecords.trans ?_⟩
    rw [hr]
    simp

/-- An entry has a line if it has a record, whatever has been told before. -/
lemma lines_events (a : Account) (l : Lines) :
    (a.events.foldl Lines.add l).lines = l.lines ++ if a.records = [] then [] else [a.line] := by
  rw [events, List.cons_append, List.foldl_cons, List.foldl_append]
  obtain ⟨hlines, hentry, hrecords⟩ := foldl_records a.records (l.add (.openEntry a.entry))
  generalize (a.records.flatMap recordEvents).foldl Lines.add (l.add (.openEntry a.entry)) = l' at *
  replace hrecords : l'.records = a.line.records := hrecords
  have hnil : a.line.records = [] ↔ a.records = [] := by simp [line]
  simp only [List.foldl_cons, List.foldl_nil, Lines.add, hrecords, hnil]
  split
  · rw [hlines]
    simp [Lines.add]
  · rw [hlines, hentry]
    rfl

end Account

end Report

open Report

namespace Graph

def line (g : Graph) (n : NodeId) : Line where
  name := (g.node n).text
  records := (g.node n).derivation?.toList.map fun d =>
    ⟨d.label, d.sources.map fun source => (g.node source).text⟩

def IsDerived (g : Graph) (n : NodeId) : Bool := (g.node n).derivation?.isSome

def account (g : Graph) (n : NodeId) : Account where
  entry := g.entry n
  records := (g.node n).derivation?.toList.map fun d => (d.label, d.sources.map g.entry)

lemma events_account (g : Graph) (n : NodeId) : (g.account n).events = g.nodeEvents n := by
  unfold account nodeEvents
  cases (g.node n).derivation? with
  | none => rfl
  | some d => simp [Account.events, Account.recordEvents]

lemma line_account (g : Graph) (n : NodeId) : (g.account n).line = g.line n := by
  simp [account, Account.line, line, entry, Function.comp_def]

lemma lines_nodeEvents (g : Graph) (n : NodeId) (l : Lines) :
    ((g.nodeEvents n).foldl Lines.add l).lines =
      l.lines ++ if g.IsDerived n then [g.line n] else [] := by
  rw [← events_account, Account.lines_events, line_account]
  cases h : (g.node n).derivation? <;> simp [account, IsDerived, h]

lemma lines_events (g : Graph) (roots : List NodeId) :
    (Lines.ofEvents (g.events roots)).lines =
      ((g.lineage roots).filter g.IsDerived).map g.line := by
  have hroots : ∀ (ns : List NodeId) (l : Lines),
      (ns.map fun n => Event.root (g.entry n)).foldl Lines.add l = l := by
    intro ns
    induction ns with
    | nil => exact fun _ => rfl
    | cons n ns ih => exact ih
  have hnodes : ∀ (ns : List NodeId) (l : Lines),
      ((ns.flatMap g.nodeEvents).foldl Lines.add l).lines =
        l.lines ++ (ns.filter g.IsDerived).map g.line := by
    intro ns
    induction ns with
    | nil => simp
    | cons n ns ih =>
      intro l
      rw [List.flatMap_cons, List.foldl_append, ih, lines_nodeEvents, List.filter_cons]
      split <;> simp
  rw [Lines.ofEvents, events, List.foldl_append, hroots, hnodes]
  rfl

end Graph

end Lineage
