import Lineage.Proofs.Report.Edges
import Lineage.Proofs.Report.Repeats

/-!
Drawings of reports that are bracketed.

In such a report records stand inside entries and dependencies inside records, and no entry is
opened twice. What it says can then be read without following the events one by one: the records of
an entry are those up to where the entry ends. A drawing of it shows these records and no others.
-/

namespace Lineage.Report

/-! ### What a report says -/

/-- Where in a report an event stands. -/
inductive Place
  | outside | entry | record

/-- The place behind an event, if the event may stand there. An entry also ends where the next one
is opened, and a record where the next one is opened or its entry ends. -/
def Place.next? : Place → Event → Option Place
  | place, .root _ => some place
  | _, .openEntry _ => some .entry
  | _, .closeEntry => some .outside
  | .outside, .openRecord _ => none
  | _, .openRecord _ => some .record
  | .outside, .closeRecord => some .outside
  | _, .closeRecord => some .entry
  | .record, .dependency _ => some .record
  | _, .dependency _ => none

/-- From a place on, every record stands inside an entry and every dependency inside a record. -/
def BracketedFrom (place : Place) (events : List Event) : Prop :=
  (events.foldlM Place.next? place).isSome = true

def Bracketed (events : List Event) : Prop := BracketedFrom .outside events

instance (events : List Event) : Decidable (Bracketed events) :=
  inferInstanceAs (Decidable (_ = _))

def Event.opened? : Event → Option Nat
  | .openEntry e => some e.key
  | _ => none

/-- The dependencies of a record, from the events behind its opening. -/
def dependenciesOf : List Event → List Nat
  | .dependency e :: events => e.key :: dependenciesOf events
  | .root _ :: events => dependenciesOf events
  | _ => []

def recordsIn : List Event → List KeyedRecord
  | [] => []
  | .openEntry _ :: _ | .closeEntry :: _ => []
  | .openRecord label :: events => ⟨label, dependenciesOf events⟩ :: recordsIn events
  | _ :: events => recordsIn events

/-- The entries that are opened, with their records. -/
def reported : List Event → List (Nat × List KeyedRecord)
  | [] => []
  | .openEntry e :: events => (e.key, recordsIn events) :: reported events
  | _ :: events => reported events

variable {events : List Event}

lemma BracketedFrom.cons {place : Place} {ev : Event} (h : BracketedFrom place (ev :: events)) :
    ∃ next, place.next? ev = some next ∧ BracketedFrom next events := by
  unfold BracketedFrom at h
  rw [List.foldlM_cons] at h
  cases hnext : place.next? ev with
  | none =>
    rw [hnext] at h
    cases h
  | some next =>
    rw [hnext] at h
    exact ⟨next, rfl, h⟩

namespace Dot

variable {d : Dot} {before : List (Nat × List KeyedRecord)} {key : Nat} {rs : List KeyedRecord}
  {r : KeyedRecord}

/-! ### A drawing in the making -/

/-- The entry of the key is open and has the records. -/
structure Open (d : Dot) (before : List (Nat × List KeyedRecord)) (key : Nat)
    (rs : List KeyedRecord) : Prop where
  current : d.current = some key
  records : d.records = before ++ [(key, rs)]
  fresh : key ∉ before.map Prod.fst

lemma addToLast_concat (key : Nat) (rs : List KeyedRecord) (r : KeyedRecord) :
    addToLast key (rs ++ [r]) = rs ++ [{ r with dependencies := r.dependencies ++ [key] }] := by
  induction rs with
  | nil => rfl
  | cons r' rs ih =>
    cases rs with
    | nil => rfl
    | cons r'' rs => exact congrArg (r' :: ·) ih

lemma putRecords_of_not_mem (rs : List KeyedRecord) (h : key ∉ before.map Prod.fst) :
    putRecords key rs before = before ++ [(key, rs)] := by
  induction before with
  | nil => rfl
  | cons p before ih =>
    rw [List.map_cons, List.mem_cons, not_or] at h
    rw [putRecords, if_neg (Ne.symm h.1), ih h.2]
    rfl

@[simp] lemma current_mention (d : Dot) (e : Entry) : (d.mention e).current = d.current := by
  unfold mention
  split <;> rfl

namespace Open

lemma map_fst (h : Open d before key rs) :
    d.records.map Prod.fst = before.map Prod.fst ++ [key] := by
  rw [h.records, List.map_append]
  rfl

lemma mention (h : Open d before key rs) (e : Entry) : Open (d.mention e) before key rs :=
  ⟨(current_mention d e).trans h.current, (records_mention d e).trans h.records, h.fresh⟩

lemma updateCurrent (h : Open d before key rs) (f : List KeyedRecord → List KeyedRecord) :
    Open (d.updateCurrent f) before key (f rs) := by
  have hbefore : before.map (fun p => if p.1 = key then (p.1, f p.2) else p) = before := by
    refine (List.map_congr_left fun p hp => ?_).trans before.map_id
    exact if_neg fun hkey : p.1 = key => h.fresh (hkey ▸ List.mem_map_of_mem hp)
  unfold Dot.updateCurrent
  rw [h.current]
  refine ⟨rfl, ?_, h.fresh⟩
  simp [h.records, hbefore]

lemma openRecord (h : Open d before key rs) (label : String) :
    Open (d.add (.openRecord label)) before key (rs ++ [({ label } : KeyedRecord)]) :=
  h.updateCurrent fun rs => rs ++ [({ label } : KeyedRecord)]

lemma dependency (h : Open d before key (rs ++ [r])) (e : Entry) :
    Open (d.add (.dependency e)) before key
      (rs ++ [{ r with dependencies := r.dependencies ++ [e.key] }]) := by
  rw [← addToLast_concat]
  exact (h.mention e).updateCurrent _

lemma of_openEntry (d : Dot) (e : Entry) (h : e.key ∉ d.records.map Prod.fst) :
    Open (d.add (.openEntry e)) d.records e.key [] := by
  refine ⟨rfl, ?_, h⟩
  rw [← putRecords_of_not_mem [] h, ← records_mention d e]
  rfl

end Open

/-! ### The rest of a report, from each of the places -/

/-- Where no entry is open, what is drawn of the rest is what it says. -/
def AgreesOutside (events : List Event) : Prop :=
  ∀ d : Dot, BracketedFrom .outside events →
    (d.records.map Prod.fst ++ events.filterMap Event.opened?).Nodup →
    (events.foldl add d).records = d.records ++ reported events

/-- An open entry gets the records that follow in it. -/
def AgreesInEntry (events : List Event) : Prop :=
  ∀ d before key rs, Open d before key rs → BracketedFrom .entry events →
    (d.records.map Prod.fst ++ events.filterMap Event.opened?).Nodup →
    (events.foldl add d).records = before ++ (key, rs ++ recordsIn events) :: reported events

/-- An open record gets the dependencies that follow in it, and its entry the records. -/
def AgreesInRecord (events : List Event) : Prop :=
  ∀ d before key rs r, Open d before key (rs ++ [r]) → BracketedFrom .record events →
    (d.records.map Prod.fst ++ events.filterMap Event.opened?).Nodup →
    (events.foldl add d).records = before ++
      (key, rs ++ { r with dependencies := r.dependencies ++ dependenciesOf events } ::
        recordsIn events) :: reported events

lemma AgreesOutside.cons (h : AgreesOutside events) (hentry : AgreesInEntry events) (ev : Event) :
    AgreesOutside (ev :: events) := by
  intro d hplace hnodup
  obtain ⟨next, hnext, hplace⟩ := hplace.cons
  cases ev with
  | openEntry e =>
    cases hnext
    have hfresh : e.key ∉ d.records.map Prod.fst := fun hmem =>
      (List.nodup_append.1 hnodup).2.2 _ hmem _ List.mem_cons_self rfl
    have hopen := Open.of_openEntry d e hfresh
    refine hentry _ _ _ _ hopen hplace ?_
    rw [hopen.map_fst, List.append_assoc]
    exact hnodup
  | root e | closeEntry | closeRecord =>
    cases hnext
    exact h _ hplace hnodup
  | openRecord label | dependency e => cases hnext

lemma AgreesInEntry.cons (h : AgreesInEntry events) (hrecord : AgreesInRecord events) {ev : Event}
    (houtside : AgreesOutside (ev :: events)) : AgreesInEntry (ev :: events) := by
  intro d before key rs hopen hplace hnodup
  obtain ⟨next, hnext, hrest⟩ := hplace.cons
  cases ev with
  | root e =>
    cases hnext
    exact h _ _ _ _ ⟨hopen.current, hopen.records, hopen.fresh⟩ hrest hnodup
  | openRecord label =>
    cases hnext
    have hopen' := hopen.openRecord label
    exact hrecord _ _ _ _ _ hopen' hrest (by rwa [hopen'.map_fst, ← hopen.map_fst])
  | closeRecord =>
    cases hnext
    exact h _ _ _ _ hopen hrest hnodup
  | openEntry e | closeEntry =>
    -- the entry is over
    rw [houtside d hplace hnodup, hopen.records, recordsIn, List.append_nil, List.append_assoc]
    rfl
  | dependency e => cases hnext

lemma AgreesInRecord.cons (h : AgreesInRecord events) {ev : Event}
    (hentry : AgreesInEntry (ev :: events)) : AgreesInRecord (ev :: events) := by
  intro d before key rs r hopen hplace hnodup
  obtain ⟨next, hnext, hrest⟩ := hplace.cons
  cases ev with
  | root e =>
    cases hnext
    exact h _ _ _ _ _ ⟨hopen.current, hopen.records, hopen.fresh⟩ hrest hnodup
  | dependency e =>
    cases hnext
    have hopen' := hopen.dependency e
    have hover := h _ _ _ _ _ hopen' hrest (by rwa [hopen'.map_fst, ← hopen.map_fst])
    rw [List.append_assoc] at hover
    exact hover
  | openEntry e | closeEntry | openRecord label | closeRecord =>
    -- the record is over
    have hover := hentry _ _ _ _ hopen hplace hnodup
    rw [List.append_assoc] at hover
    simpa [dependenciesOf] using hover

/-- By induction on the events, in all places at once: an event leads from one to another. -/
lemma agrees (events : List Event) :
    AgreesOutside events ∧ AgreesInEntry events ∧ AgreesInRecord events := by
  induction events with
  | nil =>
    refine ⟨fun d _ _ => (List.append_nil _).symm, fun d before key rs h _ _ => ?_,
      fun d before key rs r h _ _ => ?_⟩
    · rw [recordsIn, List.append_nil]
      exact h.records
    · simpa [dependenciesOf, recordsIn, reported] using h.records
  | cons ev events ih =>
    obtain ⟨houtside, hentry, hrecord⟩ := ih
    have houtside' := houtside.cons hentry ev
    have hentry' := hentry.cons hrecord houtside'
    exact ⟨houtside', hentry', hrecord.cons hentry'⟩

/-- A drawing of a report has the records that the report says. -/
lemma records_ofEvents (hplace : Bracketed events)
    (hopened : (events.filterMap Event.opened?).Nodup) :
    (ofEvents events).records = reported events :=
  (agrees events).1 {} hplace hopened

/-- **A drawing shows what was reported, and nothing else.** Whatever the events, each key that is
mentioned has the node with the number of its first mention, and all nodes are numbered without a
gap, joins behind entries; edges are between nodes, each statement has a line of its own and no line
is written twice, and all keys that are looked up are known. If the events are bracketed and open no
entry twice, a key leads to another one exactly if a record of the one is on the other: by an edge
with the label of a record on this dependency alone, or through a join with the label of a record on
several. -/
theorem drawings_show_records (filter : Filter) (events : List Event) :
    let d := ofEvents events
    let mentions := events.filterMap Event.mentioned?
    let keys := (mentions.map (·.key)).eraseDups
    let sts := d.statements filter
    (∀ i key, keys[i]? = some key → ∃ e, mentions.find? (·.key = key) = some e ∧
      sts[i]? = some (Statement.node i (filter e.name)
        (if e.constant || e.external then .box else .ellipse)
        (if key ∈ d.roots then .root else .solid))) ∧
    (∃ joins, sts.filterMap Statement.declared? = List.range (keys.length + joins)) ∧
    (∀ id label shape style, Statement.node id label shape style ∈ sts → keys.length ≤ id →
      shape = .circle ∧ style = .filled) ∧
    (∀ source target label, Statement.edge source target label ∈ sts →
      source ∈ sts.filterMap Statement.declared? ∧ target ∈ sts.filterMap Statement.declared?) ∧
    (d.lines filter = (d.repeatedLines filter).eraseDups ∧ (d.lines filter).Nodup ∧
      ∀ st : Statement, st.text ∈ d.lines filter ↔ st ∈ sts) ∧
    (∀ p ∈ d.records, p.1 ∈ keys ∧ ∀ r ∈ p.2, ∀ key ∈ r.dependencies, key ∈ keys) ∧
    (Bracketed events → (events.filterMap Event.opened?).Nodup → ∀ a b label,
      let rs := recordsOf (reported events) a
      let sts := d.statements id
      ((∃ r ∈ rs, r.label = label ∧ b ∈ r.dependencies) ↔
        ∃ i j s, keys[i]? = some a ∧ keys[j]? = some b ∧ Starts id sts rs i s ∧
          (.edge s j (some label) ∈ sts ∨ Joined sts label s j)) ∧
      ∀ i j s, keys[i]? = some a → keys[j]? = some b → Starts id sts rs i s →
        (.edge s j (some label) ∈ sts ↔ ⟨label, [b]⟩ ∈ rs) ∧
        (Joined sts label s j ↔
          ∃ r ∈ rs, r.dependencies.length ≠ 1 ∧ r.label = label ∧ b ∈ r.dependencies)) := by
  intro d mentions keys sts
  have h : d.Closed := closed_ofEvents events
  have hkeys : d.keys = keys := keys_ofEvents events
  have hlength : keys.length = d.entries.length := by rw [← hkeys, Dot.keys, List.length_map]
  have hdeclared : sts.filterMap Statement.declared? = _ := h.declared
  refine ⟨fun i key hi => ?_, ?_, fun id label shape style hst hid => ?_,
    fun source target label hst => ?_,
    ⟨h.lines_eq_eraseDups filter, h.nodup_lines, fun st => text_mem_lines⟩, hkeys ▸ h.known, ?_⟩
  · -- entries come first, in the order of their first mention
    obtain ⟨e, he, rfl, hnode⟩ := h.node_of_key filter (hkeys ▸ hi)
    exact ⟨e, find?_of_mem_entries he, hnode⟩
  · refine ⟨after (d.fan filter) d.entries.length d.records - d.entries.length, ?_⟩
    rw [hdeclared, hlength, Nat.add_sub_cancel' h.drawn_all.le]
  · exact h.join_of_le hst (hlength ▸ hid)
  · rw [hdeclared, List.mem_range, List.mem_range]
    exact h.edge_lt hst
  · intro hplace hopened a b label
    have hrecords : d.records = reported events := records_ofEvents hplace hopened
    rw [← hrecords, ← hkeys]
    exact ⟨h.records_iff a b label, fun i j s hi hj hs => h.edges_iff hi hj hs⟩

/-- A report on `A`, which is a copy of `B` and a sum of `B` and itself: the sum is found behind the
`phi` node of `A`. -/
theorem drawings_show_records_phi :
    let events : List Event := [.openEntry { key := 7, name := "A" }, .openRecord "copy",
      .dependency { key := 3, name := "B" }, .closeRecord, .openRecord "+",
      .dependency { key := 3, name := "B" }, .dependency { key := 7, name := "A" }, .closeRecord,
      .closeEntry]
    let sts := (ofEvents events).statements id
    let rs := recordsOf (reported events) 7
    (Bracketed events ∧ (events.filterMap Event.opened?).Nodup) ∧
      ∃ i j s, [7, 3][i]? = some 7 ∧ [7, 3][j]? = some 3 ∧ Starts id sts rs i s ∧
        (.edge s j (some "+") ∈ sts ∨ Joined sts "+" s j) := by
  intro events sts rs
  have hplace : Bracketed events := by decide
  have hopened : (events.filterMap Event.opened?).Nodup := by decide
  have hiff := ((drawings_show_records id events).2.2.2.2.2.2 hplace hopened 7 3 "+").1
  exact ⟨⟨hplace, hopened⟩, hiff.1 ⟨⟨"+", [3, 7]⟩, by decide, rfl, by decide⟩⟩

end Dot

end Lineage.Report
