import Lineage.Proofs.Text.Cut
import Lineage.Proofs.Text.Numeral
import Lineage.Report.Dot

/-!
Labels of a drawing, read back from its text.

A label stands between quotes, with a backslash before each quote in it, and the first quote without
a backslash closes it. So every label is read back as it was, except one that ends in a backslash:
with this the closing quote becomes a quote in the label, and the reading goes on behind it.
-/

namespace Lineage.Report.Dot

open Text

namespace Statement

variable {st : Statement} {s cs : List Char} {label : String}

/-! ### Escaping -/

/-- Reads a label from behind its opening quote: the label, and what follows its closing quote. A
backslash with a quote stands for the quote. -/
def readQuoted? : List Char → Option (List Char × List Char)
  | [] => none
  | '"' :: cs => some ([], cs)
  | '\\' :: '"' :: cs => (readQuoted? cs).map (Prod.map ('"' :: ·) id)
  | c :: cs => (readQuoted? cs).map (Prod.map (c :: ·) id)

def escapeChars (s : List Char) : List Char :=
  s.flatMap fun c => if c = '"' then ['\\', '"'] else [c]

lemma escapeChars_quote (s : List Char) :
    escapeChars ('"' :: s) = '\\' :: '"' :: escapeChars s := rfl

lemma escapeChars_cons {c : Char} (h : c ≠ '"') (s : List Char) :
    escapeChars (c :: s) = c :: escapeChars s := by
  simp [escapeChars, h]

lemma escapeChars_cases (s : List Char) :
    s = [] ∨ ∃ c rest, escapeChars s = c :: rest ∧ c ≠ '"' := by
  cases s with
  | nil => exact .inl rfl
  | cons c s =>
    by_cases hc : c = '"'
    · exact .inr ⟨'\\', _, hc ▸ escapeChars_quote s, by decide⟩
    · exact .inr ⟨c, _, escapeChars_cons hc s, hc⟩

/-- An escaped text is read back, unless its last backslash meets a quote. -/
lemma readQuoted?_escapeChars (h : s.getLast? = some '\\' → cs.head? ≠ some '"') :
    readQuoted? (escapeChars s ++ cs) = (readQuoted? cs).map (Prod.map (s ++ ·) id) := by
  induction s with
  | nil => exact Option.map_id'.symm
  | cons c s ih =>
    have hrest : s.getLast? = some '\\' → cs.head? ≠ some '"' := by
      intro hs
      refine h ?_
      rw [List.getLast?_cons, hs]
      rfl
    have hmap : (readQuoted? (escapeChars s ++ cs)).map (Prod.map (c :: ·) id) =
        (readQuoted? cs).map (Prod.map (c :: s ++ ·) id) := by
      rw [ih hrest, Option.map_map]
      rfl
    by_cases hc : c = '"'
    · subst hc
      exact hmap
    · rw [escapeChars_cons hc, List.cons_append, readQuoted?, hmap]
      · exact hc
      · -- a backslash of the text does not stand before a quote
        rintro cs' rfl heq
        rcases escapeChars_cases s with rfl | ⟨d, rest, hs, hd⟩
        · exact h rfl (congrArg List.head? heq)
        · rw [hs] at heq
          exact hd (List.cons.inj heq).1

lemma escapeChars_injective : Function.Injective escapeChars := by
  intro s s' h
  -- with a blank behind it any escaped text is read back
  have hread : ∀ s, readQuoted? (escapeChars s ++ [' ', '"']) = some (s ++ [' '], []) :=
    fun s => readQuoted?_escapeChars fun _ => by decide
  have heq := hread s
  rw [h, hread s'] at heq
  exact (List.append_cancel_right (Prod.mk.inj (Option.some.inj heq)).1).symm

/-! ### The text of a statement -/

def label? : Statement → Option String
  | .node _ label _ _ => some label
  | .edge _ _ label => label

/-- The number of the node a statement is about: the declared one, or where the edge starts. -/
def origin : Statement → Nat
  | .node id _ _ _ => id
  | .edge source _ _ => source

def arrow : Statement → List Char
  | .node _ _ _ _ => []
  | .edge _ target _ => ' ' :: '-' :: '>' :: ' ' :: 'I' :: 'D' :: '_' :: natNumeral target

def front (st : Statement) : List Char :=
  'I' :: 'D' :: '_' :: natNumeral st.origin ++ st.arrow

def attributes (shape : Shape) (style : Style) : List Char :=
  (" shape=" ++ shape.text ++ " style=" ++ style.text ++ "];").toList

def closing : Statement → List Char
  | .node _ _ shape style => attributes shape style
  | .edge _ _ _ => "];".toList

def opening : List Char := ['[', 'l', 'a', 'b', 'e', 'l', '=', '"']

def back (st : Statement) : List Char :=
  match st.label? with
  | none => [';']
  | some label => ' ' :: opening ++ (escapeChars label.toList ++ '"' :: st.closing)

lemma toList_text (st : Statement) : st.text.toList = st.front ++ st.back := by
  match st with
  | .node id label shape style =>
    simp [text, front, origin, arrow, back, label?, opening, closing, attributes, escape,
      escapeChars, natNumeral]
    rfl
  | .edge source target none =>
    simp [text, front, origin, arrow, back, label?, natNumeral]
    rfl
  | .edge source target (some label) =>
    simp [text, front, origin, arrow, back, label?, opening, closing, escape, escapeChars,
      natNumeral]
    rfl

lemma head?_text (st : Statement) : st.text.toList.head? = some 'I' := by
  rw [toList_text]
  rfl

lemma back_of_label (h : st.label? = some label) :
    st.back = ' ' :: opening ++ (escapeChars label.toList ++ '"' :: st.closing) := by
  rw [back, h]

lemma back_eq_cons (st : Statement) : ∃ c cs, st.back = c :: cs ∧ (c = ';' ∨ c = ' ') := by
  unfold back
  split
  · exact ⟨_, _, rfl, .inl rfl⟩
  · exact ⟨_, _, rfl, .inr rfl⟩

lemma arrow_append_back (st : Statement) : ∃ cs, st.arrow ++ st.back = ' ' :: cs := by
  cases st <;> exact ⟨_, rfl⟩

lemma front_chars (st : Statement) :
    ∀ c ∈ st.front, c.isDigit = true ∨ c ∈ ['I', 'D', '_', ' ', '-', '>'] := by
  intro c hc
  simp only [front, List.cons_append, List.mem_cons, List.mem_append] at hc
  rcases hc with rfl | rfl | rfl | hc | hc
  · decide
  · decide
  · decide
  · exact .inl (isDigit_of_mem_natNumeral hc)
  · cases st with
    | node id label shape style => exact absurd hc List.not_mem_nil
    | edge source target label =>
      simp only [arrow, List.mem_cons] at hc
      rcases hc with rfl | rfl | rfl | rfl | rfl | rfl | rfl | hc
      all_goals first | decide | exact .inl (isDigit_of_mem_natNumeral hc)

/-! ### Statements told apart by their texts -/

lemma natNumeral_append_inj {n k : Nat} {c c' : Char} {r r' : List Char}
    (hc : c.isDigit = false) (hc' : c'.isDigit = false)
    (h : natNumeral n ++ c :: r = natNumeral k ++ c' :: r') : n = k ∧ c :: r = c' :: r' := by
  have hdigits : ∀ (n : Nat) {c : Char} {r : List Char}, c.isDigit = false →
      (natNumeral n ++ c :: r).takeWhile Char.isDigit = natNumeral n := by
    intro n c r hc
    rw [List.takeWhile_append_of_pos fun _ => isDigit_of_mem_natNumeral,
      List.takeWhile_cons_of_neg (by rw [hc]; decide), List.append_nil]
  have hnum := hdigits n (r := r) hc
  rw [h, hdigits k hc'] at hnum
  have hnk := natNumeral_injective hnum
  subst hnk
  exact ⟨rfl, List.append_cancel_left h⟩

/-- The end of a text tells what follows the label. -/
lemma attributes_inj {shape shape' : Shape} {style style' : Style}
    (h : '"' :: attributes shape style <:+ '"' :: attributes shape' style') :
    shape = shape' ∧ style = style' := by
  have hall : ∀ shape ∈ [Shape.box, .ellipse, .circle], ∀ style ∈ [Style.root, .solid, .filled],
      ∀ shape' ∈ [Shape.box, .ellipse, .circle], ∀ style' ∈ [Style.root, .solid, .filled],
        '"' :: attributes shape style <:+ '"' :: attributes shape' style' →
          shape = shape' ∧ style = style' := by
    decide +kernel
  exact hall shape (by cases shape <;> decide) style (by cases style <;> decide)
    shape' (by cases shape' <;> decide) style' (by cases style' <;> decide) h

lemma closed_inj {l l' : List Char} {shape shape' : Shape} {style style' : Style}
    (h : l ++ '"' :: attributes shape style = l' ++ '"' :: attributes shape' style') :
    l = l' ∧ shape = shape' ∧ style = style' := by
  have hboth : shape = shape' ∧ style = style' := by
    rcases List.suffix_or_suffix_of_suffix ⟨l, h⟩ ⟨l', rfl⟩ with hs | hs
    · exact attributes_inj hs
    · exact (attributes_inj hs).imp Eq.symm Eq.symm
  obtain ⟨rfl, rfl⟩ := hboth
  exact ⟨List.append_cancel_right h, rfl, rfl⟩

lemma edge_back_inj {source target source' target' : Nat} {label label' : Option String}
    (h : (edge source target label).back = (edge source' target' label').back) :
    label = label' := by
  cases label with
  | none =>
    cases label' with
    | none => rfl
    | some label' => exact absurd (List.cons.inj h).1 (by decide)
  | some label =>
    cases label' with
    | none => exact absurd (List.cons.inj h).1 (by decide)
    | some label' =>
      rw [back_of_label rfl, back_of_label rfl] at h
      have hlabel := List.append_cancel_right (List.append_cancel_left h)
      rw [String.toList_inj.1 (escapeChars_injective hlabel)]

lemma text_injective : Function.Injective text := by
  intro st st' h
  have hchars := congrArg String.toList h
  rw [toList_text, toList_text, front, front, List.append_assoc, List.append_assoc] at hchars
  obtain ⟨cs, hcs⟩ := st.arrow_append_back
  obtain ⟨cs', hcs'⟩ := st'.arrow_append_back
  rw [hcs, hcs'] at hchars
  obtain ⟨horigin, hrest⟩ := natNumeral_append_inj rfl rfl
    (@List.append_cancel_left _ ['I', 'D', '_'] _ _ hchars)
  rw [← hcs, ← hcs'] at hrest
  cases st with
  | node id label shape style =>
    cases st' with
    | node id' label' shape' style' =>
      obtain ⟨hlabel, rfl, rfl⟩ := closed_inj
        (@List.append_cancel_left _ (' ' :: opening) _ _ hrest)
      rw [String.toList_inj.1 (escapeChars_injective hlabel)]
      exact congrArg (node · _ _ _) horigin
    | edge source' target' label' =>
      exact absurd (List.cons.inj (List.cons.inj hrest).2).1 (by decide)
  | edge source target label =>
    cases st' with
    | node id' label' shape' style' =>
      exact absurd (List.cons.inj (List.cons.inj hrest).2).1 (by decide)
    | edge source' target' label' =>
      have htarget :=
        @List.append_cancel_left _ [' ', '-', '>', ' ', 'I', 'D', '_'] _ _ hrest
      obtain ⟨c, cs, hback, hc⟩ := (edge source target label).back_eq_cons
      obtain ⟨c', cs', hback', hc'⟩ := (edge source' target' label').back_eq_cons
      rw [hback, hback'] at htarget
      obtain ⟨rfl, hlabel⟩ := natNumeral_append_inj (by rcases hc with rfl | rfl <;> rfl)
        (by rcases hc' with rfl | rfl <;> rfl) htarget
      rw [← hback, ← hback'] at hlabel
      rw [edge_back_inj hlabel]
      exact congrArg (edge · _ _) horigin

/-! ### Reading labels -/

/-- Reads the label from the text of a statement, with what follows its closing quote. -/
def readLabel? (text : String) : Option (List Char × List Char) :=
  (cut? opening text.toList).bind fun p => readQuoted? p.2

lemma readLabel?_text (h : st.label? = some label) :
    readLabel? st.text = readQuoted? (escapeChars label.toList ++ '"' :: st.closing) := by
  have hbracket : '[' ∉ st.front ++ [' '] := by
    intro hmem
    rcases List.mem_append.1 hmem with hmem | hmem
    · exact absurd (st.front_chars _ hmem) (by decide)
    · exact absurd hmem (by decide)
  have hcut := cut?_append (not_infix_of_head ['l', 'a', 'b', 'e', 'l', '=', '"'] hbracket)
    (escapeChars label.toList ++ '"' :: st.closing)
  have htext : st.text.toList = st.front ++ [' '] ++ opening ++
      (escapeChars label.toList ++ '"' :: st.closing) := by
    rw [toList_text, back_of_label h]
    simp
  rw [readLabel?, htext]
  exact congrArg (fun o => Option.bind o fun p => readQuoted? p.2) hcut

/-- The label is read back, and its closing quote is the one that was written for it. -/
def ReadsBack (st : Statement) (label : String) : Prop :=
  readLabel? st.text = some (label.toList, st.closing)

/-- Behind a backslash at the end of the label the reading goes on. -/
lemma readLabel?_of_backslash (h : st.label? = some label) (hs : label.toList = s ++ ['\\']) :
    readLabel? st.text = (readQuoted? st.closing).map (Prod.map (s ++ '"' :: ·) id) := by
  have hescape : escapeChars label.toList ++ '"' :: st.closing =
      escapeChars s ++ '\\' :: '"' :: st.closing := by
    rw [hs, escapeChars, List.flatMap_append]
    simp [escapeChars]
  have hnext : s.getLast? = some '\\' → ('\\' :: '"' :: st.closing).head? ≠ some '"' :=
    fun _ => by simp
  rw [readLabel?_text h, hescape, readQuoted?_escapeChars hnext, readQuoted?, Option.map_map]
  rfl

lemma readsBack_iff (h : st.label? = some label) :
    st.ReadsBack label ↔ label.toList.getLast? ≠ some '\\' := by
  constructor
  · intro hread hlast
    obtain ⟨s, hs⟩ := List.getLast?_eq_some_iff.1 hlast
    rw [ReadsBack, readLabel?_of_backslash h hs, Option.map_eq_some_iff] at hread
    obtain ⟨p, -, hp⟩ := hread
    -- the label would have to be one with a quote in the place of the backslash
    have hlabel := (Prod.mk.inj hp).1
    rw [hs, List.append_right_inj] at hlabel
    exact absurd (List.cons.inj hlabel).1 (by decide)
  · intro hlast
    rw [ReadsBack, readLabel?_text h, readQuoted?_escapeChars fun hs => absurd hs hlast]
    simp [readQuoted?]

end Statement

/-- **A label is read back exactly if it does not end in a backslash**: the label of an entry and of
a join as the filter gives it, and that of an edge as it is. -/
theorem labels_read_back_iff (d : Dot) (filter : Filter) :
    (∀ e, (d.entryStatement filter e).ReadsBack (filter e.name) ↔
      (filter e.name).toList.getLast? ≠ some '\\') ∧
    (∀ id label, (joinStatement filter id label).ReadsBack (filter label) ↔
      (filter label).toList.getLast? ≠ some '\\') ∧
    ∀ source target label, (Statement.edge source target (some label)).ReadsBack label ↔
      label.toList.getLast? ≠ some '\\' :=
  ⟨fun _ => Statement.readsBack_iff rfl, fun _ _ => Statement.readsBack_iff rfl,
    fun _ _ _ => Statement.readsBack_iff rfl⟩

/-- An entry called `A\` leaves its statement without a closing quote. -/
theorem labels_may_run_on :
    let d := ofEvents [.openEntry { key := 0, name := "A\\" }, .closeEntry]
    d.lines id = ["digraph \x7b", "ID_0 [label=\"A\\\" shape=ellipse style=solid];", "\x7d"] ∧
      ∀ st ∈ d.statements id, Statement.readLabel? st.text = none := by
  decide +kernel

end Lineage.Report.Dot
