import Lineage.Proofs.Derivation.Branching
import Lineage.Proofs.Derivation.Legibility
import Lineage.Proofs.Derivation.Nodes

/-!
Contexts can be read back.

A context is a text without brackets or escapes: a direction, the program counter, and what is known
of the operands that have been collected, one after the other. The names of operands have no equals
sign, numerals have no colon, and no shape has a semicolon, so that the text can be cut where it was
joined, and two contexts that read the same tell of the same.
-/

namespace Lineage

open Text

variable {g g' : Graph} {s s' : Store} {o o' : Operand} {ids ids' : List OperandId}
  {taken taken' : Bool}

/-! ### Shapes -/

/-- The shape of the node can be told from what follows it in a context. -/
def Node.Unbroken (n : Node) : Prop := ';' ∉ n.shape.toList

lemma semicolon_not_mem_literal (v : Value) : ';' ∉ ("%" ++ Value.text v).toList := by
  simp [toList_valueText, not_mem_intNumeral (show isNameChar ';' = false by decide)]

/-- What is not known without a derivation is called after a channel. -/
lemma Operand.semicolon_not_mem_name (h : o.isKnown = false) : ';' ∉ o.name.toList := by
  intro hmem
  refine absurd (Kind.isNameChar_name (fun name hk => ?_) _ hmem) (by decide)
  rw [isKnown, hk] at h
  cases h

lemma Node.unbroken_of_constant {n : Node} (h : n.origin = .constant) : n.Unbroken := by
  rw [Unbroken, shape, h]
  exact semicolon_not_mem_literal n.value

namespace Machine

variable {m m' : Machine Tracker}

lemma unbroken_planned (h : m.observer.graph.All Node.Unbroken) :
    m.planned.2.1.graph.All Node.Unbroken :=
  m.all_planned h (fun _ => Node.unbroken_of_constant rfl) fun _ _ hknown _ _ =>
    Operand.semicolon_not_mem_name hknown

lemma Course.unbroken {r : Except Fault Bool} (hc : m.Course r m')
    (h : m.observer.graph.All Node.Unbroken) : m'.observer.graph.All Node.Unbroken := by
  refine hc.all h (fun _ => Node.unbroken_of_constant rfl) (fun _ _ hknown _ _ =>
    Operand.semicolon_not_mem_name hknown) fun _ _ _ op dv hlabel => ?_
  show ';' ∉ dv.label.toList
  rw [hlabel]
  exact op.not_mem_text (by decide)

end Machine

/-! ### States -/

namespace Tracker

/-- What a context tells of an operand: a value and a shape. -/
def state (g : Graph) (o : Operand) : Value × String :=
  match o.node with
  | some n => g.look n
  | none => (o.recorded, if o.isKnown then "%" ++ Value.text o.recorded else o.name)

lemma stateText_eq (g : Graph) (o : Operand) : stateText g o =
    o.name ++ "=" ++ Value.text (state g o).1 ++ ":" ++ (state g o).2 := by
  unfold stateText state
  cases o.node <;> rfl

lemma toList_stateText (g : Graph) (o : Operand) : (stateText g o).toList =
    o.name.toList ++ '=' :: (intNumeral (state g o).1.toInt ++ ':' :: (state g o).2.toList) := by
  simp [stateText_eq, toList_valueText]

lemma stateText_inj (h : '=' ∉ o.name.toList) (h' : '=' ∉ o'.name.toList) :
    stateText g o = stateText g' o' ↔ o.name = o'.name ∧ state g o = state g' o' := by
  have hcolon : ∀ i : Int, ':' ∉ intNumeral i := not_mem_intNumeral (by decide)
  constructor
  · intro htext
    replace htext := congrArg String.toList htext
    rw [toList_stateText, toList_stateText, append_cons_inj h h',
      append_cons_inj (hcolon _) (hcolon _)] at htext
    obtain ⟨hname, hvalue, hshape⟩ := htext
    exact ⟨String.toList_inj.1 hname, Prod.ext (Int64.toInt_inj.1 (intNumeral_injective hvalue))
      (String.toList_inj.1 hshape)⟩
  · rintro ⟨hname, hstate⟩
    rw [stateText_eq, stateText_eq, hname, hstate]

lemma semicolon_not_mem_stateText (hg : g.All Node.Unbroken) (hname : ';' ∉ o.name.toList) :
    ';' ∉ (stateText g o).toList := by
  have hshape : ';' ∉ (state g o).2.toList := by
    unfold state
    cases o.node with
    | some n =>
      rcases Nat.lt_or_ge n g.size with hlt | hge
      · exact hg n hlt
      · have hdefault : g.node n = default := by
          simpa [Graph.node, Array.getD_eq_getD_getElem?] using
            congrArg (·.getD default) (Array.getElem?_eq_none hge)
        show (g.node n).Unbroken
        rw [hdefault]
        exact Node.unbroken_of_constant rfl
    | none =>
      cases o.isKnown with
      | true => exact semicolon_not_mem_literal _
      | false => exact hname
  have hvalue : ';' ∉ intNumeral (state g o).1.toInt := not_mem_intNumeral (by decide) _
  rw [toList_stateText]
  simp [hname, hvalue, hshape]

/-! ### Tags -/

def stateTexts (g : Graph) (s : Store) (ids : List OperandId) : List String :=
  ids.map fun id => stateText g (s.operand id)

lemma toList_tag (g : Graph) (s : Store) (taken : Bool) (ids : List OperandId) :
    (tag g s taken ids).toList = (if taken then 'Y' else 'N') :: '@' ::
      (intNumeral s.pcValue.toInt ++ '|' :: [';'].intercalate
        (((stateTexts g s ids).insertionSort (· ≤ ·)).map String.toList)) := by
  rw [tag, foldr_place]
  cases taken <;> simp [stateTexts, String.toList_intercalate, toList_valueText]

/-- A context that tells of operands at all tells the direction, the program counter and the texts
for the operands, up to their order. -/
lemma tag_inj (hne : ids ≠ []) (hne' : ids' ≠ [])
    (h : ∀ text ∈ stateTexts g s ids, ';' ∉ text.toList)
    (h' : ∀ text ∈ stateTexts g' s' ids', ';' ∉ text.toList) :
    tag g s taken ids = tag g' s' taken' ids' ↔ taken = taken' ∧ s.pcValue = s'.pcValue ∧
      (stateTexts g s ids).Perm (stateTexts g' s' ids') := by
  have hsplit : ∀ {texts : List String}, texts ≠ [] → (∀ text ∈ texts, ';' ∉ text.toList) →
      List.splitOn ';' ([';'].intercalate ((texts.insertionSort (· ≤ ·)).map String.toList)) =
        (texts.insertionSort (· ≤ ·)).map String.toList := by
    intro texts hne h
    refine List.splitOn_intercalate ';' (fun cs hcs => ?_) fun hnil => hne ?_
    · obtain ⟨text, htext, rfl⟩ := List.mem_map.1 hcs
      exact h text ((List.perm_insertionSort ..).mem_iff.1 htext)
    · rw [List.map_eq_nil_iff] at hnil
      exact List.perm_nil.1 (hnil ▸ (List.perm_insertionSort (· ≤ ·) texts).symm)
  have hbar : ∀ i : Int, '|' ∉ intNumeral i := not_mem_intNumeral (by decide)
  constructor
  · intro htag
    replace htag := congrArg String.toList htag
    rw [toList_tag, toList_tag, List.cons.injEq, List.cons.injEq,
      append_cons_inj (hbar _) (hbar _)] at htag
    obtain ⟨hdirection, -, hpc, hstates⟩ := htag
    refine ⟨?_, Int64.toInt_inj.1 (intNumeral_injective hpc), ?_⟩
    · cases taken <;> cases taken' <;> simp_all
    · replace hstates := congrArg (List.splitOn ';') hstates
      rw [hsplit (by simpa [stateTexts] using hne) h, hsplit (by simpa [stateTexts] using hne') h']
        at hstates
      have hsorted := List.map_injective_iff.2 (fun _ _ => String.toList_inj.1) hstates
      exact ((List.perm_insertionSort ..).symm.trans (.of_eq hsorted)).trans
        (List.perm_insertionSort ..)
  · rintro ⟨rfl, hpc, hperm⟩
    refine String.toList_inj.1 ?_
    have hsorted : (stateTexts g s ids).insertionSort (· ≤ ·) =
        (stateTexts g' s' ids').insertionSort (· ≤ ·) :=
      (((List.perm_insertionSort ..).trans hperm).trans
        (List.perm_insertionSort ..).symm).eq_of_pairwise
          (fun _ _ _ _ => le_antisymm) (List.pairwise_insertionSort ..)
          (List.pairwise_insertionSort ..)
    rw [toList_tag, toList_tag, hpc, hsorted]

end Tracker

end Lineage
