import Lineage.Proofs.Derivation.Fitting
import Lineage.Proofs.Instruction.Decoding

/-!
What a decision marks.

A decision that is adopted marks the operands that it rests on and the one that it gives a node to,
constants apart, and it is pending for that one. A branch ends the marking. All of them are operands
that the instruction can get at.
-/

namespace Lineage

variable {t : Tracker} {s : Store} {d : Decision} {i : Instruction} {id : OperandId}
  {p q : Tracker × Store}

namespace Decision

def marks : Decision → List OperandId
  | .nothing | .derive _ .nothing => []
  | .derive target (.source r) => target :: [r].filterMap Reading.operand
  | .derive target (.constant _) => [target]
  | .derive target (.derived _ rs) => target :: rs.filterMap Reading.operand
  | .branch _ pc x => Store.pc :: [pc, x].filterMap Reading.operand

lemma mem_marks (h : id ∈ d.marks) :
    d.target? = some id ∨ ∃ r ∈ d.readings, r.operand = some id := by
  unfold marks at h
  split at h
  · cases h
  · cases h
  · rcases List.mem_cons.1 h with rfl | h
    · exact .inl rfl
    · exact .inr (List.mem_filterMap.1 h)
  · rw [List.mem_singleton] at h
    exact .inl (congrArg some h.symm)
  · rcases List.mem_cons.1 h with rfl | h
    · exact .inl rfl
    · exact .inr (List.mem_filterMap.1 h)
  · rcases List.mem_cons.1 h with rfl | h
    · exact .inl rfl
    · exact .inr (List.mem_filterMap.1 h)

end Decision

def Pending.target : Pending → OperandId
  | .existing target _ | .derived target _ _ _ => target

namespace Tracker

/-! ### Marking -/

lemma mem_mark (t : Tracker) (s : Store) (j : OperandId) : id ∈ (t.mark s j).marked ↔
    id ∈ t.marked ∨ (s.operand id).kind.isConstant = false ∧ id = j := by
  unfold mark
  cases hc : (s.operand j).kind.isConstant with
  | true =>
    rw [if_pos rfl]
    refine ⟨.inl, fun h => h.resolve_right ?_⟩
    rintro ⟨hid, rfl⟩
    rw [hc] at hid
    cases hid
  | false =>
    rw [if_neg Bool.false_ne_true, List.mem_insert_iff]
    constructor
    · rintro (rfl | h)
      · exact .inr ⟨hc, rfl⟩
      · exact .inl h
    · rintro (h | ⟨-, rfl⟩)
      · exact .inr h
      · exact .inl rfl

lemma mem_markAll (t : Tracker) (s : Store) (rs : List Reading) (target : OperandId) :
    id ∈ (t.markAll s rs target).marked ↔ id ∈ t.marked ∨
      (s.operand id).kind.isConstant = false ∧ id ∈ target :: rs.filterMap Reading.operand := by
  have hfold : id ∈ (rs.foldl (fun t r => t.markSource s r) t).marked ↔ id ∈ t.marked ∨
      (s.operand id).kind.isConstant = false ∧ id ∈ rs.filterMap Reading.operand := by
    induction rs generalizing t with
    | nil => simp
    | cons r rs ih =>
      rw [List.foldl_cons, ih]
      unfold markSource
      cases hr : r.operand with
      | none => rw [List.filterMap_cons_none hr]
      | some j =>
        rw [List.filterMap_cons_some hr, mem_mark, List.mem_cons]
        tauto
  rw [markAll, mem_mark, hfold, List.mem_cons]
  tauto

/-- A decision marks what it is about, constants apart, unless it is a branch. -/
lemma mem_marked_adopt (t : Tracker) (s : Store) (hd : ∀ taken pc x, d ≠ .branch taken pc x) :
    id ∈ (t.adopt s d).marked ↔
      id ∈ t.marked ∨ (s.operand id).kind.isConstant = false ∧ id ∈ d.marks := by
  have hsource : ∀ {t : Tracker} {target r}, id ∈ (t.pendSource s target r).marked ↔
      id ∈ t.marked ∨ (s.operand id).kind.isConstant = false ∧
        id ∈ target :: [r].filterMap Reading.operand := by
    intro t target r
    by_cases h : s.IsOutput target
    · rw [pendSource_of_output h]
      exact mem_markAll ..
    · rw [pendSource_of_not_output h]
      exact mem_markAll ..
  cases d with
  | nothing => simp [adopt, Decision.marks]
  | derive target o =>
    cases o with
    | source r => exact hsource
    | constant v => exact hsource
    | derived op rs => exact mem_markAll ..
    | nothing => simp [adopt, Decision.marks]
  | branch taken pc x => exact absurd rfl (hd taken pc x)

lemma marked_adopt_branch (t : Tracker) (s : Store) (taken : Bool) (pc x : Reading) :
    (t.adopt s (.branch taken pc x)).marked = [] := rfl

/-! ### Pending -/

lemma pending_adopt (t : Tracker) (s : Store) (hd : d.marks ≠ []) :
    ∃ x, (t.adopt s d).pending = some x ∧ d.target? = some x.target ∧ x.target ∈ d.marks := by
  have hsource : ∀ (t : Tracker) target r,
      ∃ x, (t.pendSource s target r).pending = some x ∧ x.target = target := by
    intro t target r
    by_cases h : s.IsOutput target
    · rw [pendSource_of_output h]
      exact ⟨_, rfl, rfl⟩
    · rw [pendSource_of_not_output h]
      exact ⟨_, rfl, rfl⟩
  cases d with
  | nothing => exact absurd rfl hd
  | derive target o =>
    cases o with
    | source r =>
      obtain ⟨x, hx, rfl⟩ := hsource t target r
      exact ⟨x, hx, rfl, List.mem_cons_self⟩
    | constant v =>
      obtain ⟨name, hname⟩ := pendConstant_eq t s target v
      obtain ⟨x, hx, rfl⟩ := hsource { t with graph := (t.graph.constant v).2 } target
        ⟨none, name, (t.graph.constant v).1, v, true⟩
      exact ⟨x, by rw [adopt, hname, hx], rfl, List.mem_cons_self⟩
    | derived op rs => exact ⟨_, rfl, rfl, List.mem_cons_self⟩
    | nothing => exact absurd rfl hd
  | branch taken pc x => exact ⟨_, rfl, rfl, List.mem_cons_self⟩

lemma adopt_of_marks (t : Tracker) (s : Store) (hd : d.marks = []) : t.adopt s d = t := by
  cases d with
  | nothing => rfl
  | derive target o =>
    cases o with
    | nothing => rfl
    | source | constant | derived => cases hd
  | branch => cases hd

lemma pending_settle (t : Tracker) (s : Store) : (t.settle s).1.pending = none := by
  unfold settle
  split
  · next h => exact h
  · rfl
  · rfl

/-! ### Deciding -/

/-- What is decided on an instruction, and what is left of the tracker and the store. Nothing is,
where an operand is missing, an address is outside the memory, or a jump is on a constant. -/
inductive Plans (i : Instruction) (p : Tracker × Store) : Decision × Tracker × Store → Prop
  | binary {op : BinaryOp} {a b dst : OperandId} (opcode : i.opcode = .binary op)
      (a_eq : i.id? .a = some a) (b_eq : i.id? .b = some b) (dst_eq : i.id? .dst = some dst) :
      Plans i p (.derive dst (.ofBinary op (read a p).1 (read b (read a p).2).1),
        (read b (read a p).2).2)
  | ldm {a dst cell : OperandId} (opcode : i.opcode = .ldm) (a_eq : i.id? .a = some a)
      (dst_eq : i.id? .dst = some dst) (cell_eq : p.2.memoryCell (p.2.shown a) = .ok cell) :
      Plans i p (.derive dst (.source (read cell (cellAt a p).2).1), (read cell (cellAt a p).2).2)
  | stm {a dst cell : OperandId} (opcode : i.opcode = .stm) (a_eq : i.id? .a = some a)
      (dst_eq : i.id? .dst = some dst) (cell_eq : p.2.memoryCell (p.2.shown dst) = .ok cell) :
      Plans i p (.derive cell (.source (read a (cellAt dst p).2).1), (read a (cellAt dst p).2).2)
  | str {a dst : OperandId} (opcode : i.opcode = .str) (a_eq : i.id? .a = some a)
      (dst_eq : i.id? .dst = some dst) :
      Plans i p (.derive dst (.source (read a p).1), (read a p).2)
  | bisz {a dst : OperandId} (opcode : i.opcode = .bisz) (a_eq : i.id? .a = some a)
      (dst_eq : i.id? .dst = some dst) :
      Plans i p (.derive dst (.ofTest (read a p).1), (read a p).2)
  | branch {a : OperandId} (opcode : i.opcode = .jcc) (a_eq : i.id? .a = some a)
      (constant : (read a p).1.constant = false) :
      Plans i p (.branch ((read a p).1.value ≠ 0) (read Store.pc (read a p).2).1 (read a p).1,
        (read Store.pc (read a p).2).2)
  | undef {dst : OperandId} (opcode : i.opcode = .undef) (dst_eq : i.id? .dst = some dst) :
      Plans i p (.derive dst (.derived .undefined []), p)
  | outside {address : OperandId} : Plans i p (.nothing, (cellAt address p).2)
  | known {a : OperandId} (a_eq : i.id? .a = some a) : Plans i p (.nothing, (read a p).2)
  | nothing : Plans i p (.nothing, p)

lemma memoryCell_of_cellAt {j cell : OperandId} {p : Tracker × Store}
    (h : (cellAt j p).1 = some cell) : p.2.memoryCell (p.2.shown j) = .ok cell := by
  rw [cellAt_eq] at h
  cases hm : p.2.memoryCell (p.2.shown j) with
  | ok c =>
    rw [hm] at h
    cases h
    rfl
  | error e =>
    rw [hm] at h
    cases h

lemma plans_plan (i : Instruction) (p : Tracker × Store) : Plans i p (plan i p) := by
  obtain ⟨x, hx⟩ : ∃ x, plan i = x := ⟨_, rfl⟩
  have hcases := hx
  unfold plan at hcases
  split at hcases
  · next op a b dst hop ha hb hdst =>
    rw [plan_binary hop ha hb hdst]
    exact .binary hop ha hb hdst
  · next a dst hop ha hdst =>
    rw [plan_ldm hop ha hdst]
    cases hf : (cellAt a p).1 with
    | none => exact .outside
    | some cell => exact .ldm hop ha hdst (memoryCell_of_cellAt hf)
  · next a dst hop ha hdst =>
    rw [plan_stm hop ha hdst]
    cases hf : (cellAt dst p).1 with
    | none => exact .outside
    | some cell => exact .stm hop ha hdst (memoryCell_of_cellAt hf)
  · next a dst hop ha hdst =>
    rw [plan_str hop ha hdst]
    exact .str hop ha hdst
  · next a dst hop ha hdst =>
    rw [plan_bisz hop ha hdst]
    exact .bisz hop ha hdst
  · next a dst hop ha hdst =>
    rw [plan_jcc hop ha hdst]
    cases hc : (read a p).1.constant with
    | true => exact .known ha
    | false => exact .branch hop ha hc
  · next dst hop hdst =>
    rw [plan_undef hop hdst]
    exact .undef hop hdst
  · rw [hx, ← hcases]
    exact .nothing

/-- A decision is about operands that the instruction can get at. -/
lemma Plans.reaches (h : Plans i p (d, q)) (hid : id ∈ d.marks) : i.Reaches p.2 id := by
  have hsource : ∀ {target j : OperandId} {r : Reading}, r.operand = some j →
      i.Reaches p.2 target → i.Reaches p.2 j →
      id ∈ (Decision.derive target (.source r)).marks → i.Reaches p.2 id := by
    intro target j r hr htarget hj hid
    rcases Decision.mem_marks hid with ht | ⟨r', hr', hid⟩
    · cases ht
      exact htarget
    · rw [Decision.readings, List.mem_singleton] at hr'
      rw [hr', hr] at hid
      cases hid
      exact hj
  cases h with
  | binary _ ha hb hdst =>
    rcases Decision.mem_marks hid with ht | ⟨r, hr, hid⟩
    · cases ht
      exact .inl ⟨_, hdst⟩
    · rcases readings_ofBinary hr with rfl | rfl <;> cases hid
      · exact .inl ⟨_, ha⟩
      · exact .inl ⟨_, hb⟩
  | ldm _ _ hdst hcell => exact hsource rfl (.inl ⟨_, hdst⟩) (.inr (.inr ⟨_, hcell⟩)) hid
  | stm _ ha _ hcell => exact hsource rfl (.inr (.inr ⟨_, hcell⟩)) (.inl ⟨_, ha⟩) hid
  | str _ ha hdst => exact hsource rfl (.inl ⟨_, hdst⟩) (.inl ⟨_, ha⟩) hid
  | bisz _ ha hdst =>
    rcases Decision.mem_marks hid with ht | ⟨r, hr, hid⟩
    · cases ht
      exact .inl ⟨_, hdst⟩
    · rw [readings_ofTest hr] at hid
      cases hid
      exact .inl ⟨_, ha⟩
  | @branch a _ ha =>
    have hids : id = Store.pc ∨ id = Store.pc ∨ id = a := by
      simpa [Decision.marks, read_eq] using hid
    rcases hids with rfl | rfl | rfl
    · exact .inr (.inl rfl)
    · exact .inr (.inl rfl)
    · exact .inl ⟨_, ha⟩
  | undef _ hdst =>
    rw [Decision.marks, List.filterMap_nil, List.mem_singleton] at hid
    rw [hid]
    exact .inl ⟨_, hdst⟩
  | outside | known | nothing => cases hid

lemma Plans.jumps {r : Decision × Tracker × Store} (h : Plans i p r) {taken : Bool} {pc x : Reading}
    (hr : r.1 = .branch taken pc x) : i.opcode = .jcc := by
  cases h with
  | branch hop => exact hop
  | _ => cases hr

/-- What holds of a graph as long as no other operands are read than the instruction can get at,
holds of it when the decision is taken. -/
lemma Plans.graph {P : Graph → Prop} (h : Plans i p (d, q)) (hp : P p.1.graph)
    (hread : ∀ id q, i.Reaches p.2 id → p.2.Peeked q.2 → P q.1.graph →
      P (read id q).2.1.graph) : P q.1.graph := by
  have hslot : ∀ {slot} id q, i.id? slot = some id → p.2.Peeked q.2 → P q.1.graph →
      P (read id q).2.1.graph := fun id q hid => hread id q (.inl ⟨_, hid⟩)
  have hcell : ∀ j, P (cellAt j p).2.1.graph := fun _ => hp
  cases h with
  | @binary _ a b _ _ ha hb =>
    exact hslot b _ hb (looks_read a p).store (hslot a p ha (.refl _) hp)
  | @ldm a _ cell _ _ _ haddress =>
    exact hread cell _ (.inr (.inr ⟨_, haddress⟩)) (looks_cellAt a p).store (hcell a)
  | @stm a dst _ _ ha => exact hslot a _ ha (looks_cellAt dst p).store (hcell dst)
  | @str a _ _ ha | @bisz a _ _ ha | @known a ha => exact hslot a p ha (.refl _) hp
  | @branch a _ ha =>
    exact hread Store.pc _ (.inr (.inl rfl)) (looks_read a p).store (hslot a p ha (.refl _) hp)
  | undef | nothing => exact hp
  | outside => exact hp

end Tracker

end Lineage
