import Lineage.Proofs.Derivation.Renaming
import Lineage.Proofs.Derivation.Planning
import Lineage.Proofs.Store.Similar

/-!
Stores whose operands are bound to renamed nodes.

Renaming the bound nodes is a congruence: whatever is done to a store does the same to the renamed
one, up to the same renaming. Only the numbers of nodes that are bound matter.
-/

namespace Lineage

variable {ρ ρ' : Renaming} {s t : Store} {id : OperandId} {g : Graph}

def Operand.rename (ρ : Renaming) (o : Operand) : Operand := { o with node := o.node.map ρ }

namespace Store

def rename (ρ : Renaming) (s : Store) : Store :=
  { s with operands := s.operands.map (Operand.rename ρ) }

@[simp] lemma operand_rename (ρ : Renaming) (s : Store) (id : OperandId) :
    (s.rename ρ).operand id = (s.operand id).rename ρ := by
  simp only [operand, rename, Array.getD_eq_getD_getElem?, Array.getElem?_map]
  cases s.operands[id]? <;> rfl

@[simp] lemma isInput_rename : (s.rename ρ).IsInput id ↔ s.IsInput id := by
  simp [IsInput, Operand.rename]

/-- A change of an operand that leaves the node alone can be made before or after the renaming. -/
lemma modify_rename {f f' : Operand → Operand} (hf : ∀ o, f' (o.rename ρ) = (f o).rename ρ) :
    (s.rename ρ).modify id f' = (s.modify id f).rename ρ := by
  have hoperands : (s.operands.map (Operand.rename ρ)).modify id f' =
      (s.operands.modify id f).map (Operand.rename ρ) := by
    apply Array.ext (by simp)
    intro k hk hk'
    simp only [Array.getElem_modify, Array.getElem_map]
    split
    · exact hf _
    · rfl
  simp only [modify, rename, hoperands]

lemma bind_rename (ρ : Renaming) (s : Store) (id : OperandId) (n : NodeId) :
    (s.rename ρ).bind id (ρ n) = (s.bind id n).rename ρ := modify_rename fun _ => rfl

lemma setPc_rename (ρ : Renaming) (s : Store) (v : Value) :
    (s.rename ρ).setPc v = (s.setPc v).rename ρ := modify_rename fun _ => rfl

lemma peek_rename (ρ : Renaming) (s : Store) (id : OperandId) :
    (s.rename ρ).peek id = ((s.peek id).1, (s.peek id).2.rename ρ) := by
  by_cases hi : s.IsInput id
  · obtain ⟨c, hc⟩ := hi
    have hc' : ((s.rename ρ).operand id).kind = .input c := by rw [operand_rename]; exact hc
    rw [peek_input hc, peek_input hc']
    rfl
  · rw [peek_of_not_input hi, peek_of_not_input (isInput_rename.not.2 hi), operand_rename]
    rfl

lemma read_rename (ρ : Renaming) (s : Store) (id : OperandId) :
    (s.rename ρ).read id = ((s.read id).1, (s.read id).2.rename ρ) := by
  by_cases hi : s.IsInput id
  · obtain ⟨c, hc⟩ := hi
    have hc' : ((s.rename ρ).operand id).kind = .input c := by rw [operand_rename]; exact hc
    rw [read_input hc, read_input hc']
    exact Prod.ext rfl (modify_rename (s := (s.consult c false).2) fun _ => rfl)
  · rw [read_of_not_input hi, read_of_not_input (isInput_rename.not.2 hi), operand_rename]
    rfl

lemma rename_congruence (ρ : Renaming) : Congruence fun s t => t = s.rename ρ where
  layout h := by rw [h]; rfl
  operand h id := by rw [h, operand_rename]; rfl
  read h id := by
    rw [h, read_rename]
    exact ⟨rfl, rfl⟩
  write {s t} h id v := by
    subst h
    unfold write
    rw [operand_rename]
    cases hk : (s.operand id).kind with
    | register | memory =>
      simp only [Operand.rename, hk]
      exact .ok (modify_rename fun _ => rfl)
    | output c =>
      simp only [Operand.rename, hk]
      refine .ok ?_
      rw [modify_rename (f := fun o => { o with value := v, written := true }) fun _ => rfl]
      rfl
    | constant | input =>
      simp only [Operand.rename, hk, Operand.name]
      exact .error _
  setPc h v := by rw [h, setPc_rename]
  intern {s t} h v := by
    subst h
    have hfind : (s.operands.map (Operand.rename ρ)).findIdx? (·.kind = .constant v) =
        s.operands.findIdx? (·.kind = .constant v) := Array.findIdx?_map ..
    unfold intern
    simp only [rename, hfind]
    cases s.operands.findIdx? (·.kind = .constant v) with
    | some j => exact ⟨rfl, rfl⟩
    | none => simp [Operand.rename]

/-- Only the nodes that are bound matter for renaming a store. -/
lemma rename_congr (hb : s.BoundIn g) (h : ρ.Agrees ρ' g.size) : s.rename ρ' = s.rename ρ := by
  have hoperands : s.operands.map (Operand.rename ρ') = s.operands.map (Operand.rename ρ) := by
    refine Array.map_congr_left fun o ho => ?_
    obtain ⟨id, hid, rfl⟩ := Array.getElem_of_mem ho
    have hop : s.operand id = s.operands[id] := by
      rw [operand, Array.getD_eq_getD_getElem?, Array.getElem?_eq_getElem hid, Option.getD_some]
    cases hn : s.operands[id].node with
    | none => simp only [Operand.rename, hn, Option.map_none]
    | some n =>
      have hlt := hb (show (s.operand id).node = some n by rw [hop, hn])
      simp only [Operand.rename, hn, Option.map_some, h n hlt]
  simp only [rename, hoperands]

lemma rename_of_unbound (h : s.Unbound) : s.rename ρ = s := by
  have hoperands : s.operands.map (Operand.rename ρ) = s.operands := by
    apply Array.ext (by simp)
    intro id hid hid'
    have hnone := h id
    rw [operand, Array.getD_eq_getD_getElem?, Array.getElem?_eq_getElem hid', Option.getD_some]
      at hnone
    rw [Array.getElem_map, Operand.rename, hnone, Option.map_none, ← hnone]
  simp only [rename, hoperands]

end Store

end Lineage
