import Lineage.Proofs.Instruction.Binding
import Lineage.Proofs.Instruction.Effect

/-!
Executions that keep pace.

Two executions of one instruction, on operands with the same values, have the same effect and leave
the same values if they consume the same input. What a peek has shown is then the same too, as long
as the channels do not disturb each other, or all draw from one sequence: it has been consumed, on
this channel or on another one.
-/

namespace Lineage

variable {s t u v : Store} {id a b : OperandId} {i : Instruction}

/-! ### Values -/

namespace Store

/-- The operands are the same, apart from the bound nodes. -/
structure SameValues (s t : Store) : Prop where
  layout : t.layout = s.layout
  operands : t.operands.map Operand.bare = s.operands.map Operand.bare

instance (s t : Store) : Decidable (s.SameValues t) :=
  decidable_of_iff (t.layout = s.layout ∧
      t.operands.map Operand.bare = s.operands.map Operand.bare)
    ⟨fun ⟨hl, ho⟩ => ⟨hl, ho⟩, fun h => ⟨h.layout, h.operands⟩⟩

namespace SameValues

lemma size (h : s.SameValues t) : t.operands.size = s.operands.size := by
  simpa using congrArg Array.size h.operands

lemma operand (h : s.SameValues t) (id : OperandId) : (t.operand id).bare = (s.operand id).bare :=
  bare_of_map h.operands id

lemma kind (h : s.SameValues t) (id : OperandId) : (t.operand id).kind = (s.operand id).kind := by
  have hbare := congrArg Operand.kind (h.operand id)
  exact hbare

lemma value (h : s.SameValues t) (id : OperandId) :
    (t.operand id).value = (s.operand id).value := by
  have hbare := congrArg Operand.value (h.operand id)
  exact hbare

lemma pcValue (h : s.SameValues t) : t.pcValue = s.pcValue := h.value pc

lemma name (h : s.SameValues t) (id : OperandId) : (t.operand id).name = (s.operand id).name := by
  rw [Operand.name, h.kind, Operand.name]

lemma recorded (h : s.SameValues t) (id : OperandId) :
    (t.operand id).recorded = (s.operand id).recorded := by
  have hbare := congrArg Operand.recorded (h.operand id)
  exact hbare

lemma isKnown (h : s.SameValues t) (id : OperandId) :
    (t.operand id).isKnown = (s.operand id).isKnown := by
  have hbare := congrArg Operand.isKnown (h.operand id)
  exact hbare

lemma isExternal (h : s.SameValues t) (id : OperandId) :
    (t.operand id).isExternal = (s.operand id).isExternal := by
  have hbare := congrArg Operand.isExternal (h.operand id)
  exact hbare

lemma isInput (h : s.SameValues t) : t.IsInput id ↔ s.IsInput id := by
  simp only [IsInput, h.kind]

lemma isOutput (h : s.SameValues t) : t.IsOutput id ↔ s.IsOutput id := by
  simp only [IsOutput, h.kind]

lemma memoryCell (h : s.SameValues t) (address : Value) :
    t.memoryCell address = s.memoryCell address := by
  simp only [Store.memoryCell, h.layout]

lemma shown (h : s.SameValues t) (hi : ¬ s.IsInput id) : t.shown id = s.shown id := by
  rw [shown_of_not_input hi, shown_of_not_input (h.isInput.not.2 hi), h.value]

lemma peeked (h : s.SameValues t) (hu : s.Peeked u) (hv : t.Peeked v) : u.SameValues v :=
  ⟨by rw [hv.layout, hu.layout, h.layout], by rw [hv.operands, hu.operands, h.operands]⟩

lemma modify {f : Operand → Operand} (h : s.SameValues t)
    (hf : ∀ {o o'}, o'.bare = o.bare → (f o').bare = (f o).bare) (id : OperandId) :
    (s.modify id f).SameValues (t.modify id f) := by
  refine ⟨h.layout, map_of_bare (by simp [h.size]) fun j => ?_⟩
  rw [operand_modify, operand_modify, h.size]
  split
  · exact hf (h.operand j)
  · exact h.operand j

lemma bind (h : s.SameValues t) (id : OperandId) (n k : NodeId) :
    (s.bind id n).SameValues (t.bind id k) := by
  refine ⟨h.layout, map_of_bare ?_ fun j => ?_⟩
  · rw [Store.bind, Store.bind, size_modify, size_modify, h.size]
  · rw [operand_bind, operand_bind, h.size]
    split
    · exact h.operand j
    · exact h.operand j

lemma write (h : s.SameValues t) (id : OperandId) (v : Value) :
    SameWrite SameValues (s.write id v) (t.write id v) := by
  unfold Store.write
  cases hk : (s.operand id).kind with
  | register | memory =>
    simp only [h.kind, hk]
    exact .ok (h.modify (fun ho => congrArg (fun o : Operand => { o with value := v }) ho) id)
  | output c =>
    simp only [h.kind, hk]
    have hm := h.modify (f := fun o => { o with value := v, written := true })
      (fun ho => congrArg (fun o : Operand => { o with value := v, written := true }) ho) id
    exact .ok ⟨hm.layout, hm.operands⟩
  | constant | input =>
    simp only [h.kind, hk, Operand.name]
    exact .error _

lemma setPc (h : s.SameValues t) (v : Value) : (s.setPc v).SameValues (t.setPc v) :=
  h.modify (fun ho => congrArg (fun o : Operand => { o with value := v }) ho) _

lemma advance (h : s.SameValues t) (flow : Flow) :
    (Machine.advance s flow).SameValues (Machine.advance t flow) := by
  cases flow with
  | next =>
    rw [Machine.advance, Machine.advance, h.pcValue]
    exact h.setPc _
  | jump | halt => exact h

/-- An effect does the same to the values wherever it is carried out. -/
lemma perform {e : Effect} {flow flow' : Flow} (h : s.SameValues t)
    (hu : Instruction.perform e s = .ok flow u) (hv : Instruction.perform e t = .ok flow' v) :
    (Machine.advance u flow).SameValues (Machine.advance v flow') := by
  have halike := Instruction.respects_perform (S := SameValues) (fun h => h.write)
    (fun h => h.setPc) e h
  rw [hu, hv] at halike
  cases halike with
  | ok _ h => exact h.advance _

end SameValues

/-! ### Reads -/

lemma consuming_suffix_read (s : Store) (id : OperandId) :
    consuming s.reads <:+ consuming (s.read id).2.reads := by
  by_cases h : s.IsInput id
  · obtain ⟨c, hc⟩ := h
    rw [read_input hc]
    exact List.suffix_cons ..
  · simp only [read_of_not_input h, List.suffix_refl]

/-- The operands have the same values, and the same input is left to be consumed on the way to `u`
as on the way to `v`. -/
structure Paced (u v s t : Store) : Prop where
  values : s.SameValues t
  left : ∃ rest, consuming u.reads = rest ++ consuming s.reads ∧
    consuming v.reads = rest ++ consuming t.reads

lemma Paced.read (h : Paced u v s t) (hu : consuming (s.read id).2.reads <:+ consuming u.reads)
    (hv : consuming (t.read id).2.reads <:+ consuming v.reads) :
    (t.read id).1 = (s.read id).1 ∧ Paced u v (s.read id).2 (t.read id).2 := by
  obtain ⟨rest, hrest, hrest'⟩ := h.left
  by_cases hi : s.IsInput id
  · obtain ⟨c, hc⟩ := hi
    have hc' : (t.operand id).kind = .input c := (h.values.kind id).trans hc
    obtain ⟨l, hl⟩ := hu
    obtain ⟨l', hl'⟩ := hv
    rw [read_input hc] at hl ⊢
    rw [read_input hc'] at hl' ⊢
    -- the input that is left ends in this read on both ways
    have hsplit : ∀ {x : Value} {l h : List Read}, l ++ ⟨c, false, x⟩ :: h = rest ++ h →
        l ++ [⟨c, false, x⟩] = rest := by
      intro x l h heq
      have hboth : (l ++ [⟨c, false, x⟩]) ++ h = rest ++ h := by
        rw [List.append_assoc, ← heq]
        rfl
      exact List.append_cancel_right hboth
    have hl₁ := hsplit (hl.trans hrest)
    have hl₁' := hsplit (hl'.trans hrest')
    obtain ⟨heq, hread⟩ := List.append_inj' (hl₁.trans hl₁'.symm) rfl
    have hx : s.source s.reads c false = t.source t.reads c false := by
      injection hread with hhead
      injection hhead
    refine ⟨hx.symm, ⟨?_, l, hl.symm, by rw [heq]; exact hl'.symm⟩⟩
    rw [← hx]
    have hconsult : (s.consult c false).2.SameValues (t.consult c false).2 :=
      ⟨h.values.layout, h.values.operands⟩
    exact hconsult.modify (fun ho => congrArg (fun o : Operand =>
      { o with value := s.source s.reads c false }) ho) id
  · have hi' := h.values.isInput.not.2 hi
    rw [read_of_not_input hi, read_of_not_input hi']
    exact ⟨h.values.value id, h⟩

/-- What is shown of a second operand is consumed from it, or else from the first one. -/
lemma SameValues.shown_second (h : s.SameValues t) (hs : s.source.Truthful)
    (hsep : s.source.Separate ∨ s.source.Joint) (ht : t.source = s.source)
    (ha : (t.read a).1 = (s.read a).1)
    (hb : ((t.read a).2.read b).1 = ((s.read a).2.read b).1) : t.shown b = s.shown b := by
  have ht' : t.source.Truthful := ht ▸ hs
  have ha' : t.shown a = s.shown a := by rw [← read_value hs, ← read_value ht', ha]
  have hsa : (s.read a).2.source.Truthful := by rwa [(read_steady s a).source]
  have hta : (t.read a).2.source.Truthful := by rwa [(read_steady t a).source]
  have hb' : (t.read a).2.shown b = (s.read a).2.shown b := by
    rw [← read_value hsa, ← read_value hta, hb]
  -- one of the two holds in both stores
  have hcases : ((s.read a).2.shown b = s.shown b ∧ (t.read a).2.shown b = t.shown b) ∨
      (s.shown b = s.shown a ∧ t.shown b = t.shown a) := by
    by_cases hone : s.IsInput a ∧ s.IsInput b
    · obtain ⟨⟨c, hc⟩, c', hc'⟩ := hone
      have hct : (t.operand a).kind = .input c := (h.kind a).trans hc
      have hct' : (t.operand b).kind = .input c' := (h.kind b).trans hc'
      have hpeek : ∀ {w : Store}, w.source = s.source → (w.operand a).kind = .input c →
          (w.operand b).kind = .input c' → c = c' ∨ s.source.Joint → w.shown b = w.shown a := by
        rintro w hw hwa hwb (rfl | hjoint)
        · rw [Store.shown, Store.shown, peek_input hwa, peek_input hwb]
        · rw [Store.shown, Store.shown, peek_input hwa, peek_input hwb, consult, consult, hw]
          exact hjoint _ _ _ _
      by_cases hcc : c = c'
      · exact .inr ⟨hpeek rfl hc hc' (.inl hcc), hpeek ht hct hct' (.inl hcc)⟩
      · rcases hsep with hsep | hjoint
        · refine .inl ⟨shown_read_of_separate hsep ?_,
            shown_read_of_separate (ht ▸ hsep) ?_⟩
          · rw [hc, hc']
            rintro _ ⟨⟩ ⟨⟩
            exact hcc rfl
          · rw [hct, hct']
            rintro _ ⟨⟩ ⟨⟩
            exact hcc rfl
        · exact .inr ⟨hpeek rfl hc hc' (.inr hjoint), hpeek ht hct hct' (.inr hjoint)⟩
    · refine .inl ⟨shown_read_of_one fun hi hj => hone ⟨hi, hj⟩, shown_read_of_one fun hi hj => ?_⟩
      exact hone ⟨h.isInput.1 hi, h.isInput.1 hj⟩
  rcases hcases with ⟨hsb, htb⟩ | ⟨hsb, htb⟩
  · rw [← hsb, ← htb, hb']
  · rw [hsb, htb, ha']

end Store

/-! ### Instructions -/

namespace Instruction

variable {e e' : Effect}

/-- What is shown of the operands that the instruction takes values from is the same. -/
def ShownAlike (i : Instruction) (s t : Store) : Prop :=
  ∀ slot, i.opcode.takes slot = true → ∀ id ∈ i.id? slot, t.shown id = s.shown id

lemma shownAlike_of_one (hs : s.source.Truthful) (ht : t.source = s.source)
    (htakes : ∀ slot, i.opcode.takes slot = true → slot = .a) (ha : i.id? .a = some a)
    (hx : (t.read a).1 = (s.read a).1) : i.ShownAlike s t := by
  intro slot hslot id hid
  rw [htakes slot hslot, ha] at hid
  cases hid
  rw [← Store.read_value hs, ← Store.read_value (ht ▸ hs), hx]

lemma shownAlike_of_two (h : s.SameValues t) (hs : s.source.Truthful)
    (hsep : s.source.Separate ∨ s.source.Joint) (ht : t.source = s.source) {z : Slot}
    (htakes : ∀ slot, i.opcode.takes slot = true → slot = .a ∨ slot = z)
    (ha : i.id? .a = some a) (hb : i.id? z = some b) (hx : (t.read a).1 = (s.read a).1)
    (hy : ((t.read a).2.read b).1 = ((s.read a).2.read b).1) : i.ShownAlike s t := by
  intro slot hslot id hid
  rcases htakes slot hslot with rfl | rfl
  · rw [ha] at hid
    cases hid
    rw [← Store.read_value hs, ← Store.read_value (ht ▸ hs), hx]
  · rw [hb] at hid
    cases hid
    exact h.shown_second hs hsep ht hx hy

lemma shownAlike_of_none (htakes : ∀ slot, i.opcode.takes slot = false) : i.ShownAlike s t := by
  intro slot hslot
  rw [htakes] at hslot
  cases hslot

/-- Executions that keep pace have the same effect, and what they take has been shown alike. -/
lemma Reads.paced (h : i.Reads s e u) (h' : i.Reads t e' v) (hp : Store.Paced u v s t)
    (hs : s.source.Truthful) (hsep : s.source.Separate ∨ s.source.Joint)
    (ht : t.source = s.source) : e' = e ∧ u.SameValues v ∧ i.ShownAlike s t := by
  have hself : ∀ l : List Read, l <:+ l := fun l => List.suffix_refl l
  cases h with
  | @binary op a b dst w hop ha hb hdst heval =>
    cases h' with
    | binary hop' ha' hb' hdst' heval' =>
      cases hop.symm.trans hop'
      cases ha.symm.trans ha'
      cases hb.symm.trans hb'
      cases hdst.symm.trans hdst'
      obtain ⟨hx, hp₁⟩ := hp.read (Store.consuming_suffix_read ..) (Store.consuming_suffix_read ..)
      obtain ⟨hy, hp₂⟩ := hp₁.read (hself _) (hself _)
      rw [hx, hy, heval] at heval'
      cases heval'
      refine ⟨rfl, hp₂.values, shownAlike_of_two hp.values hs hsep ht
        (fun slot => ?_) ha hb hx hy⟩
      rw [hop]
      cases slot <;> simp [Opcode.takes]
    | ldm hop' | stm hop' | str hop' | bisz hop' | pass hop' | jump hop' | undef hop' | nop hop'
    | unkn hop' => cases hop.symm.trans hop'
  | @ldm a dst cell hop ha hdst hcell =>
    cases h' with
    | ldm hop' ha' hdst' hcell' =>
      cases ha.symm.trans ha'
      cases hdst.symm.trans hdst'
      obtain ⟨hx, hp₁⟩ := hp.read (Store.consuming_suffix_read ..) (Store.consuming_suffix_read ..)
      rw [hx, hp.values.memoryCell, hcell] at hcell'
      cases hcell'
      obtain ⟨hy, hp₂⟩ := hp₁.read (hself _) (hself _)
      refine ⟨by rw [hy], hp₂.values, shownAlike_of_one hs ht (fun slot => ?_) ha hx⟩
      rw [hop]
      cases slot <;> decide
    | binary hop' | stm hop' | str hop' | bisz hop' | pass hop' | jump hop' | undef hop' | nop hop'
    | unkn hop' => cases hop.symm.trans hop'
  | @stm a dst cell hop ha hdst hcell =>
    cases h' with
    | stm hop' ha' hdst' hcell' =>
      cases ha.symm.trans ha'
      cases hdst.symm.trans hdst'
      obtain ⟨hx, hp₁⟩ := hp.read (Store.consuming_suffix_read ..) (Store.consuming_suffix_read ..)
      obtain ⟨hy, hp₂⟩ := hp₁.read (hself _) (hself _)
      rw [hy, hp.values.memoryCell, hcell] at hcell'
      cases hcell'
      refine ⟨by rw [hx], hp₂.values, shownAlike_of_two hp.values hs hsep ht
        (fun slot => ?_) ha hdst hx hy⟩
      rw [hop]
      cases slot <;> decide
    | binary hop' | ldm hop' | str hop' | bisz hop' | pass hop' | jump hop' | undef hop' | nop hop'
    | unkn hop' => cases hop.symm.trans hop'
  | @str a dst hop ha hdst =>
    cases h' with
    | str hop' ha' hdst' =>
      cases ha.symm.trans ha'
      cases hdst.symm.trans hdst'
      obtain ⟨hx, hp₁⟩ := hp.read (hself _) (hself _)
      refine ⟨by rw [hx], hp₁.values, shownAlike_of_one hs ht (fun slot => ?_) ha hx⟩
      rw [hop]
      cases slot <;> decide
    | binary hop' | ldm hop' | stm hop' | bisz hop' | pass hop' | jump hop' | undef hop' | nop hop'
    | unkn hop' => cases hop.symm.trans hop'
  | @bisz a dst hop ha hdst =>
    cases h' with
    | bisz hop' ha' hdst' =>
      cases ha.symm.trans ha'
      cases hdst.symm.trans hdst'
      obtain ⟨hx, hp₁⟩ := hp.read (hself _) (hself _)
      refine ⟨by rw [hx], hp₁.values, shownAlike_of_one hs ht (fun slot => ?_) ha hx⟩
      rw [hop]
      cases slot <;> decide
    | binary hop' | ldm hop' | stm hop' | str hop' | pass hop' | jump hop' | undef hop' | nop hop'
    | unkn hop' => cases hop.symm.trans hop'
  | @pass a hop ha hz =>
    cases h' with
    | pass hop' ha' hz' =>
      cases ha.symm.trans ha'
      obtain ⟨hx, hp₁⟩ := hp.read (hself _) (hself _)
      refine ⟨rfl, hp₁.values, shownAlike_of_one hs ht (fun slot => ?_) ha hx⟩
      rw [hop]
      cases slot <;> decide
    | jump hop' ha' hdst' hz' =>
      cases ha.symm.trans ha'
      obtain ⟨hx, -⟩ := hp.read (hself _) (Store.consuming_suffix_read ..)
      rw [hx] at hz'
      exact absurd hz hz'
    | binary hop' | ldm hop' | stm hop' | str hop' | bisz hop' | undef hop' | nop hop'
    | unkn hop' => cases hop.symm.trans hop'
  | @jump a dst hop ha hdst hz =>
    cases h' with
    | jump hop' ha' hdst' hz' =>
      cases ha.symm.trans ha'
      cases hdst.symm.trans hdst'
      obtain ⟨hx, hp₁⟩ := hp.read (Store.consuming_suffix_read ..) (Store.consuming_suffix_read ..)
      obtain ⟨hy, hp₂⟩ := hp₁.read (hself _) (hself _)
      refine ⟨by rw [hy], hp₂.values, shownAlike_of_one hs ht (fun slot => ?_) ha hx⟩
      rw [hop]
      cases slot <;> decide
    | pass hop' ha' hz' =>
      cases ha.symm.trans ha'
      obtain ⟨hx, -⟩ := hp.read (Store.consuming_suffix_read ..) (hself _)
      rw [hx] at hz'
      exact absurd hz' hz
    | binary hop' | ldm hop' | stm hop' | str hop' | bisz hop' | undef hop' | nop hop'
    | unkn hop' => cases hop.symm.trans hop'
  | @undef dst hop hdst =>
    cases h' with
    | undef hop' hdst' =>
      cases hdst.symm.trans hdst'
      exact ⟨rfl, hp.values, shownAlike_of_none fun slot => by rw [hop]; rfl⟩
    | binary hop' | ldm hop' | stm hop' | str hop' | bisz hop' | pass hop' | jump hop' | nop hop'
    | unkn hop' => cases hop.symm.trans hop'
  | nop hop =>
    cases h' with
    | nop hop' =>
      exact ⟨rfl, hp.values, shownAlike_of_none fun slot => by rw [hop]; rfl⟩
    | binary hop' | ldm hop' | stm hop' | str hop' | bisz hop' | pass hop' | jump hop' | undef hop'
    | unkn hop' => cases hop.symm.trans hop'
  | unkn hop =>
    cases h' with
    | unkn hop' =>
      exact ⟨rfl, hp.values, shownAlike_of_none fun slot => by rw [hop]; rfl⟩
    | binary hop' | ldm hop' | stm hop' | str hop' | bisz hop' | pass hop' | jump hop' | undef hop'
    | nop hop' => cases hop.symm.trans hop'

end Instruction

end Lineage
