import Lineage.Proofs.Derivation.Course
import Lineage.Proofs.Instruction.Decoding
import Mathlib.Data.List.Nodup

/-!
The table of operands.

The registers, memory cells and channels of a machine each have one operand, which is found under
its name, address or number, and each constant has one operand when it is interned, which holds it.
A store that is built is `Tabled` in this sense, and so is one whose constants are left alone, or
that has interned more of them.
-/

namespace Lineage

inductive Place
  | register (name : String)
  | memory (address : Value)
  | input (channel : Nat)
  | output (channel : Nat)
deriving DecidableEq

/-- The place is for an operand of the kind. -/
def Place.For (k : Kind) : Place → Prop
  | .register name => k = .register name
  | .memory address => ∃ n : Nat, address.toInt = n ∧ k = .memory n
  | .input c => k = .input c
  | .output c => k = .output c

namespace Place

variable {p q : Place} {k k' : Kind}

lemma For.kind_eq (h : p.For k) (h' : p.For k') : k = k' := by
  cases p with
  | register | input | output => exact Eq.trans h (Eq.symm h')
  | memory address =>
    obtain ⟨n, hn, rfl⟩ := h
    obtain ⟨n', hn', rfl⟩ := h'
    have heq : n = n' := by omega
    rw [heq]

lemma For.place_eq (h : p.For k) (h' : q.For k) : p = q := by
  cases p with
  | memory address =>
    obtain ⟨n, hn, rfl⟩ := h
    cases q with
    | memory address' =>
      obtain ⟨n', hn', hk⟩ := h'
      cases hk
      rw [Int64.toInt_inj.1 (hn.trans hn'.symm)]
    | register | input | output => cases h'
  | register | input | output =>
    cases h
    cases q with
    | memory address' =>
      obtain ⟨n', -, hk⟩ := h'
      cases hk
    | register | input | output => cases h' <;> rfl

lemma For.not_constant (h : p.For k) : k.isConstant = false := by
  cases p with
  | memory address =>
    obtain ⟨n, -, rfl⟩ := h
    rfl
  | register | input | output => cases h; rfl

lemma exists_for (hc : k.isConstant = false)
    (hk : ∀ n : Nat, k = .memory n → n ≤ Int64.maxValue.toInt) : ∃ p : Place, p.For k := by
  cases k with
  | register name => exact ⟨.register name, rfl⟩
  | input c => exact ⟨.input c, rfl⟩
  | output c => exact ⟨.output c, rfl⟩
  | constant v => cases hc
  | memory n =>
    have hn := hk n rfl
    have hmax : Int64.maxValue.toInt = 9223372036854775807 := rfl
    exact ⟨.memory (Int64.ofNat n), n, Int64.toInt_ofNat_of_lt (by omega), rfl⟩

end Place

namespace Layout

variable {l : Layout}

/-- The place is one of those that the layout makes. -/
def Has (l : Layout) : Place → Prop
  | .register name => name ∈ l.registerNames
  | .memory address => 0 ≤ address.toInt ∧ address.toInt < l.memorySize
  | .input c => c < l.inputs
  | .output c => c < l.outputs

lemma nodup_kinds (h : l.registerNames.Nodup) : l.kinds.Nodup := by
  have hregisters := h.map (f := Kind.register) fun _ _ => Kind.register.inj
  have hmemory := (List.nodup_range (n := l.memorySize)).map (f := Kind.memory)
    fun _ _ => Kind.memory.inj
  have hinputs := (List.nodup_range (n := l.inputs)).map (f := Kind.input) fun _ _ => Kind.input.inj
  have houtputs := (List.nodup_range (n := l.outputs)).map (f := Kind.output)
    fun _ _ => Kind.output.inj
  simp only [kinds, List.nodup_append, hregisters, hmemory, hinputs, houtputs, true_and]
  simp only [List.mem_append, List.mem_map]
  refine ⟨⟨?_, ?_⟩, ?_⟩
  · rintro _ ⟨_, -, rfl⟩ _ ⟨_, -, rfl⟩ h
    cases h
  · rintro _ (⟨_, -, rfl⟩ | ⟨_, -, rfl⟩) _ ⟨_, -, rfl⟩ h <;> cases h
  · rintro _ ((⟨_, -, rfl⟩ | ⟨_, -, rfl⟩) | ⟨_, -, rfl⟩) _ ⟨_, -, rfl⟩ h <;> cases h

lemma has_of_mem_kinds {k : Kind} {p : Place} (hk : k ∈ l.kinds) (hp : p.For k) : l.Has p := by
  cases p with
  | memory address =>
    obtain ⟨n, hn, rfl⟩ := hp
    have hlt : n < l.memorySize := by simpa [kinds] using hk
    constructor <;> omega
  | register name =>
    cases hp
    exact (by simpa [kinds] using hk : name ∈ l.registerNames)
  | input c =>
    cases hp
    exact (by simpa [kinds] using hk : c < l.inputs)
  | output c =>
    cases hp
    exact (by simpa [kinds] using hk : c < l.outputs)

end Layout

namespace Store

variable {s t u : Store} {id j : OperandId} {v : Value} {p q : Place}

/-! ### Finding operands -/

def locate (s : Store) : Place → Except AccessError OperandId
  | .register name => s.register name
  | .memory address => s.memoryCell address
  | .input c => s.input c
  | .output c => s.output c

lemma locate_ok_iff (s : Store) (p : Place) : (∃ id, s.locate p = .ok id) ↔ s.layout.Has p := by
  cases p with
  | register name =>
    simp only [locate, register, Layout.Has]
    cases h : s.layout.registerNames.idxOf? name with
    | none => simpa using List.idxOf?_eq_none_iff.1 h
    | some id =>
      obtain ⟨hlt, hname, -⟩ := List.idxOf?_eq_some_iff.1 h
      simpa using hname ▸ List.getElem_mem hlt
  | memory address =>
    simp only [locate, memoryCell, Layout.Has]
    split <;> simp_all
  | input c =>
    simp only [locate, input, Layout.Has]
    split <;> simp_all
  | output c =>
    simp only [locate, output, Layout.Has]
    split <;> simp_all

lemma locate_congr (h : t.layout = s.layout) : t.locate = s.locate := by
  funext p
  cases p <;> simp only [locate, register, memoryCell, input, output, h]

namespace Laid

lemma of_locate (h : s.Laid) (hp : s.locate p = .ok id) :
    id < s.operands.size ∧ p.For (s.operand id).kind := by
  cases p with
  | register name => exact h.register_ok hp
  | input c => exact h.input_ok hp
  | output c => exact h.output_ok hp
  | memory address =>
    obtain ⟨hst, hkind⟩ := h.kind_memoryCell hp
    have hrange := (s.locate_ok_iff (.memory address)).1 ⟨id, hp⟩
    exact ⟨hst.2.1, address.toInt.toNat, by have := hrange.1; omega, hkind⟩

lemma eq_of_kind (h : s.Laid) (hid : id < s.operands.size) (hj : j < s.operands.size)
    (hc : (s.operand id).kind.isConstant = false)
    (hk : (s.operand j).kind = (s.operand id).kind) : j = id := by
  have hget := h.mem_kinds hid hc
  have hget' := h.mem_kinds hj (by rw [hk]; exact hc)
  rw [hk, ← hget] at hget'
  exact (List.getElem?_inj (List.getElem?_eq_some_iff.1 (hget'.trans hget)).1
    (Layout.nodup_kinds h.names)).1 hget'

lemma locate_eq_ok_iff (h : s.Laid) :
    s.locate p = .ok id ↔ id < s.operands.size ∧ p.For (s.operand id).kind := by
  refine ⟨h.of_locate, fun ⟨hid, hp⟩ => ?_⟩
  have hmem := List.mem_of_getElem? (h.mem_kinds hid hp.not_constant)
  obtain ⟨j, hj⟩ := (s.locate_ok_iff p).2 (Layout.has_of_mem_kinds hmem hp)
  obtain ⟨hjlt, hjp⟩ := h.of_locate hj
  rw [hj, h.eq_of_kind hid hjlt hp.not_constant (hjp.kind_eq hp)]

end Laid

/-- The places of a layout are where its operands are found, each operand at one of them, except the
constants and the cells beyond the largest address. -/
structure Mapped (s : Store) (l : Layout) : Prop where
  has : ∀ p, (∃ id, s.locate p = .ok id) ↔ l.Has p
  kind : ∀ {p id}, s.locate p = .ok id → id < s.operands.size ∧ p.For (s.operand id).kind
  injective : ∀ {p q id}, s.locate p = .ok id → s.locate q = .ok id → p = q
  onto : ∀ {id}, id < s.operands.size → (s.operand id).kind.isConstant = false →
    (∀ n : Nat, (s.operand id).kind = .memory n → n ≤ Int64.maxValue.toInt) →
    ∃ p, s.locate p = .ok id
  pc : s.locate (.register pcName) = .ok pc

lemma Laid.mapped (h : s.Laid) : s.Mapped s.layout where
  has := s.locate_ok_iff
  kind := h.of_locate
  injective hp hq := (h.of_locate hp).2.place_eq (h.of_locate hq).2
  onto hid hc hk := by
    obtain ⟨p, hp⟩ := Place.exists_for hc hk
    exact ⟨p, h.locate_eq_ok_iff.2 ⟨hid, hp⟩⟩
  pc := h.locate_eq_ok_iff.2 h.kind_pc

/-! ### Tables -/

/-- The store is laid out, and each constant that is interned has one operand, which holds it. -/
structure Tabled (s : Store) : Prop extends s.Laid where
  value : ∀ {id v}, (s.operand id).kind = .constant v → (s.operand id).value = v
  unique : ∀ {id j v}, (s.operand id).kind = .constant v → (s.operand j).kind = .constant v →
    id = j

lemma lt_of_constant (h : (s.operand id).kind = .constant v) : id < s.operands.size :=
  lt_of_operand_ne fun h' => by rw [h'] at h; cases h

lemma operand_intern_cases (s : Store) (v : Value) :
    (s.intern v = ((s.intern v).1, s) ∧ (s.operand (s.intern v).1).kind = .constant v) ∨
      (s.intern v).1 = s.operands.size ∧ (∀ id, (s.operand id).kind ≠ .constant v) ∧
        (s.intern v).2 = { s with operands := s.operands.push (.ofConstant v) } := by
  unfold intern
  split
  · next j hj =>
    obtain ⟨hlt, hkind, -⟩ := Array.findIdx?_eq_some_iff_getElem.1 hj
    exact .inl ⟨rfl, by simpa [operand, Array.getD_eq_getD_getElem?, hlt] using hkind⟩
  · next hnone =>
    refine .inr ⟨rfl, fun id hid => ?_, rfl⟩
    have hlt := lt_of_constant hid
    have hnot := Array.findIdx?_eq_none_iff.1 hnone (s.operand id) (by
      simp [operand, Array.getD_eq_getD_getElem?, hlt])
    simp [hid] at hnot

namespace Tabled

lemma intern_eq (h : s.Tabled) (hid : (s.operand id).kind = .constant v) :
    s.intern v = (id, s) := by
  rcases s.operand_intern_cases v with ⟨heq, hkind⟩ | ⟨-, hnone, -⟩
  · rw [heq, h.unique hkind hid]
  · exact absurd hid (hnone id)

lemma intern (h : s.Tabled) (v : Value) : (s.intern v).2.Tabled := by
  rcases s.operand_intern_cases v with ⟨heq, -⟩ | ⟨-, hnone, hpush⟩
  · rw [heq]
    exact h
  · have hlaid := (s.intern_interned v).laid h.toLaid
    rw [hpush] at hlaid ⊢
    have hop : ∀ id, ({ s with operands := s.operands.push (.ofConstant v) } : Store).operand id =
        if id = s.operands.size then .ofConstant v else s.operand id := by
      intro id
      simp only [operand, Array.getD_eq_getD_getElem?, Array.getElem?_push]
      split <;> rfl
    refine ⟨hlaid, fun {id w} hid => ?_, fun {id j w} hid hj => ?_⟩
    · rw [hop] at hid ⊢
      split at hid
      · next heq =>
        cases hid
        rw [if_pos heq]
        rfl
      · next hne =>
        rw [if_neg hne]
        exact h.value hid
    · rw [hop] at hid hj
      split at hid
      · next heq =>
        split at hj
        · next heq' => exact heq.trans heq'.symm
        · cases hid
          exact absurd hj (hnone j)
      · split at hj
        · cases hj
          exact absurd hid (hnone id)
        · exact h.unique hid hj

/-- What the other operands hold does not matter. -/
lemma sameFrame (h : s.Tabled) (hf : s.SameFrame t)
    (hvalue : ∀ {id v}, (s.operand id).kind = .constant v →
      (t.operand id).value = (s.operand id).value) : t.Tabled where
  toLaid := hf.laid h.toLaid
  value hid := by
    rw [hf.kind] at hid
    rw [hvalue hid, h.value hid]
  unique hid hj := by
    rw [hf.kind] at hid hj
    exact h.unique hid hj

lemma steady (h : s.Tabled) (hs : s.Steady t) : t.Tabled := by
  refine h.sameFrame hs.sameFrame fun {id v} hid => ?_
  rw [hs.other]
  rintro ⟨c, hc⟩
  rw [hid] at hc
  cases hc

lemma similar (h : s.Tabled) (hs : s.Similar t) : t.Tabled :=
  h.sameFrame hs.sameFrame fun {id _} _ => hs.value id

/-- An effect writes to no constant. -/
lemma follows (h : s.Tabled) {e : Effect} (hf : s.Follows e t) : t.Tabled := by
  refine h.sameFrame hf.sameFrame fun {id v} hid => ?_
  rw [hf.other]
  · rintro rfl
    rw [h.kind_pc.2] at hid
    cases hid
  · rintro w rfl
    have hw := hf.writable rfl
    rw [Operand.isWritable, hid] at hw
    cases hw

lemma write (h : s.Tabled) {target : OperandId} {w : Value} (hw : s.write target w = .ok t) :
    t.Tabled := by
  obtain ⟨hwritable, -, -, -, -, f, hop⟩ := write_ok hw
  refine h.sameFrame (write_sameFrame hw) fun {id v} hid => ?_
  rw [hop, if_neg]
  rintro ⟨rfl, -⟩
  rw [Operand.isWritable, hid] at hwritable
  cases hwritable

end Tabled

/-! ### Growing tables -/

/-- The operands of the first store are in the second one, of the same kinds. -/
structure Kept (s t : Store) : Prop where
  layout : t.layout = s.layout
  size_le : s.operands.size ≤ t.operands.size
  kind : ∀ {id}, id < s.operands.size → (t.operand id).kind = (s.operand id).kind

namespace Kept

lemma refl (s : Store) : s.Kept s := ⟨rfl, Nat.le_refl _, fun _ => rfl⟩

lemma trans (h : s.Kept t) (h' : t.Kept u) : s.Kept u where
  layout := h'.layout.trans h.layout
  size_le := Nat.le_trans h.size_le h'.size_le
  kind hid := (h'.kind (Nat.lt_of_lt_of_le hid h.size_le)).trans (h.kind hid)

lemma name (h : s.Kept t) (hid : id < s.operands.size) :
    (t.operand id).name = (s.operand id).name := by
  rw [Operand.name, h.kind hid, Operand.name]

end Kept

lemma SameFrame.kept (h : s.SameFrame t) : s.Kept t :=
  ⟨h.layout, Nat.le_of_eq h.size.symm, fun _ => h.kind _⟩

lemma Interned.kept (h : s.Interned t) : s.Kept t :=
  ⟨h.layout, h.size_le, fun hid => by rw [h.operand_eq hid]⟩

lemma Interned.snapshot (h : s.Interned t) : t.snapshot = s.snapshot := by
  obtain ⟨vs, hvs⟩ := h.operands
  rw [Store.snapshot, hvs, List.foldl_append, ← Store.snapshot]
  clear hvs
  generalize s.snapshot = d
  induction vs with
  | nil => rfl
  | cons v vs ih => exact ih

lemma Interned.pcValue (h : s.Interned t) (hl : s.Laid) : t.pcValue = s.pcValue := by
  have hpc : t.operand pc = s.operand pc := h.operand_eq hl.kind_pc.1
  rw [Store.pcValue, hpc, Store.pcValue]

/-- The second store is the first with the constants added to its table, none of which it had. -/
structure Adds (s : Store) (vs : List Value) (t : Store) : Prop where
  rest : t = { s with operands := t.operands }
  operands : t.operands.toList = s.operands.toList ++ vs.map Operand.ofConstant
  nodup : vs.Nodup
  fresh : ∀ v ∈ vs, ∀ id, (s.operand id).kind ≠ .constant v

/-- What interning adds to a table was not there, for no constant has two operands. -/
lemma Interned.adds (h : s.Interned t) (ht : t.Tabled) : ∃ vs, s.Adds vs t := by
  obtain ⟨vs, hvs⟩ := h.operands
  have hkind : ∀ {n v}, vs[n]? = some v →
      (t.operand (s.operands.size + n)).kind = .constant v := by
    intro n v hn
    have hget : t.operands.toList[s.operands.size + n]? = some (.ofConstant v) := by
      rw [hvs, List.getElem?_append_right (by simp)]
      simp [hn]
    rw [Array.getElem?_toList] at hget
    rw [operand, Array.getD_eq_getD_getElem?, hget]
    rfl
  refine ⟨vs, h.rest, hvs, ?_, fun v hv id hid => ?_⟩
  · rw [List.nodup_iff_getElem?_ne_getElem?]
    intro i j hij hj heq
    have hi := hkind (heq.trans (List.getElem?_eq_getElem hj))
    have hj' := hkind (List.getElem?_eq_getElem hj)
    have hsame : s.operands.size + i = s.operands.size + j := ht.unique hi hj'
    omega
  · obtain ⟨n, hn⟩ := List.mem_iff_getElem?.1 hv
    have hlt := lt_of_constant hid
    rw [← h.operand_eq hlt] at hid
    have hsame : id = s.operands.size + n := ht.unique hid (hkind hn)
    rw [hsame] at hlt
    exact absurd hlt (Nat.not_lt.2 (Nat.le_add_right _ _))

end Store

/-! ### Building -/

namespace Config

variable {c : Config} {s : Store}

lemma operands_of_build (h : c.build = .ok s) :
    s.layout = c.toLayout ∧ s.operands.toList = c.initialOperands := by
  unfold build at h
  split at h
  · cases h
  · obtain ⟨-, -, rfl⟩ := ok_of_map h
    exact ⟨rfl, rfl⟩

lemma isConstant_of_mem {o : Operand} (h : o ∈ c.initialOperands) : o.kind.isConstant = false := by
  simp only [initialOperands, List.mem_append, List.mem_map] at h
  obtain ((⟨_, -, rfl⟩ | ⟨_, -, rfl⟩) | ⟨_, -, rfl⟩) | ⟨_, -, rfl⟩ := h <;> rfl

lemma tabled_of_build (h : c.build = .ok s) : s.Tabled := by
  have hkind : ∀ {id v}, (s.operand id).kind ≠ .constant v := by
    intro id v hid
    have hmem : s.operand id ∈ s.operands.toList := by
      have hlt := Store.lt_of_constant hid
      rw [Store.operand, Array.getD_eq_getD_getElem?, Array.getElem?_eq_getElem hlt,
        Option.getD_some]
      exact Array.mem_toList_iff.2 (Array.getElem_mem hlt)
    rw [(operands_of_build h).2] at hmem
    have hfalse := isConstant_of_mem hmem
    rw [hid] at hfalse
    cases hfalse
  exact ⟨(laid_of_build h).1, fun hid => absurd hid hkind, fun hid => absurd hid hkind⟩

end Config

end Lineage
