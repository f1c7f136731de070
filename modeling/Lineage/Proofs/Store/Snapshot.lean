import Lineage.Proofs.Store.Names
import Lineage.Proofs.Usage
import Mathlib.Data.List.Induction
import Mathlib.Data.String.Basic

/-!
Snapshots and the names that they are made under.

A snapshot has the operands by their names, so it has all of them only if their names differ. That
is so unless a declared register is called like a memory cell or a channel, which nothing prevents:
then the operand that comes last hides the others.
-/

namespace Lineage

open Text

/-! ### Putting entries in order -/

namespace Store.Snapshot

variable {d : Snapshot} {e : String × Value} {es : List (String × Value)} {name : String}
  {v : Value}

/-- Each name stands once, and they increase. -/
def Sorted (d : Snapshot) : Prop := d.Pairwise fun e e' => e.1 < e'.1

lemma mem_insert (h : Sorted d) : e ∈ insert name v d ↔ e = (name, v) ∨ e ∈ d ∧ e.1 ≠ name := by
  induction d with
  | nil => simp [insert]
  | cons e' d ih =>
    obtain ⟨hlt, hd⟩ := List.pairwise_cons.1 h
    unfold insert
    split
    · next hbefore =>
      have hne : ∀ x ∈ e' :: d, x.1 ≠ name := by
        intro x hx
        rcases List.mem_cons.1 hx with rfl | hx
        · exact ne_of_gt hbefore
        · exact ne_of_gt (hbefore.trans (hlt x hx))
      rw [List.mem_cons]
      exact or_congr_right ⟨fun he => ⟨he, hne e he⟩, And.left⟩
    · split
      · next heq =>
        have hne : ∀ x ∈ d, x.1 ≠ name := fun x hx => heq ▸ ne_of_gt (hlt x hx)
        rw [List.mem_cons, List.mem_cons]
        refine or_congr_right ⟨fun he => ⟨.inr he, hne e he⟩, ?_⟩
        rintro ⟨rfl | he, hname⟩
        · exact absurd heq.symm hname
        · exact he
      · next hne =>
        rw [List.mem_cons, List.mem_cons, ih hd]
        constructor
        · rintro (rfl | rfl | ⟨he, hname⟩)
          · exact .inr ⟨.inl rfl, Ne.symm hne⟩
          · exact .inl rfl
          · exact .inr ⟨.inr he, hname⟩
        · rintro (rfl | ⟨rfl | he, hname⟩)
          · exact .inr (.inl rfl)
          · exact .inl rfl
          · exact .inr (.inr ⟨he, hname⟩)

lemma sorted_insert (h : Sorted d) : Sorted (insert name v d) := by
  induction d with
  | nil => exact List.pairwise_singleton _ _
  | cons e' d ih =>
    obtain ⟨hlt, hd⟩ := List.pairwise_cons.1 h
    unfold insert
    split
    · next hbefore =>
      refine List.pairwise_cons.2 ⟨fun x hx => ?_, h⟩
      rcases List.mem_cons.1 hx with rfl | hx
      · exact hbefore
      · exact hbefore.trans (hlt x hx)
    · next hnot =>
      split
      · next heq => exact List.pairwise_cons.2 ⟨fun x hx => heq ▸ hlt x hx, hd⟩
      · next hne =>
        refine List.pairwise_cons.2 ⟨fun x hx => ?_, ih hd⟩
        rcases (mem_insert hd).1 hx with rfl | ⟨hx, -⟩
        · exact lt_of_le_of_ne (not_lt.1 hnot) (Ne.symm hne)
        · exact hlt x hx

lemma insert_perm (h : name ∉ d.map Prod.fst) : (insert name v d).Perm ((name, v) :: d) := by
  induction d with
  | nil => exact .refl _
  | cons e' d ih =>
    simp only [List.map_cons, List.mem_cons, not_or] at h
    unfold insert
    split
    · exact .refl _
    · rw [if_neg h.1]
      exact ((ih h.2).cons e').trans (.swap _ _ _)

def ofEntries (es : List (String × Value)) : Snapshot := es.foldl (fun d e => insert e.1 e.2 d) []

lemma ofEntries_concat : ofEntries (es ++ [e]) = insert e.1 e.2 (ofEntries es) := by
  simp [ofEntries]

lemma sorted_ofEntries (es : List (String × Value)) : Sorted (ofEntries es) := by
  induction es using List.reverseRecOn with
  | nil => exact .nil
  | append_singleton es e ih =>
    rw [ofEntries_concat]
    exact sorted_insert ih

/-- Of entries under one name the last one stays. -/
lemma mem_ofEntries : e ∈ ofEntries es ↔ es.reverse.lookup e.1 = some e.2 := by
  induction es using List.reverseRecOn with
  | nil => simp [ofEntries]
  | append_singleton es e' ih =>
    rw [ofEntries_concat, mem_insert (sorted_ofEntries es), ih, List.reverse_concat,
      List.lookup_cons]
    by_cases h : e.1 = e'.1
    · simp [h, Prod.ext_iff, eq_comm]
    · simp [h, beq_eq_false_iff_ne.2 h, Prod.ext_iff]

lemma ofEntries_perm_iff : (ofEntries es).Perm es ↔ (es.map Prod.fst).Nodup := by
  constructor
  · intro h
    refine (h.map Prod.fst).nodup_iff.1 (List.pairwise_map.2 ?_)
    exact (sorted_ofEntries es).imp ne_of_lt
  · intro h
    induction es using List.reverseRecOn with
    | nil => exact .refl _
    | append_singleton es e ih =>
      rw [List.map_append, List.nodup_append] at h
      have hperm := ih h.1
      have hnew : e.1 ∉ (ofEntries es).map Prod.fst := by
        rw [(hperm.map Prod.fst).mem_iff]
        exact fun hmem => h.2.2 _ hmem _ (List.mem_singleton_self _) rfl
      rw [ofEntries_concat]
      exact (insert_perm hnew).trans ((hperm.cons e).trans (List.perm_append_singleton e es).symm)

end Store.Snapshot

/-! ### Names -/

namespace Kind

variable {k k' : Kind}

/-- Names tell kinds apart where no other operand is called like a register of the list. -/
lemma eq_of_name_of_not_mem {names : List String} (h : k.name = k'.name)
    (hk : ∀ r, k = .register r → r ∈ pcName :: names)
    (hk' : ∀ r, k' = .register r → r ∈ pcName :: names)
    (hfree : k.isRegister = false → k.name ∉ names)
    (hfree' : k'.isRegister = false → k'.name ∉ names) : k = k' := by
  have hother : ∀ {r : String} {k : Kind}, r ∈ pcName :: names →
      (k.isRegister = false → k.name ∉ names) → r = k.name → k = .register r := by
    intro r k hr hfree heq
    cases hreg : k.isRegister with
    | false =>
      rcases List.mem_cons.1 hr with rfl | hr
      · rw [eq_of_name_pc heq.symm] at hreg
        cases hreg
      · exact absurd (heq ▸ hr) (hfree hreg)
    | true =>
      cases k with
      | register r' => exact congrArg register heq.symm
      | constant | memory | input | output => cases hreg
  cases hreg : k.isRegister with
  | true =>
    cases k with
    | register r => exact (hother (hk r rfl) hfree' h).symm
    | constant | memory | input | output => cases hreg
  | false =>
    cases hreg' : k'.isRegister with
    | true =>
      cases k' with
      | register r => exact hother (hk' r rfl) hfree h.symm
      | constant | memory | input | output => cases hreg'
    | false => exact eq_of_name h hreg hreg'

end Kind

namespace Layout

variable {l : Layout} {k : Kind}

/-- No declared register is called like a memory cell or a channel. -/
structure Apart (l : Layout) : Prop where
  memory : ∀ n < l.memorySize, (Kind.memory n).name ∉ l.registers
  inputs : ∀ n < l.inputs, (Kind.input n).name ∉ l.registers
  outputs : ∀ n < l.outputs, (Kind.output n).name ∉ l.registers

instance (l : Layout) : Decidable l.Apart :=
  decidable_of_iff ((∀ n < l.memorySize, (Kind.memory n).name ∉ l.registers) ∧
    (∀ n < l.inputs, (Kind.input n).name ∉ l.registers) ∧
    ∀ n < l.outputs, (Kind.output n).name ∉ l.registers)
    ⟨fun ⟨hm, hi, ho⟩ => ⟨hm, hi, ho⟩, fun ⟨hm, hi, ho⟩ => ⟨hm, hi, ho⟩⟩

/-- All operands of the layout can be written in a program. -/
structure Spoken (l : Layout) : Prop where
  registers : ∀ name ∈ l.registers, Token.ofChars? name.toList = some (.register name)
  memory : l.memorySize ≤ UInt64.size
  inputs : l.inputs ≤ UInt64.size
  outputs : l.outputs ≤ UInt64.size

namespace Spoken

lemma name_not_mem (h : l.Spoken) (hk : k.Spoken) (hreg : k.isRegister = false) :
    k.name ∉ l.registers := by
  intro hmem
  have hregister : (Kind.register k.name).Spoken := h.registers _ hmem
  rw [hk.eq_of_name hregister rfl] at hreg
  cases hreg

lemma apart (h : l.Spoken) : l.Apart where
  memory _ hn := h.name_not_mem (Kind.spoken_memory (Nat.lt_of_lt_of_le hn h.memory)) rfl
  inputs _ hn := h.name_not_mem (Kind.spoken_input (Nat.lt_of_lt_of_le hn h.inputs)) rfl
  outputs _ hn := h.name_not_mem (Kind.spoken_output (Nat.lt_of_lt_of_le hn h.outputs)) rfl

end Spoken

lemma mem_kinds_iff : k ∈ l.kinds ↔ (∃ r ∈ l.registerNames, k = .register r) ∨
    (∃ n < l.memorySize, k = .memory n) ∨ (∃ n < l.inputs, k = .input n) ∨
      ∃ n < l.outputs, k = .output n := by
  simp only [kinds, List.mem_append, List.mem_map, List.mem_range, or_assoc, eq_comm]

lemma apart_iff :
    l.Apart ↔ ∀ k ∈ l.kinds, k.isRegister = false → k.name ∉ l.registers := by
  constructor
  · rintro ⟨hm, hi, ho⟩ k hk hreg
    rcases mem_kinds_iff.1 hk with ⟨r, -, rfl⟩ | ⟨n, hn, rfl⟩ | ⟨n, hn, rfl⟩ | ⟨n, hn, rfl⟩
    · cases hreg
    · exact hm n hn
    · exact hi n hn
    · exact ho n hn
  · intro h
    exact ⟨fun n hn => h _ (mem_kinds_iff.2 (.inr (.inl ⟨n, hn, rfl⟩))) rfl,
      fun n hn => h _ (mem_kinds_iff.2 (.inr (.inr (.inl ⟨n, hn, rfl⟩)))) rfl,
      fun n hn => h _ (mem_kinds_iff.2 (.inr (.inr (.inr ⟨n, hn, rfl⟩)))) rfl⟩

lemma mem_registerNames (hk : k ∈ l.kinds) {r : String} (hr : k = .register r) :
    r ∈ l.registerNames := by
  subst hr
  simpa [mem_kinds_iff] using hk

lemma nodup_names_iff (h : l.registerNames.Nodup) : (l.kinds.map Kind.name).Nodup ↔ l.Apart := by
  rw [List.nodup_map_iff_inj_on (nodup_kinds h), apart_iff]
  constructor
  · intro hinj k hk hreg hmem
    have hregister : Kind.register k.name ∈ l.kinds :=
      mem_kinds_iff.2 (.inl ⟨_, List.mem_cons_of_mem _ hmem, rfl⟩)
    rw [hinj k hk _ hregister rfl] at hreg
    cases hreg
  · intro hfree k hk k' hk' hname
    exact Kind.eq_of_name_of_not_mem hname (fun _ => mem_registerNames hk)
      (fun _ => mem_registerNames hk') (hfree k hk) (hfree k' hk')

end Layout

namespace Store

variable {s t : Store} {id j : OperandId} {v : Value}

/-! ### Operands -/

lemma Tabled.eq_of_kind (h : s.Tabled) (hid : id < s.operands.size) (hj : j < s.operands.size)
    (hk : (s.operand id).kind = (s.operand j).kind) : id = j := by
  cases hc : (s.operand j).kind.isConstant with
  | false => exact h.toLaid.eq_of_kind hj hid hc hk
  | true =>
    cases hv : (s.operand j).kind with
    | constant v => exact h.unique (hk.trans hv) hv
    | register | memory | input | output => rw [hv] at hc; cases hc

/-- An operand that is no register is a constant, or it is in the layout. -/
lemma Laid.free_iff (h : s.Laid) :
    (∀ id < s.operands.size, (s.operand id).kind.isRegister = false →
      (s.operand id).name ∉ s.layout.registers) ↔
    s.layout.Apart ∧ ∀ id v, (s.operand id).kind = .constant v →
      (Kind.constant v).name ∉ s.layout.registers := by
  rw [Layout.apart_iff]
  constructor
  · refine fun hfree => ⟨fun k hk hreg => ?_, fun id v hv => ?_⟩
    · obtain ⟨id, hget⟩ := List.mem_iff_getElem?.1 hk
      obtain ⟨hid, rfl⟩ := h.kind_eq hget
      exact hfree id hid hreg
    · rw [← hv]
      exact hfree id (lt_of_constant hv) (by rw [hv]; rfl)
  · rintro ⟨hlayout, hconstants⟩ id hid hreg
    cases hk : (s.operand id).kind with
    | constant v =>
      rw [Operand.name, hk]
      exact hconstants id v hk
    | register | memory | input | output =>
      exact hlayout _ (List.mem_of_getElem? (h.mem_kinds hid (by rw [hk]; rfl))) hreg

/-- The operands of a table are all called differently if the declared registers are apart from the
others, and only then. -/
lemma Tabled.names_unique_iff (h : s.Tabled) :
    (∀ id < s.operands.size, ∀ j < s.operands.size,
      (s.operand id).name = (s.operand j).name → id = j) ↔
    s.layout.Apart ∧ ∀ id v, (s.operand id).kind = .constant v →
      (Kind.constant v).name ∉ s.layout.registers := by
  rw [← h.toLaid.free_iff]
  constructor
  · intro hunique id hid hreg hmem
    obtain ⟨j, hj⟩ := (s.locate_ok_iff (.register (s.operand id).name)).2
      (List.mem_cons_of_mem _ hmem)
    obtain ⟨hjlt, hkind⟩ := h.of_locate hj
    have hname : (s.operand id).name = (s.operand j).name := by
      rw [Operand.name.eq_def (s.operand j), hkind]
      rfl
    rw [hunique id hid j hjlt hname, hkind] at hreg
    cases hreg
  · intro hfree id hid j hj hname
    have hregister : ∀ {id}, id < s.operands.size → ∀ r, (s.operand id).kind = .register r →
        r ∈ s.layout.registerNames := fun hid _ hr =>
      List.mem_of_getElem? (h.getElem?_registerNames hid hr)
    exact h.eq_of_kind hid hj (Kind.eq_of_name_of_not_mem hname (hregister hid) (hregister hj)
      (hfree id hid) (hfree j hj))

/-! ### Snapshots -/

def entries (s : Store) : List (String × Value) :=
  (s.operands.toList.filter fun o => !o.kind.isConstant).map fun o => (o.name, o.value)

lemma snapshot_eq_ofEntries (s : Store) : s.snapshot = Snapshot.ofEntries s.entries := by
  rw [snapshot, Snapshot.ofEntries, entries, List.foldl_map, List.foldl_filter]
  congr 1
  funext d o
  cases o.kind.isConstant <;> rfl

lemma Laid.names_entries (h : s.Laid) : s.entries.map Prod.fst = s.layout.kinds.map Kind.name := by
  obtain ⟨vs, hvs⟩ := h.kinds
  have hlayout : ∀ k ∈ s.layout.kinds, (!k.isConstant) = true := by
    intro k hk
    rcases Layout.mem_kinds_iff.1 hk with ⟨_, -, rfl⟩ | ⟨_, -, rfl⟩ | ⟨_, -, rfl⟩ | ⟨_, -, rfl⟩ <;>
      rfl
  have hconstants : (vs.map Kind.constant).filter (fun k => !k.isConstant) = [] :=
    List.filter_eq_nil_iff.2 fun k hk => by
      obtain ⟨v, -, rfl⟩ := List.mem_map.1 hk
      exact Bool.false_ne_true
  have hkinds : (s.operands.toList.filter fun o => !o.kind.isConstant).map Operand.kind =
      s.layout.kinds := by
    have hfilter := congrArg (List.filter fun k => !k.isConstant) hvs
    rw [List.filter_append, List.filter_eq_self.2 hlayout, hconstants, List.append_nil, Store.kinds,
      List.filter_map] at hfilter
    exact hfilter
  rw [← hkinds, entries, List.map_map, List.map_map]
  rfl

end Store

variable {ω : Type} [Observer ω] {s : Store}

/-- **A snapshot shows each operand exactly if the registers are apart**: whatever has been done
with a machine that has been built, its operands are all called differently if no declared register
is called like a cell, a channel or a constant that has been interned, and only then; so they are if
all of them can be written in a program. A snapshot has one entry with the value of each operand but
the constants if no declared register is called like a cell or a channel, and only then. In any case
each name stands in it once, in order, with the value of the last operand that goes by it. -/
theorem Machine.snapshots_complete_iff {c : Config} (hω : Observer.Unobtrusive ω)
    (hs : c.build = .ok s) (o : ω) (us : List Use) :
    let t := (({ store := s, observer := o } : Machine ω).uses us).store
    ((∀ id < t.operands.size, ∀ j < t.operands.size,
        (t.operand id).name = (t.operand j).name → id = j) ↔
      c.Apart ∧ ∀ id v, (t.operand id).kind = .constant v →
        (Kind.constant v).name ∉ c.registers) ∧
    (c.Spoken → ∀ id < t.operands.size, ∀ j < t.operands.size,
      (t.operand id).name = (t.operand j).name → id = j) ∧
    (t.snapshot.Perm t.entries ↔ c.Apart) ∧
    t.entries.map Prod.fst = c.kinds.map Kind.name ∧
    Store.Snapshot.Sorted t.snapshot ∧
    ∀ name v, (name, v) ∈ t.snapshot ↔ t.entries.reverse.lookup name = some v := by
  intro t
  obtain ⟨hkept, ht⟩ :=
    uses_kept (m := { store := s, observer := o }) hω (Config.tabled_of_build hs) us
  have hlayout : t.layout = c.toLayout := hkept.layout.trans (Config.operands_of_build hs).1
  have hunique := ht.names_unique_iff
  have hnames := ht.names_entries
  have hapart := Layout.nodup_names_iff ht.names
  rw [hlayout] at hunique hnames hapart
  refine ⟨hunique, fun hspoken => hunique.2 ⟨hspoken.apart, fun id v _ =>
    hspoken.name_not_mem (Kind.spoken_constant v) rfl⟩, ?_, hnames, ?_, fun name v => ?_⟩
  · rw [t.snapshot_eq_ofEntries, Store.Snapshot.ofEntries_perm_iff, hnames]
    exact hapart
  · rw [t.snapshot_eq_ofEntries]
    exact Store.Snapshot.sorted_ofEntries _
  · rw [t.snapshot_eq_ofEntries]
    exact Store.Snapshot.mem_ofEntries

/-- A register called like the channel behind it: its value does not show in a snapshot. -/
theorem Machine.snapshots_may_hide :
    let c : Config := { registers := ["IN0"], inputs := 1 }
    let s : Store :=
      { layout := c.toLayout, operands := c.initialOperands.toArray, source := c.source }
    let t := (({ store := s, observer := {} } : Machine Tracker).uses [.set 1 5]).store
    c.build = .ok s ∧ t.operands.size = 3 ∧
      (t.operand 1).kind = .register "IN0" ∧ (t.operand 2).kind = .input 0 ∧
      (t.operand 1).name = (t.operand 2).name ∧
      (t.operand 1).value = 5 ∧ t.snapshot = [("IN0", 0), ("PC", 0)] ∧
      ¬ (∀ id < t.operands.size, ∀ j < t.operands.size,
        (t.operand id).name = (t.operand j).name → id = j) ∧ ¬ t.snapshot.Perm t.entries := by
  refine ⟨rfl, ?_⟩
  decide +kernel

/-- A cell and channels, a register with another name, and one called like a constant. -/
theorem Machine.snapshots_complete_iff_percent :
    let c : Config :=
      { registers := ["A", "%7"], memorySize := 1, inputs := 1, outputs := 1, memory := [4] }
    let s : Store :=
      { layout := c.toLayout, operands := c.initialOperands.toArray, source := c.source }
    let t := (({ store := s, observer := {} } : Machine Tracker).uses
      [.constant 7, .set 1 (-3), .set 2 9]).store
    (Observer.Unobtrusive Tracker ∧ c.build = .ok s ∧ c.Apart) ∧
      t.snapshot = [("%7", 9), ("A", -3), ("IN0", 0), ("OUT0", 0), ("PC", 0), ("[0]", 4)] ∧
      t.snapshot.Perm t.entries ∧
      ¬ ∀ id < t.operands.size, ∀ j < t.operands.size,
        (t.operand id).name = (t.operand j).name → id = j := by
  intro c s t
  have hbuild : c.build = .ok s := rfl
  have hapart : c.Apart := by decide +kernel
  obtain ⟨hunique, -, hcomplete, -⟩ := snapshots_complete_iff .tracker hbuild ({} : Tracker)
    [.constant 7, .set 1 (-3), .set 2 9]
  refine ⟨⟨.tracker, hbuild, hapart⟩, by decide +kernel, hcomplete.2 hapart, fun h => ?_⟩
  have hconstant : (t.operand 6).kind = .constant 7 := by decide +kernel
  exact (hunique.1 h).2 6 7 hconstant (by decide +kernel)

end Lineage
