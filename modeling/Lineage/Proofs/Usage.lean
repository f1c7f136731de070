import Lineage.Proofs.Instruction.Repetition
import Lineage.Proofs.Progress

/-!
Working with a machine keeps its table of operands.

Whatever is done with a machine that has been built, its operands are found where they were, with
constants interned behind them. A program that is decoded or loaded adds the constants that are
missing and does nothing else, even when it is refused, and decoding it again adds nothing.
-/

namespace Lineage

inductive Use
  | constant (v : Value)
  | get (id : OperandId)
  | peek (id : OperandId)
  | set (id : OperandId) (v : Value)
  | decode (program : String)
  | load (program : List Instruction)
  | loadText (program : String)
  | step

/-- The store behind a result, be it a success or a failure. -/
def resultStore {ε α : Type} : EStateM.Result ε Store α → Store
  | .ok _ s | .error _ s => s

variable {ω : Type} [Observer ω] {m : Machine ω} {s t : Store}

namespace Machine

/-- A write that is refused does nothing. -/
def use (m : Machine ω) : Use → Machine ω
  | .constant v => { m with store := (m.store.intern v).2 }
  | .get id => { m with store := (m.store.read id).2 }
  | .peek id => { m with store := (m.store.peek id).2 }
  | .set id v =>
    match m.store.write id v with
    | .ok s => { m with store := s }
    | .error _ => m
  | .decode program => { m with store := resultStore (Lineage.decode program m.store) }
  | .load program => m.load program
  | .loadText program => (m.loadText program).2
  | .step => m.step.2

def uses (m : Machine ω) (us : List Use) : Machine ω := us.foldl use m

end Machine

namespace Store

lemma interning_tabled : Interning fun s t => s.Interned t ∧ (s.Tabled → t.Tabled) where
  refl s := ⟨.refl s, id⟩
  trans _ _ _ h h' := ⟨h.1.trans h'.1, h'.2 ∘ h.2⟩
  intern s v := ⟨s.intern_interned v, fun h => h.intern v⟩

end Store

lemma interned_of_decode (h : s.Tabled) (program : String) :
    s.Interned (resultStore (decode program s)) ∧ (resultStore (decode program s)).Tabled := by
  have hkeeps := keeps_decode Store.interning_tabled program s
  cases hd : decode program s with
  | ok is t | error e t =>
    rw [hd] at hkeeps
    exact ⟨hkeeps.1, hkeeps.2 h⟩

namespace Machine

omit [Observer ω] in
lemma store_loadText (m : Machine ω) (program : String) :
    (m.loadText program).2.store = resultStore (Lineage.decode program m.store) := by
  unfold loadText
  cases Lineage.decode program m.store <;> rfl

lemma tabled_step (hω : Observer.Unobtrusive ω) (h : m.store.Tabled) : m.step.2.store.Tabled := by
  have htold : m.told.2.Tabled := h.similar (hω.before _ _ _)
  cases hexec : m.next.execute m.told.2 with
  | error f u =>
    rw [step_of_error hexec]
    exact htold.steady (Instruction.steady_of_execute_error hexec)
  | ok flow u =>
    obtain ⟨e, v, hreads, hfollows⟩ := Instruction.follows_of_execute hexec
    rw [step_of_ok hexec]
    exact ((htold.steady hreads.steady).follows hfollows).similar (hω.after _ _ _)

lemma use_kept (hω : Observer.Unobtrusive ω) (h : m.store.Tabled) (x : Use) :
    m.store.Kept (m.use x).store ∧ (m.use x).store.Tabled := by
  cases x with
  | constant v => exact ⟨(m.store.intern_interned v).kept, h.intern v⟩
  | get id =>
    have hs := m.store.read_steady id
    exact ⟨hs.sameFrame.kept, h.steady hs⟩
  | peek id =>
    have hs := (m.store.peek_peeked id).steady
    exact ⟨hs.sameFrame.kept, h.steady hs⟩
  | set id v =>
    cases hw : m.store.write id v with
    | ok t =>
      simp only [use, hw]
      exact ⟨(Store.write_sameFrame hw).kept, h.write hw⟩
    | error e =>
      simp only [use, hw]
      exact ⟨.refl _, h⟩
  | decode program =>
    obtain ⟨hi, ht⟩ := interned_of_decode h program
    exact ⟨hi.kept, ht⟩
  | load program => exact ⟨.refl _, h⟩
  | loadText program =>
    obtain ⟨hi, ht⟩ := interned_of_decode h program
    rw [use, store_loadText]
    exact ⟨hi.kept, ht⟩
  | step => exact ⟨(sameFrame_step hω m).1.kept, tabled_step hω h⟩

lemma uses_kept (hω : Observer.Unobtrusive ω) (h : m.store.Tabled) (us : List Use) :
    m.store.Kept (m.uses us).store ∧ (m.uses us).store.Tabled := by
  induction us generalizing m with
  | nil => exact ⟨.refl _, h⟩
  | cons x us ih =>
    obtain ⟨hkept, ht⟩ := use_kept hω h x
    obtain ⟨hkept', ht'⟩ := ih ht
    exact ⟨hkept.trans hkept', ht'⟩

/-- **Operands stay in their places**: whatever is done with a machine that has been built, and
whichever unobtrusive observer it has, its places are mapped to the same operands one to one, each
constant that is interned has one operand and this holds it, and operands keep their kinds and with
them their names. Decoding a program adds the constants that are missing and does nothing else,
whether it succeeds or not, and loading one does no more than that when it fails. A program that has
been decoded is decoded to the same instructions at any later time, with nothing added. -/
theorem operands_stay_in_place {c : Config} (hω : Observer.Unobtrusive ω) (hs : c.build = .ok s)
    (o : ω) (us : List Use) :
    let m := ({ store := s, observer := o } : Machine ω).uses us
    m.store.Mapped c.toLayout ∧ m.store.locate = s.locate ∧ m.store.Tabled ∧
    (∀ v, ((m.store.intern v).2.operand (m.store.intern v).1).kind = .constant v ∧
      ∀ id, (m.store.operand id).kind = .constant v → m.store.intern v = (id, m.store)) ∧
    (∀ us', m.store.Kept (m.uses us').store ∧ ∀ id < m.store.operands.size,
      ((m.uses us').store.operand id).name = (m.store.operand id).name) ∧
    (∀ program, let t := resultStore (Lineage.decode program m.store)
      (∃ vs, m.store.Adds vs t) ∧ t.snapshot = m.store.snapshot ∧ t.pcValue = m.store.pcValue) ∧
    (∀ program, let r := m.loadText program
      r.2.store = resultStore (Lineage.decode program m.store) ∧ r.2.observer = m.observer ∧
        r.2.steps = m.steps ∧ ∀ e, r.1 = .error e → r.2.program = m.program) ∧
    ∀ program is t, Lineage.decode program m.store = .ok is t → ∀ m' : Machine ω, m'.store = t →
      ∀ us', Lineage.decode program (m'.uses us').store = .ok is (m'.uses us').store := by
  intro m
  have hbuilt := Config.tabled_of_build hs
  obtain ⟨hkept, ht⟩ := uses_kept (m := { store := s, observer := o }) hω hbuilt us
  have hlayout : m.store.layout = c.toLayout :=
    hkept.layout.trans (Config.operands_of_build hs).1
  refine ⟨hlayout ▸ ht.mapped, Store.locate_congr hkept.layout, ht,
    fun v => ⟨(m.store.intern_ok v).2, fun id hid => ht.intern_eq hid⟩,
    fun us' => ?_, fun program => ?_, fun program => ?_, ?_⟩
  · obtain ⟨hkept', -⟩ := uses_kept hω ht us'
    exact ⟨hkept', fun id hid => hkept'.name hid⟩
  · obtain ⟨hi, ht'⟩ := interned_of_decode ht program
    exact ⟨hi.adds ht', hi.snapshot, hi.pcValue ht.toLaid⟩
  · refine ⟨m.store_loadText program, ?_⟩
    unfold loadText
    cases Lineage.decode program m.store with
    | ok is t => exact ⟨rfl, rfl, nofun⟩
    | error e t => exact ⟨rfl, rfl, fun _ _ => rfl⟩
  · rintro program is t hd m' rfl us'
    have ht' := (interned_of_decode ht program).2
    rw [hd] at ht'
    obtain ⟨hkept', ht''⟩ := uses_kept hω ht' us'
    exact decode_again ht.toLaid hd hkept' ht''

/-- A program is decoded again after a step of it, a refused program and a write. -/
theorem operands_stay_in_place_refused :
    let c : Config := { registers := ["A"], memorySize := 1, inputs := 1, outputs := 1 }
    let s : Store :=
      { layout := c.toLayout, operands := c.initialOperands.toArray, source := c.source }
    let program := "ADD A, %9, [0]\nSUB [0], %9, A"
    let start := ({ store := s, observer := {} } : Machine Tracker).uses [.constant 7]
    let m := (start.loadText program).2
    let later := (m.uses [.step, .decode "ADD %8, A, IN0", .set 1 4]).store
    (Observer.Unobtrusive Tracker ∧ c.build = .ok s) ∧
      Lineage.decode program later = .ok m.program later := by
  intro c s program start m later
  have hbuild : c.build = .ok s := rfl
  have hload : loadText { store := start.store, observer := ({} : Tracker) } program =
      (.ok (), m) := Prod.ext (by decide +kernel) rfl
  obtain ⟨hdecode, -⟩ := decode_of_loadText hload
  obtain ⟨-, -, -, -, -, -, -, hagain⟩ :=
    operands_stay_in_place .tracker hbuild ({} : Tracker) [.constant 7]
  exact ⟨⟨.tracker, hbuild⟩, hagain program _ _ hdecode m rfl _⟩

end Machine

end Lineage
