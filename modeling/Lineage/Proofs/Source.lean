import Lineage.Channel
import Mathlib.Tactic.Lemma

/-!
Laws of input sources.

A peek may leave no trace in what a source answers later, and it may show what the next consuming
read will give. A source with a queue for each channel does both, and its channels do not disturb
each other.
-/

namespace Lineage

/-- A history without its peeks. -/
def consuming (history : List Read) : List Read := history.filter fun r => !r.peek

@[simp] lemma consuming_peek (c : Nat) (v : Value) (h : List Read) :
    consuming (⟨c, true, v⟩ :: h) = consuming h := rfl

@[simp] lemma consuming_read (c : Nat) (v : Value) (h : List Read) :
    consuming (⟨c, false, v⟩ :: h) = ⟨c, false, v⟩ :: consuming h := rfl

@[simp] lemma consuming_consuming (h : List Read) : consuming (consuming h) = consuming h := by
  simp [consuming]

namespace Source

/-- Peeks leave no trace in later answers. -/
def IgnoresPeeks (src : Source) : Prop :=
  ∀ h c peek, src h c peek = src (consuming h) c peek

/-- A peek shows what a consuming read would give in its place, and leaves no trace. -/
def Truthful (src : Source) : Prop :=
  ∀ h c peek, src h c peek = src (consuming h) c false

/-- What is read from one channel leaves the answers on the others as they are. -/
def Separate (src : Source) : Prop :=
  ∀ h c c' v peek, c ≠ c' → src (⟨c, false, v⟩ :: h) c' peek = src h c' peek

/-- All channels give the same. -/
def Joint (src : Source) : Prop := ∀ h c c' peek, src h c peek = src h c' peek

variable {src : Source}

lemma IgnoresPeeks.congr (hs : src.IgnoresPeeks) {h h' : List Read}
    (hh : consuming h = consuming h') (c : Nat) (peek : Bool) : src h c peek = src h' c peek := by
  rw [hs h, hs h', hh]

lemma Truthful.congr (hs : src.Truthful) {h h' : List Read} (hh : consuming h = consuming h')
    (c : Nat) (peek peek' : Bool) : src h c peek = src h' c peek' := by
  rw [hs h, hs h', hh]

lemma Truthful.ignoresPeeks (hs : src.Truthful) : src.IgnoresPeeks := by
  intro h c peek
  exact hs.congr (by simp) c peek peek

lemma queues_truthful (values : List (List Value)) : (queues values).Truthful := by
  intro h c peek
  simp only [queues, consuming, List.countP_filter]
  congr 2
  funext r
  cases r.peek <;> simp

lemma queues_separate (values : List (List Value)) : (queues values).Separate := by
  intro h c c' v peek hne
  simp [queues, hne]

end Source

end Lineage
