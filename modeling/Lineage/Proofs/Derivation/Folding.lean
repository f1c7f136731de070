import Lineage.Derivation.Outcome
import Mathlib.Tactic.Lemma
import Mathlib.Logic.Basic

/-!
Which simplification a binary operation meets.

`Folds` lists what can become of an operation, with the reason for it, in the order in which the
simplifications are tried. What an operation with a neutral or an absorbing constant gives is told
beside it.
-/

namespace Lineage

namespace BinaryOp

variable {op : BinaryOp} {k w : Value}

lemma eval_eq_none_iff {a b : Value} :
    op.eval a b = none ↔ (op = .div ∨ op = .mod) ∧ b = 0 := by
  cases op <;> simp [eval]

lemma eval_neutral_left (h : op.neutral k true = true) : op.eval k w = some w := by
  cases op <;> simp only [neutral, decide_eq_true_eq, Bool.and_eq_true, Bool.not_true,
    Bool.false_eq_true, and_false] at h <;> subst h <;> simp [eval]

lemma eval_neutral_right (h : op.neutral k false = true) : op.eval w k = some w := by
  have hshift : shift w 0 = w := by
    rw [shift, if_pos (by decide), if_neg (by decide)]
    exact Int64.toBitVec_inj.1 (by simp)
  cases op <;> simp only [neutral, decide_eq_true_eq, Bool.and_eq_true, Bool.not_false, and_true,
    Bool.false_eq_true] at h <;> subst h <;> simp [eval, hshift]

lemma eval_absorbing_left (h : op.absorbing k = true) : op.eval k w = some 0 := by
  cases op <;> simp only [absorbing, decide_eq_true_eq, Bool.false_eq_true] at h <;> subst h <;>
    simp [eval]

lemma eval_absorbing_right (h : op.absorbing k = true) : op.eval w k = some 0 := by
  cases op <;> simp only [absorbing, decide_eq_true_eq, Bool.false_eq_true] at h <;> subst h <;>
    simp [eval]

end BinaryOp

namespace Outcome

/-- The sources do not make an operation trivial by being at one node. -/
def Apart (op : BinaryOp) (x y : Reading) : Prop :=
  x.node = y.node → op ≠ .and ∧ op ≠ .or ∧ op ≠ .xor

/-- What becomes of an operation on two sources. -/
inductive Folds (op : BinaryOp) (x y : Reading) : Outcome → Prop
  | folded {v : Value} (left : x.constant = true) (right : y.constant = true)
      (eval : op.eval x.value y.value = some v) : Folds op x y (.constant v)
  | undefined (left : x.constant = true) (right : y.constant = true)
      (eval : op.eval x.value y.value = none) : Folds op x y .nothing
  | same (unknown : ¬ (x.constant = true ∧ y.constant = true)) (node : x.node = y.node)
      (idempotent : op = .and ∨ op = .or) : Folds op x y (.source x)
  | cancelled (unknown : ¬ (x.constant = true ∧ y.constant = true)) (node : x.node = y.node)
      (xor : op = .xor) : Folds op x y (.constant 0)
  | neutralLeft (apart : Apart op x y) (left : x.constant = true) (right : y.constant = false)
      (neutral : op.neutral x.value true = true) : Folds op x y (.source y)
  | absorbedLeft (apart : Apart op x y) (left : x.constant = true) (right : y.constant = false)
      (absorbing : op.absorbing x.value = true) : Folds op x y (.constant 0)
  | linkedRight (apart : Apart op x y) (left : x.constant = true) (right : y.constant = false) :
      Folds op x y (.derived (.ofConstant op x.value true) [y])
  | neutralRight (apart : Apart op x y) (left : x.constant = false) (right : y.constant = true)
      (neutral : op.neutral y.value false = true) : Folds op x y (.source x)
  | absorbedRight (apart : Apart op x y) (left : x.constant = false) (right : y.constant = true)
      (absorbing : op.absorbing y.value = true) : Folds op x y (.constant 0)
  | linkedLeft (apart : Apart op x y) (left : x.constant = false) (right : y.constant = true)
      (neutral : op.neutral y.value false = false) :
      Folds op x y (.derived (.ofConstant op y.value false) [x])
  | linked (apart : Apart op x y) (left : x.constant = false) (right : y.constant = false) :
      Folds op x y (.derived (.both op) [x, y])

lemma folds (op : BinaryOp) (x y : Reading) : Folds op x y (ofBinary op x y) := by
  unfold ofBinary
  by_cases hboth : x.constant = true ∧ y.constant = true
  · obtain ⟨hx, hy⟩ := hboth
    simp only [hx, hy, Bool.and_self, if_true]
    cases hv : op.eval x.value y.value with
    | some v => exact .folded hx hy hv
    | none => exact .undefined hx hy hv
  · rw [if_neg (by simpa only [Bool.and_eq_true] using hboth)]
    by_cases hsame : x.node = y.node ∧ (op = .and ∨ op = .or)
    · rw [if_pos hsame]
      exact .same hboth hsame.1 hsame.2
    · rw [if_neg hsame]
      by_cases hxor : x.node = y.node ∧ op = .xor
      · rw [if_pos hxor]
        exact .cancelled hboth hxor.1 hxor.2
      · rw [if_neg hxor]
        have hapart : Apart op x y := fun hnode =>
          ⟨fun h => hsame ⟨hnode, .inl h⟩, fun h => hsame ⟨hnode, .inr h⟩, fun h => hxor ⟨hnode, h⟩⟩
        cases hx : x.constant with
        | true =>
          have hy : y.constant = false := Bool.eq_false_iff.2 fun hy => hboth ⟨hx, hy⟩
          rw [if_pos rfl, ofConstant]
          by_cases hn : op.neutral x.value true = true
          · rw [if_pos hn]
            exact .neutralLeft hapart hx hy hn
          · rw [if_neg hn]
            by_cases ha : op.absorbing x.value = true
            · rw [if_pos ha]
              exact .absorbedLeft hapart hx hy ha
            · rw [if_neg ha]
              exact .linkedRight hapart hx hy
        | false =>
          rw [if_neg Bool.false_ne_true]
          cases hy : y.constant with
          | true =>
            rw [if_pos rfl, ofConstant]
            by_cases hn : op.neutral y.value false = true
            · rw [if_pos hn]
              exact .neutralRight hapart hx hy hn
            · rw [if_neg hn]
              by_cases ha : op.absorbing y.value = true
              · rw [if_pos ha]
                exact .absorbedRight hapart hx hy ha
              · rw [if_neg ha]
                exact .linkedLeft hapart hx hy (Bool.eq_false_iff.2 hn)
          | false =>
            rw [if_neg Bool.false_ne_true]
            exact .linked hapart hx hy

lemma ofBinary_eq_nothing_iff (op : BinaryOp) (x y : Reading) : ofBinary op x y = .nothing ↔
    (x.constant = true ∧ y.constant = true) ∧ op.eval x.value y.value = none := by
  constructor
  · intro ho
    have hfolds := folds op x y
    rw [ho] at hfolds
    cases hfolds with
    | undefined hx hy heval => exact ⟨⟨hx, hy⟩, heval⟩
  · rintro ⟨⟨hx, hy⟩, heval⟩
    simp only [ofBinary, hx, hy, Bool.and_self, if_true, heval]

end Outcome

end Lineage
