import Lineage.Store
import Mathlib.Tactic.Lemma

/-!
Computations on a store that may fail.

`Keeps R` says how a computation may change the store, and `Respects S` that it cannot tell related
stores apart. Both pass through sequencing, so they hold of a computation as soon as they hold of
its parts.
-/

namespace Lineage

variable {ε α β : Type} {s t : Store}

lemma bind_ok {x : EStateM ε Store α} {f : α → EStateM ε Store β} {b : β}
    (h : (x >>= f) s = .ok b t) : ∃ a u, x s = .ok a u ∧ f a u = .ok b t := by
  cases hx : x s with
  | ok a u => exact ⟨a, u, rfl, by simpa only [bind, EStateM.bind, hx] using h⟩
  | error e u => simp only [bind, EStateM.bind, hx, reduceCtorEq] at h

/-! ### How the store changes -/

/-- The store behind the computation is related to the one before, whether it fails or not. -/
def Keeps (R : Store → Store → Prop) (x : EStateM ε Store α) : Prop :=
  ∀ s, match x s with
    | .ok _ t | .error _ t => R s t

section Keeps

variable {R : Store → Store → Prop}

lemma Keeps.ok {x : EStateM ε Store α} (hx : Keeps R x) {a : α} (h : x s = .ok a t) : R s t := by
  have := hx s
  rwa [h] at this

lemma Keeps.error {x : EStateM ε Store α} (hx : Keeps R x) {e : ε} (h : x s = .error e t) :
    R s t := by
  have := hx s
  rwa [h] at this

variable (refl : ∀ s, R s s)

include refl in
lemma keeps_pure (a : α) : Keeps R (pure a : EStateM ε Store α) := fun s => refl s

include refl in
lemma keeps_throw (e : ε) : Keeps R (throw e : EStateM ε Store α) := fun s => refl s

lemma keeps_bind (trans : ∀ ⦃s t u⦄, R s t → R t u → R s u) {x : EStateM ε Store α}
    {f : α → EStateM ε Store β} (hx : Keeps R x) (hf : ∀ a, Keeps R (f a)) :
    Keeps R (x >>= f) := by
  intro s
  cases hxs : x s with
  | ok a u =>
    simp only [bind, EStateM.bind, hxs]
    cases hfu : f a u with
    | ok b t => exact trans (hx.ok hxs) ((hf a).ok hfu)
    | error e t => exact trans (hx.ok hxs) ((hf a).error hfu)
  | error e u => simpa only [bind, EStateM.bind, hxs] using hx.error hxs

end Keeps

/-! ### What the computation sees -/

/-- The results are the same, and the stores behind them related. -/
inductive Alike (S : Store → Store → Prop) :
    EStateM.Result ε Store α → EStateM.Result ε Store α → Prop
  | ok {s t : Store} (a : α) (h : S s t) : Alike S (.ok a s) (.ok a t)
  | error {s t : Store} (e : ε) (h : S s t) : Alike S (.error e s) (.error e t)

/-- The computation cannot tell related stores apart. -/
def Respects (S : Store → Store → Prop) (x : EStateM ε Store α) : Prop :=
  ∀ ⦃s t⦄, S s t → Alike S (x s) (x t)

section Respects

variable {S : Store → Store → Prop}

lemma respects_pure (a : α) : Respects S (pure a : EStateM ε Store α) := fun _ _ h => .ok a h

lemma respects_throw (e : ε) : Respects S (throw e : EStateM ε Store α) := fun _ _ h => .error e h

lemma respects_bind {x : EStateM ε Store α} {f : α → EStateM ε Store β} (hx : Respects S x)
    (hf : ∀ a, Respects S (f a)) : Respects S (x >>= f) := by
  intro s t h
  have h' := hx h
  simp only [bind, EStateM.bind]
  generalize x s = r at h' ⊢
  generalize x t = r' at h' ⊢
  cases h' with
  | ok a hu => exact hf a hu
  | error e hu => exact .error e hu

/-- A part of the store that related stores share may be looked at. -/
lemma respects_get_bind {f : Store → EStateM ε Store β}
    (hf : ∀ ⦃s t⦄, S s t → Alike S (f s s) (f t t)) : Respects S (get >>= f) :=
  fun _ _ h => hf h

end Respects

end Lineage
