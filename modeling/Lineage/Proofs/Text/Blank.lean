import Lineage.Text.Blank
import Mathlib.Data.List.DropRight

/-!
Trimming takes nothing from a text that neither begins nor ends with a blank.
-/

namespace Lineage.Text

variable {c : Char} {cs l r : List Char}

lemma trimEnd_concat (hc : isBlank c = false) : trimEnd (l ++ [c]) = l ++ [c] :=
  List.rdropWhile_concat_neg isBlank l c (by simp [hc])

lemma trimEnd_concat_blank (hc : isBlank c = true) : trimEnd (l ++ [c]) = trimEnd l :=
  List.rdropWhile_concat_pos isBlank l c hc

@[simp] lemma trimEnd_trimEnd (cs : List Char) : trimEnd (trimEnd cs) = trimEnd cs :=
  List.rdropWhile_idempotent isBlank cs

lemma trimEnd_append (hne : r ≠ []) (hr : ∀ c ∈ r, isBlank c = false) :
    trimEnd (l ++ r) = l ++ r := by
  rw [← List.dropLast_concat_getLast hne, ← List.append_assoc]
  exact trimEnd_concat (hr _ (List.getLast_mem hne))

lemma trim_cons_blank (hc : isBlank c = true) : trim (c :: cs) = trim cs := by
  rw [trim, trimStart, List.dropWhile_cons_of_pos hc, ← trimStart, ← trim]

lemma trim_cons (hc : isBlank c = false) : trim (c :: cs) = trimEnd (c :: cs) := by
  rw [trim, trimStart, List.dropWhile_cons_of_neg (by simp [hc])]

lemma trim_of_forall (h : ∀ c ∈ cs, isBlank c = false) : trim cs = cs := by
  cases cs with
  | nil => rfl
  | cons c cs =>
    rw [trim_cons (h c List.mem_cons_self)]
    exact trimEnd_append (l := []) (List.cons_ne_nil c cs) h

lemma trim_ne_nil (h : c ∈ cs) (hc : isBlank c = false) : trim cs ≠ [] := by
  intro hnil
  have hend : ∀ d ∈ cs.dropWhile isBlank, isBlank d = true := List.rdropWhile_eq_nil_iff.1 hnil
  have hblank : isBlank c = true := by
    rw [← List.takeWhile_append_dropWhile (p := isBlank) (l := cs), List.mem_append] at h
    rcases h with h | h
    · exact List.mem_takeWhile_imp h
    · exact hend c h
  rw [hc] at hblank
  cases hblank

end Lineage.Text
