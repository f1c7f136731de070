import Mathlib.Data.List.Basic
import Mathlib.Data.List.Nodup
import Mathlib.Tactic.Lemma

/-!
Lists of which only the first of equal elements is kept.
-/

namespace Lineage

variable {α β : Type} [BEq α] [LawfulBEq α] {l l' m m' : List α} {a : α}

lemma nodup_eraseDups (l : List α) : l.eraseDups.Nodup := by
  match l with
  | [] => exact List.nodup_nil
  | a :: as =>
    rw [List.eraseDups_cons, List.nodup_cons, List.mem_eraseDups]
    exact ⟨fun hmem => by simp at hmem, nodup_eraseDups _⟩
termination_by l.length
decreasing_by exact Nat.lt_succ_of_le (List.length_filter_le _ _)

lemma eraseDups_concat_of_mem (h : a ∈ l) : (l ++ [a]).eraseDups = l.eraseDups := by
  have hrest : [a].removeAll l = [] := by simpa [List.removeAll] using h
  rw [List.eraseDups_append, hrest, List.eraseDups_nil, List.append_nil]

lemma eraseDups_concat (h : a ∉ l) : (l ++ [a]).eraseDups = l.eraseDups ++ [a] := by
  have hrest : [a].removeAll l = [a] := by simpa [List.removeAll] using h
  rw [List.eraseDups_append, hrest]
  rfl

/-- What no two elements have in common is kept once. -/
lemma filterMap_eraseDups {f : α → Option β} (l : List α) (h : (l.filterMap f).Nodup) :
    l.eraseDups.filterMap f = l.filterMap f := by
  match l with
  | [] => rfl
  | a :: as =>
    have hrest : (as.filter fun b => !b == a).filterMap f = as.filterMap f := by
      cases hf : f a with
      | none =>
        rw [List.filterMap_filter]
        refine List.filterMap_congr fun b _ => ?_
        by_cases hb : b = a
        · simp [hb, hf]
        · simp [hb]
      | some x =>
        rw [List.filterMap_cons_some hf, List.nodup_cons] at h
        rw [List.filter_eq_self.2 fun b hb => ?_]
        have hne : b ≠ a := fun heq => h.1 (List.mem_filterMap.2 ⟨b, hb, heq ▸ hf⟩)
        simpa using hne
    have htail : (as.filterMap f).Nodup := by
      cases hf : f a with
      | none => rwa [List.filterMap_cons_none hf] at h
      | some x => exact (List.nodup_cons.1 (by rwa [List.filterMap_cons_some hf] at h)).2
    rw [List.eraseDups_cons, List.filterMap_cons, List.filterMap_cons,
      filterMap_eraseDups _ (by rwa [hrest]), hrest]
termination_by l.length
decreasing_by exact Nat.lt_succ_of_le (List.length_filter_le _ _)

/-- Lists that have nothing in common can be looked through one by one. -/
lemma eraseDups_append_of_nodup (h : l.eraseDups = m) (h' : l'.eraseDups = m')
    (hnodup : (m ++ m').Nodup) : (l ++ l').eraseDups = m ++ m' := by
  have hapart : l'.removeAll l = l' := by
    refine List.filter_eq_self.2 fun a ha => ?_
    have hnot : a ∉ l := fun hmem => (List.nodup_append.1 hnodup).2.2 a
      (h ▸ List.mem_eraseDups.2 hmem) a (h' ▸ List.mem_eraseDups.2 ha) rfl
    simpa using hnot
  rw [List.eraseDups_append, hapart, h, h']

lemma eraseDups_of_nodup (l : List α) (h : l.Nodup) : l.eraseDups = l := by
  induction l with
  | nil => rfl
  | cons a l ih =>
    exact eraseDups_append_of_nodup (l := [a]) rfl (ih (List.nodup_cons.1 h).2) h

lemma map_eraseDups [BEq β] [LawfulBEq β] {f : α → β} (hf : Function.Injective f) (l : List α) :
    (l.map f).eraseDups = l.eraseDups.map f := by
  match l with
  | [] => rfl
  | a :: as =>
    have hfilter : (as.map f).filter (fun b => !b == f a) =
        (as.filter fun b => !b == a).map f := by
      rw [List.filter_map]
      congr 1
      refine List.filter_congr fun b _ => ?_
      simp [hf.eq_iff]
    rw [List.map_cons, List.eraseDups_cons, List.eraseDups_cons, List.map_cons, hfilter,
      map_eraseDups hf]
termination_by l.length
decreasing_by exact Nat.lt_succ_of_le (List.length_filter_le _ _)

end Lineage
