import Lineage.Text.Cut
import Mathlib.Tactic.Lemma

/-!
Texts are cut where they were joined.

That is so as long as the separator stands neither in a piece nor across the end of one, which is
the case if a piece does not have the first character of the separator.
-/

namespace Lineage.Text

variable {sep cs l r : List Char} {c : Char}

lemma isPrefixOf?_append (sep r : List Char) : sep.isPrefixOf? (sep ++ r) = some r := by
  induction sep with
  | nil => rfl
  | cons a sep ih =>
    show (if a == a then sep.isPrefixOf? (sep ++ r) else none) = some r
    rw [beq_self_eq_true, if_pos rfl, ih]

/-- The first occurrence of a separator is the one that was put in. -/
lemma cut?_append (h : ¬ sep <:+: l ++ sep.dropLast) (r : List Char) :
    cut? sep (l ++ sep ++ r) = some (l, r) := by
  induction l with
  | nil =>
    rw [List.nil_append, cut?.eq_def, isPrefixOf?_append]
  | cons c l ih =>
    have hrest : ¬ sep <:+: l ++ sep.dropLast := fun hi => h (List.infix_cons hi)
    have hnone : sep.isPrefixOf? (c :: l ++ sep ++ r) = none := by
      cases hp : sep.isPrefixOf? (c :: l ++ sep ++ r) with
      | none => rfl
      | some rest =>
        -- such an occurrence would end in front of the last character of the separator
        have hlong : sep <+: c :: l ++ sep ++ r := ⟨rest, (append_of_isPrefixOf? hp).symm⟩
        have hshort : c :: l ++ sep.dropLast <+: c :: l ++ sep ++ r := by
          rw [List.append_assoc]
          exact (List.prefix_append_right_inj _).2
            ((List.dropLast_prefix sep).trans (List.prefix_append sep r))
        refine absurd (List.prefix_of_prefix_length_le hlong hshort ?_).isInfix h
        simp only [List.length_append, List.length_cons, List.length_dropLast]
        omega
    rw [List.cons_append, List.cons_append] at hnone ⊢
    rw [cut?.eq_def, hnone]
    simp only [ih hrest, Option.map_some]

lemma cut?_of_not_infix (h : ¬ sep <:+: cs) : cut? sep cs = none := by
  cases hc : cut? sep cs with
  | none => rfl
  | some p =>
    obtain ⟨l, r⟩ := p
    exact absurd ⟨l, r, (append_of_cut? hc).symm⟩ h

lemma split_append (hs : sep ≠ []) (h : ¬ sep <:+: l ++ sep.dropLast) (r : List Char) :
    split sep (l ++ sep ++ r) = l :: split sep r := by
  have hc := cut?_append h r
  rw [split, dif_neg hs]
  split
  · next hnone => rw [hc] at hnone; cases hnone
  · next hsome =>
    rw [hc] at hsome
    cases hsome
    rfl

lemma split_of_not_infix (hs : sep ≠ []) (h : ¬ sep <:+: cs) : split sep cs = [cs] := by
  have hc := cut?_of_not_infix h
  rw [split, dif_neg hs]
  split
  · rfl
  · next hsome => rw [hc] at hsome; cases hsome

lemma split_intercalate (hs : sep ≠ []) {ls : List (List Char)} (hne : ls ≠ [])
    (h : ∀ l ∈ ls, ¬ sep <:+: l ++ sep.dropLast) : split sep (sep.intercalate ls) = ls := by
  induction ls with
  | nil => exact absurd rfl hne
  | cons l ls ih =>
    have hl := h l List.mem_cons_self
    cases hls : ls with
    | nil =>
      rw [List.intercalate_singleton]
      exact split_of_not_infix hs fun hi => hl (hi.trans (List.prefix_append _ _).isInfix)
    | cons l' ls' =>
      have hne' : ls ≠ [] := by rw [hls]; exact List.cons_ne_nil _ _
      rw [← hls, intercalate_cons hne', split_append hs hl,
        ih hne' fun l hl => h l (List.mem_cons_of_mem _ hl)]

lemma mem_of_mem_intercalate {ls : List (List Char)} (h : c ∈ sep.intercalate ls) :
    c ∈ sep ∨ ∃ l ∈ ls, c ∈ l := by
  induction ls with
  | nil => rw [List.intercalate_nil] at h; cases h
  | cons l ls ih =>
    by_cases hls : ls = []
    · rw [hls, List.intercalate_singleton] at h
      exact .inr ⟨l, List.mem_cons_self, h⟩
    · rw [intercalate_cons hls, List.mem_append, List.mem_append] at h
      rcases h with (h | h) | h
      · exact .inr ⟨l, List.mem_cons_self, h⟩
      · exact .inl h
      · exact (ih h).imp_right fun ⟨l', hl', hc⟩ => ⟨l', List.mem_cons_of_mem l hl', hc⟩

/-! ### Pieces without a separator -/

/-- A separator does not stand where its first character does not. -/
lemma not_infix_of_head (t : List Char) (h : c ∉ l) :
    ¬ (c :: t) <:+: l ++ (c :: t).dropLast := by
  induction l with
  | nil =>
    intro hi
    have hlen := hi.length_le
    simp only [List.nil_append, List.length_dropLast, List.length_cons] at hlen
    omega
  | cons d l ih =>
    intro hi
    rw [List.cons_append, List.infix_cons_iff] at hi
    rcases hi with hp | hi
    · exact h (by rw [(List.cons_prefix_cons.1 hp).1]; exact List.mem_cons_self)
    · exact ih (fun hc => h (List.mem_cons_of_mem d hc)) hi

/-- A separator does not stand across a character that it does not have. -/
lemma infix_append_cons (hc : c ∉ sep) (h : sep <:+: l ++ c :: r) : sep <:+: l ∨ sep <:+: r := by
  obtain ⟨x, y, hxy⟩ := h
  rw [List.append_assoc, List.append_eq_append_iff] at hxy
  rcases hxy with ⟨as, rfl, has⟩ | ⟨bs, rfl, hbs⟩
  · rw [List.append_eq_append_iff] at has
    rcases has with ⟨bs, rfl, -⟩ | ⟨bs, rfl, hbs⟩
    · exact .inl ⟨x, bs, by rw [List.append_assoc]⟩
    · cases bs with
      | nil => exact .inl ⟨x, [], by simp⟩
      | cons b bs =>
        injection hbs with hb
        exact absurd (hb ▸ by simp) hc
  · cases bs with
    | nil =>
      cases sep with
      | nil => exact .inr (List.nil_infix)
      | cons a sep =>
        injection hbs with hb
        exact absurd (hb ▸ List.mem_cons_self) hc
    | cons b bs =>
      injection hbs with _ hbs
      exact .inr ⟨bs, y, (List.append_assoc bs sep y).trans hbs.symm⟩

lemma append_cons_inj {l' r' : List Char} (hl : c ∉ l) (hl' : c ∉ l') :
    l ++ c :: r = l' ++ c :: r' ↔ l = l' ∧ r = r' := by
  have hcut : ∀ {l r : List Char}, c ∉ l → cut? [c] (l ++ c :: r) = some (l, r) := by
    intro l r hl
    rw [List.append_cons]
    exact cut?_append (not_infix_of_head [] hl) r
  constructor
  · intro h
    have hcuts : cut? [c] (l ++ c :: r) = some (l, r) := hcut hl
    rw [h, hcut hl', Option.some.injEq, Prod.mk.injEq] at hcuts
    exact ⟨hcuts.1.symm, hcuts.2.symm⟩
  · rintro ⟨rfl, rfl⟩
    rfl

end Lineage.Text
