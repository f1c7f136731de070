/-!
Texts cut at separators.

A separator is found from the left, and the search goes on behind it, so occurrences do not
overlap. Joining the pieces of `split` with the separator gives the text back.
-/

namespace Lineage.Text

/-- The text before and behind the first occurrence of a separator. -/
def cut? (sep : List Char) (cs : List Char) : Option (List Char × List Char) :=
  match sep.isPrefixOf? cs with
  | some rest => some ([], rest)
  | none =>
    match cs with
    | [] => none
    | c :: cs => (cut? sep cs).map fun (l, r) => (c :: l, r)

theorem append_of_isPrefixOf? {sep cs rest : List Char} (h : sep.isPrefixOf? cs = some rest) :
    cs = sep ++ rest := by
  induction sep generalizing cs with
  | nil => exact Option.some.inj h
  | cons a sep ih =>
    cases cs with
    | nil => cases h
    | cons c cs =>
      change (if a == c then sep.isPrefixOf? cs else none) = some rest at h
      split at h
      · rename_i hac
        rw [ih h, eq_of_beq hac, List.cons_append]
      · simp at h

theorem append_of_cut? {sep cs l r : List Char} (h : cut? sep cs = some (l, r)) :
    cs = l ++ sep ++ r := by
  fun_induction cut? sep cs generalizing l with
  | case1 cs rest hp =>
    obtain ⟨rfl, rfl⟩ := by simpa using h
    simpa using append_of_isPrefixOf? hp
  | case2 => simp at h
  | case3 c cs hp ih =>
    obtain ⟨⟨l', r'⟩, hc, heq⟩ := Option.map_eq_some_iff.1 h
    obtain ⟨rfl, rfl⟩ := by simpa using heq
    simpa using ih hc

theorem length_lt_of_cut? {sep cs l r : List Char} (hs : sep ≠ [])
    (h : cut? sep cs = some (l, r)) : r.length < cs.length := by
  have hpos := List.length_pos_iff.2 hs
  simp only [append_of_cut? h, List.length_append]
  omega

/-- The pieces between the occurrences of a separator; a text without one is a single piece. -/
def split (sep cs : List Char) : List (List Char) :=
  if hs : sep = [] then [cs]
  else
    match h : cut? sep cs with
    | none => [cs]
    | some (l, r) =>
      have : r.length < cs.length := length_lt_of_cut? hs h
      l :: split sep r
termination_by cs.length

theorem split_ne_nil (sep cs : List Char) : split sep cs ≠ [] := by
  unfold split
  split
  · simp
  · split <;> simp

theorem intercalate_cons {sep l : List Char} {ls : List (List Char)} (h : ls ≠ []) :
    sep.intercalate (l :: ls) = l ++ sep ++ sep.intercalate ls := by
  cases ls with
  | nil => exact absurd rfl h
  | cons => simp [List.intercalate, List.intersperse]

theorem intercalate_split (sep cs : List Char) : sep.intercalate (split sep cs) = cs := by
  fun_induction split sep cs with
  | case1 => simp [List.intercalate]
  | case2 => simp [List.intercalate]
  | case3 cs hs l r h _ ih => rw [intercalate_cons (split_ne_nil sep r), ih, append_of_cut? h]

/-- Every occurrence of a text replaced by another. The empty text occurs before every character
and at the end. -/
def replaceAll (old new cs : List Char) : List Char :=
  if old = [] then new ++ cs.flatMap (· :: new)
  else new.intercalate (split old cs)

end Lineage.Text
