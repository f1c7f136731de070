import Lineage.Proofs.Listing
import Lineage.Proofs.Report.Lines
import Mathlib.Data.List.Nodup

/-!
Reading a line and writing it undo each other.

A line that can be read is written again exactly as it was, so no two texts are read as one line.
A line with a record is read again from what was written for it, if its names and labels do not look
like anything else in a line.
-/

namespace Lineage.Report

open Text

namespace Record

variable {cs l rest : List Char} {r : Record}

lemma eq_append_of_cutLast? (h : cutLast? cs = some (l, rest)) : cs = l ++ '(' :: rest := by
  unfold cutLast? at h
  split at h
  · cases h
  · next c back hback =>
    cases h
    -- the search goes through the text backwards, and stops at the bracket
    have hc : c = '(' := by
      have hstop := List.head?_dropWhile_not (fun c => decide (c ≠ '(')) cs.reverse
      rw [hback] at hstop
      simpa using hstop
    have hsplit := List.takeWhile_append_dropWhile (p := (· ≠ '(')) (l := cs.reverse)
    rw [hback, hc] at hsplit
    calc cs = cs.reverse.reverse := (List.reverse_reverse cs).symm
      _ = (cs.reverse.takeWhile (· ≠ '(') ++ '(' :: back).reverse := by rw [hsplit]
      _ = _ := by simp

lemma toList_text_of_parse (h : parse cs = .ok r) : r.text.toList = cs := by
  unfold parse at h
  cases hparse : parse? cs with
  | none => rw [hparse] at h; cases h
  | some r' =>
    rw [hparse] at h
    cases h
    unfold parse? at hparse
    split at hparse
    · next label rest hlast hcut =>
      split at hparse
      · cases hparse
      · cases hparse
        have hdeps : [',', ' '].intercalate ((if rest = [] then []
            else (split [',', ' '] rest).map String.ofList).map String.toList) = rest := by
          split
          · next hrest =>
            rw [hrest]
            rfl
          · rw [List.map_map]
            simpa [Function.comp_def] using intercalate_split [',', ' '] rest
        rw [toList_text, front, hdeps, String.toList_ofList, ← eq_append_of_cutLast? hcut]
        obtain ⟨front, rfl⟩ := List.getLast?_eq_some_iff.1 hlast
        rw [List.dropLast_concat]
    · cases hparse

end Record

namespace Line

variable {l : Line} {text : String}

/-- Cutting brackets off with the separators and putting them back changes nothing. -/
lemma intercalate_closeAll (pieces : List (List Char)) :
    [',', ' '].intercalate (closeAll pieces) = [')', ',', ' '].intercalate pieces := by
  induction pieces with
  | nil => rfl
  | cons p pieces ih =>
    cases pieces with
    | nil => rfl
    | cons p' pieces =>
      have hne : closeAll (p' :: pieces) ≠ [] := by
        cases pieces <;> exact List.cons_ne_nil _ _
      rw [closeAll, intercalate_cons hne, ih, intercalate_cons (List.cons_ne_nil _ _)]
      · simp
      · exact List.cons_ne_nil _ _

lemma toList_text_of_mapM {pieces : List (List Char)} {rs : List Record}
    (h : pieces.mapM Record.parse = .ok rs) : rs.map (String.toList ∘ Record.text) = pieces := by
  induction pieces generalizing rs with
  | nil =>
    cases h
    rfl
  | cons p pieces ih =>
    rw [List.mapM_cons] at h
    obtain ⟨r, hr, h⟩ := ok_of_bind h
    obtain ⟨rs', hrs, h⟩ := ok_of_bind h
    cases h
    rw [List.map_cons, ih hrs, Function.comp_apply, Record.toList_text_of_parse hr]

lemma text_of_parse (h : parse text = .ok l) : l.text = text ∧ l.records ≠ [] := by
  unfold parse at h
  split at h
  · cases h
  · next name rest hcut =>
    obtain ⟨rs, hrs, rfl⟩ := ok_of_map h
    have hpieces := toList_text_of_mapM hrs
    refine ⟨?_, ?_⟩
    · rw [← String.toList_inj, append_of_cut? hcut, Line.text, String.toList_append,
        String.toList_append, String.toList_intercalate, List.map_map, hpieces,
        String.toList_ofList]
      exact congrArg (name ++ [' ', '<', '=', ' '] ++ ·)
        ((intercalate_closeAll _).trans (intercalate_split _ rest))
    · rintro rfl
      cases hsplit : split [')', ',', ' '] rest with
      | nil => exact split_ne_nil _ _ hsplit
      | cons p pieces =>
        rw [hsplit] at hpieces
        cases pieces <;> cases hpieces

end Line

/-- **Reading and writing lines undo each other**: what can be read is written again as it was, by
`Line.text` and by a report that tells of an entry with that name and those records, whatever it has
told before. And the line that a report writes for an entry with records, without brackets, commas
and angle brackets in the names and the end of a record in the labels, can be read and is read as
the line of that entry. -/
theorem lines_invert :
    (∀ text l, Line.parse text = .ok l → l.text = text ∧
      ∀ (a : Account) (told : Lines), a.line = l →
        (a.events.foldl Lines.add told).texts = told.texts ++ [text]) ∧
    ∀ (a : Account) (told : Lines), a.line.Clean → ∃ text,
      (a.events.foldl Lines.add told).texts = told.texts ++ [text] ∧
        Line.parse text = .ok a.line := by
  have htexts : ∀ (a : Account) (told : Lines), a.line.records ≠ [] →
      (a.events.foldl Lines.add told).texts = told.texts ++ [a.line.text] := by
    intro a told hne
    have hrecords : a.records ≠ [] := fun hnil => hne (by rw [Account.line, hnil]; rfl)
    rw [Lines.texts, a.lines_events, if_neg hrecords, List.map_append]
    rfl
  refine ⟨fun text l h => ?_, fun a told h => ?_⟩
  · obtain ⟨htext, hne⟩ := Line.text_of_parse h
    refine ⟨htext, ?_⟩
    rintro a told rfl
    rw [htexts a told hne, htext]
  · exact ⟨_, htexts a told h.records_ne_nil, h.parse_text⟩

/-- A line with brackets in its name and an empty dependency is written as it was, and the entry of
a jump, with a second record on nothing, is read back. -/
theorem lines_invert_brackets :
    let text := "x(y) <= a((b, , c)"
    let a : Account :=
      { entry := { key := 0, name := "x(y)" }
        records := [("a(", [{ key := 1, name := "b" }, { key := 2, name := "" },
          { key := 3, name := "c" }])] }
    let jump : Account :=
      { entry := { key := 0, name := "PC=2" }
        records := [("jcc (Y)", [.ofConstant 1 4, { key := 2, name := "A=-4" }]), ("f(,)", [])] }
    (Line.parse text = .ok a.line ∧ jump.line.Clean) ∧
      (Lines.ofEvents a.events).texts = [text] ∧
      ∃ text', (Lines.ofEvents (a.events ++ jump.events)).texts = [text, text'] ∧
        Line.parse text' = .ok jump.line := by
  intro text a jump
  have hparse : Line.parse text = .ok a.line := by decide +kernel
  have hclean : jump.line.Clean := by decide +kernel
  have htexts : (Lines.ofEvents a.events).texts = [text] :=
    (lines_invert.1 text a.line hparse).2 a {} rfl
  obtain ⟨text', htexts', hparse'⟩ := lines_invert.2 jump (Lines.ofEvents a.events) hclean
  refine ⟨⟨hparse, hclean⟩, htexts, text', ?_, hparse'⟩
  rw [Lines.ofEvents, List.foldl_append, ← Lines.ofEvents, htexts', htexts]
  rfl

end Lineage.Report
