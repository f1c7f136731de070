import Lineage.Proofs.Report.Drawing

/-!
Repeated lines of a drawing.

Repetitions are looked for among the edges of one entry only. Looking for them in the whole text
would find the same ones, since statements about different entries and joins look different.
-/

namespace Lineage.Report.Dot

variable {d : Dot} {filter : Filter}

/-! ### Drawings with repetitions -/

def repeatedFan (d : Dot) (filter : Filter) (next : Nat) (p : Nat × List KeyedRecord) :
    List Statement × Nat :=
  if 1 < p.2.length then
    let (rest, next') := d.recordsStatements filter next (next + 1) p.2
    (joinStatement filter next "phi" :: .edge (d.number p.1) next none :: rest, next')
  else d.recordsStatements filter (d.number p.1) next p.2

def repeatedLines (d : Dot) (filter : Filter) : List String :=
  "digraph \x7b" :: (d.entries.map (d.entryStatement filter) ++
    parts (d.repeatedFan filter) d.entries.length d.records).map Statement.text ++ ["\x7d"]

lemma snd_repeatedFan (d : Dot) (filter : Filter) (n : Nat) (p : Nat × List KeyedRecord) :
    (d.repeatedFan filter n p).2 = (d.fan filter n p).2 := by
  unfold repeatedFan fan fanStatements
  split <;> rfl

lemma eraseDups_repeatedFan {n : Nat} {p : Nat × List KeyedRecord}
    (h : (d.fan filter n p).1.Nodup) :
    (d.repeatedFan filter n p).1.eraseDups = (d.fan filter n p).1 := by
  by_cases hmany : 1 < p.2.length
  · rw [fan_of_several hmany] at h ⊢
    rw [repeatedFan, if_pos hmany, recordsStatements_eq]
    exact eraseDups_append_of_nodup (eraseDups_of_nodup _ (List.nodup_append.1 h).1) rfl h
  · rw [fan_of_few hmany, repeatedFan, if_neg hmany, recordsStatements_eq]

lemma eraseDups_parts {n : Nat} {records : List (Nat × List KeyedRecord)}
    (h : (parts (d.fan filter) n records).Nodup) :
    (parts (d.repeatedFan filter) n records).eraseDups = parts (d.fan filter) n records := by
  induction records generalizing n with
  | nil => rfl
  | cons p records ih =>
    have hsplit : ∀ f : Nat → Nat × List KeyedRecord → List Statement × Nat,
        parts f n (p :: records) = (f n p).1 ++ parts f (f n p).2 records := fun _ => rfl
    rw [hsplit] at h
    obtain ⟨hhead, htail, -⟩ := List.nodup_append.1 h
    rw [hsplit, hsplit, snd_repeatedFan]
    exact eraseDups_append_of_nodup (eraseDups_repeatedFan hhead) (ih htail) h

lemma Closed.lines_eq_eraseDups (h : d.Closed) (filter : Filter) :
    d.lines filter = (d.repeatedLines filter).eraseDups := by
  have hnodup : (d.statements filter).Nodup := h.nodup_statements
  have hsts : (d.entries.map (d.entryStatement filter) ++
      parts (d.repeatedFan filter) d.entries.length d.records).eraseDups =
        d.statements filter := by
    rw [statements, allStatements_eq] at hnodup ⊢
    obtain ⟨hentries, hparts, -⟩ := List.nodup_append.1 hnodup
    exact eraseDups_append_of_nodup (eraseDups_of_nodup _ hentries) (eraseDups_parts hparts) hnodup
  have hlines : (d.lines filter).Nodup := h.nodup_lines
  have htexts : ((d.entries.map (d.entryStatement filter) ++
      parts (d.repeatedFan filter) d.entries.length d.records).map Statement.text).eraseDups =
        (d.statements filter).map Statement.text := by
    rw [map_eraseDups Statement.text_injective, hsts]
  have hfirst := eraseDups_append_of_nodup (l := ["digraph \x7b"]) rfl htexts
    (List.nodup_append.1 hlines).1
  have hlast : ["\x7d"].eraseDups = ["\x7d"] := rfl
  exact (eraseDups_append_of_nodup hfirst hlast hlines).symm

end Lineage.Report.Dot
