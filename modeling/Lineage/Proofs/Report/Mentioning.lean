import Lineage.Proofs.Distinct
import Lineage.Report.Dot
import Mathlib.Data.List.Induction

/-!
What a drawing knows of the keys in its records.

Every key that is mentioned gets an entry, the one it is first mentioned with, and records hold only
keys that have been mentioned. So the number of every key that is drawn can be looked up, in
whatever order the events come.
-/

namespace Lineage

namespace Report

/-- The entry that a drawing gets to know by an event. -/
def Event.mentioned? : Event → Option Entry
  | .openEntry e | .dependency e => some e
  | _ => none

namespace Dot

variable {d : Dot} {e : Entry} {ev : Event} {key key' : Nat}

/-! ### Numbers of keys -/

/-- The keys that can be drawn, in the order of their numbers. -/
def keys (d : Dot) : List Nat := d.entries.map (·.key)

lemma number_eq_idxOf (d : Dot) (key : Nat) : d.number key = d.keys.idxOf key := by
  rw [keys, List.idxOf, List.findIdx_map]
  rfl

lemma number_lt (h : key ∈ d.keys) : d.number key < d.entries.length := by
  have hlt := List.idxOf_lt_length_iff.2 h
  rwa [keys, List.length_map, ← keys, ← number_eq_idxOf] at hlt

lemma getElem?_number (h : key ∈ d.keys) : d.keys[d.number key]? = some key := by
  rw [number_eq_idxOf]
  exact List.getElem?_idxOf h

lemma number_inj (h : key ∈ d.keys) : d.number key = d.number key' ↔ key = key' := by
  rw [number_eq_idxOf, number_eq_idxOf, List.idxOf_inj h]

/-! ### Mentions -/

lemma mention_of_mem (h : e.key ∈ d.keys) : d.mention e = d := by
  obtain ⟨e', he', hkey⟩ := List.mem_map.1 h
  rw [mention, if_pos (List.any_eq_true.2 ⟨e', he', decide_eq_true hkey⟩)]

lemma mention_of_not_mem (h : e.key ∉ d.keys) :
    d.mention e = { d with entries := d.entries ++ [e] } := by
  rw [mention, if_neg]
  intro hany
  obtain ⟨e', he', hkey⟩ := List.any_eq_true.1 hany
  exact h (List.mem_map.2 ⟨e', he', of_decide_eq_true hkey⟩)

lemma mem_keys_mention : key ∈ (d.mention e).keys ↔ key ∈ d.keys ∨ key = e.key := by
  by_cases h : e.key ∈ d.keys
  · rw [mention_of_mem h, or_iff_left_of_imp]
    rintro rfl
    exact h
  · rw [mention_of_not_mem h, keys, List.map_append, List.mem_append, List.map_cons, List.map_nil,
      List.mem_singleton, keys]

@[simp] lemma records_mention (d : Dot) (e : Entry) : (d.mention e).records = d.records := by
  unfold mention
  split <;> rfl

@[simp] lemma entries_updateCurrent (d : Dot) (f : List KeyedRecord → List KeyedRecord) :
    (d.updateCurrent f).entries = d.entries := by
  unfold updateCurrent
  split <;> rfl

lemma entries_add (d : Dot) (ev : Event) :
    (d.add ev).entries = ((ev.mentioned?.map d.mention).getD d).entries := by
  cases ev with
  | root e => rfl
  | openEntry e => rfl
  | closeEntry => rfl
  | openRecord label => exact entries_updateCurrent _ _
  | closeRecord => rfl
  | dependency e => exact entries_updateCurrent _ _

lemma ofEvents_concat (events : List Event) (ev : Event) :
    ofEvents (events ++ [ev]) = (ofEvents events).add ev := by
  rw [ofEvents, List.foldl_append]
  rfl

/-- The keys are numbered in the order in which they are first mentioned. -/
lemma keys_ofEvents (events : List Event) :
    (ofEvents events).keys = ((events.filterMap Event.mentioned?).map (·.key)).eraseDups := by
  induction events using List.reverseRecOn with
  | nil => rfl
  | append_singleton events ev ih =>
    rw [ofEvents_concat, keys, entries_add, List.filterMap_append]
    cases hev : ev.mentioned? with
    | none =>
      rw [List.filterMap_cons_none hev, List.filterMap_nil, List.append_nil, ← ih]
      rfl
    | some e =>
      have hmem : e.key ∈ (ofEvents events).keys ↔
          e.key ∈ (events.filterMap Event.mentioned?).map (·.key) := by
        rw [ih, List.mem_eraseDups]
      rw [List.filterMap_cons_some hev, List.filterMap_nil, List.map_append, List.map_cons,
        List.map_nil, Option.map_some, Option.getD_some]
      by_cases hknown : e.key ∈ (ofEvents events).keys
      · rw [mention_of_mem hknown, eraseDups_concat_of_mem (hmem.1 hknown), ← ih]
        rfl
      · rw [mention_of_not_mem hknown, eraseDups_concat (mt hmem.2 hknown), ← ih, keys,
          List.map_append]
        rfl

lemma find?_of_mem_entries {events : List Event} (h : e ∈ (ofEvents events).entries) :
    (events.filterMap Event.mentioned?).find? (·.key = e.key) = some e := by
  induction events using List.reverseRecOn with
  | nil => exact absurd h List.not_mem_nil
  | append_singleton events ev ih =>
    rw [ofEvents_concat, entries_add] at h
    rw [List.filterMap_append, List.find?_append]
    cases hev : ev.mentioned? with
    | none =>
      rw [hev] at h
      rw [ih h, Option.some_or]
    | some x =>
      rw [hev, Option.map_some, Option.getD_some] at h
      by_cases hknown : x.key ∈ (ofEvents events).keys
      · rw [mention_of_mem hknown] at h
        rw [ih h, Option.some_or]
      · rw [mention_of_not_mem hknown] at h
        rcases List.mem_append.1 h with h | h
        · rw [ih h, Option.some_or]
        · -- the first mention of its key
          obtain rfl := List.mem_singleton.1 h
          have hnone : (events.filterMap Event.mentioned?).find? (·.key = e.key) = none := by
            rw [List.find?_eq_none]
            intro e' he' hkey
            refine hknown ?_
            rw [keys_ofEvents, List.mem_eraseDups]
            exact List.mem_map.2 ⟨e', he', of_decide_eq_true hkey⟩
          rw [hnone, Option.none_or, List.filterMap_cons_some hev, List.filterMap_nil,
            List.find?_cons_of_pos (by simp)]

/-! ### Records -/

/-- All dependencies can be drawn. -/
def Covers (d : Dot) (rs : List KeyedRecord) : Prop :=
  ∀ r ∈ rs, ∀ key ∈ r.dependencies, key ∈ d.keys

/-- Every key has one entry and one list of records, and no record is about a key without an
entry. -/
structure Closed (d : Dot) : Prop where
  entries : d.keys.Nodup
  records : (d.records.map Prod.fst).Nodup
  known : ∀ p ∈ d.records, p.1 ∈ d.keys ∧ d.Covers p.2

lemma Covers.addToLast {rs : List KeyedRecord} (h : d.Covers rs) (hkey : key ∈ d.keys) :
    d.Covers (addToLast key rs) := by
  induction rs with
  | nil => exact h
  | cons r rs ih =>
    cases rs with
    | nil =>
      intro r' hr' k hk
      obtain rfl := List.mem_singleton.1 hr'
      rcases List.mem_append.1 hk with hk | hk
      · exact h r List.mem_cons_self k hk
      · rwa [List.mem_singleton.1 hk]
    | cons r' rs =>
      intro x hx
      rcases List.mem_cons.1 hx with rfl | hx
      · exact h x List.mem_cons_self
      · exact ih (fun y hy => h y (List.mem_cons_of_mem _ hy)) x hx

lemma map_fst_putRecords (key : Nat) (rs : List KeyedRecord)
    (records : List (Nat × List KeyedRecord)) :
    (putRecords key rs records).map Prod.fst =
      if key ∈ records.map Prod.fst then records.map Prod.fst
      else records.map Prod.fst ++ [key] := by
  induction records with
  | nil => rfl
  | cons p records ih =>
    rw [putRecords]
    by_cases hp : p.1 = key
    · rw [if_pos hp, if_pos (by simp [hp]), List.map_cons, List.map_cons, hp]
    · rw [if_neg hp, List.map_cons, List.map_cons, ih]
      by_cases hmem : key ∈ records.map Prod.fst
      · rw [if_pos hmem, if_pos (List.mem_cons_of_mem _ hmem)]
      · rw [if_neg hmem, if_neg (by simpa [Ne.symm hp] using hmem)]
        rfl

lemma mem_putRecords {key : Nat} {rs : List KeyedRecord} {records : List (Nat × List KeyedRecord)}
    {p : Nat × List KeyedRecord} (h : p ∈ putRecords key rs records) :
    p = (key, rs) ∨ p ∈ records := by
  induction records with
  | nil => exact .inl (List.mem_singleton.1 h)
  | cons q records ih =>
    rw [putRecords] at h
    split at h
    · exact (List.mem_cons.1 h).imp_right (List.mem_cons_of_mem _)
    · rcases List.mem_cons.1 h with rfl | h
      · exact .inr List.mem_cons_self
      · exact (ih h).imp_right (List.mem_cons_of_mem _)

namespace Closed

lemma getElem?_keys (h : d.Closed) {i : Nat} :
    d.keys[i]? = some key ↔ key ∈ d.keys ∧ d.number key = i := by
  constructor
  · intro hi
    obtain ⟨hlt, rfl⟩ := List.getElem?_eq_some_iff.1 hi
    refine ⟨List.getElem_mem hlt, ?_⟩
    rw [number_eq_idxOf, h.entries.idxOf_getElem]
  · rintro ⟨hkey, rfl⟩
    exact getElem?_number hkey

lemma mention (h : d.Closed) (e : Entry) : (d.mention e).Closed := by
  have hmem : ∀ key ∈ d.keys, key ∈ (d.mention e).keys := fun _ hk => mem_keys_mention.2 (.inl hk)
  refine ⟨?_, by rw [records_mention]; exact h.records, fun p hp => ?_⟩
  · by_cases hknown : e.key ∈ d.keys
    · rw [mention_of_mem hknown]
      exact h.entries
    · rw [mention_of_not_mem hknown, keys, List.map_append]
      have hnodup := h.entries.concat hknown
      rwa [List.concat_eq_append] at hnodup
  · rw [records_mention] at hp
    exact ⟨hmem _ (h.known p hp).1, fun r hr key hkey => hmem _ ((h.known p hp).2 r hr key hkey)⟩

lemma updateCurrent (h : d.Closed) {f : List KeyedRecord → List KeyedRecord}
    (hf : ∀ rs, d.Covers rs → d.Covers (f rs)) : (d.updateCurrent f).Closed := by
  unfold Dot.updateCurrent
  split
  · exact h
  · rename_i key _
    refine ⟨h.entries, ?_, fun p hp => ?_⟩
    · have hfst : ∀ p : Nat × List KeyedRecord,
          (if p.1 = key then (p.1, f p.2) else p).1 = p.1 := by
        intro p
        split <;> rfl
      simpa only [List.map_map, Function.comp_def, hfst] using h.records
    · obtain ⟨q, hq, rfl⟩ := List.mem_map.1 hp
      obtain ⟨hkey, hcovers⟩ := h.known q hq
      split
      · exact ⟨hkey, hf _ hcovers⟩
      · exact ⟨hkey, hcovers⟩

lemma add (h : d.Closed) (ev : Event) : (d.add ev).Closed := by
  cases ev with
  | root e => exact ⟨h.entries, h.records, h.known⟩
  | openEntry e =>
    have hm := h.mention e
    refine ⟨hm.entries, ?_, fun p hp => ?_⟩
    · have hnodup := hm.records
      show ((putRecords e.key [] (d.mention e).records).map Prod.fst).Nodup
      rw [map_fst_putRecords]
      split
      · exact hnodup
      · rename_i hmem
        rw [← List.concat_eq_append]
        exact hnodup.concat hmem
    · rcases mem_putRecords hp with rfl | hp
      · exact ⟨mem_keys_mention.2 (.inr rfl), nofun⟩
      · exact hm.known p hp
  | closeEntry => exact ⟨h.entries, h.records, h.known⟩
  | openRecord label =>
    have hopen : ∀ rs, d.Covers rs → d.Covers (rs ++ [({ label } : KeyedRecord)]) := by
      intro rs hrs r hr
      rcases List.mem_append.1 hr with hr | hr
      · exact hrs r hr
      · rw [List.mem_singleton.1 hr]
        exact nofun
    exact h.updateCurrent hopen
  | closeRecord => exact h
  | dependency e =>
    exact (h.mention e).updateCurrent fun rs hrs => hrs.addToLast (mem_keys_mention.2 (.inr rfl))

end Closed

lemma closed_ofEvents (events : List Event) : (ofEvents events).Closed := by
  induction events using List.reverseRecOn with
  | nil => exact ⟨List.nodup_nil, List.nodup_nil, nofun⟩
  | append_singleton events ev ih =>
    rw [ofEvents_concat]
    exact ih.add ev

end Dot

end Report

end Lineage
