import Lineage.Proofs.Listing

/-!
Texts one after the other.

The listing of a text that goes on with another one is the listing of the first with that of the
second behind it: lines count on from the first text, and labels from its statements. The first text
can only spoil the second by a label that both define, and the second cannot mend the first.
-/

namespace Lineage

open Text

lemma length_splitOn {α : Type} [BEq α] (a : α) (l : List α) :
    (l.splitOn a).length = l.count a + 1 := by
  induction l with
  | nil => simp
  | cons x l ih =>
    rw [List.splitOn_cons_eq_if_modifyHead, List.count_cons]
    split <;> simp [ih]

/-- A statement could as well have been read from another line. -/
lemma Statement.parse_line {line : Nat} {text : List Char} {st : Statement}
    (h : parse line text = .ok st) (line' : Nat) :
    parse line' text = .ok { st with line := line' } :=
  parse_ok_iff.2 ⟨rfl, (parse_ok_iff.1 h).2⟩

namespace Listing

variable {l l' l₁ l₂ : Listing} {line k : Nat} {raw : List Char} {lines : List (List Char)}
  {label : Option String} {name : String}

/-- The listing `l'` behind the listing `l` of a text of `k` lines. -/
def append (l : Listing) (k : Nat) (l' : Listing) : Listing where
  statements := l.statements ++ l'.statements.map fun st => { st with line := k + st.line }
  labels := l.labels ++ l'.labels.map fun e => (e.1, l.statements.length + e.2)

def Defines (l : Listing) (name : String) : Prop := (l.label? name).isSome = true

instance (l : Listing) (name : String) : Decidable (l.Defines name) :=
  inferInstanceAs (Decidable (_ = true))

/-- The first label that another listing has as well. -/
def clash? (l' l : Listing) : Option (String × Nat) := l'.labels.find? fun e => l.Defines e.1

lemma defines_iff : l.Defines name ↔ ∃ n, (name, n) ∈ l.labels := by
  unfold Defines label?
  induction l.labels with
  | nil => simp
  | cons e labels ih =>
    rw [List.lookup_cons]
    by_cases h : name = e.1
    · subst h
      simpa using ⟨e.2, .inl rfl⟩
    · simp only [beq_eq_false_iff_ne.2 h, ih, List.mem_cons]
      refine exists_congr fun n => ⟨.inr, fun hn => hn.resolve_left ?_⟩
      rintro rfl
      exact h rfl

lemma defines_append : (l.append k l').Defines name ↔ l.Defines name ∨ l'.Defines name := by
  simp only [defines_iff, append, List.mem_append, List.mem_map]
  constructor
  · rintro ⟨n, he | ⟨e, he, heq⟩⟩
    · exact .inl ⟨n, he⟩
    · cases heq
      exact .inr ⟨e.2, he⟩
  · rintro (⟨n, he⟩ | ⟨n, he⟩)
    · exact ⟨n, .inl he⟩
    · exact ⟨_, .inr ⟨_, he, rfl⟩⟩

lemma append_nil (l : Listing) (k : Nat) : l.append k {} = l := by
  simp [append]

/-! ### Lines -/

lemma addLines_append (l : Listing) (line : Nat) (lines lines' : List (List Char)) :
    l.addLines line (lines ++ lines') =
      (l.addLines line lines >>= fun l' => l'.addLines (line + lines.length) lines') := by
  induction lines generalizing l line with
  | nil => rfl
  | cons raw lines ih =>
    rw [List.cons_append, addLines, addLines]
    cases l.addLine line raw with
    | error e => rfl
    | ok l₁ =>
      show l₁.addLines (line + 1) (lines ++ lines') = l₁.addLines (line + 1) lines >>= _
      rw [ih, List.length_cons, Nat.add_right_comm, Nat.add_assoc]

def mark (l : Listing) (label : Option String) : Listing :=
  { l with labels := l.labels ++ label.toList.map (·, l.statements.length) }

lemma addLabel_of_defines (h : l.Defines name) :
    l.addLabel line (some name) = .error (.duplicateLabel line name) := by
  obtain ⟨n, hn⟩ := Option.isSome_iff_exists.1 h
  simp [addLabel, hn]

lemma addLabel_eq_ok (h : ∀ name ∈ label, ¬ l.Defines name) :
    l.addLabel line label = .ok (l.mark label) := by
  cases label with
  | none => simp [addLabel, mark]
  | some name =>
    have hnone : l.label? name = none := by simpa [Defines] using h name rfl
    simp [addLabel, mark, hnone]

lemma ok_of_addLabel (h : l.addLabel line label = .ok l') :
    (∀ name ∈ label, ¬ l.Defines name) ∧ l' = l.mark label := by
  have hnot : ∀ name ∈ label, ¬ l.Defines name := by
    rintro name rfl hname
    rw [addLabel_of_defines hname] at h
    cases h
  rw [addLabel_eq_ok hnot] at h
  cases h
  exact ⟨hnot, rfl⟩

def labelOf (raw : List Char) : Option String := (splitLabel (code raw)).1

lemma addLine_ok_iff : l.addLine line raw = .ok l' ↔
    (∀ name ∈ labelOf raw, ¬ l.Defines name) ∧
      (l.mark (labelOf raw)).addStatement line (splitLabel (code raw)).2 = .ok l' := by
  constructor
  · intro h
    obtain ⟨l₁, hlabel, h⟩ := ok_of_bind h
    obtain ⟨hnot, rfl⟩ := ok_of_addLabel hlabel
    exact ⟨hnot, h⟩
  · rintro ⟨hnot, h⟩
    show (l.addLabel line (labelOf raw) >>= _) = _
    rw [addLabel_eq_ok hnot]
    exact h

lemma addLine_of_defines (hlabel : labelOf raw = some name) (h : l.Defines name) :
    l.addLine line raw = .error (.duplicateLabel line name) := by
  show (l.addLabel line (labelOf raw) >>= _) = _
  rw [hlabel, addLabel_of_defines h]
  rfl

lemma mark_append (l l' : Listing) (k : Nat) (label : Option String) :
    (l.append k l').mark label = l.append k (l'.mark label) := by
  simp [mark, append, Function.comp_def]

lemma addStatement_append {text : List Char} (h : l'.addStatement line text = .ok l₁)
    (l : Listing) (k : Nat) :
    (l.append k l').addStatement (k + line) text = .ok (l.append k l₁) := by
  unfold addStatement at h ⊢
  split at h
  · next hnil =>
    cases h
    rw [if_pos hnil]
  · next hne =>
    obtain ⟨st, hst, rfl⟩ := ok_of_map h
    rw [if_neg hne, Statement.parse_line hst, ← (Statement.parse_ok_iff.1 hst).1]
    simp [append, Except.map]

lemma labels_addStatement {text : List Char} (h : l.addStatement line text = .ok l') :
    l'.labels = l.labels := by
  unfold addStatement at h
  split at h
  · cases h
    rfl
  · obtain ⟨st, -, rfl⟩ := ok_of_map h
    rfl

lemma labels_addLine (h : l.addLine line raw = .ok l') :
    l'.labels = (l.mark (labelOf raw)).labels := labels_addStatement (addLine_ok_iff.1 h).2

/-- A line is added behind another listing, if that has not its label already. -/
lemma addLine_append (h : l'.addLine line raw = .ok l₁)
    (hl : ∀ name ∈ labelOf raw, ¬ l.Defines name) (k : Nat) :
    (l.append k l').addLine (k + line) raw = .ok (l.append k l₁) := by
  obtain ⟨hnot, hstatement⟩ := addLine_ok_iff.1 h
  refine addLine_ok_iff.2 ⟨fun name hname hdefines => ?_, ?_⟩
  · rcases defines_append.1 hdefines with hd | hd
    · exact hl name hname hd
    · exact hnot name hname hd
  · rw [mark_append]
    exact addStatement_append hstatement l k

lemma labels_addLines (h : l.addLines line lines = .ok l') : l.labels <+: l'.labels := by
  induction lines generalizing l line with
  | nil =>
    cases h
    exact List.prefix_refl _
  | cons raw lines ih =>
    obtain ⟨l₁, hraw, h⟩ := ok_of_bind h
    have hmark : l.labels <+: l₁.labels := by
      rw [labels_addLine hraw]
      exact List.prefix_append _ _
    exact hmark.trans (ih h)

lemma not_defines_of_clash (h : l'.addLine line raw = .ok l₁) (hclash : l₁.clash? l = none) :
    ∀ name ∈ labelOf raw, ¬ l.Defines name := by
  intro name hname
  have hmem : (name, l'.statements.length) ∈ l₁.labels := by
    rw [labels_addLine h, hname]
    simp [mark]
  simpa using List.find?_eq_none.1 hclash _ hmem

lemma addLines_append_ok (h : l'.addLines line lines = .ok l₁) (hclash : l₁.clash? l = none)
    (k : Nat) : (l.append k l').addLines (k + line) lines = .ok (l.append k l₁) := by
  induction lines generalizing l' line with
  | nil =>
    cases h
    rfl
  | cons raw lines ih =>
    obtain ⟨l₂, hraw, h⟩ := ok_of_bind h
    have hnone : l₂.clash? l = none := (labels_addLines h).find?_eq_none hclash
    show ((l.append k l').addLine (k + line) raw >>= _) = _
    rw [addLine_append hraw (not_defines_of_clash hraw hnone) k]
    exact ih h

/-- The first label that the listing has already is refused. -/
lemma addLines_append_error {e : String × Nat} (h : l'.addLines line lines = .ok l₁)
    (hclash : l₁.clash? l = some e) (hl : l'.clash? l = none) (k : Nat) :
    ∃ n, line ≤ n ∧ n < line + lines.length ∧
      (l.append k l').addLines (k + line) lines = .error (.duplicateLabel (k + n) e.1) := by
  induction lines generalizing l' line with
  | nil =>
    cases h
    rw [hl] at hclash
    cases hclash
  | cons raw lines ih =>
    obtain ⟨l₂, hraw, h⟩ := ok_of_bind h
    have hlabels := labels_addLine hraw
    rcases hfind : l₂.clash? l with _ | e'
    · obtain ⟨n, hle, hlt, herror⟩ := ih h hfind
      refine ⟨n, by omega, by rw [List.length_cons]; omega, ?_⟩
      show ((l.append k l').addLine (k + line) raw >>= _) = _
      rw [addLine_append hraw (not_defines_of_clash hraw hfind) k]
      exact herror
    · -- the label of this line is the one
      have heq : e' = e := by
        have hsome := (labels_addLines h).find?_eq_some hfind
        rw [← clash?, hclash] at hsome
        exact (Option.some.inj hsome).symm
      subst heq
      refine ⟨line, Nat.le_refl _, by simp, ?_⟩
      rw [clash?, hlabels, mark, List.find?_append, ← clash?, hl, Option.none_or] at hfind
      have hdefines : l.Defines e'.1 := by simpa using List.find?_some hfind
      obtain ⟨name, hname, rfl⟩ := List.mem_map.1 (List.mem_of_find?_eq_some hfind)
      show ((l.append k l').addLine (k + line) raw >>= _) = _
      rw [addLine_of_defines (Option.mem_toList.1 hname) (defines_append.2 (.inl hdefines))]
      rfl

/-! ### Listings that have been read -/

/-- What the listing of the lines before a line is like: statements in the order of their lines, and
labels, each with a name of its own, that mark statements or the end. -/
structure Ordered (l : Listing) (line : Nat) : Prop where
  increasing : l.statements.Pairwise fun st st' => st.line < st'.line
  lines : ∀ st ∈ l.statements, 1 ≤ st.line ∧ st.line < line
  labels : ∀ e ∈ l.labels, e.2 ≤ l.statements.length
  names : (l.labels.map Prod.fst).Nodup

namespace Ordered

lemma mark (h : l.Ordered line) (hnot : ∀ name ∈ label, ¬ l.Defines name) :
    (l.mark label).Ordered line where
  increasing := h.increasing
  lines := h.lines
  labels e he := by
    rcases List.mem_append.1 he with he | he
    · exact h.labels e he
    · obtain ⟨name, -, rfl⟩ := List.mem_map.1 he
      exact Nat.le_refl _
  names := by
    cases label with
    | none => simpa [Listing.mark] using h.names
    | some name =>
      have hname : name ∉ l.labels.map Prod.fst := fun hmem => by
        obtain ⟨e, he, rfl⟩ := List.mem_map.1 hmem
        exact hnot _ rfl (defines_iff.2 ⟨e.2, he⟩)
      simp only [Listing.mark, Option.toList_some, List.map_append, List.map_cons, List.map_nil]
      exact List.nodup_append.2 ⟨h.names, by simp, fun a ha b hb => by
        rw [List.mem_singleton.1 hb]
        exact fun heq => hname (heq ▸ ha)⟩

lemma addLine (h : l.Ordered line) (hline : 1 ≤ line) (hraw : l.addLine line raw = .ok l') :
    l'.Ordered (line + 1) := by
  obtain ⟨hnot, hstatement⟩ := addLine_ok_iff.1 hraw
  obtain ⟨hincreasing, hlines, hlabels, hnames⟩ := h.mark hnot
  unfold addStatement at hstatement
  split at hstatement
  · cases hstatement
    exact ⟨hincreasing, fun st hst => ⟨(hlines st hst).1, Nat.lt_succ_of_lt (hlines st hst).2⟩,
      hlabels, hnames⟩
  · obtain ⟨st, hst, rfl⟩ := ok_of_map hstatement
    have hnew : st.line = line := (Statement.parse_ok_iff.1 hst).1
    refine ⟨?_, fun st' hst' => ?_, fun e he => ?_, hnames⟩
    · refine List.pairwise_append.2 ⟨hincreasing, List.pairwise_singleton _ _, ?_⟩
      intro st' hst' st'' hst''
      rw [List.mem_singleton.1 hst'', hnew]
      exact (hlines st' hst').2
    · rcases List.mem_append.1 hst' with hst' | hst'
      · exact ⟨(hlines st' hst').1, Nat.lt_succ_of_lt (hlines st' hst').2⟩
      · rw [List.mem_singleton.1 hst', hnew]
        exact ⟨hline, Nat.lt_succ_self line⟩
    · exact Nat.le_trans (hlabels e he) (by simp)

lemma addLines (h : l.Ordered line) (hline : 1 ≤ line) (hlines : l.addLines line lines = .ok l') :
    l'.Ordered (line + lines.length) := by
  induction lines generalizing l line with
  | nil =>
    cases hlines
    exact h
  | cons raw lines ih =>
    obtain ⟨l₁, hraw, hlines⟩ := ok_of_bind hlines
    have hrest := ih (h.addLine hline hraw) (Nat.le_add_left 1 line) hlines
    rwa [List.length_cons, Nat.add_comm lines.length, ← Nat.add_assoc]

end Ordered

lemma parse_eq_bind (p q : String) : parse (p ++ "\n" ++ q) = parse p >>= fun l =>
    l.addLines (p.toList.count '\n' + 1 + 1) (q.toList.splitOn '\n') := by
  have hsplit : (p ++ "\n" ++ q).toList.splitOn '\n' =
      p.toList.splitOn '\n' ++ q.toList.splitOn '\n' := by
    rw [String.toList_append, String.toList_append, List.append_assoc]
    exact List.splitOn_append_cons_self _ _
  rw [parse, hsplit, addLines_append, length_splitOn, Nat.add_comm 1]
  rfl

lemma ordered_of_parse {text : String} (h : parse text = .ok l) :
    l.Ordered (text.toList.count '\n' + 2) := by
  unfold parse at h
  have hstart : ({} : Listing).Ordered 1 :=
    ⟨List.Pairwise.nil, fun _ h => (List.not_mem_nil h).elim, fun _ h => (List.not_mem_nil h).elim,
      List.nodup_nil⟩
  have hordered := hstart.addLines (Nat.le_refl 1) h
  rwa [length_splitOn, Nat.add_comm] at hordered

/-- **Reading is compositional**: a text that cannot be read cannot be read either when it goes on,
for the same reason. Two texts that can be read are read, one behind the other, as the one listing
behind the other, with lines and labels counting on, unless they share a label: then the first label
of the second text that the first one has too is refused, in a line of the second text. And in a
listing that has been read the lines increase, the slots are filled that the operations use, and
labels mark statements or the end. -/
theorem parse_append (p q : String) :
    (∀ e, parse p = .error e → parse (p ++ "\n" ++ q) = .error e) ∧
    (∀ l l', parse p = .ok l → parse q = .ok l' →
      let k := p.toList.count '\n' + 1
      ((∀ name, ¬ (l.Defines name ∧ l'.Defines name)) →
        parse (p ++ "\n" ++ q) = .ok (l.append k l')) ∧
      ((∃ name, l.Defines name ∧ l'.Defines name) →
        ∃ e n, l'.clash? l = some e ∧ (k < n ∧ n ≤ k + q.toList.count '\n' + 1) ∧
          parse (p ++ "\n" ++ q) = .error (.duplicateLabel n e.1))) ∧
    ∀ l, parse p = .ok l → l.Ordered (p.toList.count '\n' + 2) ∧
      ∀ st ∈ l.statements, ∀ slot, (st.operands.get slot).isSome = st.opcode.uses slot := by
  refine ⟨fun e h => by rw [parse_eq_bind, h]; rfl, ?_, fun l h =>
    ⟨ordered_of_parse h, fun st hst => (wellFormed_of_parse h st hst).filled⟩⟩
  intro l l' h h' k
  -- the first text is read into a listing that has nothing before it
  have hrest : parse (p ++ "\n" ++ q) =
      (l.append k {}).addLines (k + 1) (q.toList.splitOn '\n') := by
    rw [parse_eq_bind, h, append_nil]
    rfl
  constructor
  · intro hnot
    have hclash : l'.clash? l = none := by
      refine List.find?_eq_none.2 fun e he => ?_
      simpa using fun hl => hnot e.1 ⟨hl, defines_iff.2 ⟨e.2, he⟩⟩
    rw [hrest]
    exact addLines_append_ok h' hclash k
  · rintro ⟨name, hl, hl'⟩
    obtain ⟨i, hi⟩ := defines_iff.1 hl'
    have hsome : (l'.clash? l).isSome = true :=
      List.find?_isSome.2 ⟨_, hi, decide_eq_true hl⟩
    obtain ⟨e, he⟩ := Option.isSome_iff_exists.1 hsome
    obtain ⟨n, hn, hlt, herror⟩ := addLines_append_error h' he rfl k
    rw [length_splitOn] at hlt
    exact ⟨e, k + n, he, by omega, hrest.trans herror⟩

/-- Two texts with labels of their own, and a label that is set twice. -/
theorem parse_append_labels :
    parse ("loop: ADD a, b, c" ++ "\n" ++ "STR c, , a\nend:") = .ok
      { statements := [⟨1, .binary .add, ⟨some (.register "a"), some (.register "b"),
          some (.register "c")⟩⟩, ⟨2, .str, ⟨some (.register "c"), none, some (.register "a")⟩⟩]
        labels := [("loop", 0), ("end", 2)] } ∧
    ∃ n, (1 < n ∧ n ≤ 3) ∧ parse ("end:" ++ "\n" ++ "STR c, , a\nend:") =
      .error (.duplicateLabel n "end") := by
  have hadd : parse "loop: ADD a, b, c" = .ok
      { statements := [⟨1, .binary .add, ⟨some (.register "a"), some (.register "b"),
          some (.register "c")⟩⟩]
        labels := [("loop", 0)] } := by decide +kernel
  have hend : parse "end:" = .ok { labels := [("end", 0)] } := by decide +kernel
  have hstr : parse "STR c, , a\nend:" = .ok
      { statements := [⟨1, .str, ⟨some (.register "c"), none, some (.register "a")⟩⟩]
        labels := [("end", 1)] } := by decide +kernel
  constructor
  · refine (((parse_append _ _).2.1 _ _ hadd hstr).1 ?_).trans (by decide +kernel)
    simp [defines_iff]
  · obtain ⟨e, n, he, hn, herror⟩ :=
      ((parse_append _ _).2.1 _ _ hend hstr).2 ⟨"end", by decide, by decide⟩
    have heq : e = ("end", 1) := by
      have hfind : some e = some ("end", 1) := he.symm.trans (by decide)
      exact Option.some.inj hfind
    subst heq
    exact ⟨n, hn, herror⟩

end Listing

end Lineage
