import Lineage.Proofs.Derivation.Consing
import Mathlib.Data.List.Perm.Basic
import Mathlib.Data.Prod.Basic
import Mathlib.Logic.Equiv.Basic

/-!
Graphs that differ in the numbers of their nodes.

A graph embeds into another one if that one has the same nodes under other numbers, and none besides
them but constants and leaves. The same node put into both graphs keeps it so: the renaming is
extended where the node is new. Renamings are permutations of all numbers, of which only those of
nodes matter.
-/

namespace Lineage

abbrev Renaming := Equiv.Perm NodeId

namespace Renaming

variable {ρ ρ' ρ'' : Renaming} {n k : Nat}

/-- The renamings do the same to the nodes that there are. -/
def Agrees (ρ ρ' : Renaming) (n : Nat) : Prop := ∀ k < n, ρ' k = ρ k

lemma Agrees.refl (ρ : Renaming) (n : Nat) : Agrees ρ ρ n := fun _ _ => rfl

lemma Agrees.trans {n' : Nat} (h : Agrees ρ ρ' n) (h' : Agrees ρ' ρ'' n') (hn : n ≤ n') :
    Agrees ρ ρ'' n := fun k hk => (h' k (Nat.lt_of_lt_of_le hk hn)).trans (h k hk)

/-- The renaming that gives the next node the number `j`. -/
def extend (ρ : Renaming) (n j : Nat) : Renaming := ρ.trans (Equiv.swap (ρ n) j)

lemma extend_self (ρ : Renaming) (n j : Nat) : ρ.extend n j n = j := by simp [extend]

lemma agrees_extend (ρ : Renaming) {j : Nat} (hj : ∀ k < n, ρ k ≠ j) :
    Agrees ρ (ρ.extend n j) n := fun k hk =>
  Equiv.swap_apply_of_ne_of_ne (fun h => Nat.ne_of_lt hk (ρ.injective h)) (hj k hk)

end Renaming

variable {ρ ρ' : Renaming} {g g' : Graph} {n n' : Node} {r r' : NodeId × Graph} {k : NodeId}

/-! ### Nodes -/

def Identity.rename (ρ : Renaming) : Identity → Identity
  | .node id => .node (ρ id)
  | .carried v shape => .carried v shape

lemma Identity.rename_injective (ρ : Renaming) : Function.Injective (rename ρ) := by
  intro x y h
  cases x <;> cases y <;> simp_all [rename]

def Derivation.rename (ρ : Renaming) (d : Derivation) : Derivation :=
  { d with
    sources := d.sources.map ρ
    identities := d.identities.map (Prod.map id (Identity.rename ρ)) }

namespace Node

def rename (ρ : Renaming) (n : Node) : Node :=
  match n.origin with
  | .derived d => { n with origin := .derived (d.rename ρ) }
  | .constant | .leaf _ => n

lemma rename_of_underived (h : n.derivation? = none) : n.rename ρ = n := by
  unfold derivation? at h
  unfold rename
  split
  · next d ho => rw [ho] at h; cases h
  · rfl
  · rfl

lemma rename_of_derived {d : Derivation} (h : n.origin = .derived d) :
    n.rename ρ = { n with origin := .derived (d.rename ρ) } := by
  rw [rename, h]

variable (ρ n)

@[simp] lemma rename_name : (n.rename ρ).name = n.name := by unfold rename; split <;> rfl

@[simp] lemma rename_value : (n.rename ρ).value = n.value := by unfold rename; split <;> rfl

@[simp] lemma rename_derivation? :
    (n.rename ρ).derivation? = n.derivation?.map (Derivation.rename ρ) := by
  rcases n.underived_or_derived with h | ⟨d, ho, hd⟩
  · rw [rename_of_underived h, h]
    rfl
  · rw [rename_of_derived ho, hd]
    rfl

@[simp] lemma rename_sources : (n.rename ρ).sources = n.sources.map ρ := by
  unfold rename
  split <;> next ho => simp [sources, ho, Derivation.rename]

@[simp] lemma rename_isConstant : (n.rename ρ).isConstant = n.isConstant := by
  unfold rename
  split <;> next ho => simp [isConstant, ho]

@[simp] lemma rename_isExternal : (n.rename ρ).isExternal = n.isExternal := by
  unfold rename
  split <;> next ho => simp [isExternal, ho]

@[simp] lemma rename_shape : (n.rename ρ).shape = n.shape := by
  unfold rename
  split <;> next ho => simp [shape, ho, Derivation.rename]

@[simp] lemma rename_text : (n.rename ρ).text = n.text := by
  unfold rename
  split <;> next ho => simp [text, ho]

variable {ρ n}

/-- Renamed nodes count as one exactly if the nodes do. -/
lemma same_rename : (n.rename ρ).Same (n'.rename ρ) ↔ n.Same n' := by
  rcases n'.underived_or_derived with h | ⟨d', ho', -⟩
  · rw [rename_of_underived h, same_of_underived h, same_of_underived h]
    constructor
    · rintro rfl
      rw [rename_derivation?, Option.map_eq_none_iff] at h
      rw [rename_of_underived h]
    · rintro rfl
      exact rename_of_underived h
  · rw [rename_of_derived ho', same_of_derived (e := d'.rename ρ) rfl, same_of_derived ho']
    have hinj : Function.Injective (Prod.map id (Identity.rename ρ) : String × Identity → _) :=
      Function.injective_id.prodMap (Identity.rename_injective ρ)
    rcases n.underived_or_derived with h | ⟨d, ho, -⟩
    · rw [rename_of_underived h]
      unfold derivation? at h
      constructor <;> rintro ⟨d, ho, -⟩ <;> rw [ho] at h <;> cases h
    · rw [rename_of_derived ho, ho]
      simp only [Derivation.rename, Origin.derived.injEq, exists_eq_left', ne_eq,
        List.map_eq_nil_iff, List.map_perm_map_iff hinj]

lemma within_rename {b b' : Nat} (hw : n.Within b) (h : ∀ k < b, ρ k < b') :
    (n.rename ρ).Within b' := by
  intro d' hd'
  rw [rename_derivation?, Option.map_eq_some_iff] at hd'
  obtain ⟨d, hd, rfl⟩ := hd'
  obtain ⟨hs, hi⟩ := hw d hd
  refine ⟨fun k hk => ?_, fun p hp k hk => ?_⟩
  · obtain ⟨j, hj, rfl⟩ := List.mem_map.1 hk
    exact h j (hs j hj)
  · obtain ⟨q, hq, rfl⟩ := List.mem_map.1 hp
    cases hx : q.2 with
    | node j =>
      simp only [Prod.map_snd, hx, Identity.rename, Identity.node.injEq] at hk
      rw [← hk]
      exact h j (hi q hq j hx)
    | carried => simp only [Prod.map_snd, hx, Identity.rename, reduceCtorEq] at hk

/-- Only the nodes that a node refers to matter for renaming it. -/
lemma rename_congr {b : Nat} (hw : n.Within b) (h : ρ.Agrees ρ' b) : n.rename ρ' = n.rename ρ := by
  rcases n.underived_or_derived with hn | ⟨d, ho, hd⟩
  · rw [rename_of_underived hn, rename_of_underived hn]
  · obtain ⟨hs, hi⟩ := hw d hd
    have hsources : d.sources.map ρ' = d.sources.map ρ :=
      List.map_congr_left fun k hk => h k (hs k hk)
    have hidentities : d.identities.map (Prod.map id (Identity.rename ρ')) =
        d.identities.map (Prod.map id (Identity.rename ρ)) := by
      refine List.map_congr_left fun p hp => Prod.ext rfl ?_
      cases hx : p.2 with
      | node k => simp only [Prod.map_snd, hx, Identity.rename, h k (hi p hp k hx)]
      | carried => simp only [Prod.map_snd, hx, Identity.rename]
    rw [rename_of_derived ho, rename_of_derived ho, Derivation.rename, Derivation.rename, hsources,
      hidentities]

lemma rename_refl (n : Node) : n.rename (Equiv.refl _) = n := by
  rcases n.underived_or_derived with hn | ⟨d, ho, -⟩
  · rw [rename_of_underived hn]
  · have hid : ∀ x : Identity, x.rename (Equiv.refl _) = x := by rintro (k | ⟨v, shape⟩) <;> rfl
    have hmap : Prod.map id (Identity.rename (Equiv.refl _)) = (id : String × Identity → _) :=
      funext fun p => Prod.ext rfl (hid p.2)
    rw [rename_of_derived ho, Derivation.rename, hmap]
    simp [← ho]

end Node

/-! ### Graphs -/

namespace Graph

lemma linkCount_push (g : Graph) (n : Node) :
    (g.push n).2.linkCount = g.linkCount + if n.derivation?.isSome then 1 else 0 := by
  simp [linkCount, push, List.countP_append, List.countP_cons]

/-- The second graph has the nodes of the first under other numbers, and no others that are
derived. -/
structure Embeds (ρ : Renaming) (g g' : Graph) : Prop where
  consed : g.Consed
  consed' : g'.Consed
  lt : ∀ {k}, k < g.size → ρ k < g'.size
  node : ∀ {k}, k < g.size → g'.node (ρ k) = (g.node k).rename ρ
  derived : ∀ {j}, j < g'.size → (g'.node j).derivation? ≠ none → ρ.symm j < g.size
  linkCount : g'.linkCount = g.linkCount

namespace Embeds

lemma refl (h : g.Consed) : Embeds (Equiv.refl _) g g :=
  ⟨h, h, fun hk => hk, fun _ => (Node.rename_refl _).symm, fun hj _ => hj, rfl⟩

/-- A node that is new in the first graph is added to the second, unless it is not derived and the
second has it already. -/
lemma put_cases (h : Embeds ρ g g') (hp : g'.Puts (n.rename ρ) r')
    (hfresh : ∀ k < g.size, ¬ (g.node k).Same n) : (∀ k < g.size, ρ k ≠ r'.1) ∧
      (n.derivation? = none ∧ r'.1 < g'.size ∧ r'.2 = g' ∧ g'.node r'.1 = n ∨
        r' = g'.push (n.rename ρ)) := by
  cases hp with
  | @found j hlt hsame =>
    have hnew : ∀ k < g.size, ρ k ≠ j := by
      rintro k hk rfl
      rw [h.node hk, Node.same_rename] at hsame
      exact hfresh k hk hsame
    refine ⟨hnew, .inl ?_⟩
    rcases n.underived_or_derived with hn | ⟨d, ho, -⟩
    · rw [Node.rename_of_underived hn] at hsame
      exact ⟨hn, hlt, rfl, (Node.same_of_underived hn).1 hsame⟩
    · -- a derivation that the second graph has is in the first one as well
      rw [Node.rename_of_derived ho] at hsame
      obtain ⟨d', ho', -⟩ := (Node.same_of_derived rfl).1 hsame
      have hlt' := h.derived hlt (by rw [Node.derivation?, ho']; exact Option.some_ne_none _)
      exact absurd (Equiv.apply_symm_apply ρ j) (hnew _ hlt')
  | added => exact ⟨fun k hk => Nat.ne_of_lt (h.lt hk), .inr rfl⟩

/-- A node that is new in the first graph gets the number that it has in the second. -/
lemma extend (h : Embeds ρ g g') (hp : g'.Puts (n.rename ρ) r')
    (hc : n.isConstant = true → n = .constant n.value) (hw : n.Within g.size)
    (hfresh : ∀ k < g.size, ¬ (g.node k).Same n) :
    ρ.Agrees (ρ.extend g.size r'.1) g.size ∧ Embeds (ρ.extend g.size r'.1) (g.push n).2 r'.2 := by
  obtain ⟨hnew, hcases⟩ := h.put_cases hp hfresh
  have hagrees := ρ.agrees_extend hnew
  have hself := ρ.extend_self g.size r'.1
  generalize ρ.extend g.size r'.1 = ρ' at hagrees hself ⊢
  have hsymm : ∀ {j}, ρ.symm j < g.size → ρ'.symm j < g.size + 1 := by
    intro j hj
    have hk := hagrees _ hj
    rw [Equiv.apply_symm_apply] at hk
    rw [(Equiv.symm_apply_eq ρ').2 hk.symm]
    exact Nat.lt_succ_of_lt hj
  have hrename : ∀ {k}, k < g.size → (g.node k).rename ρ' = (g.node k).rename ρ := fun hk =>
    Node.rename_congr ((h.consed.within hk).mono (Nat.le_of_lt hk)) hagrees
  have hconst : (n.rename ρ).isConstant = true → n.rename ρ = .constant (n.rename ρ).value := by
    intro hconst
    rw [Node.rename_isConstant] at hconst
    rw [Node.rename_value, hc hconst]
    rfl
  have hextends := hp.toExtends
  -- the number that is given holds the renamed node, whether it was found or added
  have hnode : r'.2.node r'.1 = n.rename ρ' ∧ ∀ {j}, j < r'.2.size →
      (r'.2.node j).derivation? ≠ none → ρ'.symm j < g.size + 1 := by
    rw [Node.rename_congr hw hagrees]
    rcases hcases with ⟨hn, -, hg, hj⟩ | hpush
    · rw [hg, hj, Node.rename_of_underived hn]
      exact ⟨rfl, fun hj hd => hsymm (h.derived hj hd)⟩
    · rw [hpush] at hself ⊢
      refine ⟨node_push_size g' _, fun {j} hj hd => ?_⟩
      rw [size_push] at hj
      rcases Nat.lt_succ_iff_lt_or_eq.1 hj with hlt | rfl
      · rw [node_push_of_lt _ hlt] at hd
        exact hsymm (h.derived hlt hd)
      · have hself' : ρ' g.size = g'.size := hself
        rw [(Equiv.symm_apply_eq ρ').2 hself'.symm]
        exact Nat.lt_succ_self _
  have hcount : r'.2.linkCount = (g.push n).2.linkCount := by
    rw [linkCount_push]
    rcases hcases with ⟨hn, -, hg, -⟩ | hpush
    · rw [hg, hn, h.linkCount]
      rfl
    · rw [hpush, linkCount_push, h.linkCount, Node.rename_derivation?, Option.isSome_map]
  have hwithin : (n.rename ρ).Within g'.size := Node.within_rename hw fun _ hk => h.lt hk
  refine ⟨hagrees, (Puts.added hfresh).consed h.consed hc hw, hp.consed h.consed' hconst hwithin,
    fun {k} hk => ?_, fun {k} hk => ?_, fun hj hd => ?_, hcount⟩
  · rw [size_push] at hk
    rcases Nat.lt_succ_iff_lt_or_eq.1 hk with hlt | rfl
    · rw [hagrees k hlt]
      exact hextends.lt (h.lt hlt)
    · rw [hself]
      exact hp.lt
  · rw [size_push] at hk
    rcases Nat.lt_succ_iff_lt_or_eq.1 hk with hlt | rfl
    · rw [hagrees k hlt, hextends.node (h.lt hlt), h.node hlt, node_push_of_lt _ hlt, hrename hlt]
    · rw [hself, hnode.1, node_push_size]
  · rw [size_push]
    exact hnode.2 hj hd

lemma puts (h : Embeds ρ g g') (hp : g.Puts n r) (hp' : g'.Puts (n.rename ρ) r')
    (hc : n.isConstant = true → n = .constant n.value) (hw : n.Within g.size) :
    ∃ ρ', ρ.Agrees ρ' g.size ∧ Embeds ρ' r.2 r'.2 ∧ ρ' r.1 = r'.1 := by
  cases hp with
  | @found k hlt hsame =>
    have hr' : r' = (ρ k, g') := hp'.eq_of_same h.consed' (h.lt hlt) (by
      rw [h.node hlt]
      exact Node.same_rename.2 hsame)
    rw [hr']
    exact ⟨ρ, .refl _ _, h, rfl⟩
  | added hfresh =>
    obtain ⟨hagrees, hembeds⟩ := h.extend hp' hc hw hfresh
    exact ⟨_, hagrees, hembeds, ρ.extend_self _ _⟩

/-- What is put into the second graph alone makes no difference if it is not derived. -/
lemma puts_right (h : Embeds ρ g g') (hp : g'.Puts n r') (hn : n.derivation? = none)
    (hc : n.isConstant = true → n = .constant n.value) : Embeds ρ g r'.2 := by
  have hextends := hp.toExtends
  refine ⟨h.consed, hp.consed h.consed' hc (Node.within_of_underived hn _),
    fun hk => hextends.lt (h.lt hk), fun hk => (hextends.node (h.lt hk)).trans (h.node hk),
    fun {j} hj hd => ?_, ?_⟩
  · rcases hp.node_cases hj with ⟨hj', hjn⟩ | ⟨-, hjn, -⟩
    · rw [hjn] at hd
      exact h.derived hj' hd
    · rw [hjn, hn] at hd
      exact absurd rfl hd
  · cases hp with
    | found => exact h.linkCount
    | added =>
      rw [linkCount_push, hn, h.linkCount]
      rfl

end Embeds

end Graph

end Lineage
