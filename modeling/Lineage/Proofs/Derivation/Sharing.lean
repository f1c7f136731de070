import Lineage.Proofs.Derivation.Consing
import Mathlib.Data.Multiset.Defs

/-!
When a graph answers two requests with one node.

A graph is asked for constants, leaves and derivations in any order. What requests are compared by
is their `key`: two requests get one node if their keys are equal, however far they are apart, and
only then. A derivation from nothing shares its node with no request at all.
-/

namespace Lineage

/-- What a graph is asked for. -/
inductive Request
  | constant (v : Value)
  | leaf (name : String) (v : Value) (external : Bool)
  | derive (context name label : String) (links : List Link) (v : Value)

namespace Request

def sources : Request → List NodeId
  | .derive _ _ _ links _ => links.map Link.node
  | _ => []

def IsFromNothing : Request → Prop
  | .derive _ _ _ links _ => links = []
  | _ => False

/-- What requests are compared by. The sources of a derivation count in any order. -/
inductive Key
  | constant (v : Value)
  | leaf (name : String) (v : Value) (external : Bool)
  | derived (context label : String) (v : Value) (identities : Multiset (String × Identity))

end Request

variable {g g' : Graph} {r r' : Request} {rs rs' : List Request}

namespace Graph

def key (g : Graph) : Request → Request.Key
  | .constant v => .constant v
  | .leaf name v external => .leaf name v external
  | .derive context name label links v =>
    .derived context label v (links.map (g.identity name) : List (String × Identity))

def ask (g : Graph) : Request → NodeId × Graph
  | .constant v => g.constant v
  | .leaf name v external => g.leaf name v external
  | .derive context name label links v => g.derive context name label links v

/-- The node that a request adds when there is none to be found. -/
def wanted (g : Graph) : Request → Node
  | .constant v => .constant v
  | .leaf name v external => ⟨name, v, .leaf external⟩
  | .derive context name label links v => g.derived context name label links v

/-- The graph behind a sequence of requests. -/
def asked (g : Graph) : List Request → Graph
  | [] => g
  | r :: rs => (g.ask r).2.asked rs

/-- The sources of each request are in the graph when its turn comes. -/
def Admits (g : Graph) : List Request → Prop
  | [] => True
  | r :: rs => (∀ k ∈ r.sources, k < g.size) ∧ (g.ask r).2.Admits rs

instance decidableAdmits : (g : Graph) → (rs : List Request) → Decidable (g.Admits rs)
  | _, [] => .isTrue trivial
  | g, r :: rs =>
    have := decidableAdmits (g.ask r).2 rs
    inferInstanceAs (Decidable (_ ∧ _))

@[simp] lemma asked_append : g.asked (rs ++ rs') = (g.asked rs).asked rs' := by
  induction rs generalizing g with
  | nil => rfl
  | cons r rs ih => exact ih

@[simp] lemma admits_append : g.Admits (rs ++ rs') ↔ g.Admits rs ∧ (g.asked rs).Admits rs' := by
  induction rs generalizing g with
  | nil => simp [Admits, asked]
  | cons r rs ih => simp [Admits, asked, ih, and_assoc]

/-! ### One request -/

lemma within_wanted (hr : ∀ k ∈ r.sources, k < g.size) : (g.wanted r).Within g.size := by
  cases r with
  | constant | leaf => exact Node.within_of_underived rfl _
  | derive context name label links v =>
    exact g.within_derived context name label v fun l hl => hr _ (List.mem_map_of_mem hl)

lemma wanted_constant (h : (g.wanted r).isConstant = true) :
    g.wanted r = .constant (g.wanted r).value := by
  cases r with
  | constant v => rfl
  | leaf | derive => cases h

namespace Consed

lemma puts_ask (h : g.Consed) (r : Request) : g.Puts (g.wanted r) (g.ask r) := by
  cases r with
  | constant v => exact h.puts_constant v
  | leaf name v external => exact g.puts_leaf name v external
  | derive context name label links v => exact g.puts_derive context name label links v

lemma ask (h : g.Consed) (hr : ∀ k ∈ r.sources, k < g.size) : (g.ask r).2.Consed :=
  (h.puts_ask r).consed h wanted_constant (within_wanted hr)

lemma asked (h : g.Consed) (hrs : g.Admits rs) : (g.asked rs).Consed := by
  induction rs generalizing g with
  | nil => exact h
  | cons r rs ih => exact ih (h.ask hrs.1) hrs.2

lemma extends_asked (h : g.Consed) (hrs : g.Admits rs) : g.Extends (g.asked rs) := by
  induction rs generalizing g with
  | nil => exact .refl g
  | cons r rs ih => exact (h.puts_ask r).toExtends.trans (ih (h.ask hrs.1) hrs.2)

end Consed

/-! ### Two requests -/

/-- Requests want nodes that count as one if their keys are equal. -/
lemma same_wanted_iff : (g.wanted r).Same (g'.wanted r') ↔
    g'.key r' = g.key r ∧ ¬ r.IsFromNothing := by
  cases r' with
  | constant v' =>
    rw [Node.same_of_underived rfl]
    cases r with
    | constant v =>
      simp only [wanted, Node.constant, key, Request.IsFromNothing, Node.mk.injEq,
        Request.Key.constant.injEq, not_false_eq_true, and_true]
      constructor
      · intro h
        exact h.2.symm
      · rintro rfl
        exact ⟨rfl, rfl⟩
    | leaf | derive => simp [wanted, Node.constant, derived, key]
  | leaf name' v' external' =>
    rw [Node.same_of_underived rfl]
    cases r with
    | leaf name v external =>
      simp only [wanted, key, Request.IsFromNothing, Node.mk.injEq, Origin.leaf.injEq,
        Request.Key.leaf.injEq, not_false_eq_true, and_true]
      constructor
      · rintro ⟨rfl, rfl, rfl⟩
        exact ⟨rfl, rfl, rfl⟩
      · rintro ⟨rfl, rfl, rfl⟩
        exact ⟨rfl, rfl, rfl⟩
    | constant | derive => simp [wanted, Node.constant, derived, key]
  | derive context' name' label' links' v' =>
    rw [show g'.wanted (.derive context' name' label' links' v') = g'.derived .. from rfl,
      Node.same_of_derived rfl]
    cases r with
    | derive context name label links v =>
      simp only [wanted, derived, key, Request.IsFromNothing, Origin.derived.injEq,
        Request.Key.derived.injEq, Multiset.coe_eq_coe]
      constructor
      · rintro ⟨d, rfl, hv, hl, hp, hc, hne⟩
        exact ⟨⟨hc.symm, hl.symm, hv.symm, hp.symm⟩, fun he => hne (by simp [he])⟩
      · rintro ⟨⟨hc, hl, hv, hp⟩, hne⟩
        exact ⟨_, rfl, hv.symm, hl.symm, hp.symm, hc.symm, by simpa using hne⟩
    | constant | leaf => simp [wanted, Node.constant, key]

lemma Consed.ask_eq_iff (h : g.Consed) (h' : g'.Consed) (hg : (g.ask r).2.Extends g') :
    (g'.ask r').1 = (g.ask r).1 ↔ g'.key r' = g.key r ∧ ¬ r.IsFromNothing := by
  have hputs := h.puts_ask r
  calc (g'.ask r').1 = (g.ask r).1
      ↔ (g'.node (g.ask r).1).Same (g'.wanted r') :=
        (h'.puts_ask r').fst_eq_iff h' (hg.lt hputs.lt)
    _ ↔ (g.wanted r).Same (g'.wanted r') := by rw [hg.node hputs.lt, hputs.same_iff]
    _ ↔ g'.key r' = g.key r ∧ ¬ r.IsFromNothing := same_wanted_iff

/-! ### Sequences of requests -/

/-- Nodes are derived from earlier ones only and stay as they are. A request is answered with a node
that counts as the one it wants or, without one, adds it at the end, as one for a derivation from
nothing always does. Two requests get one node exactly if their keys are equal, with a key being
taken from the graph at the time of the request. -/
theorem requests_share_nodes {rs : List Request} (hrs : Graph.Admits {} rs) :
    (∀ k < (asked {} rs).size, ∀ j ∈ ((asked {} rs).node k).sources, j < k) ∧
    ∀ before r behind, rs = before ++ r :: behind →
      let g := asked {} before
      g.Extends (asked {} rs) ∧ g.Puts (g.wanted r) (g.ask r) ∧
      (r.IsFromNothing → g.ask r = g.push (g.wanted r)) ∧
      ∀ between r' behind', behind = between ++ r' :: behind' →
        let g' := (g.ask r).2.asked between
        (g'.ask r').1 = (g.ask r).1 ↔ g'.key r' = g.key r ∧ ¬ r.IsFromNothing := by
  refine ⟨fun k hk j hj => ?_, ?_⟩
  · obtain ⟨d, hd, hj⟩ := mem_sources.1 hj
    exact (((consed_empty.asked hrs).within hk d hd).1 j hj)
  · rintro before r behind rfl g
    rw [admits_append] at hrs
    obtain ⟨hbefore, hr, hbehind⟩ := hrs
    have hg : g.Consed := consed_empty.asked hbefore
    have hputs := hg.puts_ask r
    refine ⟨?_, hputs, fun hnone => ?_, ?_⟩
    · rw [asked_append]
      exact hputs.toExtends.trans ((hg.ask hr).extends_asked hbehind)
    · cases hputs' : r with
      | constant | leaf => rw [hputs'] at hnone; cases hnone
      | derive context name label links v =>
        rw [hputs'] at hnone
        exact (derive_eq ..).trans (if_pos hnone)
    · rintro between r' behind' rfl g'
      have hbetween := (admits_append.1 hbehind).1
      exact hg.ask_eq_iff ((hg.ask hr).asked hbetween) ((hg.ask hr).extends_asked hbetween)

/-- A quotient of two sources gets the node of the one with the sources exchanged if it has the same
value, as here -5 / 5 that of 5 / -5. -/
theorem requests_share_nodes_exchanged :
    let rs : List Request := [.leaf "IN0" 5 true, .leaf "IN1" (-5) true,
      .derive "" "C" "/" [⟨"A", 0⟩, ⟨"B", 1⟩] (-1)]
    let r : Request := .derive "" "D" "/" [⟨"B", 1⟩, ⟨"A", 0⟩] (-1)
    Graph.Admits {} (rs ++ [r]) ∧ ((asked {} rs).ask r).1 = 2 := by
  intro rs r
  have hrs : Graph.Admits {} (rs ++ [r]) := by decide +kernel
  obtain ⟨-, -, -, hlater⟩ := (requests_share_nodes hrs).2 (rs.take 2) _ [r] rfl
  have hkey : (asked {} rs).key r = (asked {} (rs.take 2)).key
      (.derive "" "C" "/" [⟨"A", 0⟩, ⟨"B", 1⟩] (-1)) :=
    congrArg (Request.Key.derived "" "/" (-1)) (Multiset.coe_eq_coe.2 (by decide +kernel))
  have hfirst : ((asked {} (rs.take 2)).ask
      (.derive "" "C" "/" [⟨"A", 0⟩, ⟨"B", 1⟩] (-1))).1 = 2 := by decide +kernel
  exact ⟨hrs, ((hlater [] r [] rfl).2 ⟨hkey, List.cons_ne_nil _ _⟩).trans hfirst⟩

end Graph

end Lineage
