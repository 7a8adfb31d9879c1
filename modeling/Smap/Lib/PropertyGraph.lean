import Mathlib.Data.List.Lattice
import Mathlib.Data.List.Nodup

/-!
# Property graphs that are merged into

A store of named nodes and of directed edges between them, each with properties.  Writing
merges: a node or an edge that is there is changed, one that is not is created.  A writer marks
what it creates, so that its work can be taken back: drop the edges with its mark, drop the
nodes with its mark that this leaves isolated, and merge a copy from before back in.

## Main definitions

* `Graph` — nodes and edges; the ends of an edge are there.
* `Graph.mergeLink`, `Graph.dropEdges`, `Graph.dropIsolated`, `Graph.restore` — writes.
* `Graph.Within` — what a writer may have made of a graph, which `Graph.Within.rollback` undoes.
-/

namespace Smap.PropertyGraph

open Function Option

/-- Where an edge goes, and what it is. -/
structure Link (N R : Type) where
  subject : N
  relation : R
  object : N
  deriving DecidableEq

/-- Nodes by name and edges by link.  `links` has at least those that there are. -/
structure Graph (N R ν ε : Type) where
  node : N → Option ν
  edge : Link N R → Option ε
  links : List (Link N R)
  nodup : links.Nodup
  listed : ∀ k, (edge k).isSome = true → k ∈ links
  ends : ∀ k, (edge k).isSome = true →
    (node k.subject).isSome = true ∧ (node k.object).isSome = true

namespace Graph

variable {N R ν ε : Type}

def empty : Graph N R ν ε where
  node _ := none
  edge _ := none
  links := []
  nodup := List.nodup_nil
  listed := nofun
  ends := nofun

/-! ## Writes -/

section Writes

variable [DecidableEq N] [DecidableEq R]

/-- `MERGE (n) SET …`, with what the node is to be if it is there or not. -/
def mergeNode (g : Graph N R ν ε) (n : N) (f : Option ν → ν) : Graph N R ν ε where
  node := update g.node n (some (f (g.node n)))
  edge := g.edge
  links := g.links
  nodup := g.nodup
  listed := g.listed
  ends k hk := by
    have hends := g.ends k hk
    constructor
    · by_cases h : k.subject = n
      · rw [h, update_self]
        rfl
      · rw [update_of_ne h]
        exact hends.1
    · by_cases h : k.object = n
      · rw [h, update_self]
        rfl
      · rw [update_of_ne h]
        exact hends.2

omit [DecidableEq R] in
theorem node_mergeNode (g : Graph N R ν ε) (n : N) (f : Option ν → ν) :
    (g.mergeNode n f).node = update g.node n (some (f (g.node n))) := rfl

omit [DecidableEq R] in
theorem isSome_node_mergeNode {g : Graph N R ν ε} {n m : N} {f : Option ν → ν}
    (h : m = n ∨ (g.node m).isSome = true) : ((g.mergeNode n f).node m).isSome = true := by
  by_cases hm : m = n
  · rw [hm, node_mergeNode, update_self]
    rfl
  · rw [node_mergeNode, update_of_ne hm]
    exact h.resolve_left hm

/-- Merge an edge between nodes that are there. -/
def mergeEdge (g : Graph N R ν ε) (k : Link N R) (f : Option ε → ε)
    (hs : (g.node k.subject).isSome = true) (ho : (g.node k.object).isSome = true) :
    Graph N R ν ε where
  node := g.node
  edge := update g.edge k (some (f (g.edge k)))
  links := g.links.insert k
  nodup := List.Nodup.insert g.nodup
  listed k' hk' := by
    by_cases h : k' = k
    · exact List.mem_insert_iff.mpr (.inl h)
    · rw [update_of_ne h] at hk'
      exact List.mem_insert_iff.mpr (.inr (g.listed k' hk'))
  ends k' hk' := by
    by_cases h : k' = k
    · rw [h]
      exact ⟨hs, ho⟩
    · rw [update_of_ne h] at hk'
      exact g.ends k' hk'

/-- Merge both ends, then the edge. -/
def mergeLink (g : Graph N R ν ε) (k : Link N R) (fs fo : Option ν → ν) (fe : Option ε → ε) :
    Graph N R ν ε :=
  ((g.mergeNode k.subject fs).mergeNode k.object fo).mergeEdge k fe
    (isSome_node_mergeNode (.inr (isSome_node_mergeNode (.inl rfl))))
    (isSome_node_mergeNode (.inl rfl))

theorem edge_mergeLink (g : Graph N R ν ε) (k : Link N R) (fs fo : Option ν → ν)
    (fe : Option ε → ε) :
    (g.mergeLink k fs fo fe).edge = update g.edge k (some (fe (g.edge k))) := rfl

/-- No edge begins or ends at the node. -/
def isolated (g : Graph N R ν ε) (n : N) : Bool :=
  g.links.all fun k => (g.edge k).isNone || (decide (k.subject ≠ n) && decide (k.object ≠ n))

omit [DecidableEq R] in
theorem isolated_iff {g : Graph N R ν ε} {n : N} :
    g.isolated n = true ↔
      ∀ k, (g.edge k).isSome = true → k.subject ≠ n ∧ k.object ≠ n := by
  simp only [isolated, List.all_eq_true, Bool.or_eq_true, isNone_iff_eq_none,
    Bool.and_eq_true, decide_eq_true_eq]
  constructor
  · intro h k hk
    refine (h k (g.listed k hk)).resolve_left fun hnone => ?_
    simp [hnone] at hk
  · intro h k _
    cases he : g.edge k with
    | none => exact .inl rfl
    | some => exact .inr (h k (by rw [he]; rfl))

/-- Delete the edges with a property. -/
def dropEdges (g : Graph N R ν ε) (p : ε → Bool) : Graph N R ν ε where
  node := g.node
  edge k := (g.edge k).filter fun e => !p e
  links := g.links
  nodup := g.nodup
  listed k hk := g.listed k (isSome_of_isSome_filter _ _ hk)
  ends k hk := g.ends k (isSome_of_isSome_filter _ _ hk)

/-- Delete the isolated nodes with a property. -/
def dropIsolated (g : Graph N R ν ε) (q : ν → Bool) : Graph N R ν ε where
  node n := (g.node n).filter fun v => !(q v && g.isolated n)
  edge := g.edge
  links := g.links
  nodup := g.nodup
  listed := g.listed
  ends k hk := by
    have hkept : ∀ n, k.subject = n ∨ k.object = n → (g.node n).isSome = true →
        ((g.node n).filter fun v => !(q v && g.isolated n)).isSome = true := by
      intro n hn hsome
      have hiso : g.isolated n = false := by
        refine Bool.eq_false_iff.mpr fun hiso => ?_
        obtain ⟨hs, ho⟩ := isolated_iff.mp hiso k hk
        exact hn.elim hs ho
      obtain ⟨v, hv⟩ := isSome_iff_exists.mp hsome
      simp [hv, hiso]
    obtain ⟨hs, ho⟩ := g.ends k hk
    exact ⟨hkept _ (.inl rfl) hs, hkept _ (.inr rfl) ho⟩

/-- Merge a copy back in, node by node and edge by edge. -/
def restore (g : Graph N R ν ε) (copy : Graph N R ν ε) (fn : ν → Option ν → ν)
    (fe : ε → Option ε → ε) : Graph N R ν ε where
  node n := ((copy.node n).map fun v => fn v (g.node n)).or (g.node n)
  edge k := ((copy.edge k).map fun e => fe e (g.edge k)).or (g.edge k)
  links := g.links ∪ copy.links
  nodup := List.Nodup.union g.links copy.nodup
  listed k hk := by
    rw [List.mem_union_iff]
    cases hc : copy.edge k with
    | some e => exact .inr (copy.listed k (by rw [hc]; rfl))
    | none =>
      rw [hc, map_none, none_or] at hk
      exact .inl (g.listed k hk)
  ends k hk := by
    have hor : ∀ n, (copy.node n).isSome = true ∨ (g.node n).isSome = true →
        (((copy.node n).map fun v => fn v (g.node n)).or (g.node n)).isSome = true := by
      intro n hn
      rw [isSome_or, isSome_map, Bool.or_eq_true]
      exact hn
    cases hc : copy.edge k with
    | some e =>
      obtain ⟨hs, ho⟩ := copy.ends k (by rw [hc]; rfl)
      exact ⟨hor _ (.inl hs), hor _ (.inl ho)⟩
    | none =>
      rw [hc, map_none, none_or] at hk
      obtain ⟨hs, ho⟩ := g.ends k hk
      exact ⟨hor _ (.inr hs), hor _ (.inr ho)⟩

/-- The links of the edges with a property. -/
def linksWith (g : Graph N R ν ε) (p : ε → Bool) : List (Link N R) :=
  g.links.filter fun k => (g.edge k).any p

end Writes

/-! ## Taking back -/

/-- What a writer may have made of a graph: what was not there before carries its mark. -/
structure Within (newNode : ν → Bool) (newEdge : ε → Bool) (g₀ g : Graph N R ν ε) : Prop where
  nodes : ∀ n v, g.node n = some v → (g₀.node n).isSome = true ∨ newNode v = true
  edges : ∀ k e, g.edge k = some e → (g₀.edge k).isSome = true ∨ newEdge e = true

namespace Within

variable {newNode : ν → Bool} {newEdge : ε → Bool} {g₀ g : Graph N R ν ε}

theorem refl (g : Graph N R ν ε) : Within newNode newEdge g g where
  nodes _ _ hv := .inl (isSome_of_eq_some hv)
  edges _ _ he := .inl (isSome_of_eq_some he)

variable [DecidableEq N] [DecidableEq R]

variable (h : Within newNode newEdge g₀ g)

include h

omit [DecidableEq R] in
/-- A merge that marks the node it creates and leaves the mark of the others. -/
theorem mergeNode {n : N} {f : Option ν → ν} (hnone : newNode (f none) = true)
    (hsome : ∀ v, newNode v = true → newNode (f (some v)) = true) :
    Within newNode newEdge g₀ (g.mergeNode n f) where
  nodes m v hv := by
    by_cases hm : m = n
    · subst hm
      rw [node_mergeNode, update_self] at hv
      obtain rfl := Option.some.inj hv
      cases hg : g.node m with
      | none => exact .inr hnone
      | some v' => exact (h.nodes m v' hg).imp_right (hsome v')
    · rw [node_mergeNode, update_of_ne hm] at hv
      exact h.nodes m v hv
  edges := h.edges

/-- A merge that marks the edge. -/
theorem mergeLink {k : Link N R} {fs fo : Option ν → ν} {fe : Option ε → ε}
    (hedge : ∀ e, newEdge (fe e) = true)
    (hnone : newNode (fs none) = true ∧ newNode (fo none) = true)
    (hsome : ∀ v, newNode v = true → newNode (fs (some v)) = true ∧ newNode (fo (some v)) = true) :
    Within newNode newEdge g₀ (g.mergeLink k fs fo fe) where
  nodes := ((h.mergeNode hnone.1 fun v hv => (hsome v hv).1).mergeNode
    hnone.2 fun v hv => (hsome v hv).2).nodes
  edges k' e he := by
    by_cases hk : k' = k
    · subst hk
      rw [edge_mergeLink, update_self] at he
      obtain rfl := Option.some.inj he
      exact .inr (hedge _)
    · rw [edge_mergeLink, update_of_ne hk] at he
      exact h.edges k' e he

omit [DecidableEq N] [DecidableEq R] in
theorem dropEdges (p : ε → Bool) : Within newNode newEdge g₀ (g.dropEdges p) where
  nodes := h.nodes
  edges k e he := h.edges k e (filter_eq_some_iff.mp he).1

omit [DecidableEq R] in
theorem dropIsolated (q : ν → Bool) : Within newNode newEdge g₀ (g.dropIsolated q) where
  nodes n v hv := h.nodes n v (filter_eq_some_iff.mp hv).1
  edges := h.edges

theorem restore {fn : ν → Option ν → ν} {fe : ε → Option ε → ε} :
    Within newNode newEdge g₀ (g.restore g₀ fn fe) where
  nodes n v hv := by
    cases hn : g₀.node n with
    | some => exact .inl rfl
    | none =>
      simp only [Graph.restore, hn, map_none, none_or] at hv
      exact hn ▸ h.nodes n v hv
  edges k e he := by
    cases hk : g₀.edge k with
    | some => exact .inl rfl
    | none =>
      simp only [Graph.restore, hk, map_none, none_or] at he
      exact hk ▸ h.edges k e he

omit [DecidableEq N] [DecidableEq R] in
/-- An edge that is left when the marked ones have been dropped was there before. -/
theorem edge_of_dropEdges {k : Link N R} (hk : ((g.dropEdges newEdge).edge k).isSome = true) :
    (g₀.edge k).isSome = true := by
  obtain ⟨e, he⟩ := isSome_iff_exists.mp hk
  obtain ⟨he, hunmarked⟩ := filter_eq_some_iff.mp he
  refine (h.edges k e he).resolve_right fun hmarked => ?_
  simp [hmarked] at hunmarked

omit [DecidableEq R] in
/-- A node that is left when the isolated marked ones have been dropped, too. -/
theorem node_of_dropIsolated {n : N}
    (hn : (((g.dropEdges newEdge).dropIsolated newNode).node n).isSome = true) :
    (g₀.node n).isSome = true := by
  obtain ⟨v, hv⟩ := isSome_iff_exists.mp hn
  obtain ⟨hv, hkept⟩ := filter_eq_some_iff.mp hv
  refine (h.nodes n v hv).elim id fun hmarked => ?_
  -- It is the end of an edge, which was there before with its ends.
  by_contra hnew
  have hiso : (g.dropEdges newEdge).isolated n = true := by
    refine isolated_iff.mpr fun k hk => ?_
    obtain ⟨hs, ho⟩ := g₀.ends k (h.edge_of_dropEdges hk)
    exact ⟨fun hn => hnew (hn ▸ hs), fun hn => hnew (hn ▸ ho)⟩
  simp [hmarked, hiso] at hkept

/-- **Back to where it was**, up to what restoring does not keep. -/
theorem rollback {σ τ : Type} {shownNode : ν → σ} {shownEdge : ε → τ} {fn : ν → Option ν → ν}
    {fe : ε → Option ε → ε} (hfn : ∀ v₀ v, shownNode (fn v₀ v) = shownNode v₀)
    (hfe : ∀ e₀ e, shownEdge (fe e₀ e) = shownEdge e₀) :
    let g' := ((g.dropEdges newEdge).dropIsolated newNode).restore g₀ fn fe
    (∀ n, (g'.node n).map shownNode = (g₀.node n).map shownNode) ∧
      ∀ k, (g'.edge k).map shownEdge = (g₀.edge k).map shownEdge := by
  constructor
  · intro n
    cases hn : g₀.node n with
    | some v₀ => simp [Graph.restore, hn, hfn]
    | none =>
      have hgone := mt h.node_of_dropIsolated (by simp [hn] : ¬ (g₀.node n).isSome = true)
      simpa [Graph.restore, hn] using hgone
  · intro k
    cases hk : g₀.edge k with
    | some e₀ => simp [Graph.restore, hk, hfe]
    | none =>
      have hgone := mt h.edge_of_dropEdges (by simp [hk] : ¬ (g₀.edge k).isSome = true)
      simpa [Graph.restore, Graph.dropIsolated, hk] using hgone

end Within

end Graph

end Smap.PropertyGraph
