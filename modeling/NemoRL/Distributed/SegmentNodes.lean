import NemoRL.Distributed.VirtualCluster
import Mathlib.Algebra.Order.BigOperators.Group.Finset
import Mathlib.Algebra.Order.BigOperators.Group.List
import Mathlib.Algebra.Order.Ring.Int
import Mathlib.Tactic.Ring

/-!
# Which nodes are selected for segments

The selection goes through the domains and takes from each as many complete segments as are
still needed. Taking as many as possible leaves nothing to gain: the number of segments that it
can reach is the sum over the domains of the complete segments in each, so the call raises only
where no selection of complete segments exists.

## Main definitions

* `Topology.knownDomains`, `Topology.domainSize` — the domains with their numbers of nodes.
* `Topology.IsSegment` — some nodes that are a complete segment.

## Main results

* `SegmentSelection.segmentsTaken_takeDomains` — how many segments are taken.
* `SegmentSelection.selected_takeDomains` — the nodes taken are complete segments.
* `selectSegmentNodes_spec` — when the call raises, and what it returns.
-/

namespace NemoRL.Distributed

open Lib

/-- The domains that are known. -/
def Topology.knownDomains (topology : Topology) : Finset String :=
  (topology.nodes.map TopologyNode.domain).toFinset.erase nvlinkDomainUnknown

/-- The number of nodes of a domain. -/
def Topology.domainSize (topology : Topology) (domain : String) : ℕ :=
  (topology.nodes.filter fun node => node.domain = domain).length

/-- A complete segment: the wanted number of nodes, all of one known domain. -/
def Topology.IsSegment (topology : Topology) (segmentSize : ℤ) (nodeIds : List String) : Prop :=
  (nodeIds.length : ℤ) = segmentSize ∧
    ∃ domain, domain ≠ nvlinkDomainUnknown ∧
      ∀ nodeId ∈ nodeIds, ∃ node ∈ topology.nodes,
        node.nodeId = nodeId ∧ node.domain = domain

/-! ## Taking from the domains -/

/-- The first items of a list, cut into pieces of one length. -/
theorem exists_pieces {α : Type} (m k : ℕ) {l : List α} (h : k * m ≤ l.length) :
    ∃ pieces : List (List α), pieces.flatten = l.take (k * m) ∧ pieces.length = k ∧
      ∀ piece ∈ pieces, piece.length = m ∧ piece ⊆ l := by
  induction k generalizing l with
  | zero => exact ⟨[], by simp⟩
  | succ k ih =>
    rw [Nat.succ_mul] at h ⊢
    have hdrop : k * m ≤ (l.drop m).length := by
      rw [List.length_drop]
      omega
    obtain ⟨pieces, hflat, hlen, hpieces⟩ := ih hdrop
    refine ⟨l.take m :: pieces, ?_, by simp [hlen], ?_⟩
    · rw [List.flatten_cons, hflat, Nat.add_comm (k * m), List.take_add]
    · intro piece hmem
      cases List.mem_cons.mp hmem with
      | inl heq =>
        subst heq
        exact ⟨by rw [List.length_take]; omega, List.take_subset m l⟩
      | inr hmem =>
        obtain ⟨hpiece, hsub⟩ := hpieces piece hmem
        exact ⟨hpiece, fun x hx => List.drop_subset m l (hsub hx)⟩

namespace SegmentSelection

variable {segmentSize needed : ℤ} {s : SegmentSelection} {nodes : List TopologyNode}
  {domains : List (String × List TopologyNode)}

/-- The number of complete segments in some domains. -/
def segmentsIn (segmentSize : ℤ) (domains : List (String × List TopologyNode)) : ℤ :=
  (domains.map fun p => (p.2.length : ℤ) / segmentSize).sum

theorem segmentsIn_nonneg (hsize : 0 < segmentSize) :
    0 ≤ segmentsIn segmentSize domains := by
  refine List.sum_nonneg ?_
  intro n hn
  obtain ⟨p, -, rfl⟩ := List.mem_map.mp hn
  exact Int.ediv_nonneg (Int.natCast_nonneg _) hsize.le

theorem takeDomains_of_done (h : needed ≤ s.segmentsTaken) :
    s.takeDomains segmentSize needed domains = s := by
  cases domains with
  | nil => rfl
  | cons p domains => rw [takeDomains, if_pos h]

theorem segmentsTaken_takeDomain (s : SegmentSelection) (needed : ℤ)
    (nodes : List TopologyNode) (hsize : 0 < segmentSize) :
    (s.takeDomain segmentSize needed nodes).segmentsTaken =
      s.segmentsTaken + min ((nodes.length : ℤ) / segmentSize) (needed - s.segmentsTaken) := by
  rw [takeDomain, Int.fdiv_eq_ediv_of_nonneg _ hsize.le]

/-- As many segments are taken as are needed, or all that the domains have. -/
theorem segmentsTaken_takeDomains (hsize : 0 < segmentSize) (h : s.segmentsTaken ≤ needed) :
    (s.takeDomains segmentSize needed domains).segmentsTaken =
      min needed (s.segmentsTaken + segmentsIn segmentSize domains) := by
  induction domains generalizing s with
  | nil =>
    rw [takeDomains, segmentsIn, List.map_nil, List.sum_nil, Int.add_zero, min_eq_right h]
  | cons p domains ih =>
    have hrest : 0 ≤ segmentsIn segmentSize domains := segmentsIn_nonneg hsize
    have hfirst : 0 ≤ (p.2.length : ℤ) / segmentSize :=
      Int.ediv_nonneg (Int.natCast_nonneg _) hsize.le
    have hsum : segmentsIn segmentSize (p :: domains) =
        (p.2.length : ℤ) / segmentSize + segmentsIn segmentSize domains := by
      rw [segmentsIn, List.map_cons, List.sum_cons]
      rfl
    rw [takeDomains, hsum]
    split
    case isTrue hdone => omega
    case isFalse hmore =>
      have htaken := segmentsTaken_takeDomain s needed p.2 hsize
      rw [ih (by omega), htaken]
      omega

/-- The nodes taken from a domain are complete segments of it. -/
theorem selected_takeDomain (nodes : List TopologyNode) (hsize : 0 < segmentSize)
    (h : s.segmentsTaken ≤ needed) :
    ∃ segments : List (List TopologyNode),
      (s.takeDomain segmentSize needed nodes).selectedNodeIds =
        s.selectedNodeIds ++ segments.flatten.map TopologyNode.nodeId ∧
      (segments.length : ℤ) =
        (s.takeDomain segmentSize needed nodes).segmentsTaken - s.segmentsTaken ∧
      (∀ segment ∈ segments, (segment.length : ℤ) = segmentSize ∧ segment ⊆ nodes) ∧
      segments.flatten.Sublist nodes := by
  have htaken := segmentsTaken_takeDomain s needed nodes hsize
  have hfirst : 0 ≤ (nodes.length : ℤ) / segmentSize :=
    Int.ediv_nonneg (Int.natCast_nonneg _) hsize.le
  obtain ⟨m, rfl⟩ : ∃ m : ℕ, segmentSize = m := ⟨segmentSize.toNat, by omega⟩
  obtain ⟨k, hk⟩ : ∃ k : ℕ, min ((nodes.length : ℤ) / m) (needed - s.segmentsTaken) = k :=
    ⟨(min ((nodes.length : ℤ) / m) (needed - s.segmentsTaken)).toNat, by omega⟩
  have hfit : k * m ≤ nodes.length := by
    have hle : k ≤ nodes.length / m := by
      have : (k : ℤ) ≤ (nodes.length : ℤ) / m := hk ▸ min_le_left _ _
      exact_mod_cast this
    exact (Nat.mul_le_mul_right m hle).trans (Nat.div_mul_le_self _ _)
  obtain ⟨segments, hflat, hlen, hsegments⟩ := exists_pieces m k hfit
  have hnat : ((k : ℤ) * m).toNat = k * m := by
    rw [← Nat.cast_mul, Int.toNat_natCast]
  refine ⟨segments, ?_, ?_, ?_, ?_⟩
  · rw [takeDomain, Int.fdiv_eq_ediv_of_nonneg _ hsize.le]
    dsimp only
    rw [hk, hnat, hflat]
  · rw [htaken, hk, hlen]
    omega
  · intro segment hmem
    obtain ⟨hpiece, hsub⟩ := hsegments segment hmem
    exact ⟨by rw [hpiece], hsub⟩
  · rw [hflat]
    exact List.take_sublist _ _

/-- The nodes taken are complete segments, each from one domain, and none is taken twice. -/
theorem selected_takeDomains (domains : List (String × List TopologyNode))
    (hsize : 0 < segmentSize) (h : s.segmentsTaken ≤ needed) :
    ∃ segments : List (List TopologyNode),
      (s.takeDomains segmentSize needed domains).selectedNodeIds =
        s.selectedNodeIds ++ segments.flatten.map TopologyNode.nodeId ∧
      (segments.length : ℤ) =
        (s.takeDomains segmentSize needed domains).segmentsTaken - s.segmentsTaken ∧
      (∀ segment ∈ segments, (segment.length : ℤ) = segmentSize ∧
        ∃ p ∈ domains, segment ⊆ p.2) ∧
      segments.flatten.Sublist (domains.flatMap Prod.snd) := by
  induction domains generalizing s with
  | nil => exact ⟨[], by simp [takeDomains]⟩
  | cons p domains ih =>
    rw [takeDomains]
    split
    case isTrue hdone => exact ⟨[], by simp⟩
    case isFalse hmore =>
      have htaken := segmentsTaken_takeDomain s needed p.2 hsize
      obtain ⟨first, hids, hlen, hfirst, hsub⟩ :=
        selected_takeDomain p.2 hsize h
      obtain ⟨rest, hids', hlen', hrest, hsub'⟩ :=
        ih (s := s.takeDomain segmentSize needed p.2) (by omega)
      refine ⟨first ++ rest, ?_, ?_, ?_, ?_⟩
      · rw [hids', hids, List.flatten_append, List.map_append, List.append_assoc]
      · rw [List.length_append, Nat.cast_add, hlen, hlen']
        omega
      · intro segment hmem
        cases List.mem_append.mp hmem with
        | inl hmem =>
          obtain ⟨hsegment, hin⟩ := hfirst segment hmem
          exact ⟨hsegment, p, List.mem_cons_self, hin⟩
        | inr hmem =>
          obtain ⟨hsegment, q, hq, hin⟩ := hrest segment hmem
          exact ⟨hsegment, q, List.mem_cons_of_mem p hq, hin⟩
      · rw [List.flatten_append, List.flatMap_cons]
        exact hsub.append hsub'

end SegmentSelection

/-! ## The domains -/

section Domains
variable {topology : Topology}

theorem filter_known (nodes : List TopologyNode) {domain : String}
    (h : domain ≠ nvlinkDomainUnknown) :
    ((nodes.filter fun node => node.domain ≠ nvlinkDomainUnknown).filter fun node =>
      node.domain = domain) = nodes.filter fun node => node.domain = domain := by
  rw [List.filter_filter]
  refine List.filter_congr ?_
  intro node _
  by_cases heq : node.domain = domain
  · simp [heq, h]
  · simp [heq]

/-- The nodes of a known domain. -/
theorem mem_domainNodes {domain : String} {nodes : List TopologyNode}
    (h : (domain, nodes) ∈ domainNodes topology) :
    domain ≠ nvlinkDomainUnknown ∧
      nodes.Perm (topology.nodes.filter fun node => node.domain = domain) := by
  obtain ⟨⟨domain', group⟩, hgroup, heq⟩ := List.mem_map.mp h
  simp only [Prod.mk.injEq] at heq
  obtain ⟨rfl, rfl⟩ := heq
  obtain ⟨hdomain, rfl⟩ := mem_groupBy.mp hgroup
  obtain ⟨node, hnode, rfl⟩ := List.mem_map.mp hdomain
  have hknown : node.domain ≠ nvlinkDomainUnknown := by
    simpa using (List.mem_filter.mp hnode).2
  refine ⟨hknown, (List.mergeSort_perm _ _).trans (List.Perm.of_eq ?_)⟩
  exact filter_known topology.nodes hknown

/-- The domains hold the nodes of known domains, each once. -/
theorem flatMap_sortedDomains_perm (topology : Topology) :
    ((sortedDomains topology).flatMap Prod.snd).Perm
      (topology.nodes.filter fun node => node.domain ≠ nvlinkDomainUnknown) := by
  have hsorted : ((sortedDomains topology).flatMap Prod.snd).Perm
      ((domainNodes topology).flatMap Prod.snd) :=
    (List.mergeSort_perm _ _).flatMap_right _
  refine hsorted.trans (List.Perm.trans ?_ (flatMap_groupBy_perm TopologyNode.domain _))
  rw [domainNodes, List.flatMap_map]
  exact List.Perm.flatMap_left _ fun p _ => List.mergeSort_perm _ _

/-- The complete segments of the domains are those of the known domains. -/
theorem segmentsIn_sortedDomains (topology : Topology) (segmentSize : ℤ) :
    SegmentSelection.segmentsIn segmentSize (sortedDomains topology) =
      ∑ domain ∈ topology.knownDomains, (topology.domainSize domain : ℤ) / segmentSize := by
  have hperm : (sortedDomains topology).Perm (domainNodes topology) := List.mergeSort_perm _ _
  rw [SegmentSelection.segmentsIn, (hperm.map _).sum_eq, domainNodes, List.map_map]
  simp only [Function.comp_def, List.length_mergeSort]
  rw [sum_groupBy TopologyNode.domain _ fun group => (group.length : ℤ) / segmentSize]
  refine Finset.sum_congr ?_ ?_
  · ext domain
    simp only [Topology.knownDomains, List.mem_toFinset, List.mem_map, List.mem_filter,
      Finset.mem_erase, decide_eq_true_eq]
    constructor
    · rintro ⟨node, ⟨hmem, hknown⟩, rfl⟩
      exact ⟨hknown, node, hmem, rfl⟩
    · rintro ⟨hknown, node, hmem, rfl⟩
      exact ⟨node, ⟨hmem, hknown⟩, rfl⟩
  · intro domain hdomain
    have hknown : domain ≠ nvlinkDomainUnknown := (Finset.mem_erase.mp hdomain).1
    rw [Topology.domainSize, filter_known topology.nodes hknown]

end Domains

/-! ## The selection -/

/-- What the domains of a topology are taken to. -/
def segmentSelection (topology : Topology) (segmentSize numSegmentsNeeded : ℤ) :
    SegmentSelection :=
  SegmentSelection.takeDomains segmentSize numSegmentsNeeded {} (sortedDomains topology)

section Selection
variable {topology : Topology} {segmentSize numNodes needed : ℤ}

/-- To need less than nothing is to need nothing. -/
theorem segmentSelection_max (topology : Topology) (segmentSize needed : ℤ) :
    segmentSelection topology segmentSize (max needed 0) =
      segmentSelection topology segmentSize needed := by
  cases le_or_gt needed 0 with
  | inl hle =>
    rw [max_eq_right hle]
    exact (SegmentSelection.takeDomains_of_done (s := {}) (le_refl (0 : ℤ))).trans
      (SegmentSelection.takeDomains_of_done (s := {}) hle).symm
  | inr hlt => rw [max_eq_left hlt.le]

theorem segmentsTaken_segmentSelection (topology : Topology) (hsize : 0 < segmentSize)
    (hneeded : 0 ≤ needed) :
    (segmentSelection topology segmentSize needed).segmentsTaken = min needed
      (∑ domain ∈ topology.knownDomains, (topology.domainSize domain : ℤ) / segmentSize) := by
  rw [segmentSelection, SegmentSelection.segmentsTaken_takeDomains hsize hneeded,
    segmentsIn_sortedDomains, zero_add]

/-- The nodes selected are complete segments. -/
theorem selected_segmentSelection (topology : Topology) (hsize : 0 < segmentSize)
    (hneeded : 0 ≤ needed) :
    ∃ segments : List (List String),
      (segmentSelection topology segmentSize needed).selectedNodeIds = segments.flatten ∧
      (segments.length : ℤ) =
        (segmentSelection topology segmentSize needed).segmentsTaken ∧
      ∀ segment ∈ segments, topology.IsSegment segmentSize segment := by
  obtain ⟨segments, hids, hlen, hsegments, -⟩ :=
    SegmentSelection.selected_takeDomains (s := {}) (sortedDomains topology) hsize hneeded
  refine ⟨segments.map (List.map TopologyNode.nodeId), ?_, ?_, ?_⟩
  · rw [segmentSelection, hids, List.nil_append, List.map_flatten]
  · rw [List.length_map, hlen, sub_zero]
    rfl
  · intro ids hids
    obtain ⟨segment, hsegment, rfl⟩ := List.mem_map.mp hids
    obtain ⟨hsegmentSize, ⟨domain, nodes⟩, hmem, hin⟩ := hsegments segment hsegment
    obtain ⟨hknown, hnodes⟩ := mem_domainNodes (List.mem_mergeSort.mp hmem)
    refine ⟨by rw [List.length_map, hsegmentSize], domain, hknown, ?_⟩
    intro nodeId hnodeId
    obtain ⟨node, hnode, rfl⟩ := List.mem_map.mp hnodeId
    have hfrom := List.mem_filter.mp (hnodes.mem_iff.mp (hin hnode))
    exact ⟨node, hfrom.1, rfl, of_decide_eq_true hfrom.2⟩

/-- No node is selected twice. -/
theorem nodup_segmentSelection (topology : Topology) (hsize : 0 < segmentSize)
    (hneeded : 0 ≤ needed) :
    (segmentSelection topology segmentSize needed).selectedNodeIds.Nodup := by
  obtain ⟨segments, hids, -, -, hsub⟩ :=
    SegmentSelection.selected_takeDomains (s := {}) (sortedDomains topology) hsize hneeded
  rw [segmentSelection, hids, List.nil_append]
  have hfrom : (((sortedDomains topology).flatMap Prod.snd).map TopologyNode.nodeId).Nodup := by
    rw [((flatMap_sortedDomains_perm topology).map _).nodup_iff]
    exact topology.nodup.sublist (List.filter_sublist.map _)
  exact hfrom.sublist (hsub.map _)

/-- For sensible numbers the call is told by the number of segments taken. -/
theorem selectSegmentNodes_eq (hsize : 0 < segmentSize) (hdvd : segmentSize ∣ numNodes) :
    selectSegmentNodes topology segmentSize numNodes =
      let s := segmentSelection topology segmentSize (numNodes / segmentSize)
      if s.segmentsTaken < numNodes / segmentSize then
        .error ⟨.resourceInsufficientError,
          s!"Cannot form {numNodes / segmentSize} complete segments of {segmentSize} nodes. "
            ++ s!"Nodes per domain: {domainSummary (sortedDomains topology)}. "
            ++ s!"Need {numNodes} nodes total."⟩
      else
        .ok (s.selectedNodeIds, (topology.nodes.map TopologyNode.nodeId).filter fun nodeId =>
          nodeId ∉ s.selectedNodeIds) := by
  rw [selectSegmentNodes, if_neg hsize.ne', Int.fmod_eq_emod_of_nonneg _ hsize.le,
    if_neg (by simp [Int.emod_eq_zero_of_dvd hdvd]), Int.fdiv_eq_ediv_of_nonneg _ hsize.le]
  rfl

/-- A number of nodes that is no multiple of the size of a segment is refused before any
domain is looked at. -/
theorem selectSegmentNodes_of_not_dvd (hsize : 0 < segmentSize)
    (hdvd : ¬segmentSize ∣ numNodes) :
    selectSegmentNodes topology segmentSize numNodes =
      .error ⟨.valueError,
        s!"num_nodes ({numNodes}) must be divisible by segment_size ({segmentSize})."⟩ := by
  rw [selectSegmentNodes, if_neg hsize.ne', Int.fmod_eq_emod_of_nonneg _ hsize.le,
    if_pos fun h => hdvd (Int.dvd_of_emod_eq_zero h)]

theorem sum_segments_nonneg (topology : Topology) (hsize : 0 < segmentSize) :
    0 ≤ ∑ domain ∈ topology.knownDomains, (topology.domainSize domain : ℤ) / segmentSize :=
  Finset.sum_nonneg fun _ _ => Int.ediv_nonneg (Int.natCast_nonneg _) hsize.le

/-- The number of nodes in segments of one size. -/
theorem length_flatten_segments {segments : List (List String)}
    (h : ∀ segment ∈ segments, topology.IsSegment segmentSize segment) :
    (segments.flatten.length : ℤ) = segments.length * segmentSize := by
  induction segments with
  | nil => simp
  | cons segment segments ih =>
    have hfirst : (segment.length : ℤ) = segmentSize := (h segment List.mem_cons_self).1
    have hrest := ih fun other hother => h other (List.mem_cons_of_mem segment hother)
    rw [List.flatten_cons, List.length_append, Nat.cast_add, hfirst, hrest, List.length_cons,
      Nat.cast_succ]
    ring

end Selection

/-- A number of nodes that is no multiple of the size of a segment is refused. Otherwise the
call raises for want of segments exactly where the known domains do not have enough complete
ones, and else returns so many nodes in complete segments, and all other nodes. -/
theorem selectSegmentNodes_spec (topology : Topology) (segmentSize numNodes : ℤ)
    (hsize : 0 < segmentSize) :
    (¬segmentSize ∣ numNodes →
      ∃ message, selectSegmentNodes topology segmentSize numNodes =
        .error ⟨.valueError, message⟩) ∧
    (segmentSize ∣ numNodes →
      ((∃ message, selectSegmentNodes topology segmentSize numNodes =
          .error ⟨.resourceInsufficientError, message⟩) ↔
        ∑ domain ∈ topology.knownDomains, (topology.domainSize domain : ℤ) / segmentSize <
          numNodes / segmentSize) ∧
      (numNodes / segmentSize ≤
          ∑ domain ∈ topology.knownDomains, (topology.domainSize domain : ℤ) / segmentSize →
        ∃ selected remaining,
          selectSegmentNodes topology segmentSize numNodes = .ok (selected, remaining) ∧
          (selected.length : ℤ) = max numNodes 0 ∧ selected.Nodup ∧
          (∃ segments : List (List String), selected = segments.flatten ∧
            ∀ segment ∈ segments, topology.IsSegment segmentSize segment) ∧
          remaining = (topology.nodes.map TopologyNode.nodeId).filter fun nodeId =>
            nodeId ∉ selected)) := by
  refine ⟨fun hdvd => ⟨_, selectSegmentNodes_of_not_dvd hsize hdvd⟩, fun hdvd => ?_⟩
  have hneeded : 0 ≤ max (numNodes / segmentSize) 0 := le_max_right _ _
  have hsum := sum_segments_nonneg topology hsize
  have htaken := segmentsTaken_segmentSelection topology hsize hneeded
  obtain ⟨segments, hids, hlen, hsegments⟩ :=
    selected_segmentSelection topology hsize hneeded
  have hnodup := nodup_segmentSelection topology hsize hneeded
  rw [segmentSelection_max] at htaken hids hlen hnodup
  rw [selectSegmentNodes_eq hsize hdvd]
  dsimp only
  constructor
  · constructor
    · rintro ⟨message, h⟩
      split at h
      case isTrue hfew => omega
      case isFalse => simp at h
    · intro hfew
      rw [if_pos (by omega)]
      exact ⟨_, rfl⟩
  · intro henough
    rw [if_neg (by omega)]
    refine ⟨_, _, rfl, ?_, hnodup, ⟨segments, hids, hsegments⟩, rfl⟩
    have hall : (segments.length : ℤ) = max (numNodes / segmentSize) 0 := by omega
    rw [hids, length_flatten_segments hsegments, hall, max_mul_of_nonneg _ _ hsize.le,
      Int.ediv_mul_cancel hdvd, zero_mul]

/-- Three nodes of two domains, in one segment of two. -/
theorem selectSegmentNodes_spec_pair :
    ∃ selected remaining,
      selectSegmentNodes ⟨[⟨"a", "d", 1⟩, ⟨"b", "unknown", -1⟩, ⟨"c", "d", 0⟩], by decide⟩ 2 2 =
        .ok (selected, remaining) ∧ (selected.length : ℤ) = max 2 0 := by
  obtain ⟨selected, remaining, heq, hlen, -⟩ :=
    ((selectSegmentNodes_spec ⟨[⟨"a", "d", 1⟩, ⟨"b", "unknown", -1⟩, ⟨"c", "d", 0⟩],
      by decide⟩ 2 2 (by decide)).2 (by decide)).2 (by decide)
  exact ⟨selected, remaining, heq, hlen⟩

/-- One node is too few for three, but the call refuses three for segments of two without
looking. -/
theorem not_selectSegmentNodes_three :
    ¬((∃ message, selectSegmentNodes ⟨[⟨"a", "d", 0⟩], by decide⟩ 2 3 =
        .error ⟨.resourceInsufficientError, message⟩) ↔
      (∑ domain ∈ Topology.knownDomains ⟨[⟨"a", "d", 0⟩], by decide⟩,
        Topology.domainSize ⟨[⟨"a", "d", 0⟩], by decide⟩ domain / 2 : ℤ) < 3 / 2) := by
  intro h
  obtain ⟨message, herror⟩ := h.mpr (by decide)
  rw [selectSegmentNodes_of_not_dvd (by decide) (by decide)] at herror
  simp at herror

end NemoRL.Distributed
