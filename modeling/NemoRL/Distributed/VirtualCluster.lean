import NemoRL.Error
import NemoRL.Lib.Grouping
import Mathlib.Data.String.Basic

/-!
# The nodes of a virtual cluster

Ray reports for each node the NVLink domain that it is in and its rank in the topology, and a
fixed name and rank where it knows neither. A cluster is placed on segments, each of a fixed
number of nodes of one domain.

What is printed and logged is left out.

## Main definitions

* `Topology` — the nodes that Ray reports.
* `selectSegmentNodes` — the nodes of enough complete segments, and the nodes that remain.
-/

namespace NemoRL.Distributed

open Lib

/-- The domain of a node that names none. -/
def nvlinkDomainUnknown : String := "unknown"

/-- The rank of a node that names none. -/
def topoRankUnknown : ℤ := -1

/-- A node of a topology, with its domain and its rank. -/
structure TopologyNode where
  nodeId : String
  domain : String
  topoRank : ℤ
  deriving DecidableEq, Repr

/-- A topology: a dictionary by node. -/
structure Topology where
  nodes : List TopologyNode
  nodup : (nodes.map TopologyNode.nodeId).Nodup

/-- The nodes of each domain that is known, by rank. -/
def domainNodes (topology : Topology) : List (String × List TopologyNode) :=
  (groupBy TopologyNode.domain
    (topology.nodes.filter fun node => node.domain ≠ nvlinkDomainUnknown)).map
      fun p => (p.1, p.2.mergeSort fun x y => x.topoRank ≤ y.topoRank)

/-- The rank of the first node of a domain. No domain is without a node. -/
def firstRank (nodes : List TopologyNode) : ℤ :=
  match nodes with
  | [] => topoRankUnknown
  | node :: _ => node.topoRank

/-- The domains by their least rank. -/
def sortedDomains (topology : Topology) : List (String × List TopologyNode) :=
  (domainNodes topology).mergeSort fun p q => firstRank p.2 ≤ firstRank q.2

/-- The nodes selected so far, and the number of their segments. -/
structure SegmentSelection where
  selectedNodeIds : List String := []
  segmentsTaken : ℤ := 0
  deriving DecidableEq, Repr

/-- Take from a domain as many complete segments as it has and are still needed. -/
def SegmentSelection.takeDomain (segmentSize numSegmentsNeeded : ℤ) (s : SegmentSelection)
    (nodes : List TopologyNode) : SegmentSelection :=
  let segmentsAvailable := (nodes.length : ℤ).fdiv segmentSize
  let segmentsToTake := min segmentsAvailable (numSegmentsNeeded - s.segmentsTaken)
  let nodesToTake := segmentsToTake * segmentSize
  { selectedNodeIds :=
      s.selectedNodeIds ++ (nodes.take nodesToTake.toNat).map TopologyNode.nodeId
    segmentsTaken := s.segmentsTaken + segmentsToTake }

/-- Go through the domains until enough segments are taken. -/
def SegmentSelection.takeDomains (segmentSize numSegmentsNeeded : ℤ) (s : SegmentSelection) :
    List (String × List TopologyNode) → SegmentSelection
  | [] => s
  | p :: domains =>
    if numSegmentsNeeded ≤ s.segmentsTaken then s
    else
      (s.takeDomain segmentSize numSegmentsNeeded p.2).takeDomains segmentSize
        numSegmentsNeeded domains

/-- The number of nodes of each domain, as it is printed. -/
def domainSummary (domains : List (String × List TopologyNode)) : String :=
  "\x7b" ++ ", ".intercalate (domains.map fun p => s!"'{p.1}': {p.2.length}") ++ "\x7d"

/-- The nodes of enough complete segments for `numNodes` nodes, in the order of the topology,
and the other nodes. -/
def selectSegmentNodes (topology : Topology) (segmentSize numNodes : ℤ) :
    Except PyError (List String × List String) :=
  if segmentSize = 0 then .error ⟨.zeroDivisionError, "integer modulo by zero"⟩
  else if numNodes.fmod segmentSize ≠ 0 then
    .error ⟨.valueError,
      s!"num_nodes ({numNodes}) must be divisible by segment_size ({segmentSize})."⟩
  else
    let numSegmentsNeeded := numNodes.fdiv segmentSize
    let s := SegmentSelection.takeDomains segmentSize numSegmentsNeeded {}
      (sortedDomains topology)
    if s.segmentsTaken < numSegmentsNeeded then
      .error ⟨.resourceInsufficientError,
        s!"Cannot form {numSegmentsNeeded} complete segments of {segmentSize} nodes. " ++
        s!"Nodes per domain: {domainSummary (sortedDomains topology)}. " ++
        s!"Need {numNodes} nodes total."⟩
    else
      .ok (s.selectedNodeIds,
        (topology.nodes.map TopologyNode.nodeId).filter fun nodeId =>
          nodeId ∉ s.selectedNodeIds)

end NemoRL.Distributed
