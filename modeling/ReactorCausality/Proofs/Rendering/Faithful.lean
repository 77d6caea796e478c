import ReactorCausality.Proofs.Graph.Exactness
import ReactorCausality.Proofs.Program.Declared
import ReactorCausality.Proofs.Rendering.Drawing

/-!
The written graph shows the program. Whatever the names contain, the clusters that are read stand in one
another as the reactors do, every node is declared once, in the cluster of the reactor that declares what it
stands for, the arrows are the edges in their order, and every label is the text that was to be written
(`dot_faithful`).
-/
namespace ReactorCausality

namespace Dot

/-! ### What is to be read -/

mutual

/-- The cluster of a reactor with those of its children in it. -/
def outlineOf (index : Index) : Reactor → Outline
  | ⟨id, _, _, _, _, children, _, _⟩ =>
    .block (clusterHead id) [.quoted (index.reactorName id)] (outlinesOf index children)

def outlinesOf (index : Index) : List Reactor → List Outline
  | [] => []
  | reactor :: rest => outlineOf index reactor :: outlinesOf index rest

end

/-- A node with its position, in the cluster of its reactor. -/
def declarationOf (index : Index) (node : Node × Nat) : Declaration :=
  ⟨clusterHead node.1.reactor, nodeText node.2, some (nodeAttributes index node.1)⟩

def arrowOf (steps : List (Nat × Nat)) (edge : Edge) : Arrow :=
  ⟨nodeText edge.source, nodeText edge.target, some (arrowAttributes steps edge)⟩

/-- What is read shows the graph of a program, with some steps in red. -/
structure Shows (body : List Statement) (program : Program) (index : Index)
    (steps : List (Nat × Nat)) : Prop where
  outlines : outlines body = [outlineOf index program.main]
  /-- No two reactors have clusters of the same name. -/
  clusters : (program.reactors.map fun reactor => clusterHead reactor.id).Nodup
  declared : (declarations body).Perm (index.graph.nodes.zipIdx.map (declarationOf index))
  once : ((declarations body).map Declaration.name).Nodup
  owned : ∀ node ∈ index.graph.nodes, ∃ reactor ∈ program.reactors,
    node.reactor = reactor.id ∧ reactor.Declares node.kind
  arrows : arrows body = index.graph.edges.map (arrowOf steps)

/-! ### Reading the drawing -/

theorem outlineOf_eq (index : Index) (reactor : Reactor) :
    outlineOf index reactor = .block (clusterHead reactor.id) [.quoted (index.reactorName reactor.id)]
      (reactor.children.map (outlineOf index)) := by
  have all (reactors : List Reactor) : outlinesOf index reactors = reactors.map (outlineOf index) := by
    induction reactors with
    | nil => rfl
    | cons reactor rest ih => rw [outlinesOf, ih, List.map_cons]
  cases reactor
  rw [outlineOf, all]

variable (graph : DependencyGraph) (index : Index)

theorem labels_own (id : ReactorId) :
    (ownStatements graph index id).filterMap label? = [.quoted (index.reactorName id)] := by
  have ofNodes : ((nodesOf graph id).map fun node => Statement.plain (nodeTokens index node)).filterMap
      label? = [] := by
    rw [List.filterMap_map, List.filterMap_eq_nil_iff]
    exact fun _ _ => rfl
  rw [ownStatements, List.filterMap_append, ofNodes]
  rfl

theorem outlines_own (id : ReactorId) : outlines (ownStatements graph index id) = [] := by
  rw [ownStatements, outlines_append, outlines_map_plain]
  rfl

theorem outlines_cluster (reactor : Reactor) :
    (cluster graph index reactor).outlines = [outlineOf index reactor] := by
  induction reactor using Reactor.induction_on_children with
  | step reactor ih =>
    have labels : (reactor.children.map (cluster graph index)).filterMap label? = [] := by
      rw [List.filterMap_map, List.filterMap_eq_nil_iff]
      exact fun child _ => by rw [Function.comp_apply, cluster_eq]; rfl
    have inner : outlines (reactor.children.map (cluster graph index)) =
        reactor.children.map (outlineOf index) := by
      rw [outlines_map, List.flatMap_congr ih, ← List.map_eq_flatMap]
    rw [cluster_eq, outlineOf_eq, Statement.outlines, List.filterMap_append, labels_own, labels,
      outlines_append, outlines_own, inner]
    rfl

/-- The statements in a cluster are those of its reactor and of the reactors below it. -/
theorem plains_cluster (inside : List Token) (reactor : Reactor) :
    (cluster graph index reactor).plains inside =
      reactor.preorder.flatMap fun reactor =>
        plains (clusterHead reactor.id) (ownStatements graph index reactor.id) := by
  induction reactor using Reactor.induction_on_children generalizing inside with
  | step reactor ih =>
    rw [cluster_eq, Statement.plains, plains_append, plains_map, Reactor.preorder_eq,
      List.flatMap_cons, List.flatMap_assoc]
    exact congrArg _ (List.flatMap_congr fun child member => ih child member _)

theorem number_injective {first second : Nat} (same : toString first = toString second) :
    first = second := by
  have digits := congrArg String.toList same
  simp only [Nat.toString_eq_repr, Nat.toList_repr] at digits
  rw [← @Nat.ofDigitChars_ten_toDigits first, digits, Nat.ofDigitChars_ten_toDigits]

theorem nodeText_injective : Function.Injective nodeText := by
  intro first second same
  rw [nodeText, nodeText, String.append_right_inj] at same
  exact number_injective same

theorem clusterHead_injective : Function.Injective clusterHead := by
  intro first second same
  simp only [clusterHead, EntityId.text, List.cons.injEq, Token.value.injEq, Value.word.injEq,
    String.append_right_inj, true_and, and_true] at same
  exact congrArg EntityId.mk (UInt32.toNat_inj.mp (number_injective same))

/-- The name of a node is no keyword. -/
theorem nodeText_notMem (position : Nat) : nodeText position ∉ ["graph", "node", "edge"] := by
  suffices Nat.toDigits 10 position ≠ ['o', 'd', 'e'] by
    simpa [nodeText, ← String.toList_inj] using this
  intro digits
  have member : 'o' ∈ Nat.toDigits 10 position := digits ▸ List.mem_cons_self
  exact absurd (Nat.isDigit_of_mem_toDigits (by decide) (by decide) member) (by decide)

theorem declaration?_nodeTokens (inside : List Token) (node : Node × Nat) :
    declaration? (inside, nodeTokens index node) =
      some ⟨inside, nodeText node.2, some (nodeAttributes index node.1)⟩ := by
  have unkeyed : declaration? (inside, nodeTokens index node) =
      if nodeText node.2 ∈ ["graph", "node", "edge"] then none else
        some ⟨inside, nodeText node.2, attributeList? (bracketed (nodeAttributes index node.1))⟩ := rfl
  rw [unkeyed, if_neg (nodeText_notMem _), attributeList?_bracketed]

theorem arrow?_arrowTokens (steps : List (Nat × Nat)) (edge : Edge) :
    arrow? (arrowTokens steps edge) = some (arrowOf steps edge) :=
  congrArg (fun pairs => some (Arrow.mk (nodeText edge.source) (nodeText edge.target) pairs))
    (attributeList?_bracketed _)

/-- What is picked out of the statements of a reactor, if nothing is out of its settings. -/
theorem filterMap_own {α : Type} {pick? : List Token × List Token → Option α} (id : ReactorId)
    (settings : (plains (clusterHead id) (clusterSettings index id)).filterMap pick? = []) :
    (plains (clusterHead id) (ownStatements graph index id)).filterMap pick? =
      (nodesOf graph id).filterMap fun node => pick? (clusterHead id, nodeTokens index node) := by
  rw [ownStatements, plains_append, plains_map_plain, List.filterMap_append, settings,
    List.filterMap_map]
  rfl

/-- What is picked out of the statements of the drawing. -/
theorem filterMap_drawing {α : Type} {pick? : List Token × List Token → Option α}
    (steps : List (Nat × Nat)) (settings : (plains [] drawingSettings).filterMap pick? = [])
    (ofOwn : ∀ id, (plains (clusterHead id) (clusterSettings index id)).filterMap pick? = []) :
    (plains [] (drawing graph index steps)).filterMap pick? =
      (index.main.preorder.flatMap fun reactor => (nodesOf graph reactor.id).filterMap fun node =>
        pick? (clusterHead reactor.id, nodeTokens index node)) ++
      graph.edges.filterMap fun edge => pick? ([], arrowTokens steps edge) := by
  rw [drawing, plains_append, plains, plains_map_plain, plains_cluster, List.filterMap_append,
    List.filterMap_append, settings, List.filterMap_flatMap, List.filterMap_map]
  simp only [filterMap_own graph index _ (ofOwn _)]
  rfl

theorem declarations_drawing (steps : List (Nat × Nat)) :
    declarations (drawing graph index steps) =
      index.main.preorder.flatMap fun reactor =>
        (nodesOf graph reactor.id).map (declarationOf index) := by
  have ofEdges : graph.edges.filterMap (fun edge => declaration? ([], arrowTokens steps edge)) = [] :=
    List.filterMap_eq_nil_iff.mpr fun _ _ => rfl
  rw [declarations, filterMap_drawing graph index steps rfl fun _ => rfl, ofEdges, List.append_nil]
  refine List.flatMap_congr fun reactor _ => ?_
  rw [← List.filterMap_eq_map]
  refine List.filterMap_congr fun node member => ?_
  have isOwn : node.1.reactor = reactor.id := by simpa using (List.mem_filter.mp member).2
  rw [declaration?_nodeTokens, Function.comp_apply, declarationOf, isOwn]

theorem arrows_drawing (steps : List (Nat × Nat)) :
    arrows (drawing graph index steps) = graph.edges.map (arrowOf steps) := by
  have ofNodes (id : ReactorId) :
      (nodesOf graph id).filterMap (fun node => arrow? (nodeTokens index node)) = [] :=
    List.filterMap_eq_nil_iff.mpr fun _ _ => rfl
  rw [arrows, filterMap_drawing graph index steps rfl fun _ => rfl, ← List.filterMap_eq_map]
  simp only [ofNodes, arrow?_arrowTokens]
  simp

theorem outlines_drawing (steps : List (Nat × Nat)) :
    outlines (drawing graph index steps) = [outlineOf index index.main] := by
  rw [drawing, outlines_append, outlines, outlines_cluster, outlines_map_plain]
  rfl

end Dot

namespace Index.Describes

open Dot

variable {index : Index} {program : Program} (described : index.Describes program)
include described

theorem nodup_reactorIds : (program.reactors.map Reactor.id).Nodup :=
  (described.distinctIds_iff.mp described.distinct).1

/-- Cluster by cluster, every node is found once. -/
theorem perm_nodesOf : (program.reactors.flatMap fun reactor => nodesOf index.graph reactor.id).Perm
    index.graph.nodes.zipIdx := by
  have owned : ∀ node ∈ index.graph.nodes.zipIdx, node.1.reactor ∈ program.reactors.map Reactor.id := by
    intro node listed
    obtain ⟨reactor, inside, owns, -⟩ :=
      described.owner_of_node (List.fst_mem_of_mem_zipIdx listed)
    exact owns ▸ List.mem_map_of_mem inside
  have found := Draft.perm_flatMap_filter (fun node : Node × Nat => node.1.reactor)
    index.graph.nodes.zipIdx described.nodup_reactorIds
  rw [List.flatMap_map, List.filter_eq_self.mpr (by simpa using owned)] at found
  exact found

theorem shows_drawing (steps : List (Nat × Nat)) :
    Shows (drawing index.graph index steps) program index steps := by
  have declared : (declarations (drawing index.graph index steps)).Perm
      (index.graph.nodes.zipIdx.map (declarationOf index)) := by
    rw [declarations_drawing, described.main, ← List.map_flatMap]
    exact described.perm_nodesOf.map _
  refine ⟨?_, ?_, declared, ?_, fun node => described.owner_of_node, arrows_drawing _ _ _⟩
  · rw [outlines_drawing, described.main]
  · have heads : program.reactors.map (fun reactor => clusterHead reactor.id) =
        (program.reactors.map Reactor.id).map clusterHead := by
      rw [List.map_map]
      rfl
    rw [heads]
    exact described.nodup_reactorIds.map clusterHead_injective
  · have names : (index.graph.nodes.zipIdx.map (declarationOf index)).map Declaration.name =
        (index.graph.nodes.zipIdx.map Prod.snd).map nodeText := by
      rw [List.map_map, List.map_map]
      rfl
    rw [(declared.map Declaration.name).nodup_iff, names, List.zipIdx_map_snd]
    exact (List.nodup_range' 1).map nodeText_injective

end Index.Describes

open Dot

/-- The written graph of an accepted program can be read, and what is read shows the graph. -/
theorem dot_faithful {program : Program} {index : Index} (accepted : Index.build program = .ok index)
    (report : Option CycleReport) :
    ∃ body, read? (index.graph.dot index report) =
        some [.block [.word "digraph", .word "reactors"] body] ∧
      Shows body program index ((report.map CycleReport.steps).getD []) := by
  have described := (Index.build_eq_ok_iff program index).mp accepted
  exact ⟨_, read?_dot index.graph index report, described.shows_drawing _⟩

/-- The names of a reactor and of its port look like parts of a written graph. -/
def Program.pretenders : Program where
  main :=
    { id := ⟨0⟩, name := "say \"\x7d\""
      children := [
        { id := ⟨1⟩, name := "C:\\\"; n7 [label=\"\n\x7d subgraph cluster_r9 \x7b"
          ports := [⟨⟨0⟩, "no.1\\\"]; n0 -> n0;", .input⟩]
          reactions := [{ id := ⟨0⟩, index := 0, triggers := [.port ⟨0⟩] }] }] }

theorem dot_faithful_pretenders : ∃ index, Index.build .pretenders = .ok index ∧
    ∃ body, read? (index.graph.dot index none) =
        some [.block [.word "digraph", .word "reactors"] body] ∧
      Shows body .pretenders index [] ∧
      outlines body = [.block [.word "subgraph", .word "cluster_r0"] [.quoted "say \"\x7d\""]
        [.block [.word "subgraph", .word "cluster_r1"]
          [.quoted "say \"\x7d\".C:\\\"; n7 [label=\"\n\x7d subgraph cluster_r9 \x7b"] []]] ∧
      arrows body = [⟨"n1", "n0", some []⟩] := by
  have accepted : Index.build .pretenders = .ok _ := rfl
  obtain ⟨body, read, shows⟩ := dot_faithful accepted none
  refine ⟨_, accepted, body, read, shows, ?_, ?_⟩
  · rw [shows.outlines]
    rfl
  · rw [shows.arrows]
    rfl

end ReactorCausality
