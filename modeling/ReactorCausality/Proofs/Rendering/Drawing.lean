import ReactorCausality.Proofs.Index.Tree
import ReactorCausality.Proofs.Rendering.Reader

/-!
The statements of a written graph: some settings, the cluster of the main reactor, in which every cluster
declares the nodes of its reactor around the clusters of its children, and an arrow for every edge. They are
what is read from the text, line by line, whatever the names contain (`read?_dot`).
-/
namespace ReactorCausality

namespace Dot

/-! ### Attributes -/

def attributeText : String × Value → String
  | (name, .word text) => name ++ "=" ++ text
  | (name, .quoted text) => name ++ "=" ++ quote text

/-- The name of an attribute is a word, and so is its value unless it is in quotes. -/
def IsSound : String × Value → Prop
  | (name, .word text) => IsWord name ∧ IsWord text
  | (name, .quoted _) => IsWord name

instance : (pair : String × Value) → Decidable (IsSound pair)
  | (name, .word text) => inferInstanceAs (Decidable (IsWord name ∧ IsWord text))
  | (name, .quoted _) => inferInstanceAs (Decidable (IsWord name))

def attributeTokens : String × Value → List Token
  | (name, value) => [.word name, .mark '=', .value value]

def separated (pairs : List (String × Value)) : List Token :=
  [Token.mark ','].intercalate (pairs.map attributeTokens)

/-- Attributes in brackets, or nothing if there are none. -/
def bracketed : List (String × Value) → List Token
  | [] => []
  | first :: rest => .mark '[' :: (separated (first :: rest) ++ [.mark ']'])

theorem separated_cons_cons (first second : String × Value) (rest : List (String × Value)) :
    separated (first :: second :: rest) =
      attributeTokens first ++ [.mark ','] ++ separated (second :: rest) :=
  List.intercalate_cons_cons

theorem attributes?_separated (first : String × Value) (rest : List (String × Value)) :
    attributes? (separated (first :: rest) ++ [.mark ']']) = some (first :: rest) := by
  induction rest generalizing first with
  | nil => rfl
  | cons second rest ih =>
    rw [separated_cons_cons]
    simp [attributeTokens, attributes?, ih second]

theorem attributeList?_bracketed (pairs : List (String × Value)) :
    attributeList? (bracketed pairs) = some pairs := by
  cases pairs with
  | nil => rfl
  | cons first rest => exact attributes?_separated first rest

theorem inner_bracketed (pairs : List (String × Value)) : Inner (bracketed pairs) := by
  have go (first : String × Value) (rest : List (String × Value)) :
      Inner (separated (first :: rest)) := by
    induction rest generalizing first with
    | nil => simp [Inner, separated, attributeTokens]
    | cons second rest ih =>
      rw [separated_cons_cons]
      exact List.forall_mem_append.mpr ⟨by simp [attributeTokens], ih second⟩
  cases pairs with
  | nil => simp [Inner, bracketed]
  | cons first rest =>
    refine List.forall_mem_cons.mpr ⟨by simp, List.forall_mem_append.mpr ⟨go first rest, by simp⟩⟩

theorem writes_attribute {pair : String × Value} (isSound : IsSound pair) :
    Writes (attributeText pair) (attributeTokens pair) := by
  have equals : Spells "=" [.mark '='] := fun _ => rfl
  obtain ⟨name, text | text⟩ := pair
  · obtain ⟨isName, isWord⟩ := isSound
    exact ((writes_word isName).append equals rfl rfl).append_writes (writes_word isWord)
  · exact (((writes_word isSound).append equals rfl rfl).append (spells_quote text)).writes

theorem writes_separated (first : String × Value) (rest : List (String × Value))
    (sound : ∀ pair ∈ first :: rest, IsSound pair) :
    Writes (", ".intercalate ((first :: rest).map attributeText)) (separated (first :: rest)) := by
  induction rest generalizing first with
  | nil =>
    have alone := writes_attribute (sound first List.mem_cons_self)
    simpa [separated] using alone
  | cons second rest ih =>
    obtain ⟨isSound, others⟩ := List.forall_mem_cons.mp sound
    have comma : Spells ", " [.mark ','] := fun _ => rfl
    rw [separated_cons_cons, List.map_cons, List.map_cons, String.intercalate_cons_cons]
    exact ((writes_attribute isSound).append comma rfl rfl).append_writes (ih second others)

/-! ### Lines -/

theorem spells_indent {line : String} {tokens : List Token} (spells : Spells line tokens)
    (level : Nat) : Spells (indent level line) tokens := by
  have blanks (count : Nat) : Spells ("".pushn ' ' count) [] := by
    induction count with
    | zero => exact fun _ => rfl
    | succ count ih =>
      intro before
      have pushed : "".pushn ' ' (count + 1) = ("".pushn ' ' count).push ' ' := rfl
      rw [pushed, String.toList_push, List.foldl_append, ih]
      rfl
  exact (blanks (4 * level)).append spells

theorem ofLines_cons (line : String) (lines : List String) :
    ofLines (line :: lines) = line ++ "\n" ++ ofLines lines := by
  simp [ofLines]

theorem ofLines_append (lines more : List String) :
    ofLines (lines ++ more) = ofLines lines ++ ofLines more := by
  simp [ofLines]

/-- Lines stand for statements. -/
def Lists (lines : List String) (statements : List Statement) : Prop :=
  Prints (ofLines lines) statements

theorem Lists.append {lines more : List String} {statements later : List Statement}
    (lists : Lists lines statements) (others : Lists more later) :
    Lists (lines ++ more) (statements ++ later) := by
  rw [Lists, ofLines_append]
  exact Prints.append lists others

theorem lists_nil : Lists [] [] :=
  ⟨[], fun _ => rfl, fun _ _ => rfl⟩

theorem lists_empty : Lists [""] [] :=
  ⟨[], fun _ => rfl, fun _ _ => rfl⟩

theorem lists_flatMap {α : Type} {lines : α → List String} {statement : α → Statement} {items : List α}
    (each : ∀ item ∈ items, Lists (lines item) [statement item]) :
    Lists (items.flatMap lines) (items.map statement) := by
  induction items with
  | nil => exact lists_nil
  | cons item rest ih =>
    obtain ⟨first, others⟩ := List.forall_mem_cons.mp each
    exact first.append (ih others)

theorem lists_map {α : Type} {line : α → String} {statement : α → Statement} {items : List α}
    (each : ∀ item ∈ items, Lists [line item] [statement item]) :
    Lists (items.map line) (items.map statement) := by
  rw [List.map_eq_flatMap]
  exact lists_flatMap each

theorem lists_plain {line : String} {tokens : List Token}
    (spells : Spells line (tokens ++ [.mark ';'])) (inner : Inner tokens) (level : Nat) :
    Lists [indent level line] [.plain tokens] := by
  refine ⟨tokens ++ [.mark ';'], ?_, inner.forms_plain⟩
  have ended : Spells "\n" [] := fun _ => rfl
  have whole := (spells_indent spells level).append ended
  rw [List.append_nil] at whole
  simpa [ofLines] using whole

/-- A line with attributes in brackets at its end. -/
theorem lists_bracketed {line text : String} {tokens : List Token} (writes : Writes text tokens)
    (inner : Inner tokens) {first : String × Value} {rest : List (String × Value)}
    (sound : ∀ pair ∈ first :: rest, IsSound pair)
    (line_eq : line = text ++ " [" ++ ", ".intercalate ((first :: rest).map attributeText) ++ "];")
    (level : Nat) : Lists [indent level line] [.plain (tokens ++ bracketed (first :: rest))] := by
  have opens : Spells " [" [.mark '['] := fun _ => rfl
  have closes : Spells "];" [.mark ']', .mark ';'] := fun _ => rfl
  have whole := ((writes.append opens rfl rfl).append_writes (writes_separated first rest sound)).append
    closes rfl rfl
  refine lists_plain ?_ (List.forall_mem_append.mpr ⟨inner, inner_bracketed _⟩) level
  rw [line_eq]
  simpa [bracketed] using whole

theorem lists_block {opening closing : String} {head : List Token} {lines : List String}
    {body : List Statement} (opens : Spells opening (head ++ [.mark '{'])) (inner : Inner head)
    (lists : Lists lines body) (closes : Spells closing [.mark '}']) :
    Lists (opening :: (lines ++ [closing])) [.block head body] := by
  obtain ⟨tokens, spells, forms⟩ := lists
  refine ⟨head ++ [.mark '{'] ++ tokens ++ [.mark '}'], ?_, inner.forms_block forms⟩
  have ended : Spells "\n" [] := fun _ => rfl
  have whole := ((opens.append ended).append spells).append (closes.append ended)
  simp only [List.append_nil] at whole
  rw [ofLines_cons, ofLines_append]
  simpa [ofLines, String.append_assoc] using whole

/-! ### The drawing -/

def nodeText (position : Nat) : String :=
  "n" ++ toString position

/-- What stands in front of the block of a reactor. -/
def clusterHead (id : ReactorId) : List Token :=
  [.word "subgraph", .word ("cluster_r" ++ id.text)]

def nodeAttributes (index : Index) (node : Node) : List (String × Value) :=
  [("label", .quoted (lastSegment node.name)), ("shape", .word (shape index node.kind))]

/-- What an edge looks like by its kind. -/
def style : EdgeKind → List (String × Value)
  | .order => [("style", .word "dotted")]
  | .connection _ (some (.delay time)) =>
    [("style", .word "dashed"), ("label", .quoted ("after " ++ time.literal))]
  | .connection _ (some .physical) => [("style", .word "dashed"), ("label", .quoted "physical")]
  | _ => []

def highlight (steps : List (Nat × Nat)) (edge : Edge) : List (String × Value) :=
  if isRed steps edge then [("color", .word "red"), ("penwidth", .word "2")] else []

/-- What is written of an edge beside its ends. -/
def arrowAttributes (steps : List (Nat × Nat)) (edge : Edge) : List (String × Value) :=
  style edge.kind ++ highlight steps edge

def setting (name : String) (value : Value) : Statement :=
  .plain [.word name, .mark '=', .value value]

def nodeTokens (index : Index) (node : Node × Nat) : List Token :=
  [.word (nodeText node.2)] ++ bracketed (nodeAttributes index node.1)

def arrowTokens (steps : List (Nat × Nat)) (edge : Edge) : List Token :=
  [.word (nodeText edge.source), .mark '-', .mark '>', .word (nodeText edge.target)]
    ++ bracketed (arrowAttributes steps edge)

/-- What all nodes or all edges look like. -/
def defaults (name size : String) : Statement :=
  .plain ([.word name] ++ bracketed [("fontname", .quoted "Helvetica"), ("fontsize", .word size)])

/-- The nodes of a reactor, with their positions. -/
def nodesOf (graph : DependencyGraph) (id : ReactorId) : List (Node × Nat) :=
  graph.nodes.zipIdx.filter fun (node, _) => node.reactor = id

def clusterSettings (index : Index) (id : ReactorId) : List Statement :=
  [setting "label" (.quoted (index.reactorName id)), setting "style" (.word "rounded"),
    setting "color" (.word "gray50")]

/-- What the cluster of a reactor says without the clusters in it. -/
def ownStatements (graph : DependencyGraph) (index : Index) (id : ReactorId) : List Statement :=
  clusterSettings index id ++ (nodesOf graph id).map fun node => .plain (nodeTokens index node)

mutual

/-- What the cluster of a reactor says. -/
def cluster (graph : DependencyGraph) (index : Index) : Reactor → Statement
  | ⟨id, _, _, _, _, children, _, _⟩ =>
    .block (clusterHead id) (ownStatements graph index id ++ clusters graph index children)

def clusters (graph : DependencyGraph) (index : Index) : List Reactor → List Statement
  | [] => []
  | reactor :: rest => cluster graph index reactor :: clusters graph index rest

end

def drawingSettings : List Statement :=
  [setting "rankdir" (.word "LR"), defaults "node" "10", defaults "edge" "9"]

/-- What the whole graph says. -/
def drawing (graph : DependencyGraph) (index : Index) (steps : List (Nat × Nat)) : List Statement :=
  drawingSettings ++ cluster graph index index.main ::
    graph.edges.map fun edge => .plain (arrowTokens steps edge)

theorem cluster_eq (graph : DependencyGraph) (index : Index) (reactor : Reactor) :
    cluster graph index reactor = .block (clusterHead reactor.id)
      (ownStatements graph index reactor.id ++ reactor.children.map (cluster graph index)) := by
  have all (reactors : List Reactor) :
      clusters graph index reactors = reactors.map (cluster graph index) := by
    induction reactors with
    | nil => rfl
    | cons reactor rest ih => rw [clusters, ih, List.map_cons]
  cases reactor
  rw [cluster, all]

theorem clusterLines_eq (graph : DependencyGraph) (index : Index) (level : Nat) (reactor : Reactor) :
    clusterLines graph index level reactor =
      indent level ("subgraph cluster_r" ++ reactor.id.text ++ " \x7b") ::
        ([indent (level + 1) ("label=" ++ quote (index.reactorName reactor.id) ++ ";"),
            indent (level + 1) "style=rounded;", indent (level + 1) "color=gray50;"]
          ++ (nodesOf graph reactor.id).map (fun node => indent (level + 1) (nodeLine index node))
          ++ reactor.children.flatMap (clusterLines graph index (level + 1))
          ++ [indent level "\x7d"]) := by
  have all (reactors : List Reactor) : clustersLines graph index (level + 1) reactors =
      reactors.flatMap (clusterLines graph index (level + 1)) := by
    induction reactors with
    | nil => rfl
    | cons reactor rest ih => rw [clustersLines, ih, List.flatMap_cons]
  cases reactor
  rw [clusterLines, all]
  rfl

/-! ### The text of the drawing -/

theorem isPlain_of_isDigit {c : Char} (isDigit : c.isDigit) : isPlain c := by
  have differs (d : Char) (noDigit : d.isDigit = false) : c ≠ d := by
    rintro rfl
    exact absurd isDigit (by simp [noDigit])
  simp [isPlain, isBlank, isMark, differs]

theorem isWord_append_digits {text : String} (isWord : IsWord text) (number : Nat) :
    IsWord (text ++ toString number) := by
  obtain ⟨nonempty, plain⟩ := isWord
  refine ⟨by simp [nonempty], List.all_eq_true.mpr fun c member => ?_⟩
  rw [String.toList_append, Nat.toString_eq_repr, Nat.toList_repr] at member
  rcases List.mem_append.mp member with inside | inside
  · exact List.all_eq_true.mp plain c inside
  · exact isPlain_of_isDigit (Nat.isDigit_of_mem_toDigits (by decide) (by decide) inside)

theorem writes_nodeText (position : Nat) : Writes (nodeText position) [.word (nodeText position)] :=
  writes_word (isWord_append_digits (by decide) position)

theorem lists_setting (pair : String × Value) (isSound : IsSound pair) (level : Nat) :
    Lists [indent level (attributeText pair ++ ";")] [setting pair.1 pair.2] := by
  have ended : Spells ";" [.mark ';'] := fun _ => rfl
  exact lists_plain ((writes_attribute isSound).append ended rfl rfl)
    (by simp [Inner, attributeTokens]) level

theorem isWord_shape (index : Index) (kind : NodeKind) : IsWord (shape index kind) := by
  have words : ∀ text ∈ ["box", "invhouse", "house"], IsWord text := by decide
  refine words _ ?_
  unfold shape
  split
  · simp
  · split <;> simp

theorem lists_node (index : Index) (node : Node × Nat) (level : Nat) :
    Lists [indent level (nodeLine index node)] [.plain (nodeTokens index node)] := by
  obtain ⟨node, position⟩ := node
  have sound : ∀ pair ∈ nodeAttributes index node, IsSound pair := by
    simpa [nodeAttributes, IsSound, isWord_shape] using ⟨by decide, by decide⟩
  have written : nodeLine index (node, position) = nodeText position ++ " [label=" ++
    quote (lastSegment node.name) ++ ", shape=" ++ shape index node.kind ++ "];" := rfl
  refine lists_bracketed (writes_nodeText position) (by simp [Inner]) sound ?_ level
  simp [← String.toList_inj, written, attributeText]

/-- A line for an edge, in terms of its attributes. -/
theorem edgeLine_eq (steps : List (Nat × Nat)) (edge : Edge) :
    let ends := nodeText edge.source ++ " -> " ++ nodeText edge.target
    edgeLine steps edge = match (arrowAttributes steps edge).map attributeText with
      | [] => ends ++ ";"
      | texts => ends ++ " [" ++ ", ".intercalate texts ++ "];" := by
  have ofKind : kindAttributes edge.kind = (style edge.kind).map attributeText := by
    cases edge.kind with
    | connection id broken => rcases broken with _ | (_ | time) <;> rfl
    | _ => rfl
  have ofRed : (if isRed steps edge then ["color=red", "penwidth=2"] else []) =
      (highlight steps edge).map attributeText := by
    unfold highlight
    split <;> rfl
  have ends_eq : "n" ++ toString edge.source ++ " -> n" ++ toString edge.target =
      nodeText edge.source ++ " -> " ++ nodeText edge.target := by
    simp [← String.toList_inj, nodeText]
  intro ends
  rw [edgeLine, ofKind, ofRed, ← List.map_append]
  change (match (arrowAttributes steps edge).map attributeText with | [] => _ | texts => _) = _
  cases (arrowAttributes steps edge).map attributeText with
  | nil => exact congrArg (· ++ ";") ends_eq
  | cons first rest => exact congrArg (· ++ " [" ++ ", ".intercalate (first :: rest) ++ "];") ends_eq

theorem isSound_arrowAttributes (steps : List (Nat × Nat)) (edge : Edge) :
    ∀ pair ∈ arrowAttributes steps edge, IsSound pair := by
  have ofKind : ∀ pair ∈ style edge.kind, IsSound pair := by
    cases edge.kind with
    | connection id broken => rcases broken with _ | (_ | time) <;> simp [style, IsSound] <;> decide
    | _ => decide
  have ofRed : ∀ pair ∈ highlight steps edge, IsSound pair := by
    unfold highlight
    split <;> decide
  exact List.forall_mem_append.mpr ⟨ofKind, ofRed⟩

theorem lists_arrow (steps : List (Nat × Nat)) (edge : Edge) :
    Lists [indent 1 (edgeLine steps edge)] [.plain (arrowTokens steps edge)] := by
  have arrow : Spells " -> " [.mark '-', .mark '>'] := fun _ => rfl
  have ended : Spells ";" [.mark ';'] := fun _ => rfl
  have ends := ((writes_nodeText edge.source).append arrow rfl rfl).append_writes
    (writes_nodeText edge.target)
  have sound := isSound_arrowAttributes steps edge
  have line_eq := edgeLine_eq steps edge
  unfold arrowTokens
  cases pairs : arrowAttributes steps edge with
  | nil =>
    rw [pairs] at line_eq
    exact lists_plain (line_eq ▸ ends.append ended rfl rfl) (by simp [Inner, bracketed]) 1
  | cons first rest =>
    rw [pairs] at line_eq sound
    exact lists_bracketed ends (by simp [Inner]) sound line_eq 1

theorem lists_cluster (graph : DependencyGraph) (index : Index) (reactor : Reactor) (level : Nat) :
    Lists (clusterLines graph index level reactor) [cluster graph index reactor] := by
  induction reactor using Reactor.induction_on_children generalizing level with
  | step reactor ih =>
    rw [clusterLines_eq, cluster_eq]
    have opens : Spells ("subgraph " ++ ("cluster_r" ++ reactor.id.text) ++ " \x7b")
        (clusterHead reactor.id ++ [.mark '{']) := by
      have subgraph : Spells "subgraph " [.word "subgraph"] := fun _ => rfl
      have brace : Spells " \x7b" [.mark '{'] := fun _ => rfl
      have isWord : IsWord ("cluster_r" ++ reactor.id.text) := isWord_append_digits (by decide) _
      exact (subgraph.append_writes (writes_word isWord)).append brace rfl rfl
    rw [← String.append_assoc] at opens
    refine lists_block (spells_indent opens level) (by simp [Inner, clusterHead])
      (.append (.append ?_ ?_) ?_) (spells_indent (fun _ => rfl) level)
    · have named : IsSound ("label", .quoted (index.reactorName reactor.id)) :=
        (by decide : IsWord "label")
      have label := lists_setting ("label", .quoted (index.reactorName reactor.id)) named (level + 1)
      have style := lists_setting ("style", .word "rounded") (by decide) (level + 1)
      have color := lists_setting ("color", .word "gray50") (by decide) (level + 1)
      exact (label.append style).append color
    · exact lists_map fun node _ => lists_node index node (level + 1)
    · exact lists_flatMap fun child member => ih child member (level + 1)

/-- What stands between the outermost braces. -/
theorem lists_drawing (graph : DependencyGraph) (index : Index) (steps : List (Nat × Nat)) :
    Lists ([indent 1 "rankdir=LR;",
        indent 1 ("node [fontname=" ++ quote "Helvetica" ++ ", fontsize=10];"),
        indent 1 ("edge [fontname=" ++ quote "Helvetica" ++ ", fontsize=9];")] ++ [""]
        ++ clusterLines graph index 1 index.main ++ [""]
        ++ graph.edges.map fun edge => indent 1 (edgeLine steps edge))
      (drawing graph index steps) := by
  have direction : Lists [indent 1 "rankdir=LR;"] [setting "rankdir" (.word "LR")] :=
    lists_setting ("rankdir", .word "LR") (by decide) 1
  have nodes : Lists [indent 1 ("node [fontname=" ++ quote "Helvetica" ++ ", fontsize=10];")]
      [defaults "node" "10"] :=
    lists_bracketed (writes_word (by decide : IsWord "node")) (by simp [Inner]) (by decide)
      (by simp [← String.toList_inj, attributeText]) 1
  have edges : Lists [indent 1 ("edge [fontname=" ++ quote "Helvetica" ++ ", fontsize=9];")]
      [defaults "edge" "9"] :=
    lists_bracketed (writes_word (by decide : IsWord "edge")) (by simp [Inner]) (by decide)
      (by simp [← String.toList_inj, attributeText]) 1
  have arrows : Lists (graph.edges.map fun edge => indent 1 (edgeLine steps edge))
      (graph.edges.map fun edge => .plain (arrowTokens steps edge)) :=
    lists_map fun edge _ => lists_arrow steps edge
  have clusters := lists_cluster graph index index.main 1
  have whole := (((((direction.append nodes).append edges).append lists_empty).append clusters).append
    lists_empty).append arrows
  simpa [drawing, drawingSettings] using whole

/-- The text of a graph is read as the drawing of it. -/
theorem read?_dot (graph : DependencyGraph) (index : Index) (report : Option CycleReport) :
    read? (graph.dot index report) = some [.block [.word "digraph", .word "reactors"]
      (drawing graph index ((report.map CycleReport.steps).getD []))] := by
  have opens : Spells "digraph reactors \x7b"
      ([.word "digraph", .word "reactors"] ++ [.mark '{']) := fun _ => rfl
  have inside := lists_drawing graph index ((report.map CycleReport.steps).getD [])
  have whole := lists_block opens (by simp [Inner]) inside (fun _ => rfl : Spells "\x7d" [.mark '}'])
  refine Prints.read? ?_
  simpa [Lists, DependencyGraph.dot] using whole

end Dot

end ReactorCausality
