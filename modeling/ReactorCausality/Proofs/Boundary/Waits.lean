import ReactorCausality.Proofs.Boundary.Bound
import ReactorCausality.Proofs.Graph.Connections
import ReactorCausality.Proofs.Revision

/-!
How long receivers wait. The wait at an edge is computed from the longest offset that is declared behind
it, or the default offset, and from the latency of the network, less the delay of a logical connection
(`Fits.waitsFrom`). So no wait gets shorter when the policy and the declared offsets become longer, and none
gets longer when its own connection is delayed more (`receiver_waits`).
-/
namespace ReactorCausality

open Relation

/-- Of two waits, the second has a bound if the first has one, and it is no shorter; and it has none if
the first has none. -/
def TimeValue.NoLonger (first second : Option TimeValue) : Prop :=
  Option.Rel (· ≤ ·) first second

/-- What is left of a duration when a delay is taken from it. -/
structure TimeValue.Leaves (base delay wait : TimeValue) : Prop where
  endless : base = .forever → delay ≠ .forever → wait = .forever
  clamped : (base = .forever → delay = .forever) →
    wait.nanos.toNat = base.nanos.toNat - delay.nanos.toNat

namespace BoundarySetting

/-- The offsets that are declared behind an edge: by reactions of the receiver that read its target, or a
port to which a path over unbroken connections leads from the target in the graph. -/
def offsetsBehind (setting : BoundarySetting) (program : Program) (edge : BoundaryEdge) :
    Set TimeValue :=
  { offset | ∃ reaction ∈ program.reactions, reaction.safeToProcess = some offset ∧
    setting.federateOfReaction reaction.id = edge.receiver ∧
    ∃ port ∈ reaction.readPorts, port = edge.target ∨
      (setting.graph.pathLengths .zeroDelay edge.target port).Nonempty }

/-- The wait at an edge comes from an offset, and from the longer of the offset and the latency of the
network. -/
structure WaitsFrom (setting : BoundarySetting) (program : Program) (edge : BoundaryEdge)
    (offset base : Option TimeValue) : Prop where
  chosen : (∃ longest, IsGreatest (setting.offsetsBehind program edge) longest ∧
      offset = some longest) ∨
    setting.offsetsBehind program edge = ∅ ∧ offset = setting.policy.defaultOffset
  unknown : base = none ↔ setting.policy.networkLatency = none ∧ offset = none
  longest : ∀ longest, base = some longest → IsGreatest
    { duration | setting.policy.networkLatency = some duration ∨ offset = some duration } longest
  unbounded : edge.bound = none ↔ base = none
  physical : edge.isPhysical → edge.bound = base
  logical : edge.isPhysical = false → ∀ longest, base = some longest →
    ∃ wait, edge.bound = some wait ∧ longest.Leaves (edge.delay.getD .zero) wait

end BoundarySetting

/-! ### Durations that are compared -/

namespace TimeValue

theorem leaves_sub (base delay : TimeValue) : base.Leaves delay (base.sub delay) :=
  ⟨sub_of_absorbed, toNat_sub⟩

theorem isGreatest_of_max?_eq_some {values : List TimeValue} {longest : TimeValue}
    (found : values.max? = some longest) : IsGreatest { value | value ∈ values } longest :=
  List.max?_eq_some_iff.mp found

namespace NoLonger

theorem refl (wait : Option TimeValue) : NoLonger wait wait := by
  cases wait with
  | none => exact .none
  | some value => exact .some (Std.le_refl value)

variable {first second : Option TimeValue} (noLonger : NoLonger first second)
include noLonger

theorem exists_longer {value : TimeValue} (isFirst : first = some value) :
    ∃ more, second = some more ∧ value ≤ more := by
  subst isFirst
  cases noLonger with
  | some le => exact ⟨_, rfl, le⟩

theorem exists_shorter {value : TimeValue} (isSecond : second = some value) :
    ∃ less, first = some less ∧ less ≤ value := by
  subst isSecond
  cases noLonger with
  | some le => exact ⟨_, rfl, le⟩

theorem map {f g : TimeValue → TimeValue}
    (rises : ∀ base more, base ≤ more → f base ≤ g more) :
    NoLonger (first.map f) (second.map g) := by
  cases noLonger with
  | none => exact .none
  | some le => exact .some (rises _ _ le)

theorem or {other more : Option TimeValue} (noLongerToo : NoLonger other more) :
    NoLonger (first.or other) (second.or more) := by
  cases noLonger with
  | none => exact noLongerToo
  | some le => exact .some le

theorem longer {other more : Option TimeValue} (noLongerToo : NoLonger other more) :
    NoLonger (BoundarySetting.longer first other) (BoundarySetting.longer second more) := by
  cases noLonger with
  | none => exact noLongerToo
  | some le =>
    cases noLongerToo with
    | none => exact .some le
    | some leToo =>
      exact .some (Std.LawfulOrderSup.max_le_iff _ _ _ |>.mpr
        ⟨Std.le_trans le Std.left_le_max, Std.le_trans leToo Std.right_le_max⟩)

omit noLonger in
/-- If for every duration among some there is one among others that is as long, the longest of the
others is as long as the longest. -/
theorem max? {values others : List TimeValue}
    (raised : ∀ value ∈ values, ∃ more ∈ others, value ≤ more) (empty : values = [] → others = []) :
    NoLonger values.max? others.max? := by
  cases found : values.max? with
  | none =>
    rw [empty (List.max?_eq_none_iff.mp found)]
    exact .none
  | some longest =>
    obtain ⟨more, isOther, le⟩ := raised longest (isGreatest_of_max?_eq_some found).1
    cases foundToo : others.max? with
    | none => simp [List.max?_eq_none_iff.mp foundToo] at isOther
    | some highest => exact .some (Std.le_trans le ((isGreatest_of_max?_eq_some foundToo).2 isOther))

end NoLonger

end TimeValue

theorem Index.LaysOut.declaresOffset_revise_iff {index : Index} {program : Program}
    (laidOut : index.LaysOut program) (ρ : Revision) {id : ReactionId} {offset : TimeValue} :
    (program.revise ρ).DeclaresOffset id offset ↔
      ∃ reaction ∈ program.reactions, reaction.id = id ∧ ρ.offset reaction = some offset := by
  rw [Program.DeclaresOffset, laidOut.program_reactions_revise]
  simp only [List.mem_map, exists_exists_and_eq_and]
  rfl

/-- Where a way begins, it need not come back: what leads to there makes no difference to what can be
reached. -/
theorem reflTransGen_iff_of_agree {α : Type} {follows other : α → α → Prop} {start : α}
    (agree : ∀ source target, target ≠ start → (follows source target ↔ other source target))
    {target : α} : ReflTransGen follows start target ↔ ReflTransGen other start target := by
  have transfer {follows other : α → α → Prop}
      (agree : ∀ source target, target ≠ start → follows source target → other source target)
      (reached : ReflTransGen follows start target) : ReflTransGen other start target := by
    induction reached with
    | refl => exact .refl
    | @tail source target _ step ih =>
      by_cases back : target = start
      · rw [back]
      · exact ih.tail (agree source target back step)
  exact ⟨transfer fun source target differs => (agree source target differs).mp,
    transfer fun source target differs => (agree source target differs).mpr⟩

namespace BoundarySetting

open TimeValue (NoLonger)

/-! ### What a wait comes from -/

section WaitsFrom

variable {setting : BoundarySetting} {program : Program} {edge : BoundaryEdge}
  (fits : setting.Fits program)
include fits

theorem Fits.mem_offsetsBehind_iff {offset : TimeValue} :
    offset ∈ setting.offsetsBehind program edge ↔ setting.OffsetBehind program edge offset := by
  have reached (port : PortId) : port = edge.target ∨
      (setting.graph.pathLengths .zeroDelay edge.target port).Nonempty ↔
        ReflTransGen program.Carries edge.target port := by
    rw [reflTransGen_iff_eq_or_transGen, program.carries_eq_feeds, ← LeadsIn.exists_iff, fits.graph_eq]
    exact or_congr_right (exists_congr fun _ => fits.described.mem_pathLengths_iff)
  simp only [offsetsBehind, Set.mem_ofPred_eq, reached]
  constructor
  · rintro ⟨reaction, declared, declares, inside, port, read, carried⟩
    exact ⟨reaction.id, ⟨inside, port, carried, reaction, declared, rfl, read⟩,
      reaction, declared, rfl, declares⟩
  · rintro ⟨id, ⟨inside, port, carried, reader, isReader, rfl, read⟩, reaction, declared, same, declares⟩
    obtain rfl := List.inj_on_of_nodup_map fits.described.nodup_reactionIds declared isReader same
    exact ⟨reaction, declared, declares, inside, port, read, carried⟩

theorem Fits.offsetsBehind_eq : setting.offsetsBehind program edge =
    { offset | offset ∈ setting.declaredOffsets edge.target edge.receiver } := by
  ext offset
  rw [fits.mem_offsetsBehind_iff, Set.mem_ofPred_eq, fits.mem_declaredOffsets_iff]

omit fits in
theorem isGreatest_of_longer_eq_some {first second : Option TimeValue} {longest : TimeValue}
    (found : longer first second = some longest) :
    IsGreatest { duration | first = some duration ∨ second = some duration } longest := by
  have longer_eq : longer first second = (first.toList ++ second.toList).max? := by
    cases first <;> cases second <;> rfl
  have known : { duration | first = some duration ∨ second = some duration } =
      { duration | duration ∈ first.toList ++ second.toList } := by
    ext duration
    simp
  rw [known]
  exact TimeValue.isGreatest_of_max?_eq_some (longer_eq ▸ found)

theorem Fits.waitsFrom (member : edge ∈ setting.edges) :
    ∃ offset base, setting.WaitsFrom program edge offset base := by
  let offset := (setting.declaredOffsets edge.target edge.receiver).max?.or
    setting.policy.defaultOffset
  have bound_eq := fits.bound_eq member
  refine ⟨offset, longer setting.policy.networkLatency offset, ?_⟩
  constructor
  case chosen =>
    rw [fits.offsetsBehind_eq]
    cases found : (setting.declaredOffsets edge.target edge.receiver).max? with
    | none =>
      refine .inr ⟨?_, by simp only [offset, found, Option.none_or]⟩
      simp [List.max?_eq_none_iff.mp found]
    | some longest =>
      exact .inl ⟨longest, TimeValue.isGreatest_of_max?_eq_some found, by
        simp only [offset, found, Option.some_or]⟩
  case unknown => exact longer_eq_none_iff
  case longest => exact fun longest found => isGreatest_of_longer_eq_some found
  case unbounded => rw [bound_eq, Option.map_eq_none_iff]
  case physical =>
    intro physical
    rw [bound_eq]
    simp [physical, offset]
  case logical =>
    intro logical longest found
    refine ⟨longest.sub (edge.delay.getD .zero), ?_, longest.leaves_sub _⟩
    rw [bound_eq, found, Option.map_some, logical]
    rfl

end WaitsFrom

/-! ### Waits that are compared -/

/-- An edge waits no longer than another if the durations behind it are matched by longer ones behind the
other, and no more of them is taken away there. -/
theorem Fits.noLonger {setting later : BoundarySetting} {program revised : Program}
    {edge other : BoundaryEdge} (fits : setting.Fits program) (fitsToo : later.Fits revised)
    (member : edge ∈ setting.edges) (otherMember : other ∈ later.edges)
    (latency : NoLonger setting.policy.networkLatency later.policy.networkLatency)
    (default : NoLonger setting.policy.defaultOffset later.policy.defaultOffset)
    (raised : ∀ offset, setting.OffsetBehind program edge offset →
      ∃ more, later.OffsetBehind revised other more ∧ offset ≤ more)
    (fewer : ∀ more, later.OffsetBehind revised other more →
      ∃ offset, setting.OffsetBehind program edge offset)
    (physical : other.isPhysical = edge.isPhysical)
    (delay : other.delay.getD .zero ≤ edge.delay.getD .zero) :
    NoLonger edge.bound other.bound := by
  have declared : NoLonger (setting.declaredOffsets edge.target edge.receiver).max?
      (later.declaredOffsets other.target other.receiver).max? := by
    refine NoLonger.max? (fun offset listed => ?_) fun nothing => ?_
    · obtain ⟨more, behind, le⟩ := raised offset (fits.mem_declaredOffsets_iff.mp listed)
      exact ⟨more, fitsToo.mem_declaredOffsets_iff.mpr behind, le⟩
    · rw [fits.declaredOffsets_eq_nil_iff] at nothing
      refine fitsToo.declaredOffsets_eq_nil_iff.mpr fun more behind => ?_
      obtain ⟨offset, behindToo⟩ := fewer more behind
      exact nothing offset behindToo
  rw [fits.bound_eq member, fitsToo.bound_eq otherMember, physical]
  refine (latency.longer (declared.or default)).map fun base more le => ?_
  cases edge.isPhysical with
  | true => exact le
  | false => exact TimeValue.sub_le_sub le delay

section Revised

variable (setting : BoundarySetting) (ρ : Revision) (table : PriorityTable) (policy : Policy)

/-- The same for the revised program, with any priorities and another policy. -/
def revise : BoundarySetting :=
  ⟨setting.index.revise ρ, (setting.index.revise ρ).graph, table, setting.partition, policy⟩

theorem federateOfPort_revise :
    (setting.revise ρ table policy).federateOfPort = setting.federateOfPort := by
  funext port
  simp only [federateOfPort, revise, Index.portOwner?_revise, Partition.federateOf_revise]

theorem federateOfReaction_revise :
    (setting.revise ρ table policy).federateOfReaction = setting.federateOfReaction := by
  funext reaction
  simp only [federateOfReaction, revise, Index.reactionOwner?_revise, Partition.federateOf_revise]

variable {setting ρ table policy} {program : Program} (fits : setting.Fits program)
include fits

theorem Fits.revise : (setting.revise ρ table policy).Fits (program.revise ρ) :=
  ⟨fits.described.revise ρ, rfl⟩

theorem Fits.edges_keeping (offset : Reaction → Option TimeValue)
    (delay : Connection → Option TimeValue) :
    (setting.revise (.keeping offset delay) table policy).edges =
      (program.connections.filter setting.Crosses).map fun connection =>
        (setting.revise (.keeping offset delay) table policy).crossing
          { connection with delay := delay connection } := by
  have crosses (connection : Connection) : (setting.revise (.keeping offset delay) table policy).Crosses
      { connection with delay := delay connection } ↔ setting.Crosses connection := by
    rw [Crosses, federateOfPort_revise, Crosses]
  rw [fits.revise.edges_eq, fits.described.program_connections_keeping, List.filter_map, List.map_map]
  simp only [Function.comp_def, crosses]

/-- The same reactions wait behind the edge of a connection and of what becomes of it, if the target feeds
the same ports. -/
theorem Fits.offsetBehind_revise_iff (connection revised : Connection)
    (target : revised.target = connection.target)
    (carried : ∀ port, ReflTransGen (program.revise ρ).Carries connection.target port ↔
      ReflTransGen program.Carries connection.target port) {offset : TimeValue} :
    (setting.revise ρ table policy).OffsetBehind (program.revise ρ)
        ((setting.revise ρ table policy).crossing revised) offset ↔
      ∃ id, setting.ReadsBehind program (setting.crossing connection) id ∧
        ∃ reaction ∈ program.reactions, reaction.id = id ∧ ρ.offset reaction = some offset := by
  simp only [OffsetBehind, ReadsBehind, crossing, federateOfReaction_revise, federateOfPort_revise,
    target, carried, fits.described.reads_revise_iff ρ, fits.described.declaresOffset_revise_iff]

theorem Fits.mem_edges_keeping {offset : Reaction → Option TimeValue}
    {delay : Connection → Option TimeValue} {connection : Connection}
    (listed : connection ∈ program.connections.filter setting.Crosses) :
    (setting.revise (.keeping offset delay) table policy).crossing
      { connection with delay := delay connection } ∈
        (setting.revise (.keeping offset delay) table policy).edges := by
  rw [fits.edges_keeping]
  exact List.mem_map_of_mem listed

/-- With longer offsets in the program and in the policy, the same edges have the same waits or longer
ones. -/
theorem Fits.noLonger_offsets {offset : Reaction → Option TimeValue}
    (raised : ∀ reaction ∈ program.reactions, NoLonger reaction.safeToProcess (offset reaction))
    (latency : NoLonger setting.policy.networkLatency policy.networkLatency)
    (default : NoLonger setting.policy.defaultOffset policy.defaultOffset) :
    List.Forall₂ (fun edge other : BoundaryEdge =>
        other = { edge with bound := other.bound } ∧ NoLonger edge.bound other.bound)
      setting.edges (setting.revise (.offsets offset) table policy).edges := by
  have connections : (program.revise (.offsets offset)).connections = program.connections :=
    (fits.described.program_connections_keeping offset Connection.delay).trans (List.map_id' _)
  have carries : (program.revise (.offsets offset)).Carries = program.Carries := by
    unfold Program.Carries
    rw [connections]
  rw [fits.edges_eq, Revision.offsets, fits.edges_keeping, List.forall₂_map_left_iff,
    List.forall₂_map_right_iff, List.forall₂_same]
  intro connection listed
  have carried (port : PortId) :
      ReflTransGen (program.revise (.offsets offset)).Carries connection.target port ↔
        ReflTransGen program.Carries connection.target port := by rw [carries]
  refine ⟨?_, fits.noLonger fits.revise ?_ (fits.mem_edges_keeping listed) latency default ?_ ?_ rfl
    (Std.le_refl _)⟩
  · simp only [crossing, federateOfPort_revise]
    rfl
  · rw [fits.edges_eq]
    exact List.mem_map_of_mem listed
  · rintro declared ⟨id, reads, reaction, member, same, declares⟩
    obtain ⟨more, found, le⟩ := (raised reaction member).exists_longer declares
    exact ⟨more, (fits.offsetBehind_revise_iff connection connection rfl carried).mpr
      ⟨id, reads, reaction, member, same, found⟩, le⟩
  · intro more declared
    obtain ⟨id, reads, reaction, member, same, found⟩ :=
      (fits.offsetBehind_revise_iff connection connection rfl carried).mp declared
    obtain ⟨less, declares, -⟩ := (raised reaction member).exists_shorter found
    exact ⟨less, id, reads, reaction, member, same, declares⟩

/-- Whatever becomes of the delay of a connection, its target feeds the same ports. -/
theorem Fits.carried_delaying_iff {connection : Connection}
    (declared : connection ∈ program.connections) (delay : TimeValue) (port : PortId) :
    ReflTransGen (program.revise (.delaying connection.id delay)).Carries connection.target port ↔
      ReflTransGen program.Carries connection.target port := by
  refine reflTransGen_iff_of_agree fun source target differs => ?_
  rw [Program.Carries, Revision.delaying, fits.described.program_connections_keeping,
    Program.Carries]
  simp only [List.mem_map, exists_exists_and_eq_and]
  refine exists_congr fun other => and_congr_right fun otherDeclared => ?_
  by_cases same : other.id = connection.id
  · obtain rfl := fits.described.connection_injective otherDeclared declared same
    simp [differs.symm]
  · simp only [if_neg same]

theorem Fits.noLonger_delaying {id : ConnectionId} {delay : TimeValue}
    (raised : ∀ connection ∈ program.connections, connection.id = id →
      connection.delayOrZero ≤ delay) :
    List.Forall₂ (fun edge other : BoundaryEdge => other.connection = edge.connection ∧
        (edge.connection = id → other.delay = some delay ∧ NoLonger other.bound edge.bound))
      setting.edges (setting.revise (.delaying id delay) table setting.policy).edges := by
  rw [fits.edges_eq, Revision.delaying, fits.edges_keeping, List.forall₂_map_left_iff,
    List.forall₂_map_right_iff, List.forall₂_same]
  intro connection listed
  refine ⟨rfl, ?_⟩
  rintro rfl
  obtain ⟨declared, -⟩ := List.mem_filter.mp listed
  have carried := fits.carried_delaying_iff declared delay
  refine ⟨if_pos rfl, fits.revise.noLonger fits (fits.mem_edges_keeping listed) ?_ (.refl _) (.refl _)
    ?_ ?_ rfl ?_⟩
  · rw [fits.edges_eq]
    exact List.mem_map_of_mem listed
  · exact fun offset declares =>
      ⟨offset, (fits.offsetBehind_revise_iff connection _ rfl carried).mp declares, Std.le_refl offset⟩
  · exact fun offset declares =>
      ⟨offset, (fits.offsetBehind_revise_iff connection _ rfl carried).mpr declares⟩
  · simpa [crossing, Connection.delayOrZero] using raised connection declared rfl

end Revised

end BoundarySetting

/-- The report is about the connections between different federates. Every edge waits for the longest offset
that is declared behind it, or else the default offset, or for the network if that takes longer; an edge of
a logical connection waits as much less as the connection is delayed. The program is accepted and classified
as well with other offsets, and with another delay of one of its connections. If neither an offset that a
reaction declares nor one of the durations in the policy gets shorter, no edge waits shorter than before,
and the edge of a connection with a longer delay waits no longer than before. -/
theorem receiver_waits {program : Program} {index : Index} {table : PriorityTable}
    {partition : Partition} {policy : Policy} {result : BoundaryResult}
    (accepted : Index.build program = .ok index)
    (classified :
      BoundarySetting.classify ⟨index, index.graph, table, partition, policy⟩ = .ok result) :
    result.report.Complete index partition ∧
    (∀ edge ∈ result.report.edges, ∃ offset base,
      BoundarySetting.WaitsFrom ⟨index, index.graph, table, partition, policy⟩ program edge
        offset base) ∧
    (∀ (offset : Reaction → Option TimeValue) (longer : Policy) (tableToo : PriorityTable),
      (∀ reaction ∈ program.reactions,
        TimeValue.NoLonger reaction.safeToProcess (offset reaction)) →
      TimeValue.NoLonger policy.networkLatency longer.networkLatency →
      TimeValue.NoLonger policy.defaultOffset longer.defaultOffset →
      ∃ raised resultToo, Index.build (program.revise (.offsets offset)) = .ok raised ∧
        BoundarySetting.classify ⟨raised, raised.graph, tableToo, partition, longer⟩ =
          .ok resultToo ∧
        List.Forall₂ (fun edge other : BoundaryEdge =>
            other = { edge with bound := other.bound } ∧
              TimeValue.NoLonger edge.bound other.bound)
          result.report.edges resultToo.report.edges) ∧
    ∀ (id : ConnectionId) (delay : TimeValue) (tableToo : PriorityTable),
      (∀ connection ∈ program.connections, connection.id = id →
        connection.delayOrZero ≤ delay) →
      ∃ delayed resultToo, Index.build (program.revise (.delaying id delay)) = .ok delayed ∧
        BoundarySetting.classify ⟨delayed, delayed.graph, tableToo, partition, policy⟩ =
          .ok resultToo ∧
        List.Forall₂ (fun edge other : BoundaryEdge =>
            other.connection = edge.connection ∧ (edge.connection = id →
              other.delay = some delay ∧ TimeValue.NoLonger other.bound edge.bound))
          result.report.edges resultToo.report.edges := by
  let setting : BoundarySetting := ⟨index, index.graph, table, partition, policy⟩
  have fits : setting.Fits program := ⟨(Index.build_eq_ok_iff program index).mp accepted, rfl⟩
  obtain ⟨valid, -⟩ := BoundarySetting.classify_eq_ok_iff.mp classified
  obtain rfl : setting.result = result :=
    Except.ok.inj ((fits.classify_eq_ok valid).symm.trans classified)
  -- the partition names no reactor that a revised program does not have
  have classifiedToo (ρ : Revision) (tableToo : PriorityTable) (longer : Policy) :
      (setting.revise ρ tableToo longer).classify =
        .ok (setting.revise ρ tableToo longer).result :=
    fits.revise.classify_eq_ok ((partition.problems_revise ρ index).trans valid)
  have acceptedToo (ρ : Revision) : Index.build (program.revise ρ) = .ok (index.revise ρ) :=
    (Index.build_eq_ok_iff _ _).mpr (fits.described.revise ρ)
  refine ⟨fits.complete_result, fun edge member => fits.waitsFrom member, ?_, ?_⟩
  · intro offset longer tableToo raised latency default
    exact ⟨_, _, acceptedToo _, classifiedToo (.offsets offset) tableToo longer,
      fits.noLonger_offsets raised latency default⟩
  · intro id delay tableToo raised
    exact ⟨_, _, acceptedToo _, classifiedToo (.delaying id delay) tableToo policy,
      fits.noLonger_delaying raised⟩

/-- What the reactor on the right hands on inside may come a little later. -/
def Program.patientExchange : Program :=
  exchange.revise (.offsets fun reaction => if reaction.id = ⟨3⟩ then some ⟨4000000⟩ else none)

/-- The network takes less time than what the reactor on the right has to be given. -/
def BoundarySetting.patientExchange : BoundarySetting :=
  let index := (Index.survey .patientExchange).index
  ⟨index, index.graph, .exchange, .sides, ⟨.decentralized, some ⟨3000000⟩, none⟩⟩

/-- What is handed on decides how long the reactor on the right waits. It waits longer where the network
takes longer, and less where it gets what it waits for with a delay. -/
theorem receiver_waits_patientExchange : ∃ edge ∈ BoundarySetting.patientExchange.edges,
    Index.build .patientExchange = .ok (Index.survey .patientExchange).index ∧
    BoundarySetting.patientExchange.classify = .ok BoundarySetting.patientExchange.result ∧
    edge.connection = ⟨0⟩ ∧ edge.bound = some ⟨4000000⟩ ∧
    (∃ offset base, BoundarySetting.patientExchange.WaitsFrom .patientExchange edge offset base) ∧
    (∃ raised resultToo,
      Index.build (Program.patientExchange.revise (.offsets Reaction.safeToProcess)) = .ok raised ∧
      BoundarySetting.classify ⟨raised, raised.graph, .exchange, .sides,
        ⟨.decentralized, some .forever, none⟩⟩ = .ok resultToo ∧
      List.Forall₂ (fun edge other : BoundaryEdge =>
          other = { edge with bound := other.bound } ∧ TimeValue.NoLonger edge.bound other.bound)
        BoundarySetting.patientExchange.edges resultToo.report.edges) ∧
    ∃ delayed resultToo,
      Index.build (Program.patientExchange.revise (.delaying ⟨0⟩ ⟨1000000⟩)) = .ok delayed ∧
      BoundarySetting.classify ⟨delayed, delayed.graph, .exchange, .sides,
        ⟨.decentralized, some ⟨3000000⟩, none⟩⟩ = .ok resultToo ∧
      List.Forall₂ (fun edge other : BoundaryEdge => other.connection = edge.connection ∧
          (edge.connection = ⟨0⟩ →
            other.delay = some ⟨1000000⟩ ∧ TimeValue.NoLonger other.bound edge.bound))
        BoundarySetting.patientExchange.edges resultToo.report.edges := by
  have accepted : Index.build .patientExchange = .ok (Index.survey .patientExchange).index := rfl
  have fits : BoundarySetting.patientExchange.Fits .patientExchange :=
    ⟨(Index.build_eq_ok_iff _ _).mp accepted, rfl⟩
  have classified : BoundarySetting.patientExchange.classify =
      .ok BoundarySetting.patientExchange.result :=
    fits.classify_eq_ok (by decide +kernel)
  obtain ⟨-, waits, longer, shorter⟩ := receiver_waits accepted classified
  let direct : Connection := { id := ⟨0⟩, source := ⟨0⟩, target := ⟨2⟩ }
  have member : BoundarySetting.patientExchange.crossing direct ∈
      BoundarySetting.patientExchange.edges :=
    fits.mem_edges_iff.mpr ⟨direct, by decide, by decide, rfl⟩
  refine ⟨_, member, accepted, classified, rfl, by decide +kernel, waits _ member, ?_, ?_⟩
  · exact longer Reaction.safeToProcess ⟨.decentralized, some .forever, none⟩ .exchange
      (fun _ _ => .refl _) (.some (by decide)) .none
  · exact shorter ⟨0⟩ ⟨1000000⟩ .exchange (by decide)

end ReactorCausality
