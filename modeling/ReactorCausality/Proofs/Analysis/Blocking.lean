import ReactorCausality.Proofs.Analysis.Run
import ReactorCausality.Proofs.Boundary.Bound

/-!
What keeps code from being generated for federates. A run reports the boundaries of an accepted program
without a cycle, and it blocks the federates exactly if there is a wait that nobody can settle. Errors
about timing never stop a run.
-/
namespace ReactorCausality

/-- Timing findings are exact for every partition that is made step by step and that fits the program,
and a run from any state that is about them comes to the same report. -/
theorem timing_findings_exact {program : Program} {index : Index} {partition : Partition}
    (accepted : Index.build program = .ok index) (acyclic : index.graph.cycles.isAcyclic)
    (built : partition.Built) (valid : partition.problems index = []) (policy : Policy) :
    ∃ table result, index.graph.priorities = .ok table ∧
      BoundarySetting.classify ⟨index, index.graph, table, partition, policy⟩ = .ok result ∧
      result.TimingExact policy.coordination ∧
      ∀ state : AnalysisState, state.program = program → state.partition = partition →
        state.options.policy = policy →
        let outcome := state.run .classifyBoundaries
        outcome.failing = none ∧ outcome.state.boundaries = some result.report ∧
          (outcome.state.isBlocked ↔ state.isBlocked ∨ result.report.unresolved ≠ []) := by
  obtain ⟨table, assigned, -, fits, classified⟩ :=
    BoundarySetting.exists_classified accepted acyclic valid policy
  refine ⟨table, _, assigned, classified, fits.timing_result built, ?_⟩
  rintro state rfl rfl rfl
  obtain ⟨table', assigned', -, run_eq⟩ := state.exists_run_of_classified accepted
    (fits.described.graph_wellFormed.isAcyclic_cycles_iff.mp acyclic)
  obtain rfl : table' = table := Except.ok.inj (assigned'.symm.trans assigned)
  rw [run_eq _ classified]
  refine ⟨rfl, rfl, ?_⟩
  rw [← BoundarySetting.anyError_diagnostics_iff]
  exact Bool.or_eq_true_iff

/-- Either side of `exchange` waits for the other one, and neither wait has a bound. -/
theorem BoundarySetting.exists_unsettled_exchange : ∃ edge ∈ (exchange {}).edges,
    edge.Unsettled (exchange {}).edges .centralized := by
  let there : Connection := { id := ⟨0⟩, source := ⟨0⟩, target := ⟨2⟩ }
  let back : Connection := { id := ⟨1⟩, source := ⟨3⟩, target := ⟨1⟩ }
  have returns : BoundaryEdge.SendsTo (exchange {}).edges ((exchange {}).crossing there).receiver
      ((exchange {}).crossing there).sender :=
    ⟨(exchange {}).crossing back, mem_edges_exchange (by decide) (by decide +kernel), rfl,
      by decide +kernel, by decide +kernel⟩
  exact ⟨(exchange {}).crossing there, mem_edges_exchange (by decide) (by decide +kernel), rfl, rfl,
    by decide +kernel, .inr (.single returns)⟩

theorem timing_findings_exact_exchange : ∃ (index : Index) (table : PriorityTable)
    (result : BoundaryResult) (edge : BoundaryEdge), Index.build Program.exchange = .ok index ∧
      index.graph.cycles.isAcyclic ∧ Partition.sides.Built ∧ Partition.sides.problems index = [] ∧
      index.graph.priorities = .ok table ∧
      BoundarySetting.classify ⟨index, index.graph, table, .sides, {}⟩ = .ok result ∧
      edge ∈ result.report.edges ∧ edge.connection ∈ result.report.unresolved ∧
      ¬ result.Reports edge .warning .w0200 ∧
      (analyze .exchange .sides {}).state.boundaries = some result.report ∧
      (analyze .exchange .sides {}).state.isBlocked := by
  obtain ⟨table, result, assigned, classified, exact, run⟩ :=
    timing_findings_exact Program.build_exchange Program.isAcyclic_exchange Partition.built_sides
      Partition.problems_sides {}
  obtain ⟨rfl, rfl⟩ := BoundarySetting.eq_exchange assigned classified
  obtain ⟨edge, member, unsettled⟩ := BoundarySetting.exists_unsettled_exchange
  have unresolved := (exact.unsettled edge member).mpr unsettled
  obtain ⟨-, reported, blocked⟩ := run (.fresh .exchange .sides {}) rfl rfl rfl
  refine ⟨_, _, _, edge, Program.build_exchange, Program.isAcyclic_exchange, Partition.built_sides,
    Partition.problems_sides, assigned, classified, member, unresolved, fun warned => ?_, reported,
    ?_⟩
  · exact ((exact.arbitrated edge member).mp warned).2 unresolved
  · exact blocked.mpr (.inr (List.ne_nil_of_mem unresolved))

end ReactorCausality
