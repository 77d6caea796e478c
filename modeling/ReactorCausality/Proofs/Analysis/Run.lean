import ReactorCausality.Analysis.Run
import ReactorCausality.Proofs.Graph.Builder
import ReactorCausality.Proofs.Priority.Certificate

/-!
What the passes of a run do, one by one, and how a run goes on after each of them. For an accepted
program without a cycle, every run gets as far as its priorities, whatever the state holds at the
start (`exists_run_of_assigned`).
-/
namespace ReactorCausality

theorem Pass.required_eq (terminal : Pass) :
    Pass.required terminal = Pass.all.take (terminal.stage + 1) := by
  cases terminal <;> decide +kernel

namespace AnalysisState

variable {state : AnalysisState} {index : Index} {graph : DependencyGraph}

/-! ### What a pass does -/

theorem buildGraph_of_ok (accepted : Index.build state.program = .ok index) :
    state.execute .buildGraph =
      .ok ({ state with index := some index, graph := some index.graph }, []) := by
  obtain ⟨builder, built, same, -⟩ := ((Index.build_eq_ok_iff _ index).mp accepted).exists_build
  simp [execute, buildGraph, accepted, built, same, Except.mapError, bind, Except.bind, pure,
    Except.pure]

section Layout

variable (hasIndex : state.index = some index) (hasGraph : state.graph = some graph)
include hasIndex hasGraph

theorem detectCycles_eq : state.execute .detectCycles =
    .ok ({ state with cycles := some graph.cycles }, graph.cycles.cycles.map Cycle.diagnostic) := by
  simp [execute, detectCycles, layout?, hasIndex, hasGraph, AnalysisError.diagnostics, bind,
    Except.bind, pure, Except.pure]

theorem assignPriorities_of_ok {table : PriorityTable} (assigned : graph.priorities = .ok table) :
    state.execute .assignPriorities =
      .ok ({ state with
          priorities := some table, certificate := some (table.certificate graph index) },
        (table.certificate graph index).diagnostics) := by
  simp [execute, assignPriorities, layout?, hasIndex, hasGraph, assigned, Except.mapError, bind,
    Except.bind, pure, Except.pure]

variable {table : PriorityTable} (hasPriorities : state.priorities = some table)
include hasPriorities

theorem classifyBoundaries_of_ok {result : BoundaryResult}
    (classified : BoundarySetting.classify
      ⟨index, graph, table, state.partition, state.options.policy⟩ = .ok result) :
    state.execute .classifyBoundaries =
      .ok ({ state with boundaries := some result.report }, result.diagnostics) := by
  simp [execute, classifyBoundaries, layout?, hasIndex, hasGraph, hasPriorities, classified,
    Except.mapError, bind, Except.bind, pure, Except.pure]

theorem classifyBoundaries_of_error {problems : List PartitionProblem}
    (refused : BoundarySetting.classify
      ⟨index, graph, table, state.partition, state.options.policy⟩ = .error problems) :
    state.execute .classifyBoundaries =
      .error (.malformed (problems.map PartitionProblem.message)) := by
  simp [execute, classifyBoundaries, layout?, hasIndex, hasGraph, hasPriorities, refused,
    Except.mapError, bind, Except.bind]

end Layout

/-! ### How a run goes on -/

@[simp] theorem collect_nil (state : AnalysisState) : state.collect [] = state := by
  simp [collect]

theorem runPasses_of_ok {pass : Pass} {after : AnalysisState} {diagnostics : List Diagnostic}
    (executed : state.execute pass = .ok (after, diagnostics))
    (clean : Diagnostic.anyError diagnostics = false) (reports : List PassReport)
    (passes : List Pass) : state.runPasses reports (pass :: passes) =
      (after.collect diagnostics).runPasses (reports ++ [⟨pass, diagnostics⟩]) passes := by
  simp [runPasses, step, executed, clean, collect]

theorem runPasses_classifyBoundaries {after : AnalysisState} {diagnostics : List Diagnostic}
    (executed : state.execute .classifyBoundaries = .ok (after, diagnostics))
    (classified : after.boundaries.isSome) (reports : List PassReport) :
    state.runPasses reports [.classifyBoundaries] =
      ⟨recordProvenance { after.collect diagnostics with
          isBlocked := after.isBlocked || Diagnostic.anyError diagnostics },
        reports ++ [⟨.classifyBoundaries, diagnostics⟩], none⟩ := by
  simp [runPasses, step, executed, classified, collect]

/-! ### Runs of an accepted program

Whatever the state holds already is made again, or left as it is. -/

section Accepted

variable (state) (accepted : Index.build state.program = .ok index)
include accepted

theorem run_of_ok (terminal : Pass) : state.run terminal =
    runPasses { state with index := some index, graph := some index.graph }
      [⟨.buildGraph, []⟩] (Pass.all.take (terminal.stage + 1)).tail := by
  have passes : Pass.required terminal =
      .buildGraph :: (Pass.all.take (terminal.stage + 1)).tail := by
    rw [Pass.required_eq]
    cases terminal <;> rfl
  rw [run, passes, runPasses_of_ok (buildGraph_of_ok accepted) rfl, collect_nil]
  rfl

variable (acyclic : index.graph.Acyclic)
include acyclic

theorem run_of_acyclic {terminal : Pass} (beyond : terminal ≠ .buildGraph) :
    state.run terminal =
      runPasses
        { state with
          index := some index, graph := some index.graph, cycles := some index.graph.cycles }
        [⟨.buildGraph, []⟩, ⟨.detectCycles, []⟩]
        ((Pass.all.take (terminal.stage + 1)).drop 2) := by
  have wellFormed := ((Index.build_eq_ok_iff _ index).mp accepted).graph_wellFormed
  have none : index.graph.cycles.cycles = [] := by
    simpa [CycleReport.isAcyclic] using wellFormed.isAcyclic_cycles_iff.mpr acyclic
  have passes : (Pass.all.take (terminal.stage + 1)).tail =
      .detectCycles :: (Pass.all.take (terminal.stage + 1)).drop 2 := by
    cases terminal with
    | buildGraph => contradiction
    | _ => rfl
  rw [run_of_ok state accepted, passes,
    runPasses_of_ok (detectCycles_eq rfl rfl) (by simp [none, Diagnostic.anyError]), none,
    List.map_nil, collect_nil]
  rfl

/-- The reactions of the program have priorities, and the priorities are certified. -/
theorem exists_run_of_assigned {terminal : Pass} (beyond : 2 ≤ terminal.stage) :
    ∃ table, index.graph.priorities = .ok table ∧
      (table.certificate index.graph index).allHold ∧
      state.run terminal =
        runPasses
          { state with
            index := some index, graph := some index.graph, cycles := some index.graph.cycles
            priorities := some table, certificate := some (table.certificate index.graph index) }
          [⟨.buildGraph, []⟩, ⟨.detectCycles, []⟩, ⟨.assignPriorities, []⟩]
          ((Pass.all.take (terminal.stage + 1)).drop 3) := by
  have described := (Index.build_eq_ok_iff _ index).mp accepted
  obtain ⟨table, assigned⟩ := described.graph_wellFormed.exists_priorities_iff.mpr acyclic
  have holds := described.allHold_certificate
    (described.graph_wellFormed.belongsTo_of_priorities assigned)
  have clean : (table.certificate index.graph index).diagnostics = [] := if_pos holds
  have passes : (Pass.all.take (terminal.stage + 1)).drop 2 =
      .assignPriorities :: (Pass.all.take (terminal.stage + 1)).drop 3 := by
    cases terminal <;> first | rfl | simp [Pass.stage] at beyond
  have notFirst : terminal ≠ .buildGraph := by
    rintro rfl
    simp [Pass.stage] at beyond
  refine ⟨table, assigned, holds, ?_⟩
  rw [run_of_acyclic state accepted acyclic notFirst, passes,
    runPasses_of_ok (assignPriorities_of_ok rfl rfl assigned) (by rw [clean]; rfl), clean,
    collect_nil]
  rfl

/-- A run up to the boundaries reports them, and it goes on whatever is wrong with them. -/
theorem exists_run_of_classified :
    ∃ table, index.graph.priorities = .ok table ∧
      (table.certificate index.graph index).allHold ∧
      ∀ result, BoundarySetting.classify
          ⟨index, index.graph, table, state.partition, state.options.policy⟩ = .ok result →
        state.run .classifyBoundaries =
          ⟨recordProvenance { state with
              index := some index, graph := some index.graph, cycles := some index.graph.cycles
              priorities := some table, certificate := some (table.certificate index.graph index)
              boundaries := some result.report
              diagnostics := state.diagnostics ++ result.diagnostics
              isBlocked := state.isBlocked || Diagnostic.anyError result.diagnostics },
            [⟨.buildGraph, []⟩, ⟨.detectCycles, []⟩, ⟨.assignPriorities, []⟩,
              ⟨.classifyBoundaries, result.diagnostics⟩], none⟩ := by
  obtain ⟨table, assigned, holds, run_eq⟩ := exists_run_of_assigned state accepted acyclic
    (show 2 ≤ Pass.stage .classifyBoundaries by decide)
  have passes : (Pass.all.take (Pass.stage .classifyBoundaries + 1)).drop 3 =
    [.classifyBoundaries] := rfl
  refine ⟨table, assigned, holds, fun result classified => ?_⟩
  let reached : AnalysisState := { state with
    index := some index, graph := some index.graph, cycles := some index.graph.cycles
    priorities := some table, certificate := some (table.certificate index.graph index) }
  have executed : reached.execute .classifyBoundaries =
      .ok ({ reached with boundaries := some result.report }, result.diagnostics) :=
    classifyBoundaries_of_ok rfl rfl rfl classified
  rw [run_eq, passes]
  exact runPasses_classifyBoundaries executed rfl _

end Accepted

end AnalysisState

end ReactorCausality
