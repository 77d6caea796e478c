import ReactorCausality.Proofs.Analysis.Run
import ReactorCausality.Proofs.Boundary.Classification
import ReactorCausality.Proofs.Boundary.Placing
import ReactorCausality.Proofs.Outcome

/-!
What stops a run. A pass that fails stops the run that comes to it, with one exception: whether errors
about boundaries stop a run is told from whether the state has a boundary report, and that report may
have been left by an earlier run (`failing_iff`). Then a partition that does not fit the program goes
for a finding about timing, and the run goes on with a report that it has not made.
-/
namespace ReactorCausality

theorem Pass.nodup_required (terminal : Pass) : (Pass.required terminal).Nodup := by
  rw [Pass.required_eq]
  cases terminal <;> decide

/-- The classification comes last. -/
theorem Pass.eq_nil_of_suffix {terminal : Pass} {later : List Pass}
    (isEnd : .classifyBoundaries :: later <:+ Pass.required terminal) : later = [] := by
  rw [Pass.required_eq] at isEnd
  cases terminal <;> simp_all [Pass.all, Pass.stage, List.suffix_cons_iff]

namespace AnalysisState

variable {state reached after : AnalysisState} {pass : Pass} {passes : List Pass}
  {error : AnalysisError} {diagnostics : List Diagnostic}

/-! ### What a pass does to the boundaries -/

theorem anyError_of_layout? (missing : state.layout? = .error error) :
    Diagnostic.anyError error.diagnostics := by
  unfold layout? at missing
  split at missing
  · contradiction
  · cases missing
    rfl

/-- Whatever keeps a pass from being done is reported as an error. -/
theorem anyError_of_execute (failed : state.execute pass = .error error) :
    Diagnostic.anyError error.diagnostics := by
  cases pass with
  | buildGraph =>
    rcases bind_eq_error_iff.mp failed with rejected | ⟨_, _, failed⟩
    · obtain ⟨problems, -, rfl⟩ := mapError_eq_error_iff.mp rejected
      rfl
    · rcases bind_eq_error_iff.mp failed with unbuilt | ⟨_, _, done⟩
      · obtain ⟨fault, -, rfl⟩ := mapError_eq_error_iff.mp unbuilt
        rfl
      · cases done
  | detectCycles =>
    rcases bind_eq_error_iff.mp failed with missing | ⟨_, _, done⟩
    · exact anyError_of_layout? missing
    · cases done
  | assignPriorities =>
    rcases bind_eq_error_iff.mp failed with missing | ⟨_, _, failed⟩
    · exact anyError_of_layout? missing
    · rcases bind_eq_error_iff.mp failed with stalled | ⟨_, _, done⟩
      · obtain ⟨fault, -, rfl⟩ := mapError_eq_error_iff.mp stalled
        rfl
      · cases done
  | classifyBoundaries =>
    rcases bind_eq_error_iff.mp failed with missing | ⟨⟨_, _⟩, _, failed⟩
    · exact anyError_of_layout? missing
    · dsimp only at failed
      split at failed
      · cases failed
        rfl
      · rcases bind_eq_error_iff.mp failed with refused | ⟨_, _, done⟩
        · obtain ⟨problems, -, rfl⟩ := mapError_eq_error_iff.mp refused
          rfl
        · cases done

theorem boundaries_of_execute (done : state.execute pass = .ok (after, diagnostics)) :
    (pass = .classifyBoundaries → after.boundaries.isSome) ∧
      (pass ≠ .classifyBoundaries → after.boundaries = state.boundaries) := by
  cases pass with
  | buildGraph =>
    obtain ⟨_, _, done⟩ := bind_eq_ok_iff.mp done
    obtain ⟨_, _, done⟩ := bind_eq_ok_iff.mp done
    cases done
    exact ⟨nofun, fun _ => rfl⟩
  | detectCycles =>
    obtain ⟨_, _, done⟩ := bind_eq_ok_iff.mp done
    cases done
    exact ⟨nofun, fun _ => rfl⟩
  | assignPriorities =>
    obtain ⟨_, _, done⟩ := bind_eq_ok_iff.mp done
    obtain ⟨_, _, done⟩ := bind_eq_ok_iff.mp done
    cases done
    exact ⟨nofun, fun _ => rfl⟩
  | classifyBoundaries =>
    obtain ⟨⟨_, _⟩, _, done⟩ := bind_eq_ok_iff.mp done
    dsimp only at done
    split at done
    · cases done
    · obtain ⟨_, _, done⟩ := bind_eq_ok_iff.mp done
      cases done
      exact ⟨fun _ => rfl, fun other => absurd rfl other⟩

/-- The diagnostics of a classification that has been done are about timing. -/
theorem code_of_execute (done : state.execute .classifyBoundaries = .ok (after, diagnostics)) :
    ∀ diagnostic ∈ diagnostics, diagnostic.code = some .w0200 ∨
      diagnostic.code = some .w0201 ∨ diagnostic.code = some .e0200 := by
  obtain ⟨⟨_, _⟩, _, done⟩ := bind_eq_ok_iff.mp done
  dsimp only at done
  split at done
  · cases done
  · obtain ⟨result, classified, done⟩ := bind_eq_ok_iff.mp done
    cases done
    exact BoundarySetting.code_of_mem_diagnostics (mapError_eq_ok_iff.mp classified)

/-! ### Which passes let a run go on -/

theorem boundaries_step (other : pass ≠ .classifyBoundaries) :
    (state.step pass).1.boundaries = state.boundaries := by
  have notLast : (pass == .classifyBoundaries) = false := by simpa using other
  cases done : state.execute pass with
  | error error => simp [step, done, notLast, collect]
  | ok found => simpa [step, done, notLast, collect] using (boundaries_of_execute done).2 other

theorem goesOn_of_error (failed : state.execute pass = .error error) :
    (state.step pass).2.2 = (pass == .classifyBoundaries && state.boundaries.isSome) := by
  simp only [step, failed, anyError_of_execute failed]
  split <;> simp_all

theorem goesOn_of_ok (done : state.execute pass = .ok (after, diagnostics)) :
    (state.step pass).2.2 = (pass == .classifyBoundaries || !Diagnostic.anyError diagnostics) := by
  simp only [step, done]
  by_cases last : pass = .classifyBoundaries
  · simp [last, (boundaries_of_execute done).1 last]
  · simp [last]

/-! ### Where a run stops -/

/-- A run of some passes comes to a pass, and this is the state that it finds. -/
inductive ComesTo : AnalysisState → List Pass → AnalysisState → Pass → Prop where
  | here {state : AnalysisState} {pass : Pass} {later : List Pass} :
      ComesTo state (pass :: later) state pass
  | further {state reached : AnalysisState} {first pass : Pass} {later : List Pass}
      (goesOn : (state.step first).2.2) (comes : ComesTo (state.step first).1 later reached pass) :
      ComesTo state (first :: later) reached pass

theorem runPasses_cons (reports : List PassReport) : state.runPasses reports (pass :: passes) =
    if (state.step pass).2.2 then
      (state.step pass).1.runPasses (reports ++ [(state.step pass).2.1]) passes
    else ⟨(state.step pass).1, reports ++ [(state.step pass).2.1], some pass⟩ := by
  rw [runPasses]
  split <;> simp_all

theorem mem_of_failing {reports : List PassReport}
    (stopped : (state.runPasses reports passes).failing = some pass) : pass ∈ passes := by
  induction passes generalizing state reports with
  | nil => cases stopped
  | cons first later ih =>
    rw [runPasses_cons] at stopped
    split at stopped
    · exact List.mem_cons_of_mem _ (ih stopped)
    · cases stopped
      exact List.mem_cons_self

namespace ComesTo

/-- A run goes on from a pass that it comes to as it would from there. -/
theorem run_eq (comes : state.ComesTo passes reached pass) (reports : List PassReport) :
    ∃ before later, pass :: later <:+ passes ∧
      state.runPasses reports passes = reached.runPasses before (pass :: later) := by
  induction comes generalizing reports with
  | here => exact ⟨reports, _, List.suffix_refl _, rfl⟩
  | further goesOn _ ih =>
    obtain ⟨before, later, isEnd, same⟩ := ih (reports ++ [(step _ _).2.1])
    refine ⟨before, later, isEnd.trans (List.suffix_cons _ _), ?_⟩
    rw [runPasses_cons, if_pos goesOn, same]

theorem failing_iff (comes : state.ComesTo passes reached pass) (distinct : passes.Nodup)
    (reports : List PassReport) :
    (state.runPasses reports passes).failing = some pass ↔ (reached.step pass).2.2 = false := by
  obtain ⟨before, later, isEnd, same⟩ := comes.run_eq reports
  have notLater : pass ∉ later := (List.nodup_cons.mp (distinct.sublist isEnd.sublist)).1
  rw [same, runPasses_cons]
  cases goesOn : (reached.step pass).2.2 with
  | true => simpa using fun stopped => notLater (mem_of_failing stopped)
  | false => simp

theorem mem (comes : state.ComesTo passes reached pass) : pass ∈ passes := by
  obtain ⟨-, later, isEnd, -⟩ := comes.run_eq []
  exact isEnd.subset List.mem_cons_self

/-- No pass in front of the classification changes the boundaries. -/
theorem boundaries_eq (comes : state.ComesTo passes reached pass) (distinct : passes.Nodup)
    (last : pass = .classifyBoundaries) : reached.boundaries = state.boundaries := by
  induction comes with
  | here => rfl
  | further _ comes ih =>
    obtain ⟨notLater, distinctLater⟩ := List.nodup_cons.mp distinct
    rw [ih distinctLater last, boundaries_step]
    rintro rfl
    exact notLater (last ▸ comes.mem)

/-- With a boundary report in its state, a run is completed although its boundaries cannot be
classified, and it keeps the report. -/
theorem run_of_stale {terminal : Pass}
    (comes : state.ComesTo (Pass.required terminal) reached .classifyBoundaries)
    (failed : reached.execute .classifyBoundaries = .error error) (stale : state.boundaries.isSome) :
    (state.run terminal).failing = none ∧ (state.run terminal).state.isBlocked ∧
      (state.run terminal).state.boundaries = state.boundaries := by
  have kept := comes.boundaries_eq (Pass.nodup_required terminal) rfl
  obtain ⟨before, later, isEnd, same⟩ := comes.run_eq []
  have isError := anyError_of_execute failed
  rw [run, same, Pass.eq_nil_of_suffix isEnd]
  simp [runPasses, step, failed, isError, kept, stale, collect, recordProvenance]

theorem of_clean {first : Pass} {later : List Pass}
    (done : state.execute first = .ok (after, [])) (other : first ≠ .classifyBoundaries)
    (comes : after.ComesTo later reached pass) : state.ComesTo (first :: later) reached pass := by
  have steps : state.step first = (after, ⟨first, []⟩, true) := by
    simp [step, done, other, Diagnostic.anyError]
  exact .further (by rw [steps]) (by rwa [steps])

end ComesTo

/-- A run of an accepted program without a cycle comes to the classification of its boundaries. -/
theorem exists_comesTo_classifyBoundaries (state : AnalysisState) {index : Index}
    (accepted : Index.build state.program = .ok index) (acyclic : index.graph.Acyclic) :
    ∃ table, index.graph.priorities = .ok table ∧
      state.ComesTo (Pass.required .classifyBoundaries)
        { state with
          index := some index, graph := some index.graph, cycles := some index.graph.cycles
          priorities := some table, certificate := some (table.certificate index.graph index) }
        .classifyBoundaries := by
  have described := (Index.build_eq_ok_iff _ index).mp accepted
  have none : index.graph.cycles.cycles = [] := by
    simpa [CycleReport.isAcyclic] using
      described.graph_wellFormed.isAcyclic_cycles_iff.mpr acyclic
  obtain ⟨table, assigned⟩ := described.graph_wellFormed.exists_priorities_iff.mpr acyclic
  have clean : (table.certificate index.graph index).diagnostics = [] :=
    if_pos (described.allHold_certificate
      (described.graph_wellFormed.belongsTo_of_priorities assigned))
  let built : AnalysisState := { state with index := some index, graph := some index.graph }
  let searched : AnalysisState := { built with cycles := some index.graph.cycles }
  have first : state.execute .buildGraph = .ok (built, []) := buildGraph_of_ok accepted
  have second : built.execute .detectCycles = .ok (searched, []) := by
    rw [detectCycles_eq rfl rfl, none, List.map_nil]
  have third : searched.execute .assignPriorities = .ok (_, _) :=
    assignPriorities_of_ok rfl rfl assigned
  rw [clean] at third
  refine ⟨table, assigned, ?_⟩
  rw [Pass.required_eq]
  exact .of_clean first (by decide)
    (.of_clean second (by decide) (.of_clean third (by decide) .here))

end AnalysisState

/-- A run that comes to a pass is stopped by it exactly if the pass cannot be done, or has been done
and reports an error; but the classification stops no run when it has been done, and its errors are
about timing, nor if the state has a boundary report already. In that case the run is completed with
the old report, even if the partition does not fit the program. -/
theorem errors_stop_runs (state : AnalysisState) {terminal pass : Pass} {reached : AnalysisState}
    (comes : state.ComesTo (Pass.required terminal) reached pass) :
    (∀ error, reached.execute pass = .error error →
      if pass = .classifyBoundaries ∧ state.boundaries.isSome then
        (state.run terminal).failing = none ∧ (state.run terminal).state.isBlocked ∧
          (state.run terminal).state.boundaries = state.boundaries
      else (state.run terminal).failing = some pass) ∧
    ∀ after diagnostics, reached.execute pass = .ok (after, diagnostics) →
      ((state.run terminal).failing = some pass ↔
        Diagnostic.anyError diagnostics ∧ pass ≠ .classifyBoundaries) ∧
      (pass = .classifyBoundaries → ∀ diagnostic ∈ diagnostics, diagnostic.code = some .w0200 ∨
        diagnostic.code = some .w0201 ∨ diagnostic.code = some .e0200) := by
  have distinct := Pass.nodup_required terminal
  have failing := comes.failing_iff distinct []
  constructor
  · intro error failed
    split
    · next stale =>
      obtain ⟨rfl, stale⟩ := stale
      exact comes.run_of_stale failed stale
    · next fresh =>
      rw [AnalysisState.goesOn_of_error failed] at failing
      refine failing.mpr ?_
      by_contra goesOn
      obtain ⟨last, stale⟩ : pass = .classifyBoundaries ∧ reached.boundaries.isSome := by
        simpa [Option.isSome_iff_ne_none] using goesOn
      exact fresh ⟨last, comes.boundaries_eq distinct last ▸ stale⟩
  · intro after diagnostics done
    rw [AnalysisState.goesOn_of_ok done] at failing
    refine ⟨failing.trans (by simp [and_comm]), ?_⟩
    rintro rfl
    exact AnalysisState.code_of_execute done

/-- A reactor that `exchange` does not have is a federate. -/
def Partition.elsewhere : Partition :=
  (single.assignReactor ⟨99⟩ "left").1

theorem Partition.problems_elsewhere :
    elsewhere.problems (Index.survey Program.exchange).index = [.unknownReactor ⟨99⟩] := by
  decide +kernel

theorem AnalysisState.refuses_elsewhere (state : AnalysisState) (program : state.program = .exchange)
    (partition : state.partition = .elsewhere) :
    ∃ reached error, state.ComesTo (Pass.required .classifyBoundaries) reached .classifyBoundaries ∧
      reached.execute .classifyBoundaries = .error error := by
  have accepted : Index.build state.program = .ok (Index.survey .exchange).index := by
    rw [program, Program.build_exchange]
  have wellFormed := ((Index.build_eq_ok_iff _ _).mp accepted).graph_wellFormed
  obtain ⟨table, -, comes⟩ := state.exists_comesTo_classifyBoundaries accepted
    (wellFormed.isAcyclic_cycles_iff.mp Program.isAcyclic_exchange)
  have refused : BoundarySetting.classify ⟨(Index.survey .exchange).index,
      (Index.survey .exchange).index.graph, table, state.partition, state.options.policy⟩ =
        .error _ :=
    BoundarySetting.classify_eq_error (by rw [partition, Partition.problems_elsewhere]; nofun)
  exact ⟨_, _, comes, classifyBoundaries_of_error rfl rfl rfl refused⟩

theorem errors_stop_runs_exchange : ∃ (reached : AnalysisState) (error : AnalysisError),
    let state := AnalysisState.fresh .exchange .elsewhere {}
    state.ComesTo (Pass.required .classifyBoundaries) reached .classifyBoundaries ∧
      reached.execute .classifyBoundaries = .error error ∧
      (state.run .classifyBoundaries).failing = some .classifyBoundaries := by
  obtain ⟨reached, error, comes, refused⟩ :=
    AnalysisState.refuses_elsewhere (.fresh .exchange .elsewhere {}) rfl rfl
  exact ⟨reached, error, comes, refused, (errors_stop_runs _ comes).1 error refused⟩

/-- After a run that has reported the boundaries, the partition is replaced by one that does not fit
the program. The next run comes to the classification, which is refused, and is completed. -/
theorem misassignment_hidden_exchange : ∃ (state reached : AnalysisState) (error : AnalysisError),
    (analyze .exchange .sides {}).failing = none ∧
      state = { (analyze .exchange .sides {}).state with partition := .elsewhere } ∧
      state.ComesTo (Pass.required .classifyBoundaries) reached .classifyBoundaries ∧
      reached.execute .classifyBoundaries = .error error ∧
      (state.run .classifyBoundaries).failing = none ∧
      (state.run .classifyBoundaries).state.boundaries =
        (analyze .exchange .sides {}).state.boundaries := by
  obtain ⟨table, assigned, -, run_eq⟩ := AnalysisState.exists_run_of_classified
    (.fresh .exchange .sides {}) Program.build_exchange
    (((Index.build_eq_ok_iff _ _).mp Program.build_exchange).graph_wellFormed.isAcyclic_cycles_iff.mp
      Program.isAcyclic_exchange)
  obtain rfl : table = .exchange := Except.ok.inj (assigned.symm.trans Program.priorities_exchange)
  have first := run_eq _ (BoundarySetting.classify_exchange {})
  obtain ⟨reached, error, comes, refused⟩ := AnalysisState.refuses_elsewhere
    { (analyze .exchange .sides {}).state with partition := .elsewhere }
    (by rw [analyze, first]; rfl) rfl
  have stale : (analyze .exchange .sides {}).state.boundaries.isSome := by
    rw [analyze, first]
    rfl
  obtain ⟨completed, -, kept⟩ := comes.run_of_stale refused stale
  exact ⟨_, reached, error, by rw [analyze, first], rfl, comes, refused, completed, kept⟩

end ReactorCausality
