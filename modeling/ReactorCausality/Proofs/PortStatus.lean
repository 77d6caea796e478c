import Mathlib.Logic.ExistsUnique
import ReactorCausality.PortStatus

/-!
Whole runs of a port. Within a tag the first event settles the status, and whatever follows in the same tag
is refused or changes nothing (`foldl_absorb_eq`); a new tag forgets it all (`absorb_newTag`). So the status,
and the answer to every event, can be read off the first event of the tag (`first_event_wins`).
-/
namespace ReactorCausality

namespace PortEvent

/-- The status that the event gives to a port that is pending. -/
def settles? : PortEvent → Option PortStatus
  | data => some .dataReceived
  | absent => some .absentReceived
  | timeout => some .timedOut
  | newTag => none

/-- The sender has sent something. -/
def IsMessage (event : PortEvent) : Prop :=
  event = data ∨ event = absent

/-- The events of the last tag: those behind the last `newTag`, or all of them where there is none. -/
structure LastTag (events tag : List PortEvent) : Prop where
  within : newTag ∉ tag
  begins : events = tag ∨ newTag :: tag <:+ events

theorem exists_lastTag (events : List PortEvent) : ∃ tag, LastTag events tag := by
  induction events with
  | nil => exact ⟨[], List.not_mem_nil, .inl rfl⟩
  | cons event events ih =>
    obtain ⟨tag, within, rfl | begins⟩ := ih
    · by_cases isNew : newTag = event
      · exact ⟨events, within, .inr (isNew ▸ List.suffix_rfl)⟩
      · exact ⟨event :: events, List.not_mem_cons_of_ne_of_not_mem isNew within, .inl rfl⟩
    · exact ⟨tag, within, .inr (begins.trans (List.suffix_cons event events))⟩

/-- The start of a run counts as a new tag. -/
theorem LastTag.suffix {events tag : List PortEvent} (isTag : LastTag events tag) :
    newTag :: tag <:+ newTag :: events := by
  rcases isTag.begins with rfl | begins
  · exact List.suffix_rfl
  · exact begins.trans (List.suffix_cons newTag events)

theorem LastTag.eq {events tag other : List PortEvent} (isTag : LastTag events tag)
    (isOther : LastTag events other) : tag = other := by
  have whole {tag longer : List PortEvent} (within : newTag ∉ longer)
      (suffix : newTag :: tag <:+ newTag :: longer) : tag = longer := by
    rcases List.suffix_cons_iff.mp suffix with same | inside
    · exact List.tail_eq_of_cons_eq same
    · exact absurd (inside.subset List.mem_cons_self) within
  rcases List.suffix_or_suffix_of_suffix isTag.suffix isOther.suffix with shorter | longer
  · exact whole isOther.within shorter
  · exact (whole isTag.within longer).symm

end PortEvent

namespace PortStatus

open PortEvent (LastTag)

/-- The status that an event leads to. An event that is refused leaves the status as it was. -/
def absorb (status : PortStatus) (event : PortEvent) : PortStatus :=
  match status.after event with
  | .ok next => next
  | .error _ => status

/-- The status that events lead to from the start. -/
def reached (events : List PortEvent) : PortStatus :=
  events.foldl absorb .pending

/-- The status of a port in a tag with these events is the one that the first of them settled. -/
structure Reflects (tag : List PortEvent) (status : PortStatus) : Prop where
  pending_iff : status = .pending ↔ tag = []
  settled : ∀ first ∈ tag.head?, first.settles? = some status

/-- What an event is answered in a tag with these events before it. Only messages are refused, and only if
they are not the first event; the first event says why. -/
structure Answered (tag : List PortEvent) (event : PortEvent)
    (answer : Except ProtocolFault PortStatus) : Prop where
  refused_iff : (∃ fault, answer = .error fault) ↔ event.IsMessage ∧ tag ≠ []
  late_iff : answer = .error (.late event) ↔ event.IsMessage ∧ tag.head? = some .timeout
  duplicate_iff : ∀ status, answer = .error (.duplicate status event) ↔ event.IsMessage ∧
    ∃ first ∈ tag.head?, first ≠ .timeout ∧ first.settles? = some status

/-! ### One event -/

theorem absorb_eq (status : PortStatus) (event : PortEvent) :
    status.absorb event = (status.after event).toOption.getD status := by
  rw [absorb]
  cases status.after event <;> rfl

theorem absorb_newTag (status : PortStatus) : status.absorb .newTag = .pending := by
  cases status <;> rfl

theorem absorb_pending {event : PortEvent} {status : PortStatus}
    (settles : event.settles? = some status) : absorb .pending event = status := by
  cases event <;> cases settles <;> rfl

/-- Only a new tag changes a status that is settled. -/
theorem absorb_of_settled {status : PortStatus} {event : PortEvent} (settled : status ≠ .pending)
    (within : event ≠ .newTag) : status.absorb event = status := by
  cases event with
  | newTag => contradiction
  | data | absent | timeout =>
    cases status with
    | pending => contradiction
    | dataReceived | absentReceived | timedOut => rfl

theorem exists_settles? {event : PortEvent} (within : event ≠ .newTag) :
    ∃ status, event.settles? = some status ∧ status ≠ .pending := by
  cases event with
  | newTag => contradiction
  | data | absent | timeout => exact ⟨_, rfl, by decide⟩

theorem Reflects.answered {tag : List PortEvent} {status : PortStatus} (reflects : Reflects tag status)
    (event : PortEvent) : Answered tag event (status.after event) := by
  cases tag with
  | nil =>
    obtain rfl := reflects.pending_iff.mpr rfl
    constructor <;> cases event <;> simp [after, PortEvent.IsMessage]
  | cons first rest =>
    have settles := reflects.settled first rfl
    constructor <;> cases first <;> cases settles <;> cases event <;>
      simp [after, PortEvent.IsMessage, PortEvent.settles?, eq_comm]

/-! ### Runs -/

theorem foldl_absorb_eq {status : PortStatus} {events : List PortEvent} (settled : status ≠ .pending)
    (within : PortEvent.newTag ∉ events) : events.foldl absorb status = status := by
  induction events with
  | nil => rfl
  | cons event events ih =>
    obtain ⟨isOther, later⟩ := List.ne_and_not_mem_of_not_mem_cons within
    rw [List.foldl_cons, absorb_of_settled settled isOther.symm, ih later]

/-- What happened in earlier tags does not matter. -/
theorem reached_eq_of_lastTag {events tag : List PortEvent} (isTag : LastTag events tag) :
    reached events = reached tag := by
  rcases isTag.begins with rfl | ⟨earlier, rfl⟩
  · rfl
  · rw [reached, List.foldl_append, List.foldl_cons, absorb_newTag, reached]

theorem reflects_reached {events tag : List PortEvent} (isTag : LastTag events tag) :
    Reflects tag (reached events) := by
  rw [reached_eq_of_lastTag isTag]
  cases tag with
  | nil => exact ⟨iff_of_true rfl rfl, nofun⟩
  | cons first rest =>
    obtain ⟨isFirst, later⟩ := List.ne_and_not_mem_of_not_mem_cons isTag.within
    obtain ⟨status, settles, settled⟩ := exists_settles? isFirst.symm
    have keeps : reached (first :: rest) = status := by
      rw [reached, List.foldl_cons, absorb_pending settles, foldl_absorb_eq settled later]
    rw [keeps]
    refine ⟨iff_of_false settled (List.cons_ne_nil _ _), fun other isOther => ?_⟩
    cases isOther
    exact settles

theorem run_cons (status : PortStatus) (event : PortEvent) (events : List PortEvent) :
    run status (event :: events) = status.after event :: run (status.absorb event) events := by
  rw [run, absorb]
  cases status.after event <;> rfl

theorem run_append (status : PortStatus) (before after : List PortEvent) :
    run status (before ++ after) = run status before ++ run (before.foldl absorb status) after := by
  induction before generalizing status with
  | nil => rfl
  | cons event before ih =>
    rw [List.cons_append, run_cons, run_cons, ih, List.cons_append, List.foldl_cons]

theorem length_run (status : PortStatus) (events : List PortEvent) :
    (run status events).length = events.length := by
  induction events generalizing status with
  | nil => rfl
  | cons event events ih => rw [run_cons, List.length_cons, List.length_cons, ih]

theorem run_getElem? (before : List PortEvent) (event : PortEvent) (after : List PortEvent) :
    (run .pending (before ++ event :: after))[before.length]? = some ((reached before).after event) := by
  rw [run_append, run_cons, List.getElem?_append_right (Nat.le_of_eq (length_run _ _)), length_run, Nat.sub_self]
  rfl

theorem reached_append_singleton (before : List PortEvent) (event : PortEvent) :
    reached (before ++ [event]) = ((reached before).after event).toOption.getD (reached before) := by
  rw [reached, List.foldl_append]
  exact absorb_eq (reached before) event

/-- The first event of a tag wins. The status is pending until it comes and the one that it settled from
then on; new tags and the ends of waits are never refused, and a message is refused exactly if it is not the
first event: as late if the first event was the end of the wait, and as a duplicate of it otherwise. -/
theorem first_event_wins (events : List PortEvent) :
    (∃! tag, LastTag events tag) ∧
    (∀ tag, LastTag events tag → Reflects tag (reached events)) ∧
    (run .pending events).length = events.length ∧
    ∀ before event after, events = before ++ event :: after →
      ∃ answer, (run .pending events)[before.length]? = some answer ∧
        reached (before ++ [event]) = answer.toOption.getD (reached before) ∧
        ∀ tag, LastTag before tag → Answered tag event answer := by
  obtain ⟨tag, isTag⟩ := PortEvent.exists_lastTag events
  refine ⟨⟨tag, isTag, fun other isOther => isOther.eq isTag⟩, fun tag => reflects_reached,
    length_run _ _, ?_⟩
  rintro before event after rfl
  refine ⟨_, run_getElem? before event after, reached_append_singleton before event, ?_⟩
  intro tag isTag
  exact (reflects_reached isTag).answered event

theorem first_event_wins_lateData :
    let events : List PortEvent := [.timeout, .data, .newTag, .absent, .timeout, .data]
    reached events = .absentReceived ∧ (run .pending events)[1]? = some (.error (.late .data)) ∧
      (run .pending events)[5]? = some (.error (.duplicate .absentReceived .data)) := by
  intro events
  obtain ⟨-, reflects, -, answers⟩ := first_event_wins events
  obtain ⟨late, isLate, -, answered⟩ := answers [.timeout] .data _ rfl
  obtain ⟨duplicate, isDuplicate, -, answeredToo⟩ :=
    answers [.timeout, .data, .newTag, .absent, .timeout] .data [] rfl
  have first : LastTag [.timeout] [.timeout] := ⟨by decide, .inl rfl⟩
  have second : LastTag [.timeout, .data, .newTag, .absent, .timeout] [.absent, .timeout] :=
    ⟨by decide, .inr ⟨[.timeout, .data], rfl⟩⟩
  have last : LastTag events [.absent, .timeout, .data] :=
    ⟨by decide, .inr ⟨[.timeout, .data], rfl⟩⟩
  refine ⟨?_, ?_, ?_⟩
  · exact (Option.some.inj ((reflects _ last).settled .absent rfl)).symm
  · rw [← (answered _ first).late_iff.mpr ⟨.inl rfl, rfl⟩]
    exact isLate
  · rw [← ((answeredToo _ second).duplicate_iff .absentReceived).mpr
      ⟨.inl rfl, .absent, rfl, by decide, rfl⟩]
    exact isDuplicate

end PortStatus

end ReactorCausality
