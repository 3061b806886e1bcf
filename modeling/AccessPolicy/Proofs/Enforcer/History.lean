import AccessPolicy.Enforcer
import AccessPolicy.Proofs.Latest

/-! # The history of an enforcer

A session is a sequence of commands, each with the files at its time, and its history
pairs them with the answers. A step takes effect unless it only asks or fails. The
sources that an enforcer remembers are those of the last successful load in its history,
and steps without effect can be left out of a session without changing any answer to the
others. Loading the remembered sources afresh gives what a new enforcer would have.
-/

namespace AccessPolicy

def Command.isQuery : Command → Bool
  | .enforce _ _ | .authorize _ _ | .checkRule _ _ | .snapshot => true
  | .loadRules _ | .reload | .setRules _ | .clear => false

def Reply.isFailure : Reply → Bool
  | .failed _ => true
  | _ => false

/-- A command, with the files at its time, and the answer to it. -/
abbrev Answered : Type :=
  (Files × Command) × Reply

namespace Answered

/-- The step does more than to ask, and does not fail. -/
def takesEffect (step : Answered) : Bool :=
  !step.1.2.isQuery && !step.2.isFailure

/-- The sources of a successful load. -/
def loaded? : Answered → Option Sources
  | ((_, .loadRules sources), .loaded _) => some sources
  | _ => none

end Answered

namespace Enforcer

open Answered

variable (enforcer : Enforcer)

/-- The steps of a session with the answers to them. -/
def history (steps : List (Files × Command)) : List Answered :=
  steps.zip (enforcer.run steps).2

/-- A single step with the answer to it. -/
def answered (step : Files × Command) : Answered :=
  (step, (enforcer.apply step.1 step.2).2.1)

/-- The enforcer after a single step. -/
def next (step : Files × Command) : Enforcer :=
  (enforcer.apply step.1 step.2).1

theorem run_cons (step : Files × Command) (rest : List (Files × Command)) :
    enforcer.run (step :: rest) =
      (((enforcer.next step).run rest).1,
        (enforcer.answered step).2 :: ((enforcer.next step).run rest).2) :=
  rfl

theorem history_cons (step : Files × Command) (rest : List (Files × Command)) :
    enforcer.history (step :: rest) =
      enforcer.answered step :: (enforcer.next step).history rest :=
  rfl

/-- A step without effect leaves the rules and the remembered sources as they are. -/
theorem next_of_not_takesEffect {step : Files × Command}
    (idle : (enforcer.answered step).takesEffect = false) : enforcer.next step = enforcer := by
  obtain ⟨files, command⟩ := step
  simp only [answered, next, takesEffect] at idle ⊢
  cases command with
  | loadRules sources =>
      simp only [apply] at idle ⊢
      split at idle
      · contradiction
      · rfl
  | reload =>
      simp only [apply] at idle ⊢
      split at idle
      · contradiction
      · split at idle
        · contradiction
        · rfl
  | setRules store => contradiction
  | clear => contradiction
  | enforce subject request => rfl
  | authorize subject request =>
      simp only [apply]
      split <;> rfl
  | checkRule name request => rfl
  | snapshot => rfl

/-- Only a successful load changes the remembered sources, and remembers its own. -/
theorem sources_next (step : Files × Command) :
    (enforcer.next step).sources = (enforcer.answered step).loaded?.or enforcer.sources := by
  obtain ⟨files, command⟩ := step
  simp only [answered, next]
  cases command with
  | loadRules sources =>
      simp only [apply]
      split <;> rfl
  | reload =>
      simp only [apply]
      split
      · rfl
      · rename_i sources remembered
        split
        · exact remembered.symm
        · rfl
  | setRules store => rfl
  | clear => rfl
  | enforce subject request => rfl
  | authorize subject request =>
      simp only [apply]
      split <;> rfl
  | checkRule name request => rfl
  | snapshot => rfl

theorem sources_run (steps : List (Files × Command)) :
    (enforcer.run steps).1.sources =
      ((enforcer.history steps).filterMap loaded?).getLast?.or enforcer.sources := by
  induction steps generalizing enforcer with
  | nil => rfl
  | cons step rest ih =>
      rw [run_cons, history_cons, ih, sources_next, getLast?_filterMap_cons_or]

/-- A session answers the same if steps without effect are left out of it. -/
theorem run_of_sublist {steps : List (Files × Command)} {kept : List Answered}
    (among : kept.Sublist (enforcer.history steps))
    (effective : kept.filter takesEffect = (enforcer.history steps).filter takesEffect) :
    enforcer.run (kept.map (·.1)) = ((enforcer.run steps).1, kept.map (·.2)) := by
  induction steps generalizing enforcer kept with
  | nil =>
      cases List.sublist_nil.mp among
      rfl
  | cons step rest ih =>
      rw [history_cons] at among effective
      rw [run_cons]
      cases among with
      | cons _ later =>
          -- The step is left out, so it takes no effect.
          have idle : (enforcer.answered step).takesEffect = false := by
            by_contra active
            rw [Bool.not_eq_false] at active
            have fewer := (later.filter takesEffect).length_le
            rw [effective, List.filter_cons_of_pos active, List.length_cons] at fewer
            omega
          rw [List.filter_cons_of_neg (by simp [idle])] at effective
          rw [enforcer.next_of_not_takesEffect idle] at later effective ⊢
          exact ih enforcer later effective
      | cons_cons _ later =>
          rename_i others
          have same : others.filter takesEffect =
              ((enforcer.next step).history rest).filter takesEffect := by
            by_cases active : (enforcer.answered step).takesEffect = true
            · rw [List.filter_cons_of_pos active, List.filter_cons_of_pos active] at effective
              exact (List.cons.inj effective).2
            · rwa [List.filter_cons_of_neg active, List.filter_cons_of_neg active] at effective
          rw [List.map_cons, List.map_cons, answered, run_cons, ih (enforcer.next step) later same]
          rfl

/-- A new enforcer loads its sources like one that loads them afresh. -/
theorem ofSources_eq (files : Files) (sources : Sources) :
    ofSources files sources =
      (sources.load files none).map fun load => (⟨load.store, some sources⟩, load) := by
  have same : sources.load files (some .empty) = sources.load files none := rfl
  rw [ofSources, same]
  cases sources.load files none <;> rfl

/-- **The state of an enforcer over a session.** An enforcer remembers the sources of the
last successful load. Steps that fail or only ask leave it as it is, and answer nothing
differently by being left out. A store that is given replaces the one in force, and clearing
leaves the empty store; neither forgets the sources. A load goes on from the rules in force,
and a failing one changes nothing. A reload gives exactly the enforcer that a new load of the
remembered sources gives, or fails like it; without remembered sources it reports the number
of rules and changes nothing. -/
theorem session_state (store : Store) (steps : List (Files × Command)) :
    let enforcer := ((ofStore store).run steps).1
    let history := (ofStore store).history steps
    enforcer.sources = (history.filterMap loaded?).getLast? ∧
    (∀ kept : List Answered, kept.Sublist history →
      kept.filter takesEffect = history.filter takesEffect →
      (ofStore store).run (kept.map (·.1)) = (enforcer, kept.map (·.2))) ∧
    ∀ files : Files,
      (∀ command, command.isQuery = true ∨ (enforcer.apply files command).2.1.isFailure = true →
        (enforcer.apply files command).1 = enforcer) ∧
      (∀ given : Store,
        enforcer.apply files (.setRules given) = (⟨given, enforcer.sources⟩, .done, [])) ∧
      enforcer.apply files .clear = (⟨.empty, enforcer.sources⟩, .done, []) ∧
      (∀ sources : Sources,
        enforcer.apply files (.loadRules sources) =
          match sources.load files (some enforcer.store) with
          | .ok load => (⟨load.store, some sources⟩, .loaded load.summary, load.events)
          | .error error => (enforcer, .failed error, [])) ∧
      enforcer.apply files .reload =
        match enforcer.sources with
        | some sources =>
          match ofSources files sources with
          | .ok (fresh, load) => (fresh, .loaded load.summary, load.events)
          | .error error => (enforcer, .failed error, [])
        | none => (enforcer, .loaded ⟨0, 0, enforcer.store.size⟩, [.nothingToReload]) := by
  intro enforcer history
  refine ⟨?_, fun kept => (ofStore store).run_of_sublist,
    fun files => ⟨?_, fun _ => rfl, rfl, ?_, ?_⟩⟩
  · have remembered := (ofStore store).sources_run steps
    rwa [ofStore, Option.or_none] at remembered
  · intro command idle
    have silent : (enforcer.answered (files, command)).takesEffect = false := by
      rcases idle with asks | fails
      · simp only [takesEffect, answered, asks, Bool.not_true, Bool.false_and]
      · simp only [takesEffect, answered, fails, Bool.not_true, Bool.and_false]
    exact enforcer.next_of_not_takesEffect silent
  · intro sources
    cases loaded : sources.load files (some enforcer.store) with
    | ok load => simp only [apply, loaded]
    | error error => simp only [apply, loaded]
  · cases remembered : enforcer.sources with
    | none => simp only [apply, remembered]
    | some sources =>
        simp only [apply, remembered, ofSources_eq]
        cases sources.load files none <;> rfl

/-! ## A load that fails -/

/-- No files at all. -/
def noFiles : Files :=
  fun _ => .error .notFound

/-- Sources that give no rules, but a default rule. -/
def noSources (defaultRule : String) : Sources :=
  ⟨"", defaultRule, []⟩

/-- A load, another one that misses its policy file, a store that is given, a denial, and
a reload. -/
def interruptedSession : List (Files × Command) :=
  [(noFiles, .loadRules (noSources "first")), (noFiles, .loadRules .standard),
    (noFiles, .setRules ⟨Table.empty.put "edit" .allow, ""⟩),
    (noFiles, .authorize (.name "view") ⟨.null, .null⟩), (noFiles, .reload)]

/-- The reload goes back to the first load, also if the failures are left out. -/
theorem session_state_interruptedSession :
    let steps := interruptedSession
    ((ofStore .empty).run steps).1.sources = some (noSources "first") ∧
      ((ofStore .empty).run ((steps.eraseIdx 3).eraseIdx 1)).1 =
        ((ofStore .empty).run steps).1 := by
  intro steps
  obtain ⟨remembered, erased, _⟩ := session_state .empty steps
  refine ⟨remembered.trans rfl, ?_⟩
  have kept := erased ((((ofStore .empty).history steps).eraseIdx 3).eraseIdx 1)
    ((List.eraseIdx_sublist ..).trans (List.eraseIdx_sublist ..)) rfl
  have same := congrArg Prod.fst kept
  exact same

end Enforcer

end AccessPolicy
