import ApiPages.CommandLine.Inputs
import ApiPages.CommandLine.Output
import ApiPages.Host.FileSystem

/-!
# Actions on a world in memory

An action that may fail takes a world to a result and the world after it. Most steps of a run only
ask: they leave all files as they are. That passes from the steps to every action that is made of
them, however many there are.
-/
namespace ApiPages

variable {α β : Type}

/-- What an action that may fail makes of a world. -/
def World.perform (action : ExceptT Failure (StateM World) α) (world : World) :
    Except Failure α × World :=
  action.run.run world

namespace World

/-- Doing nothing gives the value and leaves the world as it is. -/
@[simp]
theorem perform_pure (value : α) (world : World) :
    perform (pure value) world = (.ok value, world) := rfl

/-- An action that cannot fail gives what it finds. -/
@[simp]
theorem perform_lift (action : StateM World α) (world : World) :
    perform (liftM action) world = (.ok (action.run world).1, (action.run world).2) := rfl

/-- A sequence of steps ends with the first failure. -/
theorem perform_bind (action : ExceptT Failure (StateM World) α)
    (next : α → ExceptT Failure (StateM World) β) (world : World) :
    perform (action >>= next) world =
      match perform action world with
      | (.ok value, after) => perform (next value) after
      | (.error failure, after) => (.error failure, after) := by
  simp only [perform, ExceptT.run_bind, StateT.run_bind]
  cases result : action.run.run world with
  | mk outcome after => cases outcome <;> rfl

/-- What follows a step that succeeded goes on with its value, in the world after it. -/
theorem perform_bind_ok {action : ExceptT Failure (StateM World) α} {value : α}
    {world after : World} (performed : perform action world = (.ok value, after))
    (next : α → ExceptT Failure (StateM World) β) :
    perform (action >>= next) world = perform (next value) after := by
  rw [perform_bind, performed]

/-- Nothing follows a step that failed. -/
theorem perform_bind_error {action : ExceptT Failure (StateM World) α} {failure : Failure}
    {world after : World} (performed : perform action world = (.error failure, after))
    (next : α → ExceptT Failure (StateM World) β) :
    perform (action >>= next) world = (.error failure, after) := by
  rw [perform_bind, performed]

/-- A step that cannot fail hands on its value. -/
theorem perform_lift_bind (action : StateM World α) (next : α → ExceptT Failure (StateM World) β)
    (world : World) :
    perform (liftM action >>= next) world =
      perform (next (action.run world).1) (action.run world).2 := rfl

end World

/-- What is seen of a result shows that there is one. -/
theorem exists_ok_of_toOption {performed : Except Failure α × World} {observe : α → β} {seen : β}
    (observed : performed.1.toOption.map observe = some seen) :
    ∃ value after, performed = (.ok value, after) ∧ observe value = seen := by
  obtain ⟨result, after⟩ := performed
  cases result with
  | error failure => cases observed
  | ok value => exact ⟨value, after, rfl, Option.some.inj observed⟩

/-- A property of actions that holds where nothing is done and passes from two steps to their
sequence. -/
structure Passing (m : Type → Type) [Monad m] where
  /-- The property. -/
  Holds : ∀ {α : Type}, m α → Prop
  /-- It holds where nothing is done. -/
  pure : ∀ {α : Type} (value : α), Holds (Pure.pure value : m α)
  /-- It passes to a sequence. -/
  bind : ∀ {α β : Type} {action : m α} {next : α → m β},
    Holds action → (∀ value, Holds (next value)) → Holds (action >>= next)

namespace Passing

variable {m : Type → Type} [Monad m] (property : Passing m)

/-- The property passes to a choice between two actions. -/
theorem ite {condition : Prop} [Decidable condition] {first second : m α}
    (whenTrue : property.Holds first) (whenFalse : property.Holds second) :
    property.Holds (if condition then first else second) := by
  split
  · exact whenTrue
  · exact whenFalse

/-- The property passes to an action that does a step for each value of a list. -/
theorem mapM [LawfulMonad m] {step : α → m β} (each : ∀ value, property.Holds (step value))
    (list : List α) : property.Holds (list.mapM step) := by
  induction list with
  | nil => exact property.pure []
  | cons head rest ih =>
    rw [List.mapM_cons]
    exact property.bind (each head) fun _ => property.bind ih fun _ => property.pure _

/-- The property passes to an action that tests each value of a list. -/
theorem filterM {test : α → m Bool} (each : ∀ value, property.Holds (test value)) (list : List α) :
    property.Holds (list.filterM test) := by
  have further : ∀ kept, property.Holds (list.filterAuxM test kept) := by
    induction list with
    | nil => exact property.pure
    | cons head rest ih =>
      intro kept
      refine property.bind (each head) fun passed => ?_
      cases passed <;> exact ih _
  exact property.bind (further []) fun _ => property.pure _

/-- The property passes to an action that goes through a list for its effects alone. -/
theorem forM {step : α → m PUnit} (each : ∀ value, property.Holds (step value))
    (list : List α) : property.Holds (list.forM step) := by
  induction list with
  | nil => exact property.pure _
  | cons head rest ih => exact property.bind (each head) fun _ => ih

end Passing

/-- Actions that leave all files as they are. -/
def asking : Passing (StateM World) where
  Holds action := ∀ world, (action.run world).2.files = world.files
  pure _ _ := rfl
  bind first second world := (second _ _).trans (first world)

/-- Whether a failure comes from the writing of pages. Every other one ends a run before its first
page is written. -/
def Failure.stopsWriting : Failure → Bool
  | clash .. | unwritable _ => true
  | unknownNewline _ | unreadableInput | malformedInput | outputMissing | outputRefused _
  | preambleMissing _ | preambleUnreadable _ | directoryUnreadable _ | invalidPattern _
  | unreadable _ | unparsable .. => false

/-- Actions that may fail and leave all files as they are. They write no pages, so they do not fail
for one either. -/
def askingOrFailing : Passing (ExceptT Failure (StateM World)) where
  Holds action := ∀ world, (World.perform action world).2.files = world.files ∧
    ∀ failure, (World.perform action world).1 = .error failure → failure.stopsWriting = false
  pure _ _ := ⟨rfl, nofun⟩
  bind {_ _ action next} first second world := by
    rw [World.perform_bind]
    obtain ⟨files, failures⟩ := first world
    cases result : World.perform action world with
    | mk outcome after =>
      rw [result] at files failures
      cases outcome with
      | error failure =>
        refine ⟨files, fun other failed => failures other ?_⟩
        rw [Except.error.inj failed]
      | ok value => exact ⟨(second value after).1.trans files, (second value after).2⟩

/-- An action that asks and cannot fail is one of them. -/
theorem askingOrFailing_lift {action : StateM World α} (asks : asking.Holds action) :
    askingOrFailing.Holds (liftM action) := fun world => ⟨asks world, nofun⟩

/-- A failure before the first page leaves all files as they are. -/
theorem askingOrFailing_throw {failure : Failure} (early : failure.stopsWriting = false) :
    askingOrFailing.Holds (throw failure : ExceptT Failure (StateM World) α) := by
  refine fun world => ⟨rfl, fun other thrown => ?_⟩
  obtain rfl : failure = other := Except.error.inj thrown
  exact early

end ApiPages
