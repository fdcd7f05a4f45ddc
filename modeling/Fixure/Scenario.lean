import Fixure.Message

/-!
# Scenarios

A scenario is a list of steps, each an action with the fields it sends or looks for.
-/

namespace Fixure

inductive ActionType
  | connect
  | send
  | expect
  | mock
  | disconnect
  deriving DecidableEq

structure ScenarioStep where
  type : ActionType
  fields : List Field
  deriving DecidableEq

structure Scenario where
  name : Bytes
  steps : List ScenarioStep
  deriving DecidableEq

def expectSteps (steps : List ScenarioStep) : List ScenarioStep :=
  steps.filter fun step => step.type = .expect

end Fixure
