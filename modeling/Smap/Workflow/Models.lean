import Smap.Workflow.Definition

/-!
# States and outcomes

The run and step states of `models.py`, the job names the engine enqueues, and the
value every node executor returns.
-/

namespace Smap.Workflow

inductive RunState where
  | running
  | waiting
  | succeeded
  | failed
  | cancelled
  deriving DecidableEq, Repr

/-- `RunState.is_terminal`. -/
def RunState.isTerminal : RunState → Bool
  | .succeeded | .failed | .cancelled => true
  | .running | .waiting => false

inductive StepState where
  | pending
  | running
  | succeeded
  | failed
  | skipped
  | cancelled
  deriving DecidableEq, Repr

/-- The jobs the engine and the executors put on the queue for a run. -/
inductive TaskName where
  | runWorkflowStep
  | retryWorkflowNode
  | workflowVariableSignal
  | workflowEventTimeout
  | workflowEventResume
  deriving DecidableEq, Repr

/-- Return value of every node executor. -/
structure StepOutcome where
  state : StepState
  output : JsonObject := []
  port : String := "default"
  error : Option String := none
  park : Bool := false
  /-- The step succeeded but its outgoing edges must not be followed. -/
  skipEdges : Bool := false
  timeoutMs : ℤ := 0
  timeoutTask : Option TaskName := none

end Smap.Workflow
