import DirectoryAccess.Authorization.AciStage
import DirectoryAccess.Authorization.DefaultStage

/-! # Chains of stages — the way of an operation to storage

    A chain is a list of stages in front of a backend.  A stage gets an operation
    and the rest of the chain; it may pass the operation on, act on what comes
    back, or answer without passing it on.  When every stage is through, the
    attributes that were asked for are picked out of what is given back, so that
    the stages themselves see whole entries. -/

namespace DirectoryAccess

/-- A stage of a chain. -/
inductive Stage where
  | aci (stage : AciStage)
  | default (stage : DefaultStage)
  /-- A stage that answers every operation the same without passing it on: with an
      error, or with whether an entry is there. -/
  | fixed (id : String) (answer : Except OperationError Bool)

namespace Stage

variable {σ : Type} [Backend σ]

/-- The name of a stage. -/
def id : Stage → String
  | aci _ => "aci_authorization"
  | default _ => "default_authorization"
  | fixed id _ => id

/-- True if a stage enforces anything; one with a fixed answer always does. -/
def isEnabled : Stage → Bool
  | aci stage => stage.enabled
  | default stage => stage.enabled
  | fixed _ _ => true

/-- Prepare a stage for its first operation. -/
def init : Stage → Handling σ Unit
  | aci _ => AciStage.init
  | default stage => stage.init
  | fixed _ _ => pure ()

/-- Let a stage handle an operation. -/
def handle (stage : Stage) (session : Session) (op : Operation)
    (next : Handling σ (Outcome (World σ))) : Handling σ (Outcome (World σ)) :=
  match stage with
  | aci s => s.handle session op next
  | default s => s.handle session op next
  | fixed _ (.ok present) => pure (.hasEntry present)
  | fixed _ (.error e) => throw e

end Stage

namespace Chain

variable {σ : Type} [Backend σ]

/-- Prepare the stages one after the other. -/
def init : List Stage → Handling σ Unit
  | [] => pure ()
  | stage :: rest => do
      stage.init
      init rest

/-- Pass an operation through the stages and then to storage. -/
def proceed (session : Session) (op : Operation) :
    List Stage → Handling σ (Outcome (World σ))
  | [] => dispatch op
  | stage :: rest => stage.handle session op (proceed session op rest)

/-- Pick the attributes that an operation asked for out of its outcome. -/
def pick (op : Operation) (outcome : Outcome (World σ)) : Outcome (World σ) :=
  match op, outcome with
  | .lookup _ (some attrs), .entry e => .entry (e.select (some attrs))
  | .search _ _ _ (some attrs), .search cursor =>
      .search (cursor.addFilter fun e => pure (some (e.select (some attrs))))
  | _, outcome => outcome

/-- Run an operation through a chain. -/
def execute (stages : List Stage) (session : Session) (op : Operation) :
    Handling σ (Outcome (World σ)) := do
  return pick op (← proceed session op stages)

end Chain

end DirectoryAccess
