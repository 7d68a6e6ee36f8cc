import DirectoryAccess.Chain.Basic

/-! # The directory server — operations under a session, and their answers

    A server is a configuration, a chain of stages and the state they work on.  The
    standard chain has the access control stage in front of the default stage; the
    configuration decides which of the two enforces anything, and both ask one
    group cache who the administrators are. -/

namespace DirectoryAccess

/-- What a session is told of an operation that succeeds. -/
inductive Answer where
  | done
  | truth (value : Bool)
  | entry (entry : Entry)
  | entries (list : List Entry)
  deriving DecidableEq

/-- A kind of stage that a chain can be put together from. -/
inductive StageKind where
  | aci
  /-- The default stage that asks the shared group cache. -/
  | sharedDefault
  /-- The default stage with a group cache of its own. -/
  | ownDefault
  /-- A stage with a fixed answer. -/
  | fixed (id : String) (answer : Except OperationError Bool)

/-- A server over some storage. -/
structure Server (σ : Type) where
  config : Configuration
  stages : List Stage
  world : World σ

namespace Server

variable {σ : Type} [Backend σ]

/-- The stages of a list of kinds.  The default stages with a group cache of their
    own take places from `place` on. -/
def stagesOf (config : Configuration) (place : Nat) : List StageKind → List Stage
  | [] => []
  | .aci :: rest => .aci (AciStage.ofConfiguration config) :: stagesOf config place rest
  | .sharedDefault :: rest =>
      .default (DefaultStage.ofConfiguration config .shared) :: stagesOf config place rest
  | .ownDefault :: rest =>
      .default (DefaultStage.ofConfiguration config (.own place))
        :: stagesOf config (place + 1) rest
  | .fixed id answer :: rest => .fixed id answer :: stagesOf config place rest

/-- The state in front of any loading: every cache is empty. -/
def unloadedWorld (config : Configuration) (stages : List Stage) (store : σ) : World σ :=
  let groups := GroupCache.unloaded config.adminDn config.adminGroupDn
  ⟨store, groups, none, stages.map fun _ => groups⟩

/-- A server over given stages, each prepared before the first operation. -/
def withStages (config : Configuration) (kinds : List StageKind) (store : σ) :
    Except OperationError (Server σ) :=
  let stages := stagesOf config 0 kinds
  match Chain.init stages (unloadedWorld config stages store) with
  | .ok () world => .ok ⟨config, stages, world⟩
  | .error e _ => .error e

/-- The standard server. -/
def start (config : Configuration) (store : σ) : Except OperationError (Server σ) :=
  withStages config [.aci, .sharedDefault] store

/-- An operation as the server runs it: attributes to compare are named in lower
    case. -/
def prepare : Operation → Operation
  | .compare dn attr value => .compare dn (Text.lowercase attr) value
  | op => op

/-- Run an operation of a session and put together what the session is told. -/
def perform (stages : List Stage) (session : Session) (op : Operation) :
    Handling σ Answer := do
  let op := prepare op
  let outcome ← Chain.execute stages session op
  match op with
  | .compare _ _ _ | .hasEntry _ => return .truth (← Action.ofExcept outcome.toBool)
  | .lookup _ _ => return .entry (← Action.ofExcept outcome.toEntry)
  | .search _ _ _ _ => return .entries (← (← Action.ofExcept outcome.toCursor).collect)
  | _ =>
      Action.ofExcept outcome.toDone
      return .done

/-- What a session is told of an operation, and the server afterwards. -/
def step (server : Server σ) (session : Session) (op : Operation) :
    Except OperationError Answer × Server σ :=
  match perform server.stages session op server.world with
  | .ok answer world => (.ok answer, { server with world := world })
  | .error e world => (.error e, { server with world := world })

end Server

end DirectoryAccess
