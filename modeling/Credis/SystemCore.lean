import Credis.DispatchCore

/-! The context of the handler as the event loop drives it: commands of any
number of connections, connections that come and go, and the timeouts. -/

namespace Credis

open ByteString

structure Request where
  fd : Fd
  args : List Bytes
  raw : Bytes
  deriving DecidableEq

namespace Request

def ofArgs (fd : Fd) (args : List Bytes) : Request := ⟨fd, args, encodeArray args⟩

def Whole (request : Request) : Prop :=
  parseOneInto request.raw = .ok (request.args, request.raw.length)

instance (request : Request) : Decidable request.Whole :=
  inferInstanceAs (Decidable (_ = _))

def name (request : Request) : Bytes := toUpper (request.args.headD [])

end Request

def writesOf (requests : List Request) : List Bytes :=
  (requests.filter fun request => isWriteCommand request.name).map Request.raw

inductive Event
  | request (request : Request)
  | connect (fd : Fd)
  | disconnect (fd : Fd)
  | timeouts (now : Time) (status : AofManager.ChildStatus)
  deriving DecidableEq

def Event.words (fd : Fd) (words : List String) : Event :=
  .request (Request.ofArgs fd (words.map ascii))

structure Observation where
  state : ProcessState
  effect : CommandContext.Effect

namespace CommandContext

variable (ctx : CommandContext) (fd : Fd)

def serve (request : Request) : Except Fault (CommandContext × Observation) :=
  match ctx.step request.fd true request.args request.raw with
  | .error fault => .error fault
  | .ok (after, state, effect) => .ok (after, ⟨state, effect⟩)

def addConnection : CommandContext :=
  { ctx with connPool := ctx.connPool.map fun pool => pool.add fd }

def dropConnection : CommandContext :=
  { ctx with
    blockingManager := ctx.blockingManager.map fun manager => manager.unblockClient fd
    pubsubManager := ctx.pubsubManager.map fun manager => manager.unsubscribeAll fd
    connPool := ctx.connPool.map fun pool => pool.remove fd }

def settle (now : Time) (status : AofManager.ChildStatus) : CommandContext :=
  { ctx with
    blockingManager := ctx.blockingManager.map fun manager => (manager.getExpiredClients now).1
    aofManager := ctx.aofManager.map fun aof => (aof.checkRewriteComplete status now).1 }

def handle : Event → Except Fault (CommandContext × Option Observation)
  | .request request =>
    match ctx.serve request with
    | .error fault => .error fault
    | .ok (after, observation) => .ok (after, some observation)
  | .connect fd => .ok (ctx.addConnection fd, none)
  | .disconnect fd => .ok (ctx.dropConnection fd, none)
  | .timeouts now status => .ok (ctx.settle now status, none)

def wired (config : ServerConfig) (aof : AofManager) (clock : Nat → Instant) (forks : Nat → Bool)
    (replicas : Nat) : CommandContext :=
  { fresh Store.empty config clock forks with
    aofManager := some (((aof.ensureFile config.dir).ensureManifest config.dir).openFile config.dir)
    blockingManager := some BlockingManager.empty
    pubsubManager := some PubSubManager.empty
    replicaCount := some replicas
    offset := some 0
    connPool := some ConnectionPool.empty }

end CommandContext

def logOf (observations : List (Option Observation)) : Bytes :=
  observations.flatMap fun observation =>
    (observation.map fun seen => seen.effect.logged.flatten).getD []

def propagationOf (observations : List (Option Observation)) : List Bytes :=
  observations.flatMap fun observation =>
    (observation.map fun seen => seen.effect.propagated).getD []

end Credis
