import RelGraph.Operations
import RelGraph.Exports.Publication
import RelGraph.Exports.Resolution
/-!
Answering GraphQL requests from a storage. The root fields of a mutation run one after the other;
those of a query run side by side, each planned at once and then sent to the storage in turn. With
exports, a field whose arguments hold placeholders waits until others have published their values,
and fields that nobody is left to publish for run out of time.
-/
namespace RelGraph

open Graphql (Request RootField Settled Response)
open Store (Access)
open Operations (Read State)

/-- An API on a storage, and whether its fields publish values for each other. -/
structure Service where
  api : Api
  access : Access
  exports : Bool := false
deriving Inhabited

namespace Service

/-- A read that waits for its turn at the storage. -/
structure Job where
  field : RootField
  read : Read
deriving Inhabited

/-- A field that waits for its arguments. -/
structure Waiting where
  field : RootField
  args : Exports.Resolution
deriving Inhabited

/-- A request in progress: the state of the operations, the published values, the fields that are
settled in the order in which that came about, and those that are not. -/
structure Progress where
  state : State
  store : Exports.Store := {}
  settled : List Settled := []
  queue : List Job := []
  waiting : List Waiting := []
deriving Inhabited

/-- Whether some field could not stand its problem, which ends the request. -/
def Progress.hasFailed (p : Progress) : Bool :=
  p.settled.any fun s => match s.value with
    | .error _ => true
    | .ok _ => false

/-- Settles a field with what it resolved to. -/
def settle (svc : Service) (r : Request) (p : Progress) (f : RootField) (outcome : Attempt Value) :
    Progress :=
  { p with settled := p.settled ++ [r.settle svc.api.resolve f outcome] }

/-- What a field publishes of its result. -/
def publications (svc : Service) (f : RootField) (outcome : Attempt Value) :
    List (String × Value) :=
  match svc.exports, outcome, f.nodes.head? with
  | true, .ok v, some node => Exports.fieldPublications v node.directives node.entries
  | _, _, _ => []

/-- Publishes what a field exports of its result. -/
def publish (svc : Service) (p : Progress) (f : RootField) (outcome : Attempt Value) : Progress :=
  { p with store := p.store.publishAll (svc.publications f outcome) }

/-- The failure of a field whose arguments need a name that nobody published. -/
def timeout (r : Request) (f : RootField) (m : Exports.Missing) : Failure :=
  .fault (.exportsUnresolved r.root f.definition.name (Fault.exportMissing m.name).message)

/-- What a field without an operation of its own resolves to. -/
def resolvePlain (svc : Service) (r : Request) (f : RootField) (args : Members Value) :
    Attempt Value :=
  svc.api.resolve ⟨r.root, f.definition.name, f.key, .null, args⟩

/-- The operation behind a field with what the field asks for. -/
def operationOf (svc : Service) (r : Request) (f : RootField) :
    Option (Table × Naming.Operation) :=
  if Request.isAboutSchema f then none
  else (svc.api.target? f.definition.name).filter fun (_, op) => op.isWrite = (r.kind == .mutation)

/-- Plans a read on a table, provided that there is a session to run it in. -/
def prepareRead (svc : Service) (r : Request) (f : RootField) (t : Table) (op : Naming.Operation)
    (args : Members Value) : Operations.Step Read := do
  let s ← Operations.Step.ofAttempt (r.selectionOf f args)
  let read ← Operations.planRead svc.api t op s args
  if svc.access.hasSession then return read
  else Operations.Step.ofAttempt (Attempt.fault .sessionMissing)

/-- Begins a field of a query whose arguments are there: a read is planned and takes its turn. -/
def start (svc : Service) (r : Request) (p : Progress) (f : RootField) (args : Members Value) :
    Progress :=
  match svc.operationOf r f with
  | none => svc.settle r p f (svc.resolvePlain r f args)
  | some (t, op) =>
    let (read, state) := (svc.prepareRead r f t op args).run.run p.state
    let p := { p with state := state }
    match read with
    | .ok read => { p with queue := p.queue ++ [⟨f, read⟩] }
    | .error e => svc.settle r p f (.error e)

/-- Begins a field whose arguments are settled, and lets it wait otherwise. -/
def startOrWait (svc : Service) (r : Request) (p : Progress) (f : RootField)
    (args : Exports.Resolution) : Progress :=
  match args with
  | .settled v => svc.start r p f (v.members?.getD [])
  | args => { p with waiting := p.waiting ++ [⟨f, args⟩] }

/-- Settles a field whose arguments cannot be read, which comes up before any field begins. -/
def refuse (svc : Service) (r : Request) (p : Progress) (f : RootField) : Progress :=
  match r.argumentsOf f with
  | .error e => svc.settle r p f (.error e)
  | .ok _ => p

/-- Whether there are placeholders in arguments that others can publish for. -/
def needsExports (svc : Service) (args : Members Value) : Bool :=
  svc.exports && Exports.hasPlaceholder (.object args)

/-- The arguments of a field, which may have to wait for what others publish. -/
def resolveArguments (svc : Service) (store : Exports.Store) (args : Members Value) :
    Exports.Resolution × Exports.Store :=
  if svc.needsExports args then Exports.Resolution.start store (.object args)
  else (.settled (.object args), store)

/-- Takes up a field of a query whose arguments can be read. -/
def takeUp (svc : Service) (r : Request) (p : Progress) (f : RootField) : Progress :=
  match r.argumentsOf f with
  | .error _ => p
  | .ok args =>
    let (args, store) := svc.resolveArguments p.store args
    svc.startOrWait r { p with store := store } f args

/-- Runs a read and settles its field. -/
def finish (svc : Service) (r : Request) (p : Progress) (job : Job) : Progress :=
  let (outcome, state) := (Operations.runRead svc.api svc.access job.read).run.run p.state
  let p := svc.publish { p with state := state } job.field outcome
  svc.settle r p job.field outcome

/-- Lets a field that waited go on with what is published by now. -/
def goOn (svc : Service) (r : Request) (p : Progress) (w : Waiting) : Progress :=
  let (args, store) := w.args.resume p.store
  svc.startOrWait r { p with store := store } w.field args

/-- Lets all fields that wait go on. -/
def wake (svc : Service) (r : Request) (p : Progress) : Progress :=
  p.waiting.foldl (svc.goOn r) { p with waiting := [] }

/-- Settles a field that has run out of time. -/
def timeOut (svc : Service) (r : Request) (p : Progress) (w : Waiting) : Progress :=
  let missing := (w.args.missing? p.store).getD ⟨"", 0⟩
  svc.settle r p w.field (.error (timeout r w.field missing))

/-- Lets the fields that still wait run out of time. -/
def expire (svc : Service) (r : Request) (p : Progress) : Progress :=
  p.waiting.foldl (svc.timeOut r) { p with waiting := [] }

/-- Ends a request that has failed. Reads that are on their way to the storage by then still reach
it, though nobody sees what they give: the next one on a borrowed session, all on sessions of their
own. -/
def abandon (svc : Service) (p : Progress) : Progress :=
  let sent := match svc.access with
    | .own => p.queue
    | .borrowed _ => p.queue.take 1
  { p with
    state := sent.foldl (fun state job =>
      ((Operations.runRead svc.api svc.access job.read).run.run state).2) p.state
    queue := [] }

/-- Serves the fields of a query until none is left; every turn settles a field. -/
def serve (svc : Service) (r : Request) : Nat → Progress → Progress
  | 0, p => p
  | turns + 1, p =>
    if p.hasFailed then svc.abandon p
    else match p.queue with
      | [] => svc.expire r p
      | job :: queue =>
        let p := svc.finish r { p with queue := queue } job
        svc.serve r turns (if p.hasFailed then p else svc.wake r p)

/-- The arguments of a field of a mutation. Placeholders stand for what the fields before it have
published. -/
def argumentsNow (svc : Service) (r : Request) (p : Progress) (f : RootField) :
    Attempt (Members Value) := do
  let args ← r.argumentsOf f
  if svc.needsExports args then
    match Exports.substitute p.store.get? (.object args) with
    | .ok v => return v.members?.getD []
    | .error m => throw (timeout r f m)
  else return args

/-- What a field of a mutation resolves to. -/
def perform (svc : Service) (r : Request) (p : Progress) (f : RootField) :
    Attempt Value × State :=
  let step : Operations.Step Value := do
    let args ← Operations.Step.ofAttempt (svc.argumentsNow r p f)
    match svc.operationOf r f with
    | none => Operations.Step.ofAttempt (svc.resolvePlain r f args)
    | some (t, op) => Operations.run svc.api svc.access t op (r.selectionOf f args) args
  step.run.run p.state

/-- Performs a field of a mutation and settles it. -/
def carryOut (svc : Service) (r : Request) (p : Progress) (f : RootField) : Progress :=
  let (outcome, state) := svc.perform r p f
  svc.settle r (svc.publish { p with state := state } f outcome) f outcome

/-- Performs the fields of a mutation in order, up to the first that could not stand its problem. -/
def performAll (svc : Service) (r : Request) (p : Progress) : List RootField → Progress
  | [] => p
  | f :: rest =>
    let p := svc.carryOut r p f
    if p.hasFailed then p else svc.performAll r p rest

/-- The settled fields in the order of the request. -/
def inOrder (fields : List RootField) (settled : List Settled) : List Settled :=
  fields.filterMap fun f => settled.find? (·.key = f.key)

/-- The response to a request whose fields are settled. The first problem in time that could not be
stood is the one that is reported. -/
def respond (fields : List RootField) (p : Progress) : Response :=
  if p.hasFailed then Request.respond p.settled else Request.respond (inOrder fields p.settled)

/-- Serves the fields of a query. -/
def serveAll (svc : Service) (r : Request) (fields : List RootField) (p : Progress) : Progress :=
  let p := fields.foldl (svc.refuse r) p
  if p.hasFailed then p
  else svc.serve r (fields.length + 1) (fields.foldl (svc.takeUp r) p)

/-- Answers a request. -/
def answer (svc : Service) (r : Request) (state : State) : Response × State :=
  match r.rootFields with
  | .error e => (⟨.null, [Graphql.Problem.ofFailure [] e]⟩, state)
  | .ok fields =>
    let start : Progress := { state := state }
    let p :=
      if r.kind = .mutation then svc.performAll r start fields
      else svc.serveAll r fields start
    (respond fields p, p.state)

end Service
end RelGraph
