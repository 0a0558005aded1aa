import OrionMesh.Dispatch
import OrionMesh.Lib.Transition

/-!
# The reconciler over the store

The reconciler of `OrionMesh.Controller` with the table it reads and the messages it is sent. A pass
lists the Services of every namespace and goes on by their names alone; the loop passes over one
without a runtime before it yields, so the pass starts with the others. `keys` are the keys of the
Services the pass has still to visit, the one it is at first, and `log` is what it decided about
each and sent; no step reads them but to write the log.
-/

namespace OrionMesh

open Wire.Resource (stored)

/-- What a reconcile pass did about a Service. -/
inductive ReconcileEntry
  | decided (key : ResourceKey) (action : ReconcileAction)
  /-- The placement used, and what was sent if a node was picked. -/
  | dispatched (key : ResourceKey) (placement : Wire.Placement)
      (sent : Option (NodeId × ControlRun))
  deriving DecidableEq

def ReconcileEntry.key : ReconcileEntry → ResourceKey
  | decided k _ => k
  | dispatched k _ _ => k

structure Plane where
  store : Store Json
  controller : Controller
  keys : List ResourceKey
  log : List ReconcileEntry

inductive PlaneEvent
  | store (op : StoreOp Wire.Resource)
  | reconcileStart (rows : List (ResourceKey × ResourceRow Json))
  | observe
  | purge
  | publishService (now : Time) (nodes : List ObservedNode) (lastHeartbeat : Option NodeId)
      (order : List InstanceRecord) (fresh : Uuid)
  | recordService (now : Time)
  | lookupLine (at' : Time) (l : LogLine) (order : List InstanceRecord)
  | noteLine
  | taskEvent (now : Time) (ev : TaskEvent)
  | serviceHealth (h : ServiceHealth)

namespace Plane

def empty : Plane := ⟨∅, .empty, [], []⟩

/-- A listed Service that has something to launch. -/
def launchable (e : ResourceKey × Wire.Resource) : Option (ResourceKey × Service) :=
  e.2.service?.bind fun svc => if svc.spec.runtime.isSome then some (e.1, svc) else none

/-- The Services a pass visits, of the rows that `list_by_kind` selects. -/
def listed (rows : List (ResourceKey × ResourceRow Json)) :
    Except StoreError (List (ResourceKey × Service)) :=
  (Store.listByKind stored rows).map fun rs => ((rows.map Prod.fst).zip rs).filterMap launchable

def reconcileStart (s : Plane) (rows : List (ResourceKey × ResourceRow Json)) : Option Plane :=
  if s.store.Selects "Service" rows then
    match listed rows with
    | .error _ => some s
    | .ok services =>
      (s.controller.reconcileStart ⟨services.map Prod.snd, [], [], [], fun _ => []⟩).map fun c =>
        { s with controller := c, keys := services.map Prod.fst }
  else none

/-- The keys once the pass has left `c`: it drops the Service it is done with. -/
def nextKeys (s : Plane) (c : Controller) : List ResourceKey :=
  match c.reconcile with
  | .scan _ => s.keys.tail
  | _ => s.keys

def observe (s : Plane) : Option Plane :=
  s.controller.observe.map fun c =>
    { s with
      controller := c
      keys := s.nextKeys c
      log := s.log ++ match s.controller.reconcile, s.keys with
        | .scan (svc :: _), k :: _ =>
          [.decided k (decideReconcile svc.spec (s.controller.observations svc.name))]
        | _, _ => [] }

section

variable (parse : String → Option Json)

def publishService (s : Plane) (view : NodeView) (fresh : Uuid) : Option Plane :=
  match s.controller.reconcile, s.keys with
  | .purge d [] _, k :: _ =>
    let target := pickNodeForDispatch parse s.store view d.svc.name .service
    (s.controller.publishService (s.store.found d.svc.name) target fresh).map fun (c, sent) =>
      { s with
        controller := c
        keys := s.nextKeys c
        log := s.log ++ [.dispatched k (placementFor s.store .service d.svc.name) sent] }
  | _, _ => none

def setController (s : Plane) (c : Option Controller) : Option Plane :=
  c.map fun c => { s with controller := c }

def step (s : Plane) : PlaneEvent → Option Plane
  | .store op => some { s with store := op.apply stored s.store }
  | .reconcileStart rows => s.reconcileStart rows
  | .observe => s.observe
  | .purge => s.setController s.controller.purge
  | .publishService now nodes lastHeartbeat order fresh =>
    if s.controller.instances.byId.Order order then
      s.publishService parse ⟨now, nodes, lastHeartbeat, InstanceRegistry.snapshotAll order⟩ fresh
    else none
  | .recordService now =>
    (s.controller.recordService now).map fun c => { s with controller := c, keys := s.nextKeys c }
  | .lookupLine at' l order => s.setController (s.controller.lookupLine at' l order)
  | .noteLine => s.setController s.controller.noteLine
  | .taskEvent now ev =>
    some { s with controller := { s.controller with
      instances := subscribeTaskEvents s.controller.instances now ev } }
  | .serviceHealth h =>
    some { s with controller := { s.controller with
      health := s.controller.health.insert h.instanceId h.status } }

/-- The state after the events, if each can happen where it does. -/
def run (s : Plane) (es : List PlaneEvent) : Option Plane := follow (step parse) es s

end

end Plane

end OrionMesh
