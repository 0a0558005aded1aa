import OrionMesh.Lib.SortedMap
import OrionMesh.Scheduler

/-!
# The node cache

An agent publishes its inventory when it starts and again on every n-th tick, and a heartbeat on
each tick. The controller reads the two subjects in loops of their own, which may be interleaved in
any way, and keeps one row per node id in `observed_node`. NATS Core forgets a message that nobody
receives, so a controller that starts later knows a node only from what the agent publishes then.
-/

namespace OrionMesh

open Wire (NodeInventory)

/-! ## The table -/

/-- `observed_node`, by its primary key. -/
abbrev NodeTable := BTreeMap NodeId ObservedNode

namespace NodeTable

/-- The inventory is not among the columns that a conflict updates. -/
def touchNode (t : NodeTable) (now : Time) (nodeId : NodeId) (agentVersion : String) : NodeTable :=
  t.insert nodeId
    { nodeId := nodeId
      agentVersion := agentVersion
      inventoryJson := (t.get nodeId).bind ObservedNode.inventoryJson
      lastSeenAt := now }

def setNodeInventory (t : NodeTable) (now : Time) (nodeId : NodeId)
    (agentVersion inventoryJson : String) : NodeTable :=
  t.insert nodeId
    { nodeId := nodeId
      agentVersion := agentVersion
      inventoryJson := some inventoryJson
      lastSeenAt := now }

/-- `ORDER BY node_id`. -/
def listNodes (t : NodeTable) : List ObservedNode := t.values

end NodeTable

/-! ## The subscribers -/

/-- What the controller reads of a heartbeat. -/
structure Heartbeat where
  nodeId : NodeId
  agentVersion : String
  deriving DecidableEq

/-- The table, and the `NodeIdRegistry`. -/
structure NodeCache where
  table : NodeTable
  last : Option NodeId

def NodeCache.empty : NodeCache := ⟨∅, none⟩

/-- What one of the two loops does between two of its awaits. A write comes with the clock, and
with whether the database takes it. -/
inductive NodeEvent
  | setLast (id : NodeId)
  | touch (hb : Heartbeat) (now : Time) (written : Bool)
  | inventory (inv : NodeInventory) (now : Time) (written : Bool)
  deriving DecidableEq

/-- A message as a loop meets it: its payload, if it decodes, the clock and the database. -/
structure NodeMessage (P : Type) where
  payload : Option P
  now : Time
  written : Bool

def subscribeHeartbeats (msg : NodeMessage Heartbeat) : List NodeEvent :=
  match msg.payload with
  | some hb => [.setLast hb.nodeId, .touch hb msg.now msg.written]
  | none => []

def subscribeInventory (msg : NodeMessage NodeInventory) : List NodeEvent :=
  match msg.payload with
  | some inv => [.inventory inv msg.now msg.written]
  | none => []

section

variable (print : Json → String)

/-- `serde_json::to_string` of an inventory. -/
def inventoryText (inv : NodeInventory) : String := print (NodeInventory.format.enc inv)

namespace NodeCache

def step (c : NodeCache) : NodeEvent → NodeCache
  | .setLast id => { c with last := some id }
  | .touch hb now written =>
    { c with
      table := if written then c.table.touchNode now hb.nodeId hb.agentVersion else c.table }
  | .inventory inv now written =>
    { c with
      table :=
        if written then
          c.table.setNodeInventory now inv.nodeId inv.agentVersion (inventoryText print inv)
        else c.table }

def run (events : List NodeEvent) : NodeCache := events.foldl (step print) empty

/-- What a dispatch reads of the cache. -/
def view (c : NodeCache) (now : Time) (instances : List InstanceRecord) : NodeView where
  now := now
  nodes := c.table.listNodes
  lastHeartbeat := c.last
  instances := instances

end NodeCache

end

/-! ## The agent -/

/-- The loop of an agent: `--inventory-every-n-heartbeats`, and the ticks counted so far. -/
structure AgentLoop where
  inventoryEveryN : BitVec 32
  tickCount : BitVec 32

inductive AgentMessage
  | heartbeat
  | inventory
  deriving DecidableEq

namespace AgentLoop

/-- The count wraps. -/
def tick (a : AgentLoop) : AgentLoop × List AgentMessage :=
  let tickCount := a.tickCount + 1
  ({ a with tickCount := tickCount },
    (if 0 < a.inventoryEveryN ∧ tickCount.toNat % a.inventoryEveryN.toNat = 0 then [.inventory]
      else []) ++ [.heartbeat])

/-- What the next ticks publish, tick by tick. -/
def ticks (a : AgentLoop) : ℕ → List (List AgentMessage)
  | 0 => []
  | n + 1 => a.tick.2 :: a.tick.1.ticks n

end AgentLoop

end OrionMesh
