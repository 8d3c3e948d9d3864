import DmaStream.Card
import DmaStream.Session.Basic

namespace DmaStream.Describe

/-- A kind with named fields. -/
def record (kind : String) (fields : List (String × String)) : String :=
  let items := fields.map fun (name, value) => name ++ ": " ++ value
  kind ++ " \x7b " ++ String.intercalate ", " items ++ " \x7d"

def option {α : Type} (inner : α → String) : Option α → String
  | some a => s!"Some({inner a})"
  | none => "None"

def engine (e : Engine) : String :=
  record "Engine"
    [("enabled", toString e.enabled), ("hw_count", toString e.hwCount),
      ("sw_count", toString e.swCount), ("owner", option toString e.owner)]

def shape (s : CardShape) : String :=
  record "SoftConfig"
    [("slot_size", toString s.slotSize), ("slot_count", toString s.slotCount),
      ("batch_per_tick", toString s.batchPerTick)]

def card (c : Card) : String :=
  record "SoftCard"
    [("config", shape c.shape), ("loopback", toString c.loopback),
      ("engines", s!"[{engine c.engines.inbound}, {engine c.engines.outbound}]"),
      ("open_handles", toString c.openHandles)]

def counts (c : Counts) : String :=
  record "Counts" [("hw_count", toString c.hwCount), ("sw_count", toString c.swCount)]

def directionStats (s : DirectionStats) : String :=
  record "DirectionStats"
    [("hw_count", toString s.hwCount), ("sw_count", toString s.swCount),
      ("claimed", toString s.claimed), ("slot_size", toString s.slotSize),
      ("final_counts", option counts s.final)]

def stats (s : Stats) : String :=
  record "SessionStats"
    [("inbound", directionStats s.directions.inbound),
      ("outbound", directionStats s.directions.outbound),
      ("steps", toString s.steps), ("timeouts", toString s.timeouts)]

def session (s : Session) : String :=
  record "DmaSession" [("open", toString s.isOpen), ("stats", stats s.stats)]

def lock (held : Directions) : String :=
  record "ChannelLock" [("held", held.describe)]

/-- The memory of a ring: whose it is, and how long. -/
def storage (r : Ring) : String :=
  match r.storage with
  | .owned => s!"Private({r.regionLen})"
  | .mapped => s!"Shared({r.regionLen})"

def ring (r : Ring) : String :=
  record "BufferRing"
    [("slot_size", toString r.slotSize), ("slot_count", toString r.slotCount),
      ("storage", storage r)]

def handle (id : Nat) : String :=
  record "SoftDevice" [("id", toString id)]

end DmaStream.Describe
