import FirmwareIndex.Workspace.Basic

/-!
# Observed workspaces

Whoever subscribes to a workspace receives its events from then on, in the order in which they are
raised. Subscribers leave without notice: the next event that cannot be handed over takes them off
the list.
-/

set_option autoImplicit false

namespace FirmwareIndex

/-- Somebody to hand events to. -/
structure Subscriber where
  /-- Events can be handed over, because the subscriber has not left. -/
  listening : Bool
  /-- The events that have been handed over and not been looked at. -/
  received : List Event
deriving DecidableEq

namespace Subscriber

/-- A subscriber who has received nothing. -/
def new : Subscriber :=
  ⟨true, []⟩

/-- Hands over an event, unless the subscriber has left. -/
def send? (e : Event) (s : Subscriber) : Option Subscriber :=
  if s.listening then some { s with received := s.received ++ [e] } else none

end Subscriber

/-- A workspace with its subscribers. -/
structure Observed where
  workspace : Workspace
  subscribers : List Subscriber
deriving DecidableEq

namespace Observed

/-- A workspace that has not been scanned and that nobody has subscribed to. -/
def start (root : Path) (options : Options) : Observed :=
  ⟨.start root options, []⟩

/-- A new subscriber receives the events from now on. -/
def subscribe (o : Observed) : Observed :=
  { o with subscribers := o.subscribers ++ [.new] }

/-- The subscriber at a place of the list does not listen any more. -/
def leave (o : Observed) (place : Nat) : Observed :=
  { o with subscribers := o.subscribers.modify place fun s => { s with listening := false } }

/-- The subscriber at a place of the list looks at what has been received. -/
def look (o : Observed) (place : Nat) : Observed :=
  { o with subscribers := o.subscribers.modify place fun s => { s with received := [] } }

/-- Hands over events, one after the other. -/
def publish (o : Observed) (events : List Event) : Observed :=
  { o with
    subscribers := events.foldl (fun subscribers e => subscribers.filterMap (Subscriber.send? e))
      o.subscribers }

/-- A scan is announced once its catalog is in place. -/
def scan (o : Observed) (t : Tree) : Observed × Except Refusal Summary :=
  match o.workspace.scan t with
  | .error refusal => (o, .error refusal)
  | .ok (scanned, events) => ({ o with workspace := scanned }.publish events, .ok scanned.summary)

/-- The events of a rescan are published once its catalog is in place. -/
def rescan (o : Observed) (t : Tree) (path : Path) : Observed × Except Refusal Bool :=
  match o.workspace.rescan t path with
  | .error refusal => (o, .error refusal)
  | .ok (rescanned, changed, events) =>
    ({ o with workspace := rescanned }.publish events, .ok changed)

/-- Reads the modules below a directory. Nothing is told of that. -/
def loadUnder (o : Observed) (t : Tree) (root : Path) : Observed :=
  { o with workspace := o.workspace.loadUnder t root }

end Observed

end FirmwareIndex
