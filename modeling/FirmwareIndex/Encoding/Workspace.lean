import FirmwareIndex.Encoding.Catalog
import FirmwareIndex.Workspace.Basic

/-!
# Answers of a workspace as JSON

Totals, events and refusals are written as objects. The totals of a scan can be given the time it
took and the time when it was complete. Every file that a scan finds is taken in, so the number of
those that were left out is zero.
-/

set_option autoImplicit false

namespace FirmwareIndex

/-- The fields of the totals. -/
def Summary.fields (s : Summary) : List (Text × Json) :=
  [("root", s.root.json), ("modules", .count s.modules), ("packages", .count s.packages),
    ("platforms", .count s.platforms), ("library_classes", .count s.libraryClasses),
    ("failed", .count 0)]

/-- The totals as an answer shows them. -/
def Summary.json (s : Summary) : Json :=
  .obj s.fields

/-- How long a scan took, and when it ended. -/
structure Timing where
  elapsed : Nat
  completed : Text
deriving DecidableEq, Repr

/-- The fields of the timing. -/
def Timing.fields (t : Timing) : List (Text × Json) :=
  [("duration_ms", .count t.elapsed), ("completed_at", .str t.completed)]

/-- Totals with their timing as an object. -/
def Summary.timedJson (s : Summary) (t : Timing) : Json :=
  .obj (s.fields ++ t.fields)

/-- What an event tells besides its kind. -/
def Event.payload : Event → Json
  | .packageDiscovered p => p.json
  | .projectDiscovered path problems => .obj [("path", path.json), ("errors", .count problems)]
  | .scanCompleted s => s.json

/-- The event as an answer shows it. -/
def Event.json (e : Event) : Json :=
  .obj [("kind", .str e.kind), ("payload", e.payload)]

/-- The refusal as an answer shows it. -/
def Refusal.json (r : Refusal) : Json :=
  .obj [("error", .str r.kind), ("message", .str r.message)]

end FirmwareIndex
