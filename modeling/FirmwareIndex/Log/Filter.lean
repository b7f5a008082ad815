import FirmwareIndex.Log.Directive

/-!
# Log filters

A filter says which entries are written. It is a list of directives separated by commas, and empty
pieces between commas are passed over. The directive that says most about where it applies decides
on an entry: the one with the longest area, and among those one that asks for a field. Nothing but
errors is written where nothing is said.
-/

set_option autoImplicit false

namespace FirmwareIndex

/-- Which entries are logged. -/
structure LogFilter where
  directives : List Directive
deriving DecidableEq, Repr

namespace LogFilter

/-- The filter that writes all entries up to a level. -/
def upTo (last : LogLevel) : LogFilter :=
  ⟨[⟨[], none, some last⟩]⟩

/-- The filter in a text. An empty one lets errors pass. -/
def ofText (t : Text) : Except FilterFault LogFilter :=
  match (t.splitOn ',').filter (· ≠ []) with
  | [] => .ok (.upTo .error)
  | pieces => (pieces.mapM Directive.ofText).map fun ds => ⟨ds.filterMap id⟩

/-- The directive of two about an entry that decides on it: the one that says more about where it
applies, and the later one if they say the same. -/
def decisive (d : Option Directive) (other : Directive) : Option Directive :=
  match d with
  | none => some other
  | some d => some (if other.isVaguer d then d else other)

/-- The last level that is written of what an entry is about, if any is. -/
def last? (f : LogFilter) (e : LogEntry) : Option LogLevel :=
  ((f.directives.filter fun d => d.concerns e).foldl decisive none).bind Directive.last

/-- Whether an entry is logged. -/
def passes (f : LogFilter) (e : LogEntry) : Bool :=
  (f.last? e).any fun l => e.level.rank ≤ l.rank

end LogFilter

end FirmwareIndex
