import Stubsmith.Stubs.Result
import Stubsmith.Text.Json
import Stubsmith.Text.Table

namespace Stubsmith

inductive ReportFormat where
  | table
  | json
deriving DecidableEq, Repr, Inhabited

def ReportFormat.ofName? : String → Option ReportFormat
  | "table" => some .table
  | "json" => some .json
  | _ => none

namespace StubsResult

variable (r : StubsResult)

def statsTable : String :=
  Text.renderTable (r.stats.map (·.1.name)) [r.stats.map fun (_, n) => toString n]

def duplicatesTable : String :=
  Text.renderTable ["kind", "name", "count"]
    (r.duplicates.map fun d => [d.kind.name, d.name, toString d.count])

def reportTables : String :=
  r.statsTable ++
    (if r.duplicates.isEmpty then ""
      else "\nDuplicate declarations found\n\n" ++ r.duplicatesTable) ++
    if r.unparsed.isEmpty then ""
    else
      "\nFiles that could not be parsed\n\n" ++
        String.join (r.unparsed.map fun u => " * " ++ u.path ++ ": " ++ u.reason ++ "\n")

def reportJson : Text.Json :=
  .object [
    ("stats", .object (r.stats.map fun (kind, n) => (kind.name, .number n))),
    ("duplicates", .list (r.duplicates.map fun d =>
      .object [("kind", .text d.kind.name), ("name", .text d.name), ("count", .number d.count)])),
    ("unparsed", .list (r.unparsed.map fun u =>
      .object [("path", .text u.path), ("reason", .text u.reason)]))]

def report : ReportFormat → String
  | .table => r.reportTables
  | .json => Text.Json.pretty 0 r.reportJson

end StubsResult

end Stubsmith
