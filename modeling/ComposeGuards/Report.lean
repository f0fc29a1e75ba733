import ComposeGuards.Coverage.SpanReader
import ComposeGuards.Guard.Scan
import ComposeGuards.Text.Lines

/-! # Reports

The report on a listing has one entry per method, in the order of the listing. An entry says whether
the method is composable, which guards were recognised, and how many instructions their spans
exclude.
-/
namespace ComposeGuards
open Json

structure MethodReport where
  className : String
  method : String
  desc : String
  composable : Bool
  instructions : Nat
  excluded : Nat
  findings : List Finding
  spans : List Span
  deriving DecidableEq, Repr

/-- The spans of the findings, one after another. -/
def Finding.allSpans (fs : List Finding) : List Span :=
  fs.flatMap Finding.spans

namespace Settings

def methodReport (s : Settings) (c : ClassUnit) (m : Method) : MethodReport :=
  let findings := s.find c.isKotlin m
  let exclusions := Exclusions.ignoreAll {} (Finding.allSpans findings)
  { className := c.name
    method := m.name
    desc := m.desc
    composable := m.isComposable c.isKotlin
    instructions := m.body.length
    excluded := exclusions.count m.body.length
    findings := findings
    spans := exclusions.spans }

def report (s : Settings) (cs : List ClassUnit) : List MethodReport :=
  cs.flatMap fun c => c.methods.map (s.methodReport c)

/-- The messages of one method: those of the scan, then one for each span. -/
def methodLog (s : Settings) (c : ClassUnit) (m : Method) : List Log.Message :=
  (if m.isComposable c.isKotlin then s.scanLog m else []) ++
    (Finding.allSpans (s.find c.isKotlin m)).map Exclusions.ignoreMessage

/-- The messages of a report, with a summary at the end. -/
def reportLog (s : Settings) (cs : List ClassUnit) : List Log.Message :=
  let reports := s.report cs
  (cs.flatMap fun c => c.methods.flatMap (s.methodLog c)) ++
    [⟨.info, filterName ++ ": " ++ toString reports.length ++ " methods, " ++
      toString (reports.countP fun r => !r.spans.isEmpty) ++ " with exclusions"⟩]

end Settings

def Finding.line (f : Finding) : String :=
  "  " ++ f.title ++ ": " ++ ", ".intercalate (f.spans.map Span.text)

def Finding.json (f : Finding) : Json.Value :=
  .object
    [("idiom", .text f.guard.key), ("call", .natural f.call),
      ("ranges", .array (f.spans.map Span.json))]

namespace MethodReport

def lines (r : MethodReport) : List String :=
  (r.className ++ "." ++ r.method ++ r.desc) ::
    if r.composable then
      r.findings.map Finding.line ++
        ["  excluded " ++ toString r.excluded ++ "/" ++ toString r.instructions ++ " instructions"]
    else ["  not composable"]

def json (r : MethodReport) : Json.Value :=
  .object
    [("class", .text r.className), ("method", .text r.method), ("desc", .text r.desc),
      ("eligible", .boolean r.composable), ("instructions", .natural r.instructions),
      ("excluded", .natural r.excluded), ("idioms", .array (r.findings.map Finding.json)),
      ("ranges", .array (r.spans.map Span.json))]

/-- The report as lines for people. -/
def text (rs : List MethodReport) : String :=
  Text.unlines (rs.flatMap lines)

/-- The report as one JSON text, followed by a line feed. -/
def jsonText (rs : List MethodReport) : String :=
  Json.Value.pretty 0 (.array (rs.map json)) ++ "\n"

end MethodReport
end ComposeGuards
