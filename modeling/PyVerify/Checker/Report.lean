import PyVerify.Checker.Verification

/-!
# Reports on requests

The outcome of a request as text and as JSON.
-/

namespace PyVerify

namespace AttemptRecord

def render (a : AttemptRecord) : String :=
  let seconds := a.duration.seconds.fixed 2
  let repair := match a.repaired with
    | some option => s!", removed {option}"
    | none => ""
  s!"[{a.stage.title}] {a.configuration.render} -> {a.classification.name} ({seconds}s)" ++ repair

def toJson (a : AttemptRecord) : Json :=
  .object [
    ("stage", .string a.stage.name),
    ("configuration", a.configuration.toJson),
    ("command_line", .string a.commandLine),
    ("classification", .string a.classification.name),
    ("exit_code", .ofOption .ofInt a.exitCode),
    ("duration_secs", .ofBinary64 a.duration.seconds),
    ("repaired_option", .ofOption .string a.repaired)]

end AttemptRecord

namespace Outcome

def verdict (o : Outcome) : String :=
  if o.success then "VERIFICATION SUCCESSFUL"
  else if o.isInformative then "VERIFICATION FAILED"
  else "VERIFICATION INCONCLUSIVE"

/-- Numbered attempts, if there was more than one. -/
def attemptsText (o : Outcome) : String :=
  if o.attempts.length ≤ 1 then ""
  else
    let lines := o.attempts.mapIdx fun i a => s!"  {i + 1}. {a.render}\n"
    "\nattempts:\n" ++ String.join lines

def render (o : Outcome) : String :=
  let checks := ", ".intercalate o.enabled
  let guidance := match o.guidance with
    | some text => s!"\n{text}\n"
    | none => ""
  let output :=
    if o.output.isEmpty then ""
    else "\nchecker output:\n" ++ String.ofList (Text.trimEnd o.output.toList) ++ "\n"
  s!"{o.verdict} ({o.classification.name})\n" ++
    s!"command: {o.commandLine}\n" ++
    s!"checks:  {checks}\n" ++
    s!"file:    {o.file}\n" ++
    o.attemptsText ++ guidance ++ output

def toJson (o : Outcome) : Json :=
  .object [
    ("success", .bool o.success),
    ("classification", .string o.classification.name),
    ("output", .string o.output),
    ("output_len", .ofNat o.outputSize),
    ("command_line", .string o.commandLine),
    ("configuration", o.configuration.toJson),
    ("enabled_checks", .strings o.enabled),
    ("guidance", .ofOption .string o.guidance),
    ("saved_file", .string o.file),
    ("attempts", .array (o.attempts.map AttemptRecord.toJson))]

end Outcome
end PyVerify
