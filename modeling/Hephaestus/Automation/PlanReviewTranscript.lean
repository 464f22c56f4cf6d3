import Hephaestus.Automation.PlanReviewSession

/-!
# The transcript of a plan review

`transcript` of `PlanReviewSessionStore`. The artifacts are written as text and read
back as text, and reading makes one line end of `\r\n` and of `\r`; the digest of an
artifact was taken of the text as it was. Between the write of an artifact and the
write of the record a process may die.
-/

namespace Hephaestus.Automation.PlanReview

open Hephaestus.Lib Hephaestus.Automation.Delivery

/-- What reading a text file makes of its line ends. -/
@[grind =] def universalNewlines : Text → Text
  | [] => []
  | '\r' :: '\n' :: t => '\n' :: universalNewlines t
  | '\r' :: t => '\n' :: universalNewlines t
  | c :: t => c :: universalNewlines t

def ArtifactKind.value : ArtifactKind → Text
  | .review => "review".toList
  | .amendment => "amendment".toList

/-- The line in front of the content of an artifact. -/
def headerLine (artifact : PlanReviewArtifact) : Text :=
  "## ".toList ++ artifact.kind.value ++ " round=".toList
    ++ JsonText.decimalInt artifact.roundIndex ++ " revision=".toList
    ++ JsonText.decimalInt artifact.planRevision ++ " fingerprint=".toList
    ++ artifact.planFingerprint ++ ['\n']

variable (floats : JsonText.FloatText)

/-- A section of the transcript. The path of an artifact names its cycle and its number,
which `load` has checked. -/
def transcriptSection (files : PlanReviewFiles) (cycleId : Text) (artifact : PlanReviewArtifact) :
    Except SessionError Text :=
  match files.transcripts cycleId artifact.sequence.toNat with
  | none => .error (.lost "review transcript artifact is missing")
  | some written => do
      let content := universalNewlines written
      raiseIf (sha256Text content ≠ artifact.digest)
        (.lost "review transcript artifact digest mismatch")
      .ok (headerLine artifact ++ content)

/-- `transcript`. -/
def transcript (cycleId : Text) : Method Text := do
  let record ← load floats cycleId
  let files ← get
  let sections ← Command.attempt (record.artifacts.mapM (transcriptSection files cycleId))
  pure (['\n', '\n'].intercalate sections)

deriving instance DecidableEq for NewArtifact

/-- The entries that calls leave: a call with the values of the latest entry adds none. -/
def entriesOf (calls : List NewArtifact) : List NewArtifact :=
  calls.foldl (fun entries a => if entries.getLast? = some a then entries else entries ++ [a]) []

/-- The artifact that is recorded of an entry. -/
def artifactOf (cycleId : Text) (sequence : Nat) (a : NewArtifact) : PlanReviewArtifact where
  sequence := sequence
  kind := a.kind
  roundIndex := a.roundIndex
  planRevision := a.planRevision
  planFingerprint := a.planFingerprint
  path := artifactPath cycleId sequence
  digest := sha256Text a.content

/-- The transcript that holds exactly the contents of its entries. -/
def transcriptOf (cycleId : Text) (entries : List NewArtifact) : Text :=
  ['\n', '\n'].intercalate
    (entries.mapIdx fun i a => headerLine (artifactOf cycleId i a) ++ a.content)

/-- `append_artifact`, up to the write of the record. -/
def interruptedAppend (cycleId : Text) (a : NewArtifact) : Method Unit := do
  let record ← load floats cycleId
  if isLatest record a then pure ()
  else writeTranscript cycleId record.artifacts.length a.content

/-- One process appends artifacts, one after another, each at its time. -/
def appendAll (cycleId : Text) : List (NewArtifact × Text) → Method Unit
  | [] => pure ()
  | (a, now) :: calls => do
      let _ ← appendArtifact floats cycleId a now
      appendAll cycleId calls

end Hephaestus.Automation.PlanReview
