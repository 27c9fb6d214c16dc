/-!
# Status of an attempt

The engine reports the outcome of an attempt as text. Known texts have a case of their own; any other
text is kept as it is, so reading never fails on it, but it has no display category. Main statements:
the text of a status that was read is the text it was read from, and reading is what `canonical`
makes of a status.
-/

namespace AttemptLedger

/-- The outcomes of an attempt (`EdgeStatus`). -/
inductive Status
  | pending
  | processing
  | failed
  | success
  | skippedParentFailed
  | skippedAlreadyFound
  | found
  | failedNoExtracted
  | failedNoInference
  | translated
  | failedExecution
  | failedVerification
  | failedExecutionTimeout
  | skippedNoExtract
  | unrecognized (text : String)
  deriving DecidableEq, Repr

/-- The colour classes of drawn nodes (`DisplayCategory`); sky blue is the root's. -/
inductive Category
  | green
  | blue
  | red
  | grey
  | skyBlue
  deriving DecidableEq, Repr

def Category.color : Category → String
  | .green => "green"
  | .blue => "blue"
  | .red => "red"
  | .grey => "grey"
  | .skyBlue => "skyblue"

namespace Status

/-- Reads a status (`parse`). -/
def ofText (text : String) : Status :=
  match text with
  | "PENDING" => .pending
  | "PROCESSING" => .processing
  | "FAILED" => .failed
  | "SUCCESS" => .success
  | "SKIPPED_PARENT_FAILED" => .skippedParentFailed
  | "SKIPPED_TRANSLATION_FOUND" => .skippedAlreadyFound
  | "TRANSLATION_FOUND" => .found
  | "FAILED_NO_EXTRACTED" => .failedNoExtracted
  | "FAILED_NO_INFERENCE" => .failedNoInference
  | "TRANSLATED" => .translated
  | "FAILED_EXECUTION" => .failedExecution
  | "FAILED_VERIFICATION" => .failedVerification
  | "FAILED_EXECUTION_TIMEOUT" => .failedExecutionTimeout
  | "SKIPPED_NO_EXTRACT" => .skippedNoExtract
  | other => .unrecognized other

/-- Writes a status (`as_str`). -/
def text : Status → String
  | .pending => "PENDING"
  | .processing => "PROCESSING"
  | .failed => "FAILED"
  | .success => "SUCCESS"
  | .skippedParentFailed => "SKIPPED_PARENT_FAILED"
  | .skippedAlreadyFound => "SKIPPED_TRANSLATION_FOUND"
  | .found => "TRANSLATION_FOUND"
  | .failedNoExtracted => "FAILED_NO_EXTRACTED"
  | .failedNoInference => "FAILED_NO_INFERENCE"
  | .translated => "TRANSLATED"
  | .failedExecution => "FAILED_EXECUTION"
  | .failedVerification => "FAILED_VERIFICATION"
  | .failedExecutionTimeout => "FAILED_EXECUTION_TIMEOUT"
  | .skippedNoExtract => "SKIPPED_NO_EXTRACT"
  | .unrecognized text => text

def isRecognized : Status → Bool
  | .unrecognized _ => false
  | _ => true

def isFound : Status → Bool
  | .found => true
  | _ => false

def category? : Status → Option Category
  | .found => some .green
  | .success | .translated => some .blue
  | .failed | .failedNoExtracted | .failedNoInference | .failedExecution | .failedVerification
  | .failedExecutionTimeout => some .red
  | .skippedAlreadyFound | .skippedParentFailed | .skippedNoExtract | .pending | .processing =>
    some .grey
  | .unrecognized _ => none

/-- The status that is read back from a status's text. -/
def canonical (status : Status) : Status := ofText status.text

theorem text_ofText (s : String) : (ofText s).text = s := by
  unfold ofText
  split <;> rfl

theorem canonical_ofText (s : String) : (ofText s).canonical = ofText s := by
  rw [canonical, text_ofText]

theorem category?_eq_none_iff {status : Status} :
    status.category? = none ↔ status.isRecognized = false := by
  cases status <;> simp [category?, isRecognized]

end Status

end AttemptLedger
