import AttemptLedger.Batch
import AttemptLedger.Wire.Varint

/-!
# Writing the binary form

The bytes of every message, field by field in a fixed order. Empty texts, zeros and unset flags are
left out, except where a field is required or where an empty text differs from none.
-/

namespace AttemptLedger.Wire

def tagBytes (field : Nat) (wireType : WireType) : Bytes := varintBytes (field * 8 + wireType.code)

/-- A number, also when it is zero (`write_required_int`). -/
def requiredInt (field : Nat) (value : Int64) : Bytes :=
  tagBytes field .varint ++ varintBytes value.toUInt64.toNat

/-- A number, unless it is zero (`write_int`). -/
def optionalInt (field : Nat) (value : Int64) : Bytes :=
  if value = 0 then [] else requiredInt field value

def setFlag (field : Nat) (value : Bool) : Bytes :=
  if value then tagBytes field .varint ++ varintBytes 1 else []

/-- Bytes with their length in front (`write_len`). -/
def delimited (field : Nat) (body : Bytes) : Bytes :=
  tagBytes field .delimited ++ varintBytes body.length ++ body

def optionalText (field : Nat) : Option String → Bytes
  | some text => delimited field (Text.Utf8.encode text)
  | none => []

def textField (field : Nat) (text : String) : Bytes :=
  if text = "" then [] else delimited field (Text.Utf8.encode text)

def fuzzyTestBytes (test : FuzzyTest) : Bytes :=
  textField 1 test.stdinInput ++ textField 2 test.expectedOutput ++ optionalText 3 test.actualOutput
    ++ setFlag 4 test.passed ++ textField 5 test.executedCode

def unitTestBytes (test : UnitTest) : Bytes :=
  textField 1 test.sourceCode ++ optionalText 2 test.actualOutput ++ setFlag 3 test.passed
    ++ textField 4 test.executedCode

/-- The body of an attempt (`encode_edge`). -/
def attemptBytes (attempt : Attempt) : Bytes :=
  requiredInt 1 attempt.id ++ requiredInt 2 attempt.parentId
    ++ textField 3 attempt.inputLanguage ++ textField 4 attempt.targetLanguage
    ++ optionalInt 5 attempt.level ++ textField 6 attempt.status.text
    ++ textField 7 attempt.extractedCode ++ textField 8 attempt.inferenceOutput
    ++ attempt.tests.fuzzyTests.flatMap (fun test => delimited 9 (fuzzyTestBytes test))
    ++ attempt.tests.unitTests.flatMap (fun test => delimited 10 (unitTestBytes test))
    ++ textField 11 attempt.prompt ++ textField 12 attempt.sourceCode
    ++ setFlag 13 attempt.success ++ optionalInt 14 attempt.inferenceTime
    ++ optionalInt 15 attempt.executionTime ++ setFlag 16 attempt.usedCache

/-- Flags packed together, one byte each. -/
def flagBytes (flags : List Bool) : Bytes := flags.flatMap fun flag => varintBytes flag.toNat

/-- The body of a chain (`encode_path`). -/
def chainBytes (chain : Chain) : Bytes :=
  chain.attempts.flatMap (fun attempt => delimited 1 (attemptBytes attempt))
    ++ if chain.memoized = .empty then [] else delimited 2 (flagBytes chain.memoFlags)

def requestBytes (request : Request) : Bytes :=
  textField 1 request.id ++ textField 2 request.seedLanguage ++ textField 3 request.targetLanguage
    ++ textField 4 request.seedCode

def responseBytes (response : Response) : Bytes :=
  delimited 1 (requestBytes response.request)
    ++ response.chains.flatMap fun chain => delimited 2 (chainBytes chain)

/-- The binary form of a batch (`encode_batch_response`). -/
def encode (batch : Batch) : Bytes :=
  batch.responses.flatMap fun response => delimited 1 (responseBytes response)

/-- The binary form of a submission (`encode_batch_request`). -/
def encodeSubmission (submission : Submission) : Bytes :=
  textField 1 submission.id
    ++ submission.requests.flatMap fun request => delimited 2 (requestBytes request)

end AttemptLedger.Wire
