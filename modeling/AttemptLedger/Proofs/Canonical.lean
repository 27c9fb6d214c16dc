import AttemptLedger.Batch

/-!
# Canonical batches

The canonical form of a batch drops the difference between an empty suite and none and reads every
status from its text. It is taken once and for all, and leaves a batch as it is exactly when no suite
is empty and every status is one that a text stands for.
-/

namespace AttemptLedger

theorem Status.canonical_eq_self_iff {status : Status} :
    status.canonical = status ↔ ∃ text, status = .ofText text := by
  constructor
  · intro h
    exact ⟨status.text, h.symm⟩
  · rintro ⟨text, rfl⟩
    exact canonical_ofText text

theorem Status.text_canonical (status : Status) : status.canonical.text = status.text :=
  text_ofText status.text

namespace Suite

theorem fuzzyTests_ofTests {fuzzy : List FuzzyTest} {unit : List UnitTest} :
    (ofTests fuzzy unit).fuzzyTests = fuzzy := by
  cases fuzzy with
  | nil => cases unit <;> rfl
  | cons test fuzzy => rfl

theorem fuzzyTests_canonical (suite : Suite) : suite.canonical.fuzzyTests = suite.fuzzyTests :=
  fuzzyTests_ofTests

theorem unitTests_canonical (suite : Suite) : suite.canonical.unitTests = suite.unitTests := by
  rcases suite with (_ | _) | (_ | _) | _ <;> rfl

theorem canonical_eq_self_iff {suite : Suite} :
    suite.canonical = suite ↔ suite ≠ .fuzzy [] ∧ suite ≠ .unit [] := by
  rcases suite with (_ | _) | (_ | _) | _ <;> simp [canonical, ofTests, fuzzyTests, unitTests]

theorem ofTests_ne_empty (fuzzy : List FuzzyTest) (unit : List UnitTest) :
    ofTests fuzzy unit ≠ .fuzzy [] ∧ ofTests fuzzy unit ≠ .unit [] := by
  cases fuzzy <;> cases unit <;> simp [ofTests]

end Suite

/-- Whether an attempt is kept as it is: its status is read from a text and its suite is not empty. -/
def Attempt.IsCanonical (attempt : Attempt) : Prop :=
  (∃ text, attempt.status = .ofText text) ∧ attempt.tests ≠ .fuzzy [] ∧ attempt.tests ≠ .unit []

def Batch.IsCanonical (batch : Batch) : Prop :=
  ∀ response ∈ batch.responses, ∀ chain ∈ response.chains, ∀ attempt ∈ chain.attempts,
    attempt.IsCanonical

theorem Attempt.canonical_eq_self_iff {attempt : Attempt} :
    attempt.canonical = attempt ↔ attempt.IsCanonical := by
  rw [IsCanonical, ← Status.canonical_eq_self_iff, ← Suite.canonical_eq_self_iff]
  constructor
  · intro h
    exact ⟨congrArg Attempt.status h, congrArg Attempt.tests h⟩
  · rintro ⟨hstatus, htests⟩
    rw [canonical, hstatus, htests]

theorem map_eq_self_iff {α : Type} {f : α → α} {as : List α} :
    as.map f = as ↔ ∀ a ∈ as, f a = a := by
  have hid : as.map f = as ↔ as.map f = as.map id := by rw [List.map_id]
  rw [hid, List.map_inj_left]
  rfl

theorem Batch.canonical_eq_self_iff {batch : Batch} :
    batch.canonical = batch ↔ batch.IsCanonical := by
  have hchain : ∀ chain : Chain,
      chain.canonical = chain ↔ ∀ attempt ∈ chain.attempts, attempt.IsCanonical := by
    intro chain
    simp only [← Attempt.canonical_eq_self_iff, ← map_eq_self_iff]
    exact ⟨congrArg Chain.attempts, fun h => by rw [Chain.canonical, h]⟩
  have hresponse : ∀ response : Response, response.canonical = response
      ↔ ∀ chain ∈ response.chains, ∀ attempt ∈ chain.attempts, attempt.IsCanonical := by
    intro response
    simp only [← hchain, ← map_eq_self_iff]
    exact ⟨congrArg Response.chains, fun h => by rw [Response.canonical, h]⟩
  simp only [IsCanonical, ← hresponse, ← map_eq_self_iff]
  exact ⟨congrArg Batch.responses, fun h => by rw [canonical, h]⟩

end AttemptLedger
