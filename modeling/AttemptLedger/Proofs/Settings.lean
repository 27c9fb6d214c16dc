import AttemptLedger.Channel
import AttemptLedger.Json.Record
import AttemptLedger.Proofs.Text.Numeral
import Mathlib.Algebra.Group.Int.Defs

/-!
# Integers given as text, in documents and in settings

A text in a document is an integer, and a setting a limit, exactly if it spells a number that the machine
word holds. Otherwise the document is refused and the setting is ignored, so that a channel always has
a limit, which is the same in both directions.
-/

namespace AttemptLedger

/-- Whether a text spells an integer of sixty-four bits. -/
def Text.SpellsInt64 (text : String) (n : Int) : Prop :=
  Spells IsInteger text n ∧ -2 ^ 63 ≤ n ∧ n ≤ 2 ^ 63 - 1

theorem Text.exists_int64?_iff {text : String} {n : Int} :
    (∃ m : Int64, m.toInt = n ∧ int64? text = some m) ↔ SpellsInt64 text n := by
  constructor
  · rintro ⟨m, rfl, hm⟩
    have hlow := m.le_toInt
    have hhigh := m.toInt_lt
    exact ⟨int64?_eq_some_iff.1 hm, hlow, by omega⟩
  · rintro ⟨hspells, hlow, hhigh⟩
    have hvalue : (Int64.ofInt n).toInt = n := Int64.toInt_ofInt_of_le hlow (by omega)
    exact ⟨.ofInt n, hvalue, int64?_eq_some_iff.2 (hvalue.symm ▸ hspells)⟩

namespace Environment

/-- Whether the setting spells a number other than zero that a machine word holds. -/
def SetsLimit (environment : Environment) (n : Nat) : Prop :=
  ∃ value, environment.maxMessageBytes = some value ∧ Text.Spells Text.IsNatural value n
    ∧ 1 ≤ n ∧ n ≤ 2 ^ 64 - 1

variable {environment : Environment} {n : Nat}

theorem setsLimit_iff :
    environment.SetsLimit n ↔ environment.maxMessageBytes.bind Text.word? = some n ∧ n ≠ 0 := by
  rw [SetsLimit, Option.bind_eq_some_iff, ← exists_and_right]
  refine exists_congr fun value => ?_
  rw [Text.word?_eq_some_iff]
  constructor
  · rintro ⟨hvalue, hspells, hlow, hhigh⟩
    exact ⟨⟨hvalue, hspells, by omega⟩, by omega⟩
  · rintro ⟨⟨hvalue, hspells, hsize⟩, hzero⟩
    exact ⟨hvalue, hspells, by omega, by omega⟩

theorem messageLimit_of_setsLimit (h : environment.SetsLimit n) : environment.messageLimit = n := by
  obtain ⟨hword, hzero⟩ := setsLimit_iff.1 h
  rw [messageLimit, hword]
  exact if_neg hzero

theorem messageLimit_of_not_setsLimit (h : ∀ n, ¬environment.SetsLimit n) :
    environment.messageLimit = defaultMaxMessageBytes := by
  rw [messageLimit]
  split
  · next n hword =>
    have hzero : n = 0 := Decidable.not_not.1 fun hne => h n (setsLimit_iff.2 ⟨hword, hne⟩)
    exact if_pos hzero
  · rfl

theorem messageLimit_eq_iff : environment.messageLimit = n
    ↔ environment.SetsLimit n ∨ n = defaultMaxMessageBytes ∧ ∀ m, ¬environment.SetsLimit m := by
  constructor
  · rintro rfl
    by_cases hset : ∃ m, environment.SetsLimit m
    · obtain ⟨m, hm⟩ := hset
      exact .inl ((messageLimit_of_setsLimit hm).symm ▸ hm)
    · have hnone := not_exists.1 hset
      exact .inr ⟨messageLimit_of_not_setsLimit hnone, hnone⟩
  · rintro (hset | ⟨rfl, hnone⟩)
    · exact messageLimit_of_setsLimit hset
    · exact messageLimit_of_not_setsLimit hnone

theorem messageLimit_pos (environment : Environment) : 0 < environment.messageLimit := by
  rcases messageLimit_eq_iff.1 (Eq.refl environment.messageLimit) with ⟨_, _, _, hpos, _⟩ | ⟨hdefault, _⟩
  · exact hpos
  · rw [hdefault]
    decide

end Environment

/-- A text in a document is read as an integer exactly if it spells that integer, blanks around it apart,
and sixty-four bits hold it; any other text is refused, and named in the refusal. The limit of messages is the
number that the setting spells without a minus sign, if it is one that a machine word holds and not zero, and the
default in every other case; it is the limit of a channel in both directions. -/
theorem integer_texts_read_exactly (text : String) (room : Nat) (environment : Environment) :
    (∀ n : Int, (∃ m : Int64, m.toInt = n ∧ Json.Take.integer room (.text (some text)) = .ok m)
      ↔ Text.SpellsInt64 text n)
    ∧ (Json.Take.integer room (.text (some text)) = .error (.notInteger text)
      ↔ ¬∃ n, Text.SpellsInt64 text n)
    ∧ (∀ n, environment.messageLimit = n ↔ environment.SetsLimit n
      ∨ n = Environment.defaultMaxMessageBytes ∧ ∀ m, ¬environment.SetsLimit m)
    ∧ 0 < (ChannelOptions.ofEnvironment environment).maxSend
    ∧ (ChannelOptions.ofEnvironment environment).maxSend = environment.messageLimit
    ∧ (ChannelOptions.ofEnvironment environment).maxReceive = environment.messageLimit := by
  have hok : ∀ m, Json.Take.integer room (.text (some text)) = .ok m ↔ Text.int64? text = some m := by
    intro m
    rw [Json.Take.integer_text]
    cases Text.int64? text <;> simp
  have hnone : Text.int64? text = none ↔ ¬∃ n, Text.SpellsInt64 text n := by
    simp only [← Text.exists_int64?_iff, Option.eq_none_iff_forall_ne_some]
    exact ⟨fun h ⟨_, m, _, hm⟩ => h m hm, fun h m hm => h ⟨_, m, rfl, hm⟩⟩
  refine ⟨fun n => ?_, ?_, fun n => Environment.messageLimit_eq_iff, environment.messageLimit_pos, rfl, rfl⟩
  · simp only [hok, Text.exists_int64?_iff]
  · rw [← hnone, Json.Take.integer_text]
    cases Text.int64? text <;> simp

end AttemptLedger
