import AttemptLedger.Error

/-!
# Shares and percentages

A share counts a part of a whole. Counts are kept as numbers as long as possible; only the percentage
is a float, and there is none of an empty whole.
-/

namespace AttemptLedger

structure Share where
  part : Nat
  whole : Nat
  deriving DecidableEq, Repr

def countToFloat (n : Nat) : Float := n.toUInt64.toFloat

/-- The percentage of a share of what is counted (`percentage`); the whole must not be empty. -/
def Share.percentage (what : String) (share : Share) : Except Error Float :=
  if share.whole = 0 then .error (.divisionByZero ("no " ++ what ++ " to compute a percentage over"))
  else .ok (countToFloat share.part / countToFloat share.whole * 100)

theorem Share.percentage_eq_error_iff {what : String} {share : Share} :
    (∃ e, share.percentage what = .error e) ↔ share.whole = 0 := by
  unfold percentage
  split <;> simp_all

end AttemptLedger
