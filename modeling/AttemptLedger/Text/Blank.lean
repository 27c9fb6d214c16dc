/-!
# Blank characters

The characters with the Unicode property White_Space, and trimming by them. Main statements: what
trimming leaves neither starts nor ends with a blank.
-/

namespace AttemptLedger.Text

/-- The characters with the White_Space property. -/
def isBlank (c : Char) : Bool :=
  let code := c.toNat
  (0x09 ≤ code && code ≤ 0x0d) || code == 0x20 || code == 0x85 || code == 0xa0 || code == 0x1680
    || (0x2000 ≤ code && code ≤ 0x200a) || code == 0x2028 || code == 0x2029 || code == 0x202f
    || code == 0x205f || code == 0x3000

theorem isBlank_of_isWhitespace {c : Char} (h : c.isWhitespace = true) : isBlank c = true := by
  simp only [Char.isWhitespace, Bool.or_eq_true, decide_eq_true_eq] at h
  rcases h with ((rfl | rfl) | rfl) | rfl <;> decide

def trimChars (cs : List Char) : List Char :=
  ((cs.dropWhile isBlank).reverse.dropWhile isBlank).reverse

def trim (s : String) : String :=
  String.ofList (trimChars s.toList)

theorem head?_trimChars {cs : List Char} {c : Char} (h : (trimChars cs).head? = some c) :
    isBlank c = false := by
  have hPrefix : trimChars cs <+: cs.dropWhile isBlank := by
    have := List.dropWhile_suffix isBlank (l := (cs.dropWhile isBlank).reverse)
    simpa [trimChars] using List.reverse_prefix.2 this
  obtain ⟨blanks, hBlanks⟩ := hPrefix
  have hHead : (cs.dropWhile isBlank).head? = some c := by
    rw [← hBlanks, List.head?_append, h, Option.some_or]
  have := List.head?_dropWhile_not isBlank cs
  rw [hHead] at this
  simpa using this

theorem getLast?_trimChars {cs : List Char} {c : Char} (h : (trimChars cs).getLast? = some c) :
    isBlank c = false := by
  rw [trimChars, List.getLast?_reverse] at h
  have := List.head?_dropWhile_not isBlank (cs.dropWhile isBlank).reverse
  rw [h] at this
  simpa using this

theorem toList_trim (s : String) : (trim s).toList = trimChars s.toList := by
  simp [trim]

end AttemptLedger.Text
