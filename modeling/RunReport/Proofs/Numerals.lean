import RunReport.Json.Value
import RunReport.Times
/-!
# The characters of numbers

Numbers and durations are written with digits and few other characters.
-/

namespace RunReport

variable {c : Char}

theorem not_mem_natural (other : c.isDigit = false) (n : Nat) : c ∉ (toString n).toList := by
  intro mem
  have digit := Nat.isDigit_of_mem_toDigits (by decide) (by decide)
    (show c ∈ Nat.toDigits 10 n by simpa using mem)
  rw [other] at digit
  cases digit

theorem not_mem_integer (other : c.isDigit = false) (sign : c ≠ '-') (n : Int) :
    c ∉ (toString n).toList := by
  cases n with
  | ofNat n => exact not_mem_natural other n
  | negSucc n =>
    have text : (toString (Int.negSucc n)).toList = '-' :: (toString (n + 1)).toList := by
      change ("-" ++ toString (n + 1)).toList = _
      rw [String.toList_append]
      rfl
    rw [text, List.mem_cons, not_or]
    exact ⟨sign, not_mem_natural other (n + 1)⟩

theorem not_mem_padZero (other : c.isDigit = false) (width n : Nat) :
    c ∉ (Text.padZero width n).toList := by
  simp only [Text.padZero, String.toList_append, String.toList_ofList, List.mem_append,
    List.mem_replicate, not_or, not_and]
  refine ⟨fun _ zero => ?_, not_mem_natural other n⟩
  rw [zero] at other
  cases other

theorem not_mem_showTenths (other : c.isDigit = false) (point : c ≠ '.') (n : Nat) :
    c ∉ (Json.showTenths n).toList := by
  have text : (Json.showTenths n).toList =
      (toString (n / 10)).toList ++ '.' :: (toString (n % 10)).toList := by
    change (toString (n / 10) ++ "." ++ toString (n % 10)).toList = _
    rw [String.toList_append, String.toList_append, List.append_assoc]
    rfl
  rw [text, List.mem_append, List.mem_cons, not_or, not_or]
  exact ⟨not_mem_natural other _, point, not_mem_natural other _⟩

theorem not_mem_elapsedTime (other : c.isDigit = false) (colon : c ≠ ':') (point : c ≠ '.')
    (t : Times) : c ∉ t.elapsedTime.toList := by
  simp [Times.elapsedTime, Times.showElapsed, String.toList_append, not_mem_padZero other, colon,
    point]

end RunReport
