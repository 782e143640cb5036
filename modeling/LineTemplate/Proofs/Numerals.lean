import Mathlib.Tactic.IntervalCases
import LineTemplate.Json.Printer
import LineTemplate.Json.Reader

/-!
# Whole numbers that are written and read

A whole number is written with its decimal digits (`decimals`), without a zero in front. So its text
is one token of the reader, unless what stands behind it goes on like a numeral
(`token?_toDigits`), and a number of 64 bits is read back as it was (`quantity?_wholeNumeral`).
-/

namespace LineTemplate.Json

/-- The decimal digits of a number, the first one in front. -/
def decimals (n : Nat) : List Nat :=
  if n < 10 then [n] else decimals (n / 10) ++ [n % 10]

theorem toDigits_eq_map_decimals (n : Nat) :
    Nat.toDigits 10 n = (decimals n).map Nat.digitChar := by
  fun_induction decimals n with
  | case1 n small => exact Nat.toDigits_of_lt_base small
  | case2 n large ih =>
    have last : n % 10 < 10 := Nat.mod_lt n (by decide)
    have whole : 10 * (n / 10) + n % 10 = n := Nat.div_add_mod n 10
    rw [List.map_append, ← ih, List.map_singleton, ← Nat.toDigits_of_lt_base last,
      Nat.toDigits_append_toDigits (by decide) (by omega) last, whole]

theorem lt_of_mem_decimals {n digit : Nat} (member : digit ∈ decimals n) : digit < 10 := by
  fun_induction decimals n with
  | case1 n small =>
    rw [List.mem_singleton.mp member]
    exact small
  | case2 n large ih =>
    rcases List.mem_append.mp member with front | last
    · exact ih front
    · rw [List.mem_singleton.mp last]
      exact Nat.mod_lt n (by decide)

/-- A zero stands in front of the digits of zero alone. -/
theorem exists_decimals_eq_cons (n : Nat) :
    ∃ first others, decimals n = first :: others ∧ (n ≠ 0 → first ≠ 0) ∧
      (n = 0 → others = []) := by
  fun_induction decimals n with
  | case1 n small => exact ⟨n, [], rfl, id, fun _ => rfl⟩
  | case2 n large ih =>
    obtain ⟨first, others, same, nonzero, -⟩ := ih
    refine ⟨first, others ++ [n % 10], by rw [same, List.cons_append], fun _ => ?_, ?_⟩
    · exact nonzero (by omega)
    · intro zero
      omega

theorem appendDigits_append {start n : Nat} {front : List Nat}
    (fits : appendDigits start front = (n, [])) {digit : Nat}
    (more : n * 10 + digit < UInt64.size) :
    appendDigits start (front ++ [digit]) = (n * 10 + digit, []) := by
  fun_induction appendDigits start front with
  | case1 start =>
    obtain ⟨rfl, -⟩ := Prod.mk.inj fits
    rw [List.nil_append, appendDigits, if_pos more, appendDigits]
  | case2 start first front fits' ih =>
    rw [List.cons_append, appendDigits, if_pos fits', ih fits]
  | case3 start first front full => exact nomatch fits

/-- **The digits of a number of 64 bits are its significand**, and none is left over. -/
theorem appendDigits_decimals {n : Nat} (fits : n < UInt64.size) :
    appendDigits 0 (decimals n) = (n, []) := by
  fun_induction decimals n with
  | case1 n small =>
    have alone : 0 * 10 + n = n := by omega
    rw [appendDigits, alone, if_pos fits, appendDigits]
  | case2 n large ih =>
    have whole : n / 10 * 10 + n % 10 = n := Nat.div_add_mod' n 10
    have inner := ih (by omega)
    have outer := appendDigits_append inner (by rw [whole]; exact fits)
    rwa [whole] at outer

/-! ## Reading -/

/-- What stands behind a numeral does not go on with it. -/
def EndsNumeral (rest : List Char) : Prop :=
  ∀ c, rest.head? = some c → digit? c = none ∧ c ≠ '.' ∧ c ≠ 'e' ∧ c ≠ 'E'

theorem endsNumeral_nil : EndsNumeral [] := nofun

/-- A numeral ends in front of a comma and in front of a closing bracket or brace. -/
theorem endsNumeral_cons {c : Char} (sign : c ∈ [',', ']', '}']) (rest : List Char) :
    EndsNumeral (c :: rest) := by
  intro first same
  obtain rfl := Option.some.inj same
  simp only [List.mem_cons, List.not_mem_nil, or_false] at sign
  rcases sign with rfl | rfl | rfl <;> decide

theorem digit?_digitChar : ∀ n < 10, digit? (Nat.digitChar n) = some n := by
  decide

theorem digits_append {rest : List Char} (ends : EndsNumeral rest) {numbers : List Nat}
    (small : ∀ digit ∈ numbers, digit < 10) :
    digits (numbers.map Nat.digitChar ++ rest) = (numbers, rest) := by
  induction numbers with
  | nil =>
    cases rest with
    | nil => rfl
    | cons c rest => simp only [List.map_nil, List.nil_append, digits, (ends c rfl).1]
  | cons digit numbers ih =>
    have first := digit?_digitChar digit (small digit List.mem_cons_self)
    have others := ih fun digit member => small digit (List.mem_cons_of_mem _ member)
    simp only [List.map_cons, List.cons_append, digits, first, others]

/-- The numeral of a whole number. -/
def wholeNumeral (n : Nat) : Numeral :=
  ⟨false, decimals n, none, none⟩

theorem numeral?_toDigits (n : Nat) {rest : List Char} (ends : EndsNumeral rest) :
    numeral? false (Nat.toDigits 10 n ++ rest) = some (wholeNumeral n, rest) := by
  have front : digits (Nat.toDigits 10 n ++ rest) = (decimals n, rest) := by
    rw [toDigits_eq_map_decimals]
    exact digits_append ends fun _ member => lt_of_mem_decimals member
  have noFraction : fraction? rest = some (none, rest) := by
    unfold fraction?
    split
    next cs => exact ((ends '.' rfl).2.1 rfl).elim
    next => rfl
  have noExponent : exponent? rest = some (none, rest) := by
    unfold exponent?
    split
    case h_1 | h_3 | h_5 => exact ((ends 'e' rfl).2.2.1 rfl).elim
    case h_2 | h_4 | h_6 => exact ((ends 'E' rfl).2.2.2 rfl).elim
    case h_7 => rfl
  obtain ⟨first, others, same, nonzero, alone⟩ := exists_decimals_eq_cons n
  simp only [numeral?, front, wholeNumeral, same]
  -- only zero begins with a zero, and then nothing follows
  cases first with
  | zero =>
    have zero : n = 0 := Classical.byContradiction fun some => nonzero some rfl
    obtain rfl := alone zero
    simp only [noFraction, noExponent, Option.bind_eq_bind, Option.bind_some, Option.pure_def]
  | succ first =>
    simp only [noFraction, noExponent, Option.bind_eq_bind, Option.bind_some, Option.pure_def]

theorem token?_digitChar (digit : Nat) (small : digit < 10) (rest : List Char) :
    token? (Nat.digitChar digit :: rest) =
      (numeral? false (Nat.digitChar digit :: rest)).map fun (numeral, rest) =>
        (.number numeral, rest) := by
  interval_cases digit <;> rfl

/-- **A written number is read as one token**, which does not begin with a space. -/
theorem token?_toDigits (n : Nat) {rest : List Char} (ends : EndsNumeral rest) :
    token? (Nat.toDigits 10 n ++ rest) = some (.number (wholeNumeral n), rest) ∧
      (Nat.toDigits 10 n).head?.map isSpace = some false := by
  obtain ⟨first, others, same, -⟩ := exists_decimals_eq_cons n
  have small : first < 10 := lt_of_mem_decimals (by rw [same]; exact List.mem_cons_self)
  have read := numeral?_toDigits n ends
  rw [toDigits_eq_map_decimals, same, List.map_cons, List.cons_append] at read ⊢
  refine ⟨?_, ?_⟩
  · rw [token?_digitChar first small, read, Option.map_some]
  · have tight : ∀ digit < 10, isSpace (Nat.digitChar digit) = false := by decide
    exact congrArg some (tight first small)

/-- **A number of 64 bits is read back as it was.** -/
theorem quantity?_wholeNumeral (n : UInt64) :
    (wholeNumeral n.toNat).quantity? = some (.natural n) := by
  simp only [Numeral.quantity?, Numeral.isWhole, wholeNumeral, appendDigits_decimals n.toNat_lt,
    Option.isNone_none, Bool.and_self, Bool.not_false, if_true, UInt64.ofNat_toNat]

end LineTemplate.Json
