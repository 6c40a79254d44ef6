/-!
# Whole numbers in decimal

`digits` writes a natural number without leading zeros and `ofDigits?` reads any non-empty run of
ASCII digits; `signed` and `ofSigned?` add a sign in front, `-` only where it is needed for writing,
`+` or `-` for reading.
-/

namespace SchemaShaper.Decimal

/-- The character of a decimal digit. -/
def digitChar (d : Nat) : Char := Char.ofNat ('0'.toNat + d)

/-- The value of a digit character. -/
def digitValue (c : Char) : Nat := c.toNat - '0'.toNat

/-- The decimal digits of a number, most significant first, without leading zeros. -/
def digits (n : Nat) : List Char :=
  if n < 10 then [digitChar n] else digits (n / 10) ++ [digitChar (n % 10)]
termination_by n

/-- The value of a run of digits, continuing from `acc`. -/
def valueFrom (acc : Nat) (cs : List Char) : Nat :=
  cs.foldl (fun n c => n * 10 + digitValue c) acc

/-- The value of a non-empty text of ASCII digits. -/
def ofDigits? (cs : List Char) : Option Nat :=
  if cs.isEmpty || !cs.all Char.isDigit then none else some (valueFrom 0 cs)

/-- A whole number with `-` in front when it is negative. -/
def signed (n : Int) : List Char :=
  if n < 0 then '-' :: digits n.natAbs else digits n.natAbs

/-- The value of a run of digits behind at most one sign. -/
def ofSigned? : List Char → Option Int
  | '+' :: cs => (ofDigits? cs).map Int.ofNat
  | '-' :: cs => (ofDigits? cs).map fun n => -(n : Int)
  | cs => (ofDigits? cs).map Int.ofNat

/-- `signed` as a string. -/
def text (n : Int) : String := String.ofList (signed n)

theorem digits_of_lt {n : Nat} (h : n < 10) : digits n = [digitChar n] := by
  rw [digits]; simp [h]

theorem digits_of_ge {n : Nat} (h : ¬ n < 10) :
    digits n = digits (n / 10) ++ [digitChar (n % 10)] := by
  rw [digits]; simp [h]

theorem digitChar_isDigit {d : Nat} (h : d < 10) : (digitChar d).isDigit = true := by
  have : ∀ d : Fin 10, (digitChar d.val).isDigit = true := by decide
  exact this ⟨d, h⟩

theorem digitValue_digitChar {d : Nat} (h : d < 10) : digitValue (digitChar d) = d := by
  have : ∀ d : Fin 10, digitValue (digitChar d.val) = d.val := by decide
  exact this ⟨d, h⟩

theorem valueFrom_append (acc : Nat) (xs ys : List Char) :
    valueFrom acc (xs ++ ys) = valueFrom (valueFrom acc xs) ys := by
  simp [valueFrom]

theorem all_isDigit_digits (n : Nat) : (digits n).all Char.isDigit = true := by
  induction n using Nat.strongRecOn with
  | ind n ih =>
    by_cases h : n < 10
    · simp [digits_of_lt h, digitChar_isDigit h]
    · rw [digits_of_ge h, List.all_append, ih _ (by omega)]
      simp [digitChar_isDigit (Nat.mod_lt n (by decide : 10 > 0))]

theorem digits_ne_nil (n : Nat) : digits n ≠ [] := by
  by_cases h : n < 10
  · simp [digits_of_lt h]
  · simp [digits_of_ge h]

theorem valueFrom_digits (n : Nat) : valueFrom 0 (digits n) = n := by
  induction n using Nat.strongRecOn with
  | ind n ih =>
    by_cases h : n < 10
    · simp [digits_of_lt h, valueFrom, digitValue_digitChar h]
    · rw [digits_of_ge h, valueFrom_append, ih _ (by omega)]
      simp only [valueFrom, List.foldl_cons, List.foldl_nil,
        digitValue_digitChar (Nat.mod_lt n (by decide : 10 > 0))]
      omega

theorem signed_natCast (n : Nat) : signed n = digits n := by
  have h : ¬ (n : Int) < 0 := by omega
  rw [signed, if_neg h, Int.natAbs_natCast]

theorem toList_text (n : Int) : (text n).toList = signed n := String.toList_ofList

theorem text_natCast_inj {m n : Nat} : text m = text n ↔ m = n := by
  constructor
  · intro h
    have hdigits : digits m = digits n := by
      rw [← signed_natCast, ← signed_natCast]
      exact String.ofList_injective h
    rw [← valueFrom_digits m, hdigits, valueFrom_digits]
  · rintro rfl
    rfl

/-- Reading the digits of a number gives the number. -/
theorem ofDigits?_digits (n : Nat) : ofDigits? (digits n) = some n := by
  simp [ofDigits?, digits_ne_nil, all_isDigit_digits, valueFrom_digits]

theorem isDigit_of_mem_digits {n : Nat} {c : Char} (h : c ∈ digits n) : c.isDigit = true :=
  List.all_eq_true.1 (all_isDigit_digits n) c h

/-- A text of digits has no sign in front. -/
theorem ofSigned?_digits (n : Nat) : ofSigned? (digits n) = some (n : Int) := by
  have hread : (ofDigits? (digits n)).map Int.ofNat = some (n : Int) := by
    rw [ofDigits?_digits]
    rfl
  unfold ofSigned?
  split
  · next cs h =>
    have hplus : ('+' : Char).isDigit = true := isDigit_of_mem_digits (h ▸ List.mem_cons_self)
    exact absurd hplus (by decide)
  · next cs h =>
    have hminus : ('-' : Char).isDigit = true := isDigit_of_mem_digits (h ▸ List.mem_cons_self)
    exact absurd hminus (by decide)
  · exact hread

theorem signed_ne_nil (n : Int) : signed n ≠ [] := by
  unfold signed
  split
  · exact List.cons_ne_nil _ _
  · exact digits_ne_nil _

theorem mem_signed {n : Int} {c : Char} (h : c ∈ signed n) : c = '-' ∨ c.isDigit = true := by
  unfold signed at h
  split at h
  · exact (List.mem_cons.1 h).imp_right isDigit_of_mem_digits
  · exact Or.inr (isDigit_of_mem_digits h)

/-- Reading a whole number as it is written gives the number. -/
theorem ofSigned?_signed (n : Int) : ofSigned? (signed n) = some n := by
  unfold signed
  split
  · next hneg =>
    have hread : ofSigned? ('-' :: digits n.natAbs) = some (-(n.natAbs : Int)) := by
      simp only [ofSigned?, ofDigits?_digits]
      rfl
    rw [hread, Option.some.injEq]
    omega
  · next hnonneg =>
    rw [ofSigned?_digits, Option.some.injEq]
    omega

end SchemaShaper.Decimal
