import SchemaShaper.Decimal.Whole
import SchemaShaper.Text.Split

/-!
# Names of generated foreign keys

A generated name is made of the source table, the target table, the source columns and a number.
Keys with the same ends share all but the number, and a new key takes the lowest free number from 1
on. Among more numbers than names taken one must be free, so the search is bounded.
-/

namespace SchemaShaper.KeyName

/-- The part of the name that keys with the same ends share. -/
def stem (source target : String) (columns : List String) : String :=
  "fk_" ++ source ++ "_" ++ target ++ "_" ++ Text.joinWith "_" columns

/-- The name with a given number. -/
def numbered (source target : String) (columns : List String) (n : Nat) : String :=
  stem source target columns ++ "_" ++ Decimal.text n

/-- The first number from `n` on that is not taken, looking at `fuel` numbers. -/
def leastFree (taken : Nat → Bool) : Nat → Nat → Nat
  | 0, n => n
  | fuel + 1, n => if taken n then leastFree taken fuel (n + 1) else n

/-- The name with the lowest number that is not among the names in use. -/
def next (source target : String) (columns names : List String) : String :=
  numbered source target columns
    (leastFree (fun n => names.contains (numbered source target columns n)) names.length 1)

end SchemaShaper.KeyName
