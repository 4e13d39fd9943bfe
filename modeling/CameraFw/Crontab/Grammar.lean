import CameraFw.Crontab.Fields

/-!
# What may stand in a time field

The grammar of the time fields. A relation `Reads… str … rest` says that `str` begins with something of
a kind and that `rest` is what follows it.
-/

namespace CameraFw.Crontab

open CameraFw.Base

/-! ## Elements -/

/-- A value as it is written; a number takes all the digits there are. -/
inductive Reads (f : FieldSpec) : List UInt8 → Nat → List UInt8 → Prop where
  | number {ds rest : List UInt8} (hne : ds ≠ []) (hds : ∀ c ∈ ds, isdigit c)
      (hrest : ∀ c ∈ rest.head?, ¬ isdigit c) : Reads f (ds ++ rest) (decimal ds) rest
  | name {abbrs : List (List UInt8)} {text rest : List UInt8} {i : Nat} (hf : f.abbrs = some abbrs)
      (hi : abbrs[i]? = some (text.map tolower)) : Reads f (text ++ rest) i rest

/-- The value that a written one stands for: 7 is a Sunday, as 0 is. -/
def FieldSpec.meant (f : FieldSpec) (v : Nat) : Nat := if (v : Int) = f.zerov then 0 else v

def ReadsValue (f : FieldSpec) (str : List UInt8) (n : Nat) (rest : List UInt8) : Prop :=
  ∃ v, Reads f str v rest ∧ n = f.meant v ∧ f.base ≤ n ∧ n < f.nbits

/-- `*`, `n` or `n-m`. -/
inductive ReadsBounds (f : FieldSpec) : List UInt8 → Nat → Nat → List UInt8 → Prop where
  | star {rest : List UInt8} : ReadsBounds f (42 :: rest) f.base.toNat (f.nbits - 1) rest
  | one {str rest : List UInt8} {n : Nat} (hn : ReadsValue f str n rest) (hrest : rest.head? ≠ some 45) :
      ReadsBounds f str n n rest
  | range {str str' rest : List UInt8} {n m : Nat} (hn : ReadsValue f str n (45 :: str'))
      (hm : ReadsValue f str' m rest) : ReadsBounds f str (min n m) (max n m) rest

/-- An element, with its step if there is one. -/
inductive ReadsElem (f : FieldSpec) : List UInt8 → List UInt8 → Prop where
  | plain {str rest : List UInt8} {low high : Nat} (h : ReadsBounds f str low high rest)
      (hrest : rest.head? ≠ some 47) : ReadsElem f str rest
  | stepped {str rest : List UInt8} {low high : Nat} (s : Step (high - low))
      (h : ReadsBounds f str low high (47 :: (s.digits ++ rest))) (hrest : ∀ c ∈ rest.head?, ¬ isdigit c) :
      ReadsElem f str rest

/-! ## Fields -/

/-- A list of elements with commas between them, and nothing else. -/
def WellFormed (f : FieldSpec) (str : List UInt8) : Prop := ∀ s ∈ str.splitOn 44, ReadsElem f s []

/-- Every part of the list begins with an element. There may be anything behind it, and a comma behind
the last. -/
def BeginsWell (f : FieldSpec) (str : List UInt8) : Prop :=
  ∀ s ∈ (if (str.splitOn 44).getLast? = some [] then (str.splitOn 44).dropLast else str.splitOn 44),
    ∃ rest, ReadsElem f s rest

/-- The time fields of a line, in their order. -/
inductive TimeField where
  | minutes | hours | dom | months | dow
  deriving DecidableEq, Repr

def TimeField.spec : TimeField → FieldSpec
  | minutes => minutesField
  | hours => hoursField
  | dom => domField
  | months => monthsField
  | dow => dowField

def TimeField.position : TimeField → Nat
  | minutes => 0
  | hours => 1
  | dom => 2
  | months => 3
  | dow => 4

/-- The word at a position of the line. -/
def word : Nat → List UInt8 → Option (List UInt8)
  | 0, line => (strtok blanks line).map Prod.fst
  | k + 1, line => (strtok blanks line).bind fun r => word k r.2

/-! ## Days of the week -/

structure Stride where
  digits : List UInt8
  ne_nil : digits ≠ []
  all_digits : ∀ c ∈ digits, isdigit c
  pos : 1 ≤ decimal digits

/-- A range of days as it is meant, with 7 for the Sunday at the end of the week. -/
structure Days where
  first : List UInt8
  n : Nat
  last : List UInt8
  m : Nat
  writes_first : Writes dowField first n
  writes_last : Writes dowField last m
  n_le : n ≤ 6
  m_le : m ≤ 7
  step : Option Stride

namespace Days

def text (r : Days) : List UInt8 :=
  r.first ++ 45 :: (r.last ++ match r.step with | none => [] | some s => 47 :: s.digits)

def stride (r : Days) : Nat :=
  match r.step with
  | none => 1
  | some s => decimal s.digits

/-- From the lower to the higher end by the step, 7 taken for 0. -/
def Denotes (r : Days) (day : Nat) : Prop :=
  ∃ v ≤ max r.n r.m, min r.n r.m ≤ v ∧ r.stride ∣ v - min r.n r.m ∧ v % 7 = day

instance (r : Days) (day : Nat) : Decidable (r.Denotes day) :=
  inferInstanceAs (Decidable (∃ v ≤ max r.n r.m, _ ∧ _ ∧ _))

end Days

end CameraFw.Crontab
