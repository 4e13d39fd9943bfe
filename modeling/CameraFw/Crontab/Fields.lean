import CameraFw.Crontab.Decode

/-!
# What a time field says

The elements of a time field, as they are written and as the values they stand for.
-/

namespace CameraFw.Crontab

open CameraFw.Base

def bitTest (bits : Bitstr) (i : Nat) : Bool := bits.getD (i / 8) 0 &&& UInt8.ofNat (1 <<< (i % 8)) ≠ 0

def decimal (ds : List UInt8) : Nat := ds.foldl (fun n c => 10 * n + (c.toNat - 48)) 0

/-- How a value is written: in decimal digits or, in a field with names, as one of them in upper or
lower case. -/
inductive Writes (f : FieldSpec) : List UInt8 → Nat → Prop where
  | number {ds : List UInt8} (hne : ds ≠ []) (hds : ∀ c ∈ ds, isdigit c) : Writes f ds (decimal ds)
  | name {abbrs : List (List UInt8)} {text : List UInt8} {i : Nat} (hf : f.abbrs = some abbrs)
      (hi : abbrs[i]? = some (text.map tolower)) : Writes f text i

/-- A value of the field, with the text it is written as. -/
structure Value (f : FieldSpec) where
  text : List UInt8
  val : Nat
  writes : Writes f text val
  low : f.base ≤ val
  high : val < f.nbits

/-- The elements without a step: `*`, `n` and `n-m`. -/
inductive Bounds (f : FieldSpec) where
  | star
  | one (n : Value f)
  | range (n m : Value f)

namespace Bounds

variable {f : FieldSpec}

def text : Bounds f → List UInt8
  | star => [42]
  | one n => n.text
  | range n m => n.text ++ 45 :: m.text

def low : Bounds f → Nat
  | star => f.base.toNat
  | one n => n.val
  | range n m => min n.val m.val

def high : Bounds f → Nat
  | star => f.nbits - 1
  | one n => n.val
  | range n m => max n.val m.val

end Bounds

/-- A step that is not larger than the span. -/
structure Step (span : Nat) where
  digits : List UInt8
  ne_nil : digits ≠ []
  all_digits : ∀ c ∈ digits, isdigit c
  pos : 1 ≤ decimal digits
  le : decimal digits ≤ span

/-- An element; one value has no span, and so no step. -/
structure Elem (f : FieldSpec) where
  bounds : Bounds f
  step : Option (Step (bounds.high - bounds.low))

namespace Elem

variable {f : FieldSpec}

def text (e : Elem f) : List UInt8 :=
  match e.step with
  | none => e.bounds.text
  | some s => e.bounds.text ++ 47 :: s.digits

def stride (e : Elem f) : Nat :=
  match e.step with
  | none => 1
  | some s => decimal s.digits

def Denotes (e : Elem f) (i : Nat) : Prop :=
  e.bounds.low ≤ i ∧ i ≤ e.bounds.high ∧ e.stride ∣ i - e.bounds.low

instance (e : Elem f) (i : Nat) : Decidable (e.Denotes i) := inferInstanceAs (Decidable (_ ∧ _ ∧ _))

end Elem

/-- The text of a field: its elements with commas between them. -/
def fieldText {f : FieldSpec} (es : List (Elem f)) : List UInt8 := [44].intercalate (es.map Elem.text)

end CameraFw.Crontab
