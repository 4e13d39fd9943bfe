import Mathlib

/-!
# Tagged options

A list of options in a buffer: each has a code byte, a length byte and that many bytes of data. Two
codes stand for themselves, one for padding and one for the end of the list. `decode` reads the options,
`encode` writes them, and what has been encoded is decoded again. Nothing here depends on a particular
program.
-/

namespace CameraFw.Base.Tlv

structure Opt where
  code : UInt8
  data : List UInt8
  deriving DecidableEq, Repr

inductive Item where
  | pad
  | opt (o : Opt)
  deriving DecidableEq, Repr

def Item.toOpt : Item → Option Opt
  | .pad => none
  | .opt o => some o

section Format

variable (pad stop : UInt8)

def Item.bytes : Item → List UInt8
  | .pad => [pad]
  | .opt o => o.code :: UInt8.ofNat o.data.length :: o.data

def encode (is : List Item) : List UInt8 := is.flatMap (Item.bytes pad)

/-- The options that begin among the first `n` bytes of the buffer and before the end code. -/
def decode (n : Nat) (bs : List UInt8) : List Opt :=
  match n, bs with
  | 0, _ => []
  | _ + 1, [] => []
  | n + 1, c :: bs =>
      if c = stop then []
      else if c = pad then decode n bs
      else
        match bs with
        | [] => []
        | l :: rest => ⟨c, rest.take l.toNat⟩ :: decode (n - (l.toNat + 1)) (rest.drop l.toNat)
termination_by n

/-- The item can be told from padding and from the end, and its data from what follows. -/
def Item.Valid : Item → Prop
  | .pad => True
  | .opt o => o.code ≠ pad ∧ o.code ≠ stop ∧ o.data.length < 256

instance (i : Item) : Decidable (i.Valid pad stop) :=
  match i with
  | .pad => isTrue trivial
  | .opt o => inferInstanceAs (Decidable (o.code ≠ pad ∧ o.code ≠ stop ∧ o.data.length < 256))

variable {pad stop}

@[simp] theorem encode_cons (i : Item) (is : List Item) :
    encode pad (i :: is) = i.bytes pad ++ encode pad is := rfl

theorem encode_append (is js : List Item) : encode pad (is ++ js) = encode pad is ++ encode pad js := by
  simp [encode]

theorem decode_stop (n : Nat) (bs : List UInt8) : decode pad stop n (stop :: bs) = [] := by
  cases n with
  | zero => rw [decode.eq_def]
  | succ n => rw [decode.eq_def]; exact if_pos rfl

theorem decode_pad (hne : pad ≠ stop) (n : Nat) (bs : List UInt8) :
    decode pad stop (n + 1) (pad :: bs) = decode pad stop n bs := by
  rw [decode.eq_def]
  exact (if_neg hne).trans (if_pos rfl)

theorem decode_opt {o : Opt} (h : (Item.opt o).Valid pad stop) (n : Nat) (bs : List UInt8) :
    decode pad stop (n + 1) ((Item.opt o).bytes pad ++ bs) =
      o :: decode pad stop (n - (o.data.length + 1)) bs := by
  obtain ⟨hp, hs, hl⟩ := h
  have hlen : (UInt8.ofNat o.data.length).toNat = o.data.length := UInt8.toNat_ofNat_of_lt' hl
  rw [Item.bytes, List.cons_append, List.cons_append, decode.eq_def]
  simp only [if_neg hs, if_neg hp, hlen, List.take_left, List.drop_left]

/-- What has been encoded is decoded, whatever follows its end. -/
theorem decode_encode (hne : pad ≠ stop) (rest : List UInt8) :
    ∀ (is : List Item) (n : Nat), (∀ i ∈ is, i.Valid pad stop) → (encode pad is).length ≤ n →
      decode pad stop n (encode pad is ++ stop :: rest) = is.filterMap Item.toOpt := by
  intro is
  induction is with
  | nil =>
      intro n _ _
      exact decode_stop n rest
  | cons i is ih =>
      intro n hv hn
      have hvi := hv i (by simp)
      have hvs : ∀ j ∈ is, j.Valid pad stop := fun j hj => hv j (by simp [hj])
      rw [encode_cons, List.length_append] at hn
      rw [encode_cons, List.append_assoc]
      cases i with
      | pad =>
          obtain ⟨k, rfl⟩ : ∃ k, n = k + 1 := ⟨n - 1, by simp [Item.bytes] at hn; omega⟩
          simp only [Item.bytes, List.cons_append, List.nil_append, List.length_singleton] at hn ⊢
          rw [decode_pad hne, ih k hvs (by omega)]
          rfl
      | opt o =>
          simp only [Item.bytes, List.length_cons] at hn
          obtain ⟨k, rfl⟩ : ∃ k, n = k + 1 := ⟨n - 1, by omega⟩
          rw [decode_opt hvi, ih _ hvs (by omega)]
          rfl

end Format

end CameraFw.Base.Tlv
