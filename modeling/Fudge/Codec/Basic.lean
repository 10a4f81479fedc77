import Mathlib.Data.List.Basic

/-!
# Prefix codecs

A codec writes a value as a list of bytes and reads it back from the front of a longer list. Codecs
of the parts of a value make up a codec of the value, so what is written is read back by
construction, and writing is injective.

Numbers are written to the base 128, low digits first; the high bit says that another digit follows.
-/

/-- A way of writing values that can be read back from the front of any list. -/
structure Codec (α : Type) where
  write : α → List UInt8
  read : List UInt8 → Option (α × List UInt8)
  read_write : ∀ a rest, read (write a ++ rest) = some (a, rest)

namespace Codec

variable {α β : Type}

/-- What stands in front is read, what follows is dropped. -/
def readAll (C : Codec α) (bytes : List UInt8) : Option α := (C.read bytes).map Prod.fst

@[simp] theorem readAll_write (C : Codec α) (a : α) : C.readAll (C.write a) = some a := by
  have h := C.read_write a []
  rw [List.append_nil] at h
  rw [readAll, h]
  rfl

/-! ## Codecs of parts -/

def byte : Codec UInt8 where
  write b := [b]
  read
    | [] => none
    | b :: rest => some (b, rest)
  read_write _ _ := rfl

def both (C : Codec α) (D : Codec β) : Codec (α × β) where
  write p := C.write p.1 ++ D.write p.2
  read bytes := (C.read bytes).bind fun x ↦ (D.read x.2).map fun y ↦ ((x.1, y.1), y.2)
  read_write p rest := by
    rw [List.append_assoc, C.read_write, Option.bind_some, D.read_write, Option.map_some]

/-- Values that are written as those of another type. -/
def through (C : Codec α) (parts : β → α) (whole : α → β) (h : ∀ b, whole (parts b) = b) :
    Codec β where
  write b := C.write (parts b)
  read bytes := (C.read bytes).map fun x ↦ (whole x.1, x.2)
  read_write b rest := by
    rw [C.read_write, Option.map_some, h]

/-! ## Numbers -/

/-- The digits of a number, of which there are no more than `fuel + 1`. -/
def writeDigits : ℕ → ℕ → List UInt8
  | 0, n => [UInt8.ofNat n]
  | fuel + 1, n =>
    if n < 128 then [UInt8.ofNat n]
    else UInt8.ofNat (n % 128 + 128) :: writeDigits fuel (n / 128)

def readDigits : List UInt8 → Option (ℕ × List UInt8)
  | [] => none
  | b :: rest =>
    if b.toNat < 128 then some (b.toNat, rest)
    else (readDigits rest).map fun x ↦ (b.toNat - 128 + 128 * x.1, x.2)

theorem readDigits_last {n : ℕ} (hn : n < 128) (rest : List UInt8) :
    readDigits (UInt8.ofNat n :: rest) = some (n, rest) := by
  have hlt : n < UInt8.size := by
    simp only [UInt8.size]
    omega
  have hbyte : (UInt8.ofNat n).toNat = n := UInt8.toNat_ofNat_of_lt' hlt
  rw [readDigits, hbyte, if_pos hn]

theorem readDigits_write (rest : List UInt8) : ∀ (fuel n : ℕ), n ≤ fuel →
    readDigits (writeDigits fuel n ++ rest) = some (n, rest) := by
  intro fuel
  induction fuel with
  | zero =>
    intro n hn
    exact readDigits_last (by omega) rest
  | succ fuel ih =>
    intro n hn
    rw [writeDigits]
    by_cases hsmall : n < 128
    · rw [if_pos hsmall]
      exact readDigits_last hsmall rest
    · have hbyte : (UInt8.ofNat (n % 128 + 128)).toNat = n % 128 + 128 :=
        UInt8.toNat_ofNat_of_lt' (by simp only [UInt8.size]; omega)
      rw [if_neg hsmall, List.cons_append, readDigits, hbyte, if_neg (by omega),
        ih (n / 128) (by omega), Option.map_some, Nat.add_sub_cancel, Nat.mod_add_div]

def number : Codec ℕ where
  write n := writeDigits n n
  read := readDigits
  read_write n rest := readDigits_write rest n n (Nat.le_refl n)

/-! ## Lists -/

def readMany (C : Codec α) : ℕ → List UInt8 → Option (List α × List UInt8)
  | 0, bytes => some ([], bytes)
  | n + 1, bytes => (C.read bytes).bind fun x ↦
    (readMany C n x.2).map fun y ↦ (x.1 :: y.1, y.2)

theorem readMany_write (C : Codec α) (rest : List UInt8) (l : List α) :
    readMany C l.length (l.flatMap C.write ++ rest) = some (l, rest) := by
  induction l with
  | nil => rfl
  | cons a l ih =>
    rw [List.flatMap_cons, List.append_assoc, List.length_cons, readMany, C.read_write,
      Option.bind_some, ih, Option.map_some]

def list (C : Codec α) : Codec (List α) where
  write l := number.write l.length ++ l.flatMap C.write
  read bytes := (number.read bytes).bind fun x ↦ readMany C x.1 x.2
  read_write l rest := by
    rw [List.append_assoc, number.read_write, Option.bind_some, readMany_write]

end Codec
