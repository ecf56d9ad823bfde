/-
**Values as bytes.**

A codec writes values as bytes and reads them back. It is lawful at a value if reading finds just
that value in what was written, whatever comes behind it:

* `Codec.number`: numbers in groups of seven bits, the last group marked by its size;
* `Codec.string`, `Codec.list`: the number of bytes or entries first, then those;
* `Codec.pair`, `Codec.optional`, `Codec.mapped`: codecs from codecs.

Every codec here is lawful at every value its parts are lawful at.
-/

namespace Highlight

/-- A way to write values as bytes and to read them back. -/
structure Codec (α : Type) where
  write : α → List UInt8
  /-- The value at the start of some bytes, with the bytes behind it. -/
  read : List UInt8 → Option (α × List UInt8)

namespace Codec

/-- Reading finds what was written. -/
def LawfulAt {α : Type} (codec : Codec α) (value : α) : Prop :=
  ∀ rest, codec.read (codec.write value ++ rest) = some (value, rest)

/-! ### Numbers -/

/-- The groups of a number, least first. -/
def writeNumber (number : Nat) : List UInt8 :=
  if number < 128 then [UInt8.ofNat number]
  else UInt8.ofNat (number % 128 + 128) :: writeNumber (number / 128)

/-- The number that some bytes begin with. -/
def readNumber : List UInt8 → Option (Nat × List UInt8)
  | [] => none
  | byte :: rest =>
    if byte.toNat < 128 then some (byte.toNat, rest)
    else (readNumber rest).map fun (higher, rest) => (byte.toNat - 128 + 128 * higher, rest)

/-- Numbers of any size. -/
def number : Codec Nat := ⟨writeNumber, readNumber⟩

theorem readNumber_writeNumber (value : Nat) (rest : List UInt8) :
    readNumber (writeNumber value ++ rest) = some (value, rest) := by
  fun_induction writeNumber value with
  | case1 value small =>
    have exact : (UInt8.ofNat value).toNat = value := by
      rw [UInt8.toNat_ofNat']; omega
    simp [readNumber, exact, small]
  | case2 value large step =>
    have exact : (UInt8.ofNat (value % 128 + 128)).toNat = value % 128 + 128 := by
      rw [UInt8.toNat_ofNat']; omega
    rw [List.cons_append, readNumber, exact, if_neg (by omega), step]
    simp only [Option.map_some, Option.some.injEq, Prod.mk.injEq, and_true]
    omega

theorem number_lawful (value : Nat) : number.LawfulAt value := readNumber_writeNumber value

/-! ### Codecs from codecs -/

/-- Values that stand for others; not every value has to stand for one. -/
def mapped {α β : Type} (codec : Codec α) (toPart : β → α) (ofPart : α → Option β) : Codec β where
  write value := codec.write (toPart value)
  read bytes := do
    let (part, rest) ← codec.read bytes
    return (← ofPart part, rest)

theorem mapped_lawful {α β : Type} {codec : Codec α} {toPart : β → α} {ofPart : α → Option β}
    {value : β} (lawful : codec.LawfulAt (toPart value)) (inverse : ofPart (toPart value) = some value) :
    (mapped codec toPart ofPart).LawfulAt value := by
  intro rest
  simp [mapped, lawful rest, inverse]

/-- One value behind another. -/
def pair {α β : Type} (first : Codec α) (second : Codec β) : Codec (α × β) where
  write value := first.write value.1 ++ second.write value.2
  read bytes := do
    let (left, bytes) ← first.read bytes
    let (right, bytes) ← second.read bytes
    return ((left, right), bytes)

theorem pair_lawful {α β : Type} {first : Codec α} {second : Codec β} {value : α × β}
    (left : first.LawfulAt value.1) (right : second.LawfulAt value.2) :
    (pair first second).LawfulAt value := by
  intro rest
  simp [pair, right rest, List.append_assoc, left (second.write value.2 ++ rest)]

/-- Reads a number of entries. -/
def readEntries {α : Type} (codec : Codec α) :
    (count : Nat) → List UInt8 → Option (List α × List UInt8)
  | 0, bytes => some ([], bytes)
  | count + 1, bytes => do
    let (entry, bytes) ← codec.read bytes
    let (entries, bytes) ← readEntries codec count bytes
    return (entry :: entries, bytes)

/-- Lists, their length first. -/
def list {α : Type} (codec : Codec α) : Codec (List α) where
  write entries := number.write entries.length ++ entries.flatMap codec.write
  read bytes := do
    let (count, bytes) ← number.read bytes
    readEntries codec count bytes

theorem readEntries_flatMap {α : Type} {codec : Codec α} {entries : List α}
    (lawful : ∀ entry ∈ entries, codec.LawfulAt entry) (rest : List UInt8) :
    readEntries codec entries.length (entries.flatMap codec.write ++ rest) = some (entries, rest) := by
  induction entries with
  | nil => rfl
  | cons entry entries step =>
    have here := lawful entry List.mem_cons_self
    have there := step fun other member => lawful other (List.mem_cons_of_mem _ member)
    simp [readEntries, List.append_assoc, here (entries.flatMap codec.write ++ rest), there]

theorem list_lawful {α : Type} {codec : Codec α} {entries : List α}
    (lawful : ∀ entry ∈ entries, codec.LawfulAt entry) : (list codec).LawfulAt entries := by
  intro rest
  simp [list, List.append_assoc, number_lawful entries.length (entries.flatMap codec.write ++ rest),
    readEntries_flatMap lawful rest]

/-- Values that may be missing. -/
def optional {α : Type} (codec : Codec α) : Codec (Option α) :=
  mapped (list codec) Option.toList fun
    | [] => some none
    | [value] => some (some value)
    | _ => none

theorem optional_lawful {α : Type} {codec : Codec α} {value : Option α}
    (lawful : ∀ part ∈ value, codec.LawfulAt part) : (optional codec).LawfulAt value := by
  refine mapped_lawful (list_lawful fun part member => lawful part ?_) ?_
  · simpa using member
  · cases value <;> rfl

/-! ### Small values -/

/-- Single bytes. -/
def byte : Codec UInt8 where
  write value := [value]
  read
    | [] => none
    | value :: rest => some (value, rest)

theorem byte_lawful (value : UInt8) : byte.LawfulAt value := fun _ => rfl

/-- Truth values. -/
def bool : Codec Bool := mapped byte (fun value => if value then 1 else 0) fun value =>
  if value = 0 then some false else if value = 1 then some true else none

theorem bool_lawful (value : Bool) : bool.LawfulAt value :=
  mapped_lawful (byte_lawful _) (by cases value <;> rfl)

/-- Strings, as their bytes. -/
def string : Codec String :=
  mapped (list byte) (fun value => value.toUTF8.data.toList) fun bytes =>
    String.fromUTF8? ⟨bytes.toArray⟩

theorem string_lawful (value : String) : string.LawfulAt value := by
  refine mapped_lawful (list_lawful fun part _ => byte_lawful part) ?_
  simp only [String.fromUTF8?, Option.dite_none_right_eq_some, Option.some.injEq]
  exact ⟨value.isValidUTF8, rfl⟩

end Codec

end Highlight
