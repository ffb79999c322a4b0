import Mathlib.Data.Int.Basic
import Mathlib.Data.List.Basic
import Mathlib.Tactic.NormNum.Basic

/-!
Varints, tagged fields and messages as sequences of fields. A reader of a message goes through the
fields and keeps those whose number and wire type it knows. Groups, which proto3 cannot write, are
not read either.
-/

namespace ZmqPubSub.Proto3

abbrev Bytes := List UInt8

/-- Seven bits to a byte, low bits first; `fuel` bounds the number of bytes. -/
def encodeVarintAux : ℕ → ℕ → Bytes
  | 0, _ => []
  | fuel + 1, n =>
    if n < 128 then [UInt8.ofNat n]
    else UInt8.ofNat (n % 128 + 128) :: encodeVarintAux fuel (n / 128)

def encodeVarint (n : ℕ) : Bytes := encodeVarintAux (n + 1) n

def decodeVarint : Bytes → Option (ℕ × Bytes)
  | [] => none
  | b :: rest =>
    if b.toNat < 128 then some (b.toNat, rest)
    else (decodeVarint rest).map fun (n, rest) => (b.toNat - 128 + 128 * n, rest)

inductive Value
  | varint (n : ℕ)
  | fixed64 (data : Bytes)
  | len (data : Bytes)
  | fixed32 (data : Bytes)
deriving DecidableEq, Repr

def Value.wireType : Value → ℕ
  | .varint _ => 0
  | .fixed64 _ => 1
  | .len _ => 2
  | .fixed32 _ => 5

def Value.encode : Value → Bytes
  | .varint n => encodeVarint n
  | .fixed64 data => data
  | .len data => encodeVarint data.length ++ data
  | .fixed32 data => data

structure Field where
  number : ℕ
  value : Value
deriving DecidableEq, Repr

def Field.encode (f : Field) : Bytes :=
  encodeVarint (8 * f.number + f.value.wireType) ++ f.value.encode

def encodeFields (fs : List Field) : Bytes := fs.flatMap Field.encode

/-- Cut `n` bytes off the front. -/
def takeExact (n : ℕ) (data : Bytes) : Option (Bytes × Bytes) :=
  if n ≤ data.length then some (data.take n, data.drop n) else none

def decodeValue (wireType : ℕ) (data : Bytes) : Option (Value × Bytes) :=
  match wireType with
  | 0 => (decodeVarint data).map fun (n, rest) => (.varint n, rest)
  | 1 => (takeExact 8 data).map fun (d, rest) => (.fixed64 d, rest)
  | 2 => (decodeVarint data).bind fun (n, rest) =>
      (takeExact n rest).map fun (d, rest) => (.len d, rest)
  | 5 => (takeExact 4 data).map fun (d, rest) => (.fixed32 d, rest)
  | _ => none

def decodeField (data : Bytes) : Option (Field × Bytes) :=
  (decodeVarint data).bind fun (tag, rest) =>
    if tag / 8 = 0 then none
    else (decodeValue (tag % 8) rest).map fun (v, rest) => (⟨tag / 8, v⟩, rest)

/-- Every field takes at least one byte, so the length of the input is fuel enough. -/
def decodeFieldsAux : ℕ → Bytes → Option (List Field)
  | _, [] => some []
  | 0, _ :: _ => none
  | fuel + 1, data =>
    (decodeField data).bind fun (f, rest) => (decodeFieldsAux fuel rest).map (f :: ·)

def decodeFields (data : Bytes) : Option (List Field) := decodeFieldsAux data.length data

/-- The fields a writer can write. -/
def Field.Valid (f : Field) : Prop :=
  f.number ≠ 0 ∧ match f.value with
    | .fixed64 data => data.length = 8
    | .fixed32 data => data.length = 4
    | _ => True

instance : DecidablePred Field.Valid
  | ⟨n, .varint _⟩ => inferInstanceAs (Decidable (n ≠ 0 ∧ True))
  | ⟨n, .fixed64 data⟩ => inferInstanceAs (Decidable (n ≠ 0 ∧ data.length = 8))
  | ⟨n, .len _⟩ => inferInstanceAs (Decidable (n ≠ 0 ∧ True))
  | ⟨n, .fixed32 data⟩ => inferInstanceAs (Decidable (n ≠ 0 ∧ data.length = 4))

theorem toNat_ofNat_of_lt {n : ℕ} (h : n < 256) : (UInt8.ofNat n).toNat = n := by
  simpa using Nat.mod_eq_of_lt h

theorem decodeVarint_encodeVarintAux {fuel n : ℕ} (h : n < fuel) (rest : Bytes) :
    decodeVarint (encodeVarintAux fuel n ++ rest) = some (n, rest) := by
  induction fuel generalizing n with
  | zero => omega
  | succ fuel ih =>
    unfold encodeVarintAux
    split_ifs with hn
    · have hb := toNat_ofNat_of_lt (show n < 256 by omega)
      simp [decodeVarint, hb, hn]
    · have hb := toNat_ofNat_of_lt (show n % 128 + 128 < 256 by omega)
      have hc : ¬ n % 128 + 128 < 128 := by omega
      rw [List.cons_append, decodeVarint, hb, if_neg hc, ih (by omega)]
      simp only [Option.map_some, Option.some.injEq, Prod.mk.injEq, and_true]
      omega

theorem decodeVarint_encodeVarint (n : ℕ) (rest : Bytes) :
    decodeVarint (encodeVarint n ++ rest) = some (n, rest) :=
  decodeVarint_encodeVarintAux (Nat.lt_succ_self n) rest

theorem takeExact_append (data rest : Bytes) :
    takeExact data.length (data ++ rest) = some (data, rest) := by
  simp [takeExact]

theorem decodeValue_encode {f : Field} (h : f.Valid) (rest : Bytes) :
    decodeValue f.value.wireType (f.value.encode ++ rest) = some (f.value, rest) := by
  obtain ⟨number, value⟩ := f
  obtain ⟨-, hv⟩ := h
  cases value with
  | varint n => simp [decodeValue, Value.wireType, Value.encode, decodeVarint_encodeVarint]
  | fixed64 data =>
    have ht := takeExact_append data rest
    rw [show data.length = 8 from hv] at ht
    simp [decodeValue, Value.wireType, Value.encode, ht]
  | len data =>
    simp [decodeValue, Value.wireType, Value.encode, List.append_assoc, decodeVarint_encodeVarint,
      takeExact_append]
  | fixed32 data =>
    have ht := takeExact_append data rest
    rw [show data.length = 4 from hv] at ht
    simp [decodeValue, Value.wireType, Value.encode, ht]

theorem decodeField_encode {f : Field} (h : f.Valid) (rest : Bytes) :
    decodeField (f.encode ++ rest) = some (f, rest) := by
  have hw : f.value.wireType < 8 := by cases f.value <;> simp [Value.wireType]
  have hd : (8 * f.number + f.value.wireType) / 8 = f.number := by omega
  have hm : (8 * f.number + f.value.wireType) % 8 = f.value.wireType := by omega
  simp only [decodeField, Field.encode, List.append_assoc, decodeVarint_encodeVarint,
    Option.bind_some, hd, hm, if_neg h.1, decodeValue_encode h, Option.map_some]

theorem encodeVarint_ne_nil (n : ℕ) : encodeVarint n ≠ [] := by
  unfold encodeVarint encodeVarintAux
  split_ifs <;> simp

theorem length_encode_pos (f : Field) : 0 < f.encode.length := by
  have h := List.length_pos_iff.mpr (encodeVarint_ne_nil (8 * f.number + f.value.wireType))
  simp only [Field.encode, List.length_append]
  omega

theorem decodeFieldsAux_encode {fs : List Field} (h : ∀ f ∈ fs, f.Valid) {fuel : ℕ}
    (hf : (encodeFields fs).length ≤ fuel) : decodeFieldsAux fuel (encodeFields fs) = some fs := by
  induction fs generalizing fuel with
  | nil => cases fuel <;> rfl
  | cons f fs ih =>
    have hp := length_encode_pos f
    have he : encodeFields (f :: fs) = f.encode ++ encodeFields fs := rfl
    rw [he, List.length_append] at hf
    cases fuel with
    | zero => omega
    | succ fuel =>
      have hne : f.encode ++ encodeFields fs ≠ [] := by
        intro hnil
        have := congrArg List.length hnil
        simp only [List.length_append, List.length_nil] at this
        omega
      have hr : decodeFieldsAux fuel (encodeFields fs) = some fs :=
        ih (fun g hg => h g (by simp [hg])) (by omega)
      rw [he, decodeFieldsAux.eq_3 _ _ hne, decodeField_encode (h f (by simp))]
      simp [hr]

/-- A message is read back as the fields it was written from. -/
theorem decodeFields_encodeFields {fs : List Field} (h : ∀ f ∈ fs, f.Valid) :
    decodeFields (encodeFields fs) = some fs := decodeFieldsAux_encode h (Nat.le_refl _)

theorem length_of_decodeVarint {data rest : Bytes} {n : ℕ}
    (h : decodeVarint data = some (n, rest)) :
    rest.length < data.length := by
  induction data generalizing n with
  | nil => cases h
  | cons b data ih =>
    rw [decodeVarint] at h
    split_ifs at h
    · cases h
      exact Nat.lt_succ_self _
    · obtain ⟨⟨m, rest'⟩, hm, he⟩ := Option.map_eq_some_iff.mp h
      cases he
      exact Nat.lt_succ_of_lt (ih hm)

theorem length_of_takeExact {n : ℕ} {data taken rest : Bytes}
    (h : takeExact n data = some (taken, rest)) : taken.length + rest.length = data.length := by
  unfold takeExact at h
  split_ifs at h with hn
  cases h
  rw [← List.length_append, List.take_append_drop]

theorem length_of_decodeValue {wireType : ℕ} {data rest : Bytes} {v : Value}
    (h : decodeValue wireType data = some (v, rest)) :
    rest.length ≤ data.length ∧ ∀ d, v = .len d → d.length < data.length := by
  unfold decodeValue at h
  split at h
  · obtain ⟨⟨n, r⟩, hn, he⟩ := Option.map_eq_some_iff.mp h
    cases he
    exact ⟨Nat.le_of_lt (length_of_decodeVarint hn), by simp⟩
  · obtain ⟨⟨t, r⟩, ht, he⟩ := Option.map_eq_some_iff.mp h
    cases he
    have := length_of_takeExact ht
    exact ⟨by omega, by simp⟩
  · obtain ⟨⟨n, r⟩, hn, h⟩ := Option.bind_eq_some_iff.mp h
    obtain ⟨⟨t, r'⟩, ht, he⟩ := Option.map_eq_some_iff.mp h
    cases he
    have hlen := length_of_takeExact ht
    have hlt := length_of_decodeVarint hn
    refine ⟨by omega, fun d hd => ?_⟩
    cases hd
    omega
  · obtain ⟨⟨t, r⟩, ht, he⟩ := Option.map_eq_some_iff.mp h
    cases he
    have := length_of_takeExact ht
    exact ⟨by omega, by simp⟩
  · cases h

theorem length_of_decodeField {data rest : Bytes} {f : Field}
    (h : decodeField data = some (f, rest)) :
    rest.length ≤ data.length ∧ ∀ d, f.value = .len d → d.length < data.length := by
  obtain ⟨⟨tag, r⟩, ht, h⟩ := Option.bind_eq_some_iff.mp h
  dsimp only at h
  split_ifs at h
  obtain ⟨⟨v, r'⟩, hv, he⟩ := Option.map_eq_some_iff.mp h
  cases he
  have hlt := length_of_decodeVarint ht
  obtain ⟨hr, hd⟩ := length_of_decodeValue hv
  exact ⟨Nat.le_trans hr (Nat.le_of_lt hlt), fun d he => Nat.lt_trans (hd d he) hlt⟩

theorem length_of_decodeFieldsAux {fuel : ℕ} {data : Bytes} {fs : List Field}
    (h : decodeFieldsAux fuel data = some fs) {f : Field} (hf : f ∈ fs) {d : Bytes}
    (hd : f.value = .len d) : d.length < data.length := by
  induction fuel generalizing data fs with
  | zero =>
    cases data with
    | nil =>
      cases h
      cases hf
    | cons b data => cases h
  | succ fuel ih =>
    cases data with
    | nil =>
      cases h
      cases hf
    | cons b data =>
      rw [decodeFieldsAux.eq_3 _ _ (List.cons_ne_nil b data)] at h
      obtain ⟨⟨g, rest⟩, hg, h⟩ := Option.bind_eq_some_iff.mp h
      obtain ⟨gs, hgs, he⟩ := Option.map_eq_some_iff.mp h
      cases he
      obtain ⟨hr, hlen⟩ := length_of_decodeField hg
      rcases List.mem_cons.mp hf with rfl | hf
      · exact hlen d hd
      · exact Nat.lt_of_lt_of_le (ih hgs hf) hr

/-- A length-delimited field is shorter than the message it is read from. -/
theorem length_of_decodeFields {data : Bytes} {fs : List Field} (h : decodeFields data = some fs)
    {f : Field} (hf : f ∈ fs) {d : Bytes} (hd : f.value = .len d) : d.length < data.length :=
  length_of_decodeFieldsAux h hf hd

def utf8 (s : String) : Bytes := s.toByteArray.data.toList

/-- Strings that are not valid UTF-8 are rejected. -/
def ofUtf8 (data : Bytes) : Option String := String.fromUTF8? ⟨⟨data⟩⟩

@[simp] theorem ofUtf8_utf8 (s : String) : ofUtf8 (utf8 s) = some s := by
  have h : (⟨⟨s.toByteArray.data.toList⟩⟩ : ByteArray) = s.toByteArray := by simp
  simp only [ofUtf8, utf8, h, String.fromUTF8?, s.isValidUTF8, dite_true]
  rfl

theorem utf8_of_ofUtf8 {data : Bytes} {s : String} (h : ofUtf8 data = some s) : utf8 s = data := by
  unfold ofUtf8 String.fromUTF8? at h
  split_ifs at h
  cases h
  rfl

/-- A field with its default value is not written. -/
def stringField (number : ℕ) (s : String) : List Field :=
  if s = "" then [] else [⟨number, .len (utf8 s)⟩]

/-- Negative numbers are written as 64-bit two's complement. -/
def int32Field (number : ℕ) (x : Int32) : List Field :=
  if x = 0 then [] else [⟨number, .varint (x.toInt % 2 ^ 64).toNat⟩]

/-- A varint read into an `int32` field keeps its low 32 bits. -/
def toInt32 (n : ℕ) : Int32 := Int32.ofNat n

theorem natCast_toNat_emod (x : ℤ) : ((x % 2 ^ 64).toNat : ℤ) = x % 2 ^ 64 := by
  apply Int.toNat_of_nonneg
  omega

theorem toInt32_toNat_emod (x : Int32) : toInt32 (x.toInt % 2 ^ 64).toNat = x := by
  have hb := x.toInt_lt
  have hb' := x.le_toInt
  apply Int32.toInt_inj.mp
  rw [toInt32, ← Int32.ofInt_eq_ofNat, natCast_toNat_emod, Int32.toInt_ofInt, Int.bmod_def]
  norm_num at *
  split_ifs <;> omega

/-- What is written for a field that is left out when it has its default. -/
theorem eq_of_mem_default {c : Prop} [Decidable c] {f g : Field} (h : f ∈ if c then [] else [g]) :
    f = g := by
  split_ifs at h
  · cases h
  · exact List.mem_singleton.mp h

theorem stringField_valid {number : ℕ} (h : number ≠ 0) (s : String) :
    ∀ f ∈ stringField number s, f.Valid := by
  intro f hf
  rw [eq_of_mem_default hf]
  exact ⟨h, trivial⟩

theorem int32Field_valid {number : ℕ} (h : number ≠ 0) (x : Int32) :
    ∀ f ∈ int32Field number x, f.Valid := by
  intro f hf
  rw [eq_of_mem_default hf]
  exact ⟨h, trivial⟩

theorem stringField_number {number : ℕ} {s : String} {f : Field} (h : f ∈ stringField number s) :
    f.number = number := by
  rw [eq_of_mem_default h]

theorem int32Field_number {number : ℕ} {x : Int32} {f : Field} (h : f ∈ int32Field number x) :
    f.number = number := by
  rw [eq_of_mem_default h]

/-- Reading a string field: `set` stores it, and storing the default changes nothing. -/
theorem foldlM_stringField {α : Type*} {read : α → Field → Option α} {number : ℕ} {s : String}
    {a : α} (set : String → α) (hset : read a ⟨number, .len (utf8 s)⟩ = some (set s))
    (hdef : set "" = a) : (stringField number s).foldlM read a = some (set s) := by
  unfold stringField
  split_ifs with h
  · rw [h, hdef]
    rfl
  · simp [hset]

theorem foldlM_int32Field {α : Type*} {read : α → Field → Option α} {number : ℕ} {x : Int32}
    {a : α} (set : Int32 → α)
    (hset : read a ⟨number, .varint (x.toInt % 2 ^ 64).toNat⟩ = some (set x))
    (hdef : set 0 = a) : (int32Field number x).foldlM read a = some (set x) := by
  unfold int32Field
  split_ifs with h
  · rw [h, hdef]
    rfl
  · simp only [List.foldlM_cons, hset, List.foldlM_nil]
    rfl

/-- A message type: the fields that are written for a message, and how one field is read into a
message. -/
structure MessageType (α : Type*) where
  fullName : String
  empty : α
  fields : α → List Field
  read : α → Field → Option α
  fields_valid : ∀ m, ∀ f ∈ fields m, f.Valid
  read_fields : ∀ m, (fields m).foldlM read empty = some m

namespace MessageType

variable {α : Type*} (t : MessageType α)

def serialize (m : α) : Bytes := encodeFields (t.fields m)

def parse (data : Bytes) : Option α :=
  (decodeFields data).bind fun fs => fs.foldlM t.read t.empty

theorem parse_serialize (m : α) : t.parse (t.serialize m) = some m := by
  rw [parse, serialize, decodeFields_encodeFields (t.fields_valid m)]
  exact t.read_fields m

theorem parse_nil : t.parse [] = some t.empty := rfl

end MessageType

end ZmqPubSub.Proto3
