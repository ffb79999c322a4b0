import Mathlib.Data.List.Basic
import ZmqPubSub.Proto3
import ZmqPubSub.Wire

/-!
The messages of `broker.proto` in the proto3 wire format: an instance of what the wire layer
expects of its codec. Fields are written in the order of their numbers.
-/

namespace ZmqPubSub.BrokerProto

open Proto3

def headerFields (h : MessageHeader) : List Field :=
  stringField 1 h.handlerKey ++ stringField 2 h.senderId ++ stringField 3 h.topic ++
    stringField 5 h.originBrokerId ++ stringField 6 h.messageUuid ++ stringField 7 h.transferId ++
    int32Field 8 h.sequenceNumber ++ int32Field 9 h.sequenceCount ++
    stringField 11 h.replyTopic ++ h.unknown.val

/-- One field of a `MessageHeader`. -/
def readHeaderField (h : MessageHeader) (f : Field) : Option MessageHeader :=
  match f.number, f.value with
  | 1, .len d => (ofUtf8 d).map fun s => { h with handlerKey := s }
  | 2, .len d => (ofUtf8 d).map fun s => { h with senderId := s }
  | 3, .len d => (ofUtf8 d).map fun s => { h with topic := s }
  | 5, .len d => (ofUtf8 d).map fun s => { h with originBrokerId := s }
  | 6, .len d => (ofUtf8 d).map fun s => { h with messageUuid := s }
  | 7, .len d => (ofUtf8 d).map fun s => { h with transferId := s }
  | 8, .varint n => some { h with sequenceNumber := toInt32 n }
  | 9, .varint n => some { h with sequenceCount := toInt32 n }
  | 11, .len d => (ofUtf8 d).map fun s => { h with replyTopic := s }
  -- another number or wire type; the test holds of every field that `decodeFields` returns
  | _, _ =>
    if hf : f.Valid ∧ knownHeaderField f = false then
      some { h with unknown := h.unknown.add f hf }
    else none

def serializeHeader (h : MessageHeader) : Bytes := encodeFields (headerFields h)

def parseHeader (data : Bytes) : Option MessageHeader :=
  (decodeFields data).bind fun fs => fs.foldlM readHeaderField {}

theorem headerFields_valid (h : MessageHeader) : ∀ f ∈ headerFields h, f.Valid := by
  intro f hf
  simp only [headerFields, List.mem_append] at hf
  rcases hf with ((((((((hf | hf) | hf) | hf) | hf) | hf) | hf) | hf) | hf) | hf
  · exact stringField_valid (by decide) _ f hf
  · exact stringField_valid (by decide) _ f hf
  · exact stringField_valid (by decide) _ f hf
  · exact stringField_valid (by decide) _ f hf
  · exact stringField_valid (by decide) _ f hf
  · exact stringField_valid (by decide) _ f hf
  · exact int32Field_valid (by decide) _ f hf
  · exact int32Field_valid (by decide) _ f hf
  · exact stringField_valid (by decide) _ f hf
  · exact (h.unknown.property f hf).1

theorem readHeaderField_unknown (h : MessageHeader) {f : Field}
    (hf : f.Valid ∧ knownHeaderField f = false) :
    readHeaderField h f = some { h with unknown := h.unknown.add f hf } := by
  obtain ⟨number, value⟩ := f
  unfold readHeaderField
  dsimp only
  split
  case h_10 => exact dif_pos hf
  all_goals exact absurd hf.2 (by simp [knownHeaderField])

/-- Unknown fields are added to those that are there. -/
theorem readHeader_unknown (h : MessageHeader) (fs : List Field)
    (hfs : ∀ f ∈ fs, f.Valid ∧ knownHeaderField f = false) :
    fs.foldlM readHeaderField h = some { h with unknown := ⟨h.unknown.val ++ fs, by
      intro f hf
      rcases List.mem_append.mp hf with hf | hf
      · exact h.unknown.property f hf
      · exact hfs f hf⟩ } := by
  induction fs generalizing h with
  | nil => simp
  | cons f fs ih =>
    rw [List.foldlM_cons, readHeaderField_unknown h (hfs f List.mem_cons_self),
      Option.bind_eq_bind, Option.bind_some, ih _ fun g hg => hfs g (List.mem_cons_of_mem f hg)]
    simp [UnknownFields.add]

theorem readHeader_headerFields (h : MessageHeader) :
    (headerFields h).foldlM readHeaderField {} = some h := by
  obtain ⟨key, sender, topic, origin, uuid, transfer, number, count, reply, unknown⟩ := h
  simp only [headerFields, List.foldlM_append]
  rw [foldlM_stringField (MessageHeader.mk · "" "" "" "" "" 0 0 "" .none)
    (by simp [readHeaderField]) rfl]
  simp only [Option.bind_eq_bind, Option.bind_some]
  rw [foldlM_stringField (MessageHeader.mk key · "" "" "" "" 0 0 "" .none)
    (by simp [readHeaderField]) rfl]
  simp only [Option.bind_some]
  rw [foldlM_stringField (MessageHeader.mk key sender · "" "" "" 0 0 "" .none)
    (by simp [readHeaderField]) rfl]
  simp only [Option.bind_some]
  rw [foldlM_stringField (MessageHeader.mk key sender topic · "" "" 0 0 "" .none)
    (by simp [readHeaderField]) rfl]
  simp only [Option.bind_some]
  rw [foldlM_stringField (MessageHeader.mk key sender topic origin · "" 0 0 "" .none)
    (by simp [readHeaderField]) rfl]
  simp only [Option.bind_some]
  rw [foldlM_stringField (MessageHeader.mk key sender topic origin uuid · 0 0 "" .none)
    (by simp [readHeaderField]) rfl]
  simp only [Option.bind_some]
  rw [foldlM_int32Field (MessageHeader.mk key sender topic origin uuid transfer · 0 "" .none)
    (by simp only [readHeaderField, toInt32_toNat_emod]) rfl]
  simp only [Option.bind_some]
  rw [foldlM_int32Field
    (MessageHeader.mk key sender topic origin uuid transfer number · "" .none)
    (by simp only [readHeaderField, toInt32_toNat_emod]) rfl]
  simp only [Option.bind_some]
  rw [foldlM_stringField
    (MessageHeader.mk key sender topic origin uuid transfer number count · .none)
    (by simp [readHeaderField]) rfl]
  simp only [Option.bind_some]
  rw [readHeader_unknown _ _ unknown.property]
  rfl

theorem parseHeader_serializeHeader (h : MessageHeader) :
    parseHeader (serializeHeader h) = some h := by
  rw [parseHeader, serializeHeader, decodeFields_encodeFields (headerFields_valid h)]
  exact readHeader_headerFields h

def int64Field (number : ℕ) (x : ℤ) : List Field :=
  if x = 0 then [] else [⟨number, .varint (x % 2 ^ 64).toNat⟩]

/-- A varint read into an `int64` field keeps its low 64 bits. -/
def toInt64 (n : ℕ) : Int64 := Int64.ofNat n

theorem toInt64_toNat_emod (x : Int64) : toInt64 (x.toInt % 2 ^ 64).toNat = x := by
  have hb := x.toInt_lt
  have hb' := x.le_toInt
  apply Int64.toInt_inj.mp
  rw [toInt64, ← Int64.ofInt_eq_ofNat, natCast_toNat_emod, Int64.toInt_ofInt, Int.bmod_def]
  norm_num at *
  split_ifs <;> omega

theorem int64Field_valid {number : ℕ} (h : number ≠ 0) (x : ℤ) :
    ∀ f ∈ int64Field number x, f.Valid := by
  intro f hf
  rw [eq_of_mem_default hf]
  exact ⟨h, trivial⟩

theorem int64Field_number {number : ℕ} {x : ℤ} {f : Field} (h : f ∈ int64Field number x) :
    f.number = number := by
  rw [eq_of_mem_default h]

theorem foldlM_int64Field {α : Type*} {read : α → Field → Option α} {number : ℕ} {x : Int64}
    {a : α} (set : Int64 → α)
    (hset : read a ⟨number, .varint (x.toInt % 2 ^ 64).toNat⟩ = some (set x))
    (hdef : set 0 = a) : (int64Field number x.toInt).foldlM read a = some (set x) := by
  unfold int64Field
  split_ifs with h
  · obtain rfl : x = 0 := Int64.toInt_inj.mp h
    rw [hdef]
    rfl
  · simp only [List.foldlM_cons, hset, List.foldlM_nil]
    rfl

/-- An IEEE double, low byte first. -/
def doubleField (number : ℕ) (x : Float) : List Field :=
  if x.toBits = 0 then []
  else [⟨number, .fixed64 ((List.range 8).map fun i => UInt8.ofNat (x.toBits.toNat / 256 ^ i))⟩]

def clientInfoFields (info : String × List String) : List Field :=
  stringField 1 info.1 ++ info.2.map fun topic => ⟨2, .len (utf8 topic)⟩

def statsFields (stats : SystemStats) : List Field :=
  stringField 1 stats.brokerId ++ int32Field 2 stats.clientsCount ++
    int32Field 3 stats.peersCount ++ int32Field 4 (Int32.ofNat stats.msgsPerSec.toNat) ++
    doubleField 5 (stats.bytesPerSec.toFloat / 1024) ++ int64Field 6 stats.totalMsgs.toNat ++
    int64Field 7 stats.uptimeSec ++
    stats.connectedClients.map fun info => ⟨8, .len (encodeFields (clientInfoFields info))⟩

/-- `Any::PackFrom`, serialised: a type url and the packed message. -/
def packAny (typeName : String) (data : Bytes) : Bytes :=
  encodeFields (stringField 1 ("type.googleapis.com/" ++ typeName) ++
    if data = [] then [] else [⟨2, .len data⟩])

def packStats (stats : SystemStats) : Bytes :=
  packAny "broker.SystemStats" (encodeFields (statsFields stats))

/-- The proto3 codec. -/
def proto3 : Protobuf where
  serializeHeader := serializeHeader
  parseHeader := parseHeader
  packStats := packStats
  parse_serialize := parseHeader_serializeHeader

end ZmqPubSub.BrokerProto
