import Mathlib.Data.List.Induction
import ZmqPubSub.BrokerProto

/-!
`encodePayload` packs a message into an `Any`, the typed `sendRequest` serialises it bare, and
`decodePayload` has to tell the two apart by the bytes.
-/

namespace ZmqPubSub.Payload

open Proto3 BrokerProto

structure Any where
  typeUrl : String := ""
  value : Bytes := []
deriving DecidableEq

/-- One field of an `Any`; its value is not checked for UTF-8. -/
def readAnyField (any : Any) (f : Field) : Option Any :=
  match f.number, f.value with
  | 1, .len d => (ofUtf8 d).map fun s => { any with typeUrl := s }
  | 2, .len d => some { any with value := d }
  | _, _ => some any

def parseAny (data : Bytes) : Option Any :=
  (decodeFields data).bind fun fs => fs.foldlM readAnyField {}

/-- `Any::Is`: the url ends with a slash and the name of the type. -/
def Any.is (any : Any) (fullName : String) : Bool :=
  ("/" ++ fullName).toList.isSuffixOf any.typeUrl.toList

def typeUrlStart : String := "type.googleapis.com/"

/-- `rfind("type.googleapis.com/", 0) == 0`. -/
def hasTypeUrlStart (s : String) : Bool := typeUrlStart.toList.isPrefixOf s.toList

theorem readAny_stringField (s : String) :
    (stringField 1 s).foldlM readAnyField {} = some ⟨s, []⟩ :=
  foldlM_stringField (fun s => (⟨s, []⟩ : Any)) (by simp [readAnyField]) rfl

theorem parseAny_packAny (fullName : String) (data : Bytes) :
    parseAny (packAny fullName data) = some ⟨typeUrlStart ++ fullName, data⟩ := by
  have hvalid : ∀ f ∈ stringField 1 (typeUrlStart ++ fullName) ++
      (if data = [] then [] else [⟨2, .len data⟩]), f.Valid := by
    intro f hf
    rcases List.mem_append.mp hf with hf | hf
    · exact stringField_valid (by decide) _ f hf
    · rw [eq_of_mem_default hf]
      exact ⟨Nat.succ_ne_zero 1, trivial⟩
  have hpack : packAny fullName data = encodeFields (stringField 1 (typeUrlStart ++ fullName) ++
      if data = [] then [] else [⟨2, .len data⟩]) := rfl
  rw [parseAny, hpack, decodeFields_encodeFields hvalid, Option.bind_some, List.foldlM_append,
    readAny_stringField]
  split_ifs with hd
  · rw [hd]
    rfl
  · rfl

section

variable {α : Type*} (t : MessageType α)

def tryUnpack (raw : Bytes) : Option α :=
  match (parseAny raw).filter fun any => hasTypeUrlStart any.typeUrl with
  -- once it looks like an `Any`, another type is a failure and the bytes are not read again
  | some any => if any.is t.fullName then t.parse any.value else none
  | none => t.parse raw

/-- `encodePayload` of a protobuf message. -/
def encodePayload (m : α) : Bytes := packAny t.fullName (t.serialize m)

/-- `decodePayload` into a protobuf message. -/
def decodePayload (raw : Bytes) : Option α := tryUnpack t raw

theorem tryUnpack_of_start {raw : Bytes} {any : Any} (h : parseAny raw = some any)
    (hs : hasTypeUrlStart any.typeUrl = true) :
    tryUnpack t raw = if any.is t.fullName then t.parse any.value else none := by
  rw [tryUnpack, h, Option.filter_some, if_pos hs]

theorem tryUnpack_of_not_start {raw : Bytes} {any : Any} (h : parseAny raw = some any)
    (hs : ¬ hasTypeUrlStart any.typeUrl = true) : tryUnpack t raw = t.parse raw := by
  rw [tryUnpack, h, Option.filter_some, if_neg hs]

theorem decodePayload_encodePayload (m : α) : decodePayload t (encodePayload t m) = some m := by
  have hparse := parseAny_packAny t.fullName (t.serialize m)
  have hstart : hasTypeUrlStart (typeUrlStart ++ t.fullName) = true := by
    simp [hasTypeUrlStart]
  have his : Any.is ⟨typeUrlStart ++ t.fullName, t.serialize m⟩ t.fullName = true := by
    have hurl : (typeUrlStart ++ t.fullName).toList =
        "type.googleapis.com".toList ++ ("/" ++ t.fullName).toList := by
      simp [typeUrlStart]
    rw [Any.is, List.isSuffixOf_iff_suffix, hurl]
    exact List.suffix_append _ _
  rw [decodePayload, encodePayload, tryUnpack_of_start t hparse hstart, if_pos his,
    t.parse_serialize]

end

/-- A message type that reads like an `Any`: field 1 is a string, and field 2 one string or
several. -/
structure AnyShaped (α : Type*) extends MessageType α where
  first : α → String
  /-- The strings of field 2, as they are written. -/
  second : α → List String
  rest : α → List Field
  fields_eq : ∀ m, fields m =
    stringField 1 (first m) ++ ((second m).map fun s => ⟨2, .len (utf8 s)⟩) ++ rest m
  /-- Whatever else is length-delimited has a higher number. -/
  rest_number : ∀ m, ∀ f ∈ rest m, ∀ d, f.value = .len d → 2 < f.number
  first_empty : first empty = ""
  second_empty : second empty = []
  second_read : ∀ m f m', read m f = some m' → ∀ s ∈ second m',
    s ∈ second m ∨ f.value = .len (utf8 s)

namespace AnyShaped

variable {α : Type*} (t : AnyShaped α)

theorem readAny_second (ss : List String) (any : Any) :
    (ss.map fun s => (⟨2, .len (utf8 s)⟩ : Field)).foldlM readAnyField any =
      some { any with value := (ss.getLast?.map utf8).getD any.value } := by
  induction ss using List.reverseRecOn with
  | nil => rfl
  | append_singleton ss s ih =>
    rw [List.map_append, List.foldlM_append, ih, List.getLast?_concat]
    rfl

theorem readAny_rest {fs : List Field} (h : ∀ f ∈ fs, ∀ d, f.value = .len d → 2 < f.number)
    (any : Any) :
    fs.foldlM readAnyField any = some any := by
  induction fs with
  | nil => rfl
  | cons f fs ih =>
    rw [List.forall_mem_cons] at h
    have hf : readAnyField any f = some any := by
      unfold readAnyField
      split
      · have := h.1 _ ‹_›
        omega
      · have := h.1 _ ‹_›
        omega
      · rfl
    rw [List.foldlM_cons, hf]
    exact ih h.2

/-- A bare message is read as an `Any` with its first field for the url. -/
theorem parseAny_serialize (m : α) : parseAny (t.serialize m) =
    some ⟨t.first m, ((t.second m).getLast?.map utf8).getD []⟩ := by
  rw [parseAny, MessageType.serialize, decodeFields_encodeFields (t.fields_valid m), t.fields_eq,
    Option.bind_some, List.foldlM_append, List.foldlM_append, readAny_stringField]
  simp only [Option.bind_eq_bind, Option.bind_some]
  rw [readAny_second, Option.bind_some, readAny_rest (t.rest_number m)]

theorem exists_field_of_second {fs : List Field} {m : α} (h : fs.foldlM t.read t.empty = some m)
    {s : String} (hs : s ∈ t.second m) : ∃ f ∈ fs, f.value = .len (utf8 s) := by
  induction fs using List.reverseRecOn generalizing m s with
  | nil =>
    obtain rfl : t.empty = m := by simpa using h
    rw [t.second_empty] at hs
    cases hs
  | append_singleton fs f ih =>
    rw [List.foldlM_append] at h
    obtain ⟨m', hm', hf⟩ := Option.bind_eq_some_iff.mp h
    have hread : t.read m' f = some m := by simpa using hf
    rcases t.second_read m' f m hread s hs with hs' | hv
    · obtain ⟨g, hg, hv⟩ := ih hm' hs'
      exact ⟨g, List.mem_append_left _ hg, hv⟩
    · exact ⟨f, List.mem_append_right _ List.mem_cons_self, hv⟩

theorem parse_second_ne {m : α} (hfirst : t.first m ≠ "") :
    t.parse (((t.second m).getLast?.map utf8).getD []) ≠ some m := by
  intro h
  cases hl : (t.second m).getLast? with
  | none =>
    rw [hl] at h
    obtain rfl : t.empty = m := Option.some.inj ((t.parse_nil).symm.trans h)
    exact hfirst t.first_empty
  | some s =>
    rw [hl] at h
    obtain ⟨fs, hfs, hread⟩ := Option.bind_eq_some_iff.mp h
    obtain ⟨f, hf, hv⟩ := t.exists_field_of_second hread (List.mem_of_getLast? hl)
    -- the bytes of `s` would hold a field with the bytes of `s` in it
    have hlt : (utf8 s).length < (utf8 s).length := length_of_decodeFields hfs hf hv
    exact Nat.lt_irrefl _ hlt

/-- A bare message is decoded as what was sent iff its first field does not look like the url of an
`Any`. -/
theorem decodePayload_serialize_iff (m : α) :
    decodePayload t.toMessageType (t.serialize m) = some m ↔
      hasTypeUrlStart (t.first m) = false := by
  have hparse := t.parseAny_serialize m
  cases hs : hasTypeUrlStart (t.first m) with
  | false =>
    rw [decodePayload, tryUnpack_of_not_start _ hparse (by simp [hs]), t.parse_serialize]
    exact iff_of_true rfl rfl
  | true =>
    have hne : t.first m ≠ "" := by
      intro he
      rw [he] at hs
      exact absurd hs (by decide)
    -- field 2 is unpacked in place of the message, or the type is refused
    rw [decodePayload, tryUnpack_of_start _ hparse hs]
    split_ifs
    · simpa using t.parse_second_ne hne
    · simp

end AnyShaped

/-- The strings that a singular string field writes. -/
def written (s : String) : List String := if s = "" then [] else [s]

theorem stringField_eq_map (number : ℕ) (s : String) :
    stringField number s = (written s).map fun s => ⟨number, .len (utf8 s)⟩ := by
  unfold stringField written
  split_ifs <;> rfl

theorem mem_written {s s' : String} {v : Value} (h : s' = s ∨ v = .len (utf8 s')) :
    ∀ x ∈ written s', x ∈ written s ∨ v = .len (utf8 x) := by
  intro x hx
  rcases h with rfl | hv
  · exact .inl hx
  · unfold written at hx
    split_ifs at hx
    · cases hx
    · rw [List.mem_singleton.mp hx]
      exact .inr hv

structure Update where
  id : String := ""
  message : String := ""
  timestampUtc : Int64 := 0
deriving DecidableEq

def updateFields (u : Update) : List Field :=
  stringField 1 u.id ++ stringField 2 u.message ++ int64Field 3 u.timestampUtc.toInt

def readUpdateField (u : Update) (f : Field) : Option Update :=
  match f.number, f.value with
  | 1, .len d => (ofUtf8 d).map fun s => { u with id := s }
  | 2, .len d => (ofUtf8 d).map fun s => { u with message := s }
  | 3, .varint n => some { u with timestampUtc := toInt64 n }
  | _, _ => some u

theorem readUpdate_updateFields (u : Update) :
    (updateFields u).foldlM readUpdateField {} = some u := by
  obtain ⟨id, message, timestamp⟩ := u
  simp only [updateFields, List.foldlM_append]
  rw [foldlM_stringField (fun x => (⟨x, "", 0⟩ : Update)) (by simp [readUpdateField]) rfl]
  simp only [Option.bind_eq_bind, Option.bind_some]
  rw [foldlM_stringField (fun x => (⟨id, x, 0⟩ : Update)) (by simp [readUpdateField]) rfl]
  simp only [Option.bind_some]
  exact foldlM_int64Field (fun x => (⟨id, message, x⟩ : Update))
    (by simp only [readUpdateField, toInt64_toNat_emod]) rfl

theorem readUpdateField_message {u u' : Update} {f : Field} (h : readUpdateField u f = some u') :
    u'.message = u.message ∨ f.value = .len (utf8 u'.message) := by
  unfold readUpdateField at h
  split at h
  · obtain ⟨s, -, rfl⟩ := Option.map_eq_some_iff.mp h
    exact .inl rfl
  · next hv =>
    obtain ⟨s, hs, rfl⟩ := Option.map_eq_some_iff.mp h
    exact .inr (by rw [hv, utf8_of_ofUtf8 hs])
  · cases h
    exact .inl rfl
  · cases h
    exact .inl rfl

def update : AnyShaped Update where
  fullName := "communication.Update"
  empty := {}
  fields := updateFields
  read := readUpdateField
  fields_valid := by
    intro u f hf
    simp only [updateFields, List.mem_append] at hf
    rcases hf with (hf | hf) | hf
    · exact stringField_valid (by decide) _ f hf
    · exact stringField_valid (by decide) _ f hf
    · exact int64Field_valid (by decide) _ f hf
  read_fields := readUpdate_updateFields
  first := Update.id
  second u := written u.message
  rest u := int64Field 3 u.timestampUtc.toInt
  fields_eq u := by rw [updateFields, ← stringField_eq_map]
  rest_number := by
    intro u f hf d hd
    rw [int64Field_number hf]
    decide
  first_empty := rfl
  second_empty := rfl
  second_read _ _ _ h := mem_written (readUpdateField_message h)

structure ClientInfo where
  id : String := ""
  subscriptions : List String := []
deriving DecidableEq

def readClientInfoField (info : ClientInfo) (f : Field) : Option ClientInfo :=
  match f.number, f.value with
  | 1, .len d => (ofUtf8 d).map fun s => { info with id := s }
  | 2, .len d => (ofUtf8 d).map fun s => { info with subscriptions := info.subscriptions ++ [s] }
  | _, _ => some info

theorem readClientInfo_subscriptions (topics : List String) (info : ClientInfo) :
    (topics.map fun topic => (⟨2, .len (utf8 topic)⟩ : Field)).foldlM readClientInfoField info =
      some { info with subscriptions := info.subscriptions ++ topics } := by
  induction topics generalizing info with
  | nil => simp
  | cons topic topics ih =>
    have hread : readClientInfoField info ⟨2, .len (utf8 topic)⟩ =
        some { info with subscriptions := info.subscriptions ++ [topic] } := by
      simp [readClientInfoField]
    rw [List.map_cons, List.foldlM_cons, hread, Option.bind_eq_bind, Option.bind_some, ih]
    simp

theorem readClientInfo_clientInfoFields (info : ClientInfo) :
    (clientInfoFields (info.id, info.subscriptions)).foldlM readClientInfoField {} = some info := by
  rw [clientInfoFields, List.foldlM_append,
    foldlM_stringField (fun s => (⟨s, []⟩ : ClientInfo)) (by simp [readClientInfoField]) rfl,
    Option.bind_eq_bind, Option.bind_some, readClientInfo_subscriptions]
  rfl

theorem readClientInfoField_subscriptions {info info' : ClientInfo} {f : Field}
    (h : readClientInfoField info f = some info') :
    ∀ s ∈ info'.subscriptions, s ∈ info.subscriptions ∨ f.value = .len (utf8 s) := by
  intro s hs
  unfold readClientInfoField at h
  split at h
  · obtain ⟨_, -, rfl⟩ := Option.map_eq_some_iff.mp h
    exact .inl hs
  · next hv =>
    obtain ⟨topic, htopic, rfl⟩ := Option.map_eq_some_iff.mp h
    rcases List.mem_append.mp hs with hs | hs
    · exact .inl hs
    · rw [List.mem_singleton.mp hs]
      exact .inr (by rw [hv, utf8_of_ofUtf8 htopic])
  · cases h
    exact .inl hs

def clientInfo : AnyShaped ClientInfo where
  fullName := "broker.ClientInfo"
  empty := {}
  fields info := clientInfoFields (info.id, info.subscriptions)
  read := readClientInfoField
  fields_valid := by
    intro info f hf
    rcases List.mem_append.mp hf with hf | hf
    · exact stringField_valid (by decide) _ f hf
    · obtain ⟨_, -, rfl⟩ := List.mem_map.mp hf
      exact ⟨Nat.succ_ne_zero 1, trivial⟩
  read_fields := readClientInfo_clientInfoFields
  first := ClientInfo.id
  second := ClientInfo.subscriptions
  rest _ := []
  fields_eq _ := (List.append_nil _).symm
  rest_number _ _ hf := absurd hf List.not_mem_nil
  first_empty := rfl
  second_empty := rfl
  second_read _ _ _ h := readClientInfoField_subscriptions h

theorem readHeaderField_senderId {h h' : MessageHeader} {f : Field}
    (hread : readHeaderField h f = some h') :
    h'.senderId = h.senderId ∨ f.value = .len (utf8 h'.senderId) := by
  unfold readHeaderField at hread
  split at hread
  case h_2 hv =>
    obtain ⟨s, hs, rfl⟩ := Option.map_eq_some_iff.mp hread
    exact .inr (by rw [hv, utf8_of_ofUtf8 hs])
  case h_7 | h_8 =>
    cases hread
    exact .inl rfl
  case h_10 =>
    split_ifs at hread
    cases hread
    exact .inl rfl
  all_goals
    obtain ⟨s, -, rfl⟩ := Option.map_eq_some_iff.mp hread
    exact .inl rfl

theorem two_lt_of_unknown {f : Field} (h : f.Valid ∧ knownHeaderField f = false) {d : Bytes}
    (hd : f.value = .len d) : 2 < f.number := by
  have hn := h.1.1
  have hk := h.2
  simp only [knownHeaderField, hd, decide_eq_false_iff_not, List.mem_cons, not_or] at hk
  omega

def messageHeader : AnyShaped MessageHeader where
  fullName := "broker.MessageHeader"
  empty := {}
  fields := headerFields
  read := readHeaderField
  fields_valid := headerFields_valid
  read_fields := readHeader_headerFields
  first := MessageHeader.handlerKey
  second h := written h.senderId
  rest h :=
    stringField 3 h.topic ++ stringField 5 h.originBrokerId ++ stringField 6 h.messageUuid ++
      stringField 7 h.transferId ++ int32Field 8 h.sequenceNumber ++
      int32Field 9 h.sequenceCount ++ stringField 11 h.replyTopic ++ h.unknown.val
  fields_eq h := by simp only [headerFields, ← stringField_eq_map, List.append_assoc]
  rest_number := by
    intro h f hf d hd
    simp only [List.mem_append] at hf
    rcases hf with ((((((hf | hf) | hf) | hf) | hf) | hf) | hf) | hf
    · rw [stringField_number hf]; decide
    · rw [stringField_number hf]; decide
    · rw [stringField_number hf]; decide
    · rw [stringField_number hf]; decide
    · rw [int32Field_number hf]; decide
    · rw [int32Field_number hf]; decide
    · rw [stringField_number hf]; decide
    · exact two_lt_of_unknown (h.unknown.property f hf) hd
  first_empty := rfl
  second_empty := rfl
  second_read _ _ _ h := mem_written (readHeaderField_senderId h)

/-- The message types without a floating-point field. -/
inductive ProtoType
  | update
  | clientInfo
  | messageHeader

namespace ProtoType

def Value : ProtoType → Type
  | update => Update
  | clientInfo => ClientInfo
  | messageHeader => MessageHeader

def codec : (t : ProtoType) → AnyShaped t.Value
  | update => Payload.update
  | clientInfo => Payload.clientInfo
  | messageHeader => Payload.messageHeader

end ProtoType

/-- A packed message is always decoded as what was sent; a bare one exactly when its first field
does not start like a type url. -/
theorem payload_decodes_iff (t : ProtoType) (m : t.Value) :
    decodePayload t.codec.toMessageType (encodePayload t.codec.toMessageType m) = some m ∧
      (decodePayload t.codec.toMessageType (t.codec.serialize m) = some m ↔
        hasTypeUrlStart (t.codec.first m) = false) :=
  ⟨decodePayload_encodePayload _ m, t.codec.decodePayload_serialize_iff m⟩

/-- An update whose id looks like a type url, sent bare, is refused by the receiver. -/
theorem bare_update_refused :
    decodePayload update.toMessageType
      (update.serialize ⟨"type.googleapis.com/x", "on", 0⟩) = none := by
  decide +kernel

end ZmqPubSub.Payload
