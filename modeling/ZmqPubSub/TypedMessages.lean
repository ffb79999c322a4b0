import ZmqPubSub.MeshIntegrity
import ZmqPubSub.ReplyContext
import ZmqPubSub.StatsBroadcast
import ZmqPubSub.Text

/-!
The templates of `connectionmanager.h` that turn a value into a payload and a payload into the
argument of a callback, and `protoutils.h`, by which the inspector finds the type of a payload. A
packed message keeps its type across the mesh, and the inspector and the clients agree on it.
-/

namespace ZmqPubSub.Payload

open Proto3
open ReplyContext (Program)

/-- A specialisation of `DataSerializer`; `none` where `deserialize` throws. -/
structure DataSerializer (α : Type) where
  serialize : α → Bytes
  deserialize : Bytes → Option α

/-- A trivially copyable type of standard layout. -/
structure StructLayout (α : Type) where
  sizeOf : ℕ
  bytes : α → Bytes
  ofBytes : Bytes → α
  length_bytes : ∀ a, (bytes a).length = sizeOf
  ofBytes_bytes : ∀ a, ofBytes (bytes a) = a

/-- The branches of `encodePayload` and `decodePayload`. -/
inductive Encoding : Type → Type 1
  | serializer {α : Type} (s : DataSerializer α) : Encoding α
  | protobuf {α : Type} (t : MessageType α) : Encoding α
  | string : Encoding Bytes
  | struct {α : Type} (l : StructLayout α) : Encoding α

namespace Encoding

def encodePayload {α : Type} : Encoding α → α → Bytes
  | .serializer s, value => s.serialize value
  | .protobuf t, value => Payload.encodePayload t value
  | .string, value => value
  | .struct l, value => l.bytes value

def decodePayload {α : Type} : Encoding α → Bytes → Option α
  | .serializer s, raw => s.deserialize raw
  | .protobuf t, raw => Payload.decodePayload t raw
  | .string, raw => some raw
  | .struct l, raw => if raw.length = l.sizeOf then some (l.ofBytes raw) else none

/-- A serializer has to read what it wrote; the other encodings do. -/
def Lawful {α : Type} : Encoding α → Prop
  | .serializer s => ∀ value, s.deserialize (s.serialize value) = some value
  | _ => True

theorem decodePayload_encodePayload {α : Type} {e : Encoding α} (h : e.Lawful) (value : α) :
    e.decodePayload (e.encodePayload value) = some value := by
  cases e with
  | serializer s => exact h value
  | protobuf t => exact Payload.decodePayload_encodePayload t value
  | string => rfl
  | struct l => rw [encodePayload, decodePayload, if_pos (l.length_bytes value), l.ofBytes_bytes]

/-- What the typed `registerCallback` registers. A payload that is not decoded is only logged. -/
def onPayload {α : Type} (e : Encoding α) (func : α → Program) (raw : Bytes) :
    Program :=
  match e.decodePayload raw with
  | some value => func value
  | none => .done

end Encoding

structure TypedValue where
  Value : Type
  encoding : Encoding Value
  lawful : encoding.Lawful
  value : Value

def TypedValue.payload (v : TypedValue) : Bytes := v.encoding.encodePayload v.value

theorem TypedValue.onPayload_payload (v : TypedValue) (func : v.Value → Program) :
    v.encoding.onPayload func v.payload = func v.value := by
  rw [Encoding.onPayload, payload, Encoding.decodePayload_encodePayload v.lawful]

/-- `typeUrl.substr(typeUrl.find_last_of('/') + 1)`; without a slash this is all of it. -/
def Any.typeName (any : Any) : String :=
  match Text.rfind '/' any.typeUrl.toList with
  | some i => String.ofList (any.typeUrl.toList.drop (i + 1))
  | none => any.typeUrl

theorem Any.is_iff {any : Any} (h : '/' ∈ any.typeUrl.toList) {fullName : String}
    (hn : '/' ∉ fullName.toList) : any.is fullName = true ↔ any.typeName = fullName := by
  obtain ⟨before, after, hurl, hafter⟩ := Text.exists_last h
  have hname : any.typeName = String.ofList after := by
    rw [typeName, hurl, Text.rfind_append before hafter]
    dsimp only
    rw [List.drop_length_add_append, List.drop_succ_cons, List.drop_zero]
  have hslash : ("/" ++ fullName).toList = '/' :: fullName.toList := by simp
  rw [Any.is, List.isSuffixOf_iff_suffix, hslash, hurl, Text.cons_isSuffix_iff hn hafter, hname,
    ← String.toList_inj, String.toList_ofList]
  exact eq_comm

theorem slash_mem_of_start {s : String} (h : hasTypeUrlStart s = true) : '/' ∈ s.toList := by
  have hp : typeUrlStart.toList <+: s.toList := List.isPrefixOf_iff_prefix.mp h
  exact hp.subset (by decide)

theorem decodePayload_of_other {α β : Type} {t : MessageType α} {u : MessageType β}
    (ht : '/' ∉ t.fullName.toList) (hu : '/' ∉ u.fullName.toList) (hne : u.fullName ≠ t.fullName)
    (m : α) : decodePayload u (encodePayload t m) = none := by
  obtain ⟨any, hany⟩ : ∃ any : Any, any = ⟨typeUrlStart ++ t.fullName, t.serialize m⟩ := ⟨_, rfl⟩
  have hparse : parseAny (encodePayload t m) = some any := by
    rw [hany]
    exact parseAny_packAny _ _
  have hstart : hasTypeUrlStart any.typeUrl = true := by simp [hany, hasTypeUrlStart]
  have hslash := slash_mem_of_start hstart
  have hname : any.typeName = t.fullName := by
    rw [← Any.is_iff hslash ht, hany]
    exact is_typeUrl _ _
  have his : ¬ any.is u.fullName = true := by
    rw [Any.is_iff hslash hu, hname]
    exact hne.symm
  rw [decodePayload, tryUnpack_of_start u hparse hstart, if_neg his]

structure PoolType where
  Value : Type
  codec : MessageType Value

/-- `DescriptorPool::generated_pool()`: the types of the linked `.pb.cc` files. -/
structure DescriptorPool where
  types : List PoolType
  nodup : (types.map fun t => t.codec.fullName).Nodup
  noSlash : ∀ t ∈ types, '/' ∉ t.codec.fullName.toList

inductive PayloadRoot
  | empty
  | message (t : PoolType) (m : t.Value)
  /-- "[Unknown Protobuf Schema]" -/
  | unknownSchema
  /-- "Raw Payload" -/
  | raw (size : ℕ)

namespace DescriptorPool

variable (pool : DescriptorPool)

def findMessageTypeByName (name : String) : Option PoolType :=
  pool.types.find? fun t => t.codec.fullName = name

def dynamicallyUnpack (any : Any) : Option (Σ t : PoolType, t.Value) :=
  match pool.findMessageTypeByName any.typeName with
  | none => none
  | some t =>
    if any.is t.codec.fullName then (t.codec.parse any.value).map fun m => ⟨t, m⟩ else none

def drawEnvelopeAndPayload (header : MessageHeader) (payload : Bytes) :
    MessageHeader × PayloadRoot :=
  (header,
    if payload = [] then .empty
    else
      match (parseAny payload).filter fun any => hasTypeUrlStart any.typeUrl with
      | some any =>
        match pool.dynamicallyUnpack any with
        | some ⟨t, m⟩ => .message t m
        | none => .unknownSchema
      | none => .raw payload.length)

variable {pool}

theorem findMessageTypeByName_fullName {t : PoolType} (ht : t ∈ pool.types) :
    pool.findMessageTypeByName t.codec.fullName = some t := by
  cases hf : pool.findMessageTypeByName t.codec.fullName with
  | none =>
    have := List.find?_eq_none.mp hf t ht
    simp at this
  | some t' =>
    have hname : t'.codec.fullName = t.codec.fullName := by simpa using List.find?_some hf
    rw [List.inj_on_of_nodup_map pool.nodup (List.mem_of_find?_eq_some hf) ht hname]

theorem dynamicallyUnpack_eq_some {any : Any} (h : '/' ∈ any.typeUrl.toList) {t : PoolType}
    {m : t.Value} : pool.dynamicallyUnpack any = some ⟨t, m⟩ ↔
      t ∈ pool.types ∧ any.is t.codec.fullName = true ∧ t.codec.parse any.value = some m := by
  constructor
  · intro hd
    unfold dynamicallyUnpack at hd
    cases hf : pool.findMessageTypeByName any.typeName with
    | none =>
      rw [hf] at hd
      cases hd
    | some t' =>
      rw [hf] at hd
      dsimp only at hd
      split_ifs at hd with his
      obtain ⟨m', hm, he⟩ := Option.map_eq_some_iff.mp hd
      cases he
      exact ⟨List.mem_of_find?_eq_some hf, his, hm⟩
  · rintro ⟨ht, his, hm⟩
    have hname := (Any.is_iff h (pool.noSlash t ht)).mp his
    simp only [dynamicallyUnpack, hname, findMessageTypeByName_fullName ht, his, if_true, hm,
      Option.map_some]

end DescriptorPool

/-- The bytes read as an `Any` with the url of a protobuf type. -/
def LooksPacked (raw : Bytes) : Prop :=
  ∃ any, parseAny raw = some any ∧ hasTypeUrlStart any.typeUrl = true

theorem looksPacked_encodePayload {α : Type} (t : MessageType α) (m : α) :
    LooksPacked (encodePayload t m) :=
  ⟨_, parseAny_packAny t.fullName (t.serialize m), by simp [hasTypeUrlStart]⟩

theorem not_looksPacked_nil : ¬ LooksPacked [] := by
  rintro ⟨any, hany, hstart⟩
  obtain rfl : ({} : Any) = any := by simpa [parseAny, decodeFields, decodeFieldsAux] using hany
  exact absurd hstart (by decide)

namespace DescriptorPool

variable {pool : DescriptorPool}

theorem draw_of_looksPacked {header : MessageHeader} {payload : Bytes} {any : Any}
    (hany : parseAny payload = some any) (hstart : hasTypeUrlStart any.typeUrl = true) :
    (pool.drawEnvelopeAndPayload header payload).2 =
      match pool.dynamicallyUnpack any with
      | some ⟨t, m⟩ => .message t m
      | none => .unknownSchema := by
  have hne : payload ≠ [] := by
    rintro rfl
    exact not_looksPacked_nil ⟨any, hany, hstart⟩
  simp only [drawEnvelopeAndPayload, if_neg hne, hany, Option.filter_some, hstart, if_true]

theorem draw_of_not_looksPacked {header : MessageHeader} {payload : Bytes}
    (h : ¬ LooksPacked payload) : (pool.drawEnvelopeAndPayload header payload).2 =
      if payload = [] then .empty else .raw payload.length := by
  have hnone : (parseAny payload).filter (fun any => hasTypeUrlStart any.typeUrl) = none := by
    rw [Option.filter_eq_none_iff]
    intro any hany hstart
    exact h ⟨any, hany, hstart⟩
  rw [drawEnvelopeAndPayload, hnone]

/-- The inspector draws a payload as a message exactly if a callback for this type is handed the
message from the same packed bytes, and reports an unknown schema exactly if a callback for any type
it knows would refuse them. What is sent as one of these types is drawn as what was sent. -/
theorem inspector_agrees (pool : DescriptorPool) (header : MessageHeader) (payload : Bytes) :
    (∀ t ∈ pool.types, ∀ m,
      (pool.drawEnvelopeAndPayload header payload).2 = .message t m ↔
        LooksPacked payload ∧ decodePayload t.codec payload = some m) ∧
    ((pool.drawEnvelopeAndPayload header payload).2 = .unknownSchema ↔
      LooksPacked payload ∧ ∀ t ∈ pool.types, decodePayload t.codec payload = none) ∧
    (∀ t ∈ pool.types, ∀ m, payload = encodePayload t.codec m →
      (pool.drawEnvelopeAndPayload header payload).2 = .message t m) := by
  have hmessage : ∀ t ∈ pool.types, ∀ m,
      (pool.drawEnvelopeAndPayload header payload).2 = .message t m ↔
        LooksPacked payload ∧ decodePayload t.codec payload = some m := by
    intro t ht m
    by_cases hp : LooksPacked payload
    · obtain ⟨any, hany, hstart⟩ := hp
      have hslash := slash_mem_of_start hstart
      have hdecode : decodePayload t.codec payload = some m ↔
          pool.dynamicallyUnpack any = some ⟨t, m⟩ := by
        rw [dynamicallyUnpack_eq_some hslash, decodePayload, tryUnpack_of_start _ hany hstart]
        split_ifs with his
        · simp [ht, his]
        · simp [his]
      rw [draw_of_looksPacked hany hstart, hdecode]
      cases hd : pool.dynamicallyUnpack any with
      | none => simp
      | some tm =>
        obtain ⟨t', m'⟩ := tm
        simp only [Option.some.injEq, Sigma.mk.injEq, PayloadRoot.message.injEq]
        exact ⟨fun h => ⟨⟨any, hany, hstart⟩, h⟩, fun h => h.2⟩
    · rw [draw_of_not_looksPacked hp]
      split_ifs <;> simp [hp]
  refine ⟨hmessage, ?_, fun t ht m hm => ?_⟩
  · by_cases hp : LooksPacked payload
    · obtain ⟨any, hany, hstart⟩ := hp
      have hslash := slash_mem_of_start hstart
      rw [draw_of_looksPacked hany hstart]
      cases hd : pool.dynamicallyUnpack any with
      | none =>
        refine iff_of_true rfl ⟨⟨any, hany, hstart⟩, fun t ht => ?_⟩
        rw [Option.eq_none_iff_forall_ne_some]
        intro m hm
        have hdraw := (hmessage t ht m).mpr ⟨⟨any, hany, hstart⟩, hm⟩
        rw [draw_of_looksPacked hany hstart, hd] at hdraw
        cases hdraw
      | some tm =>
        obtain ⟨t, m⟩ := tm
        obtain ⟨ht, his, hm⟩ := (dynamicallyUnpack_eq_some hslash).mp hd
        refine iff_of_false (by simp) fun h => ?_
        have hnone := h.2 t ht
        rw [decodePayload, tryUnpack_of_start _ hany hstart, if_pos his, hm] at hnone
        cases hnone
    · rw [draw_of_not_looksPacked hp]
      split_ifs <;> simp [hp]
  · rw [hmessage t ht m, hm]
    exact ⟨looksPacked_encodePayload _ _, decodePayload_encodePayload _ _⟩

def generatedPool : DescriptorPool where
  types := [⟨Update, update.toMessageType⟩, ⟨ClientInfo, clientInfo.toMessageType⟩,
    ⟨MessageHeader, messageHeader.toMessageType⟩, ⟨StatsMessage, systemStats⟩]
  nodup := by decide
  noSlash := by decide

theorem inspector_agrees_update :
    (generatedPool.drawEnvelopeAndPayload {}
      (encodePayload update.toMessageType ⟨"sensor-1", "on", 7⟩)).2 =
        .message ⟨Update, update.toMessageType⟩ ⟨"sensor-1", "on", 7⟩ :=
  (inspector_agrees generatedPool {} _).2.2 ⟨Update, update.toMessageType⟩ List.mem_cons_self
    ⟨"sensor-1", "on", 7⟩ rfl

end DescriptorPool

end ZmqPubSub.Payload

namespace ZmqPubSub.Mesh

open TransitionSystem Proto3 Payload
open ReplyContext (Program)

variable {ι ω κ : Type*} [DecidableEq ι] [DecidableEq ω] [DecidableEq κ] {N : Network ι ω κ}
  {pb : Protobuf} {s : Mesh ι ω κ}

/-- Types survive the mesh: a data message that is delivered to a client is one that some client
wrote, and whatever value it was written for, a callback for the encoding of this value is called
with the value and a callback for another protobuf type is not called. -/
theorem typed_values_arrive
    (h : Reachable Initial (guarded Decent (ofFun (Mesh.step N pb))) s) {b : ι} {c : String}
    {env : Envelope} (henv : env ∈ s.deliveries pb b c)
    (hdata : Keys.isControlMessage env.key = false) (hstats : env.key ≠ Keys.sysStats) :
    ∃ k, ∃ msg ∈ s.written k, env.header.topic = msg.header.topic ∧ env.payload = msg.payload ∧
      ∀ v : TypedValue, msg.payload = v.payload →
        (∀ func, v.encoding.onPayload func env.payload = func v.value) ∧
        ∀ (t : MessageType v.Value) {β : Type} (u : MessageType β) (func : β → Program),
          v.encoding = .protobuf t → '/' ∉ t.fullName.toList → '/' ∉ u.fullName.toList →
          u.fullName ≠ t.fullName → (Encoding.protobuf u).onPayload func env.payload = .done := by
  have hg := genuine_of_run h
  rcases hg.sent b c env henv with ⟨k, x, hx, rfl⟩ | rfl | rfl | hs
  · obtain ⟨hw, fresh, hst⟩ := hg.taken k x hx
    have hpayload : x.2.payload = x.1.payload := by rw [hst, Broker.stamped]
    have htopic : x.2.header.topic = x.1.header.topic := by
      rw [hst]
      exact (Broker.stamped_topics fresh x.1).1
    refine ⟨k, x.1, hw, htopic, hpayload, fun v hv => ⟨fun func => ?_, ?_⟩⟩
    · rw [hpayload, hv, v.onPayload_payload]
    · intro t β u func he ht hu hne
      have hnone : (Encoding.protobuf u).decodePayload x.2.payload = none := by
        rw [hpayload, hv, TypedValue.payload, he]
        exact decodePayload_of_other ht hu hne v.value
      rw [Encoding.onPayload, hnone]
  · exact absurd hdata (by decide)
  · exact absurd hdata (by decide)
  · exact absurd (by rw [Envelope.key, hs]; rfl) hstats

def publishingUpdate : List (Event Bool Bool Bool) :=
  [.send false (({ clientId := "client-a" } : ConnectionManager Unit).dataEnvelope "news"
      (encodePayload update.toMessageType ⟨"sensor-1", "on", 7⟩)),
    .sendOutbound (.inr false), .take (.inr false) newsUuid 0, .sendOutbound (.inl false),
    .take (.inl false) newsUuid 0]

def updated : Mesh Bool Bool Bool :=
  (exec (Mesh.step mutualDial BrokerProto.proto3) started
    (linking false ++ joining ++ publishingUpdate)).get (by decide +kernel)

theorem typed_values_arrive_updated :
    ∃ env ∈ updated.deliveries BrokerProto.proto3 true "client-b", ∀ func,
      (Encoding.protobuf update.toMessageType).onPayload func env.payload =
        func ⟨"sensor-1", "on", 7⟩ := by
  have hr : Run (guarded Decent (ofFun (Mesh.step mutualDial BrokerProto.proto3))) started
      (trace (Mesh.step mutualDial BrokerProto.proto3) started
        (linking false ++ joining ++ publishingUpdate)) updated :=
    exec_guarded (by decide +kernel) (by simp [updated])
  have hi : started.Initial := ⟨fun b => ⟨_, 0, rfl⟩, rfl⟩
  obtain ⟨env, henv, hpayload, hkey⟩ :
      ∃ env ∈ updated.deliveries BrokerProto.proto3 true "client-b",
        env.payload = encodePayload update.toMessageType ⟨"sensor-1", "on", 7⟩ ∧
        env.key = "news" := by decide +kernel
  obtain ⟨k, msg, -, -, hmsg, hvalue⟩ := typed_values_arrive ⟨started, _, hi, hr⟩ henv
    (by rw [hkey]; decide) (by rw [hkey]; decide)
  exact ⟨env, henv, (hvalue ⟨Update, .protobuf update.toMessageType, trivial, ⟨"sensor-1", "on", 7⟩⟩
    (hmsg.symm.trans hpayload)).1⟩

end ZmqPubSub.Mesh
