import ZmqPubSub.BrokerRouting
import ZmqPubSub.Payload

/-!
`SystemStats` as a message of `broker.proto`, and what its readers make of a broadcast: a client
through `tryUnpack`, the inspector through `Any::UnpackTo`. A double is its IEEE bits.
-/

namespace ZmqPubSub.Payload

open Proto3 BrokerProto

structure StatsMessage where
  brokerId : String := ""
  clientsCount : Int32 := 0
  peersCount : Int32 := 0
  msgsPerSec : Int32 := 0
  kbPerSec : UInt64 := 0
  totalMsgs : Int64 := 0
  uptimeSec : Int64 := 0
  connectedClients : List ClientInfo := []
deriving DecidableEq

/-- Eight bytes, low byte first. -/
def fixed64Field (number : ℕ) (bits : UInt64) : List Field :=
  if bits = 0 then []
  else [⟨number, .fixed64 ((List.range 8).map fun i => UInt8.ofNat (bits.toNat / 256 ^ i))⟩]

def littleEndian (data : Bytes) : ℕ := data.foldr (fun b n => b.toNat + 256 * n) 0

def clientInfoField (info : ClientInfo) : Field := ⟨8, .len (clientInfo.serialize info)⟩

def statsMessageFields (m : StatsMessage) : List Field :=
  stringField 1 m.brokerId ++ int32Field 2 m.clientsCount ++ int32Field 3 m.peersCount ++
    int32Field 4 m.msgsPerSec ++ fixed64Field 5 m.kbPerSec ++ int64Field 6 m.totalMsgs.toInt ++
    int64Field 7 m.uptimeSec.toInt ++ m.connectedClients.map clientInfoField

def readStatsField (m : StatsMessage) (f : Field) : Option StatsMessage :=
  match f.number, f.value with
  | 1, .len d => (ofUtf8 d).map fun s => { m with brokerId := s }
  | 2, .varint n => some { m with clientsCount := toInt32 n }
  | 3, .varint n => some { m with peersCount := toInt32 n }
  | 4, .varint n => some { m with msgsPerSec := toInt32 n }
  | 5, .fixed64 d => some { m with kbPerSec := UInt64.ofNat (littleEndian d) }
  | 6, .varint n => some { m with totalMsgs := toInt64 n }
  | 7, .varint n => some { m with uptimeSec := toInt64 n }
  | 8, .len d => (clientInfo.parse d).map fun info =>
      { m with connectedClients := m.connectedClients ++ [info] }
  | _, _ => some m

theorem littleEndian_range (n k : ℕ) :
    littleEndian ((List.range k).map fun i => UInt8.ofNat (n / 256 ^ i)) = n % 256 ^ k := by
  induction k generalizing n with
  | zero => simp [littleEndian, Nat.mod_one]
  | succ k ih =>
    have htail : ((List.range k).map Nat.succ).map (fun i => UInt8.ofNat (n / 256 ^ i)) =
        (List.range k).map fun i => UInt8.ofNat (n / 256 / 256 ^ i) := by
      rw [List.map_map]
      apply List.map_congr_left
      intro i _
      rw [Function.comp_apply, Nat.div_div_eq_div_mul, Nat.pow_succ']
    have hhead : (UInt8.ofNat (n / 256 ^ 0)).toNat = n % 256 := by simp
    rw [List.range_succ_eq_map, List.map_cons, htail, littleEndian, List.foldr_cons, hhead]
    change n % 256 + 256 * littleEndian _ = _
    rw [ih, Nat.pow_succ', Nat.mod_mul]

theorem littleEndian_bits (bits : UInt64) :
    UInt64.ofNat (littleEndian
      ((List.range 8).map fun i => UInt8.ofNat (bits.toNat / 256 ^ i))) = bits := by
  have hlt : bits.toNat < 256 ^ 8 := bits.toNat_lt
  rw [littleEndian_range, Nat.mod_eq_of_lt hlt, UInt64.ofNat_toNat]

theorem foldlM_fixed64Field {α : Type*} {read : α → Field → Option α} {number : ℕ} {bits : UInt64}
    {a : α} (set : UInt64 → α)
    (hset : ∀ data, UInt64.ofNat (littleEndian data) = bits →
      read a ⟨number, .fixed64 data⟩ = some (set bits))
    (hdef : set 0 = a) : (fixed64Field number bits).foldlM read a = some (set bits) := by
  unfold fixed64Field
  split_ifs with h
  · rw [h, hdef]
    rfl
  · rw [List.foldlM_cons, hset _ (littleEndian_bits bits)]
    rfl

theorem readStats_clients (infos : List ClientInfo) (m : StatsMessage) :
    (infos.map clientInfoField).foldlM readStatsField m =
      some { m with connectedClients := m.connectedClients ++ infos } := by
  induction infos generalizing m with
  | nil => simp
  | cons info infos ih =>
    have hread : readStatsField m (clientInfoField info) =
        some { m with connectedClients := m.connectedClients ++ [info] } := by
      simp [readStatsField, clientInfoField, clientInfo.parse_serialize]
    rw [List.map_cons, List.foldlM_cons, hread, Option.bind_eq_bind, Option.bind_some, ih]
    simp

theorem readStats_statsMessageFields (m : StatsMessage) :
    (statsMessageFields m).foldlM readStatsField {} = some m := by
  obtain ⟨id, clients, peers, msgs, kb, total, uptime, infos⟩ := m
  simp only [statsMessageFields, List.foldlM_append]
  rw [foldlM_stringField (fun x => (⟨x, 0, 0, 0, 0, 0, 0, []⟩ : StatsMessage))
    (by simp [readStatsField]) rfl]
  simp only [Option.bind_eq_bind, Option.bind_some]
  rw [foldlM_int32Field (fun x => (⟨id, x, 0, 0, 0, 0, 0, []⟩ : StatsMessage))
    (by simp only [readStatsField, toInt32_toNat_emod]) rfl]
  simp only [Option.bind_some]
  rw [foldlM_int32Field (fun x => (⟨id, clients, x, 0, 0, 0, 0, []⟩ : StatsMessage))
    (by simp only [readStatsField, toInt32_toNat_emod]) rfl]
  simp only [Option.bind_some]
  rw [foldlM_int32Field (fun x => (⟨id, clients, peers, x, 0, 0, 0, []⟩ : StatsMessage))
    (by simp only [readStatsField, toInt32_toNat_emod]) rfl]
  simp only [Option.bind_some]
  rw [foldlM_fixed64Field (fun x => (⟨id, clients, peers, msgs, x, 0, 0, []⟩ : StatsMessage))
    (by intro data hd; simp only [readStatsField, hd]) rfl]
  simp only [Option.bind_some]
  rw [foldlM_int64Field (fun x => (⟨id, clients, peers, msgs, kb, x, 0, []⟩ : StatsMessage))
    (by simp only [readStatsField, toInt64_toNat_emod]) rfl]
  simp only [Option.bind_some]
  rw [foldlM_int64Field (fun x => (⟨id, clients, peers, msgs, kb, total, x, []⟩ : StatsMessage))
    (by simp only [readStatsField, toInt64_toNat_emod]) rfl]
  simp only [Option.bind_some]
  exact readStats_clients infos _

theorem fixed64Field_valid {number : ℕ} (h : number ≠ 0) (bits : UInt64) :
    ∀ f ∈ fixed64Field number bits, f.Valid := by
  intro f hf
  rw [eq_of_mem_default hf]
  exact ⟨h, by simp⟩

def systemStats : MessageType StatsMessage where
  fullName := "broker.SystemStats"
  empty := {}
  fields := statsMessageFields
  read := readStatsField
  fields_valid := by
    intro m f hf
    simp only [statsMessageFields, List.mem_append] at hf
    rcases hf with ((((((hf | hf) | hf) | hf) | hf) | hf) | hf) | hf
    · exact stringField_valid (by decide) _ f hf
    · exact int32Field_valid (by decide) _ f hf
    · exact int32Field_valid (by decide) _ f hf
    · exact int32Field_valid (by decide) _ f hf
    · exact fixed64Field_valid (by decide) _ f hf
    · exact int64Field_valid (by decide) _ f hf
    · exact int64Field_valid (by decide) _ f hf
    · obtain ⟨_, -, rfl⟩ := List.mem_map.mp hf
      exact ⟨Nat.succ_ne_zero 7, trivial⟩
  read_fields := readStats_statsMessageFields

/-- The setters of `SystemStats`: what does not fit is cut off. -/
def statsMessage (stats : SystemStats) : StatsMessage where
  brokerId := stats.brokerId
  clientsCount := stats.clientsCount
  peersCount := stats.peersCount
  msgsPerSec := Int32.ofNat stats.msgsPerSec.toNat
  kbPerSec := (stats.bytesPerSec.toFloat / 1024).toBits
  totalMsgs := Int64.ofNat stats.totalMsgs.toNat
  uptimeSec := Int64.ofInt stats.uptimeSec
  connectedClients := stats.connectedClients.map fun info => ⟨info.1, info.2⟩

/-- Narrowing a counter cuts off no less than the counter's own wrap. -/
theorem int32_ofNat_uint64 (n : ℕ) : Int32.ofNat (UInt64.ofNat n).toNat = Int32.ofNat n := by
  apply Int32.toBitVec_inj.mp
  apply BitVec.eq_of_toNat_eq
  simp

theorem int64_ofNat_uint64 (n : ℕ) : Int64.ofNat (UInt64.ofNat n).toNat = Int64.ofNat n := by
  apply Int64.toBitVec_inj.mp
  apply BitVec.eq_of_toNat_eq
  simp

theorem int64Field_ofInt {x : ℤ} (hl : -2 ^ 64 < x) (hu : x < 2 ^ 64) (number : ℕ) :
    int64Field number (Int64.ofInt x).toInt = int64Field number x := by
  have hmod : (Int64.ofInt x).toInt % 2 ^ 64 = x % 2 ^ 64 := by
    rw [Int64.toInt_ofInt]
    exact Int.bmod_emod
  have hzero : (Int64.ofInt x).toInt = 0 ↔ x = 0 := by
    have hb := (Int64.ofInt x).toInt_lt
    have hb' := (Int64.ofInt x).le_toInt
    omega
  rw [int64Field, int64Field, hmod]
  simp only [hzero]

theorem statsFields_eq (stats : SystemStats) (hl : -2 ^ 64 < stats.uptimeSec)
    (hu : stats.uptimeSec < 2 ^ 64) :
    statsFields stats = statsMessageFields (statsMessage stats) := by
  have htotal : int64Field 6 (Int64.ofNat stats.totalMsgs.toNat).toInt =
      int64Field 6 stats.totalMsgs.toNat := by
    have hlt : ((stats.totalMsgs.toNat : ℕ) : ℤ) < 2 ^ 64 := by
      have := stats.totalMsgs.toNat_lt
      omega
    rw [← Int64.ofInt_eq_ofNat]
    exact int64Field_ofInt (by omega) hlt 6
  simp only [statsMessageFields, statsMessage, htotal, int64Field_ofInt hl hu, List.map_map]
  rfl

/-- The payload of a broadcast is the message, packed like any other. -/
theorem packStats_eq (stats : SystemStats) (hl : -2 ^ 64 < stats.uptimeSec)
    (hu : stats.uptimeSec < 2 ^ 64) :
    packStats stats = encodePayload systemStats (statsMessage stats) := by
  rw [packStats, statsFields_eq stats hl hu]
  rfl

/-- `ParseFromString` into an `Any`, then `UnpackTo`. -/
def unpackTo {α : Type*} (t : MessageType α) (raw : Bytes) : Option α :=
  (parseAny raw).bind fun any => if any.is t.fullName then t.parse any.value else none

theorem is_typeUrl (fullName : String) (data : Bytes) :
    Any.is ⟨typeUrlStart ++ fullName, data⟩ fullName = true := by
  have hurl : (typeUrlStart ++ fullName).toList =
      "type.googleapis.com".toList ++ ("/" ++ fullName).toList := by
    simp [typeUrlStart]
  rw [Any.is, List.isSuffixOf_iff_suffix, hurl]
  exact List.suffix_append _ _

theorem unpackTo_encodePayload {α : Type*} (t : MessageType α) (m : α) :
    unpackTo t (encodePayload t m) = some m := by
  rw [unpackTo, encodePayload, parseAny_packAny, Option.bind_some, if_pos (is_typeUrl _ _),
    t.parse_serialize]

end ZmqPubSub.Payload

namespace ZmqPubSub.Broker

open Containers SubscriptionRegistry Payload

variable {ω : Type*} {b : Broker ω}

theorem WellFormed.subscriptionsOf_spec (h : b.WellFormed) (c : String) :
    ((b.subscriptions.subscriptionsOf c).getD []).Nodup ∧
      ∀ t, t ∈ (b.subscriptions.subscriptionsOf c).getD [] ↔ b.Subscribed c t := by
  obtain ⟨S, hr, -⟩ := h
  exact ⟨hr.clients.nodup_getD c, fun t => Iff.rfl⟩

theorem WellFormed.subscribersOf_spec (h : b.WellFormed) (t : String) :
    ((b.subscriptions.subscribersOf t).getD []).Nodup ∧
      ∀ c, c ∈ (b.subscriptions.subscribersOf t).getD [] ↔ b.Subscribed c t := by
  refine ⟨?_, fun c => h.subscribed_iff.symm⟩
  obtain ⟨S, hr, -⟩ := h
  exact hr.topics.nodup_getD t

/-- A duration of the steady clock is a signed 64-bit number of nanoseconds. -/
def Representable (duration : ℤ) : Prop := -2 ^ 63 ≤ duration ∧ duration < 2 ^ 63

theorem uptime_bounds {now : Time} (h : Representable (now - b.startTime)) :
    -2 ^ 64 < (b.systemStats now).uptimeSec ∧ (b.systemStats now).uptimeSec < 2 ^ 64 := by
  have habs : (b.systemStats now).uptimeSec.natAbs ≤ (now - b.startTime).natAbs :=
    Int.natAbs_tdiv_le_natAbs _ _
  obtain ⟨hl, hu⟩ := h
  omega

/-- A broadcast carries one payload, to the inspector and to every subscriber. -/
theorem broadcastStats_eq {now : Time} (hu : Representable (now - b.startTime)) :
    b.broadcastStats BrokerProto.proto3 now =
      .inspect (Wire.encodeHeader BrokerProto.proto3 statsMsg)
          (encodePayload Payload.systemStats (statsMessage (b.systemStats now))) ::
        ((b.subscriptions.subscribersOf Keys.sysStats).getD []).map fun id =>
          .sendToClient id (Wire.encodeHeader BrokerProto.proto3 statsMsg)
            (encodePayload Payload.systemStats (statsMessage (b.systemStats now))) := by
  obtain ⟨hl, hlt⟩ := uptime_bounds hu
  have hpack : BrokerProto.proto3.packStats (b.systemStats now) =
      encodePayload Payload.systemStats (statsMessage (b.systemStats now)) :=
    packStats_eq (b.systemStats now) hl hlt
  rw [broadcastStats, hpack]

/-- What a broadcast shows is the broker: it goes to the inspector and once to each subscriber of
the statistics, wildcard subscriptions not included, and both kinds of reader decode the same
message. It lists every client once, with its topics, and no one else. -/
theorem broadcast_shows_broker (h : Reachable BrokerProto.proto3 b) {now : Time}
    (hu : Representable (now - b.startTime)) : ∃ payload m, ∃ ids : List String,
    b.broadcastStats BrokerProto.proto3 now =
      .inspect (Wire.encodeHeader BrokerProto.proto3 statsMsg) payload ::
        ids.map (fun id =>
          .sendToClient id (Wire.encodeHeader BrokerProto.proto3 statsMsg) payload) ∧
    ids.Nodup ∧ (∀ c, c ∈ ids ↔ b.Subscribed c Keys.sysStats) ∧
    decodePayload Payload.systemStats payload = some m ∧
    unpackTo Payload.systemStats payload = some m ∧
    (m.connectedClients.map ClientInfo.id).Nodup ∧
    (∀ c, c ∈ m.connectedClients.map ClientInfo.id ↔ c ∈ b.clients) ∧
    (∀ info ∈ m.connectedClients, info.subscriptions.Nodup ∧
      ∀ t, t ∈ info.subscriptions ↔ b.Subscribed info.id t) ∧
    m.clientsCount = Int32.ofNat m.connectedClients.length ∧ m.brokerId = b.brokerId ∧
    m.totalMsgs = Int64.ofNat b.totalMessages.toNat ∧
    m.msgsPerSec = Int32.ofNat b.msgsInterval.toNat := by
  have hw : b.WellFormed := h.wellFormed
  have hids : (statsMessage (b.systemStats now)).connectedClients.map ClientInfo.id =
      b.clients.keys := by
    simp [statsMessage, Broker.systemStats, Function.comp_def]
  refine ⟨encodePayload Payload.systemStats (statsMessage (b.systemStats now)),
    statsMessage (b.systemStats now), (b.subscriptions.subscribersOf Keys.sysStats).getD [],
    broadcastStats_eq hu, (hw.subscribersOf_spec _).1, (hw.subscribersOf_spec _).2,
    decodePayload_encodePayload _ _,
    unpackTo_encodePayload _ _, ?_, ?_, ?_, ?_, rfl, rfl, rfl⟩
  · rw [hids]
    exact b.clients.nodupKeys
  · intro c
    rw [hids]
    exact AList.mem_keys.symm
  · intro info hinfo
    simp only [statsMessage, Broker.systemStats, List.map_map, List.mem_map] at hinfo
    obtain ⟨c, -, rfl⟩ := hinfo
    exact hw.subscriptionsOf_spec c
  · simp [statsMessage, Broker.systemStats]

theorem broadcast_shows_broker_twoClients : ∃ payload m, ∃ effects : List (Effect Unit),
    twoClients.broadcastStats BrokerProto.proto3 (seconds 1) =
      .inspect (Wire.encodeHeader BrokerProto.proto3 statsMsg) payload :: effects ∧
    decodePayload Payload.systemStats payload = some m ∧
    "client-b" ∈ m.connectedClients.map ClientInfo.id := by
  obtain ⟨payload, m, ids, he, -, -, hm, -, -, hc, -⟩ :=
    broadcast_shows_broker twoClients_reachable (show Representable (seconds 1 - 0) by
      unfold Representable; decide)
  exact ⟨payload, m, _, he, hm, (hc "client-b").mpr (by decide)⟩

end ZmqPubSub.Broker
