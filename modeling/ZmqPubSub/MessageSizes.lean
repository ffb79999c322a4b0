import ZmqPubSub.MeshIntegrity
import ZmqPubSub.Startup

/-!
Every socket refuses a frame of more than 16 MiB and drops the connection it came over. A broker
writes two names of 36 bytes into the header of a message that it takes from a client, so that what
it forwards is larger than what it got: by 76 bytes at the first broker, and by nothing
afterwards.
-/

namespace ZmqPubSub

open Containers TransitionSystem Proto3 BrokerProto

/-- `MAX_MESSAGE_SIZE_BYTES`. -/
def maxMessageSize : ℕ := 16 * 1024 * 1024

theorem encodeFields_append (fs gs : List Field) :
    encodeFields (fs ++ gs) = encodeFields fs ++ encodeFields gs := by
  rw [encodeFields, encodeFields, encodeFields, List.flatMap_append]

theorem length_encodeVarint_of_lt {n : ℕ} (h : n < 128) : (encodeVarint n).length = 1 := by
  rw [encodeVarint, encodeVarintAux, if_pos h, List.length_singleton]

theorem length_stringField (number : ℕ) {s : String} (hnumber : number < 15) (hne : s ≠ "")
    (hs : (utf8 s).length < 128) :
    (encodeFields (stringField number s)).length = (utf8 s).length + 2 := by
  have htag : (encodeVarint (8 * number + 2)).length = 1 := length_encodeVarint_of_lt (by omega)
  have hlen : (encodeVarint (utf8 s).length).length = 1 := length_encodeVarint_of_lt hs
  simp only [stringField, if_neg hne, encodeFields, List.flatMap_cons, List.flatMap_nil,
    List.append_nil, Field.encode, Value.wireType, Value.encode, List.length_append, htag, hlen]
  omega

/-- The first frame of a message. -/
def headerSize (header : MessageHeader) : ℕ := (Wire.encodeHeader proto3 header).length

def Drawn (name : String) : Prop := ∃ dis dis2, name = generateUUID dis dis2

theorem utf8Len_hexDigits (dis : ℕ → Fin 16) (first count : ℕ) :
    String.utf8Len (hexDigits dis first count) = count := by
  have hone : ∀ d, (hexChar d).utf8Size = 1 := by decide
  induction count generalizing first with
  | zero => rfl
  | succ count ih =>
    have hcons : hexDigits dis first (count + 1) =
        hexChar (dis first) :: hexDigits dis (first + 1) count := rfl
    rw [hcons, String.utf8Len_cons, ih, hone]

theorem Drawn.size {name : String} (h : Drawn name) : (utf8 name).length = 36 := by
  obtain ⟨dis, dis2, rfl⟩ := h
  have hsize : ∀ s, (utf8 s).length = s.utf8ByteSize := by
    intro s
    rw [utf8, Array.length_toList]
    exact s.size_toByteArray
  have hvariant : ∀ d, (variantChar d).utf8Size = 1 := by decide
  have hdash : '-'.utf8Size = 1 := by decide
  have hfour : '4'.utf8Size = 1 := by decide
  have htext : String.ofList (generateUUID dis dis2).toList = generateUUID dis dis2 :=
    String.ofList_toList
  rw [hsize, ← htext, String.utf8ByteSize_ofList, toList_generateUUID]
  simp only [String.utf8Len_append, String.utf8Len_cons, utf8Len_hexDigits, hvariant, hdash, hfour]

theorem Drawn.ne_empty {name : String} (h : Drawn name) : name ≠ "" := by
  rintro rfl
  exact absurd h.size (by decide)

/-- A new identity adds two fields of 38 bytes, in place of what stood there. -/
theorem headerSize_identify (h : MessageHeader) {uuid origin : String} (hu : Drawn uuid)
    (ho : Drawn origin) :
    headerSize { h with messageUuid := uuid, originBrokerId := origin } +
      (encodeFields (stringField 5 h.originBrokerId)).length +
      (encodeFields (stringField 6 h.messageUuid)).length = headerSize h + 76 := by
  have horigin := length_stringField 5 (by decide) ho.ne_empty (ho.size.trans_lt (by decide))
  have huuid := length_stringField 6 (by decide) hu.ne_empty (hu.size.trans_lt (by decide))
  rw [ho.size] at horigin
  rw [hu.size] at huuid
  simp only [headerSize, Wire.encodeHeader, proto3, serializeHeader, headerFields,
    encodeFields_append, List.length_append, List.length_cons]
  omega

namespace Mesh

variable {ι ω κ : Type*} [DecidableEq ι] [DecidableEq ω] [DecidableEq κ]

/-- The names of the brokers, and those that they give to messages, come from `generateUUID`. -/
def Named (N : Network ι ω κ) (s : Mesh ι ω κ) : Event ι ω κ → Prop
  | .take p fresh _ => Drawn fresh.val ∧ Drawn (s.broker (N.home p)).brokerId
  | _ => True

variable {N : Network ι ω κ} {pb : Protobuf} {s s' : Mesh ι ω κ} {e : Event ι ω κ}

theorem taken_step (he : s.step N pb e = some s') : s'.taken = s.taken ∨
    ∃ k fresh now env, e = .take (.inr k) fresh now ∧
      s'.taken = push s.taken k (env, (s.broker (N.home (.inr k))).stamped fresh env) := by
  cases step_acts he with
  | @take p fresh now group rest env hu hr =>
    cases p with
    | inl w => exact .inl rfl
    | inr k =>
      rw [recordTaken_inr]
      change (if Keys.isControlMessage env.key then s.taken else push s.taken k _) = s.taken ∨ _
      split_ifs
      · exact .inl rfl
      · exact .inr ⟨k, fresh, now, env, rfl, rfl⟩
  | @recv w group rest env hd hr =>
    unfold linkReceives
    dsimp only
    split_ifs <;> exact .inl rfl
  | drop place i => cases place <;> exact .inl rfl
  | _ => exact .inl rfl

def Grown (s : Mesh ι ω κ) : Prop :=
  ∀ k, ∀ x ∈ s.taken k, headerSize x.2.header ≤ headerSize x.1.header + 76

theorem headerSize_stamped {ω : Type*} (b : Broker ω) {fresh : Uuid} (hf : Drawn fresh.val)
    (hb : Drawn b.brokerId) (env : Envelope) :
    headerSize (b.stamped fresh env).header ≤ headerSize env.header + 76 := by
  unfold Broker.stamped Broker.stamp
  dsimp only
  split_ifs
  · have := headerSize_identify env.header hf hb
    omega
  · omega

theorem Grown.step (h : s.Grown) (hn : s.Named N e) (he : s.step N pb e = some s') : s'.Grown := by
  rcases taken_step he with ht | ⟨k, fresh, now, env, rfl, ht⟩
  · rwa [Grown, ht]
  · rw [Grown, ht]
    intro k' x hx
    rcases mem_push.mp hx with hx | ⟨rfl, rfl⟩
    · exact h k' x hx
    · exact headerSize_stamped _ hn.1 hn.2 env

theorem grown_of_run
    (h : Reachable Initial (guarded (fun s e => s.Decent e ∧ s.Named N e)
      (ofFun (Mesh.step N pb))) s) :
    s.Grown := by
  refine h.invariant (P := Grown) (fun t ht k x hx => ?_) fun t e u ht hs => ht.step hs.1.2 hs.2
  rw [ht.2] at hx
  cases hx

/-- The frames of the message are accepted by every socket. -/
def FrameFits (env : Envelope) : Prop :=
  headerSize env.header ≤ maxMessageSize ∧ env.payload.length ≤ maxMessageSize

end Mesh

namespace CApi

inductive ErrorCode
  | success
  | generic
  | noConnection
  | invalidArgs
  | sendFailed
deriving DecidableEq

/-- `given`: no pointer is null. `result` is what `ConnectionManager::sendRequest` returned, if it
returned true. With the error code: the bytes that are copied to `outBuffer`, and `*outLen`. -/
def sendRequest (given : Bool) (result : Option Bytes) (outBufferCap : Int32) :
    ErrorCode × Option (Bytes × Int32) :=
  if given = false then (.invalidArgs, none)
  else
    match result with
    | none => (.generic, none)
    | some response =>
      if Int32.ofNat response.length > outBufferCap then (.invalidArgs, none)
      else (.success, some (response, Int32.ofNat response.length))

/-- The cast to `int` is harmless below the size limit. -/
theorem toInt_ofNat_length {response : Bytes} (h : response.length ≤ maxMessageSize) :
    (Int32.ofNat response.length).toInt = response.length := by
  rw [maxMessageSize] at h
  rw [Int32.toInt_ofNat_of_lt (by omega)]

theorem sendRequest_of_fits {response : Bytes} (h : response.length ≤ maxMessageSize)
    (outBufferCap : Int32) : sendRequest true (some response) outBufferCap =
      if (response.length : ℤ) ≤ outBufferCap.toInt then
        (.success, some (response, Int32.ofNat response.length))
      else (.invalidArgs, none) := by
  have hlt : Int32.ofNat response.length > outBufferCap ↔
      ¬ (response.length : ℤ) ≤ outBufferCap.toInt := by
    rw [gt_iff_lt, Int32.lt_iff_toInt_lt, toInt_ofNat_length h, not_le]
  simp only [sendRequest, hlt, ite_not]
  rfl

end CApi

namespace Mesh

variable {ι ω κ : Type*} [DecidableEq ι] [DecidableEq ω] [DecidableEq κ] {N : Network ι ω κ}
  {s : Mesh ι ω κ}

/-- If clients leave room for two names in the headers they write, no broker sends a frame that its
receiver refuses, over however many links a message goes; and `sendRequest` of the C interface
succeeds with such a response if it fits the buffer, with the whole response and its exact length,
and otherwise copies nothing. -/
theorem frames_fit
    (h : Reachable Initial (guarded (fun s e => s.Decent e ∧ s.Named N e)
      (ofFun (Mesh.step N proto3))) s)
    (hw : ∀ k, ∀ msg ∈ s.written k, headerSize msg.header + 76 ≤ maxMessageSize ∧
      msg.payload.length ≤ maxMessageSize) :
    (∀ b c, ∀ env ∈ s.deliveries proto3 b c, env.key ≠ Keys.sysStats → FrameFits env ∧
      ∀ outBufferCap : Int32,
        ((env.payload.length : ℤ) ≤ outBufferCap.toInt → ∃ outLen : Int32,
          CApi.sendRequest true (some env.payload) outBufferCap =
            (.success, some (env.payload, outLen)) ∧ outLen.toInt = env.payload.length) ∧
        (outBufferCap.toInt < env.payload.length →
          CApi.sendRequest true (some env.payload) outBufferCap = (.invalidArgs, none))) ∧
    ∀ w, ∀ env ∈ s.outbound (.inl w), Keys.isControlMessage env.key = false → FrameFits env := by
  have hg : Genuine N proto3 s := by
    obtain ⟨s₀, tr, hi, hr⟩ := h
    exact genuine_of_run ⟨s₀, tr, hi, hr.mono fun _ _ _ hs => ⟨hs.1.1, hs.2⟩⟩
  have hgrown := grown_of_run h
  have htaken : ∀ env, s.Taken env → FrameFits env := by
    rintro _ ⟨k, x, hx, rfl⟩
    obtain ⟨hmem, fresh, hst⟩ := hg.taken k x hx
    obtain ⟨hheader, hpayload⟩ := hw k x.1 hmem
    refine ⟨(hgrown k x hx).trans hheader, ?_⟩
    rw [hst]
    exact hpayload
  refine ⟨fun b c env henv hne => ?_, fun w env henv hkey => ?_⟩
  · have hfits : FrameFits env := by
      rcases hg.sent b c env henv with ht | rfl | rfl | hs
      · exact htaken env ht
      · unfold FrameFits; decide
      · unfold FrameFits; decide
      · exact absurd (by rw [Envelope.key, hs]; rfl) hne
    refine ⟨hfits, fun outBufferCap => ⟨fun hcap => ?_, fun hcap => ?_⟩⟩
    · refine ⟨Int32.ofNat env.payload.length, ?_, CApi.toInt_ofNat_length hfits.2⟩
      rw [CApi.sendRequest_of_fits hfits.2, if_pos hcap]
    · rw [CApi.sendRequest_of_fits hfits.2, if_neg (not_le.mpr hcap)]
  · rcases hg.outbound (.inl w) env henv with rfl | rfl | ht
    · exact absurd hkey (by change ¬ Keys.isControlMessage Keys.heartbeat = false; decide)
    · exact absurd hkey (by change ¬ Keys.isControlMessage Keys.subscribe = false; decide)
    · exact htaken env ht

def namedBrokers : Mesh Bool Bool Bool :=
  { broker := fun b => { brokerId := (Lan.launched b).brokerId } }

def forwarding : List (Event Bool Bool Bool) :=
  linking false ++ joining ++
    [.send false (({ clientId := "client-a" } : ConnectionManager Unit).dataEnvelope "news" [1, 2]),
      .sendOutbound (.inr false), .take (.inr false) newsUuid 0, .sendOutbound (.inl false),
      .take (.inl false) newsUuid 0]

def forwarded : Mesh Bool Bool Bool :=
  (exec (Mesh.step mutualDial proto3) namedBrokers forwarding).get (by decide +kernel)

def takenAs (s : Mesh Bool Bool Bool) : Event Bool Bool Bool → Bool
  | .take p fresh _ => fresh.val == newsUuid.val &&
      (s.broker (mutualDial.home p)).brokerId == (Lan.launched (mutualDial.home p)).brokerId
  | _ => true

theorem named_of_takenAs {s : Mesh Bool Bool Bool} {e : Event Bool Bool Bool}
    (h : s.takenAs e = true) : s.Named mutualDial e := by
  have hnews : Drawn newsUuid.val := ⟨fun i => if i = 29 then 1 else 0, 0, by decide +kernel⟩
  cases e with
  | take p fresh now =>
    simp only [takenAs, Bool.and_eq_true, beq_iff_eq] at h
    exact ⟨h.1 ▸ hnews, _, _, h.2⟩
  | _ => trivial

theorem frames_fit_forwarded : ∃ env ∈ forwarded.deliveries proto3 true "client-b",
    env.payload = [1, 2] ∧ FrameFits env := by
  have he : Run (guarded (fun s e => s.Decent e ∧ s.takenAs e = true)
      (ofFun (Mesh.step mutualDial proto3))) namedBrokers
      (trace (Mesh.step mutualDial proto3) namedBrokers forwarding) forwarded :=
    exec_guarded (by decide +kernel) (by simp [forwarded])
  have hr : Run (guarded (fun s e => s.Decent e ∧ s.Named mutualDial e)
      (ofFun (Mesh.step mutualDial proto3))) namedBrokers
      (trace (Mesh.step mutualDial proto3) namedBrokers forwarding) forwarded :=
    he.mono fun _ _ _ hs => ⟨⟨hs.1.1, named_of_takenAs hs.1.2⟩, hs.2⟩
  have hi : namedBrokers.Initial := ⟨fun b => ⟨_, 0, rfl⟩, rfl⟩
  have hw : ∀ k, ∀ msg ∈ forwarded.written k, headerSize msg.header + 76 ≤ maxMessageSize ∧
      msg.payload.length ≤ maxMessageSize := by decide +kernel
  obtain ⟨env, henv, hpayload, hkey⟩ : ∃ env ∈ forwarded.deliveries proto3 true "client-b",
      env.payload = [1, 2] ∧ env.key ≠ Keys.sysStats := by decide +kernel
  exact ⟨env, henv, hpayload, ((frames_fit ⟨namedBrokers, _, hi, hr⟩ hw).1 _ _ env henv hkey).1⟩

end Mesh

end ZmqPubSub
