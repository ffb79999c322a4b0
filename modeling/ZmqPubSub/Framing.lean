import ZmqPubSub.Multipart
import ZmqPubSub.Wire

/-!
`wireframe.h` frame by frame: the writers and `wire::recv` on a socket, and the reading of the
ROUTER socket in `ZmqBroker::run`. On whole messages they are `Wire.send` and `Wire.recv`.
-/

namespace ZmqPubSub.Framing

variable (pb : Protobuf)

/-- `accepted` is false if the pipe is full, which can only refuse the first frame. -/
def sendFrames (out : Outbox Bytes) (headerFrame payload : Bytes) (accepted : Bool) :
    Bool × Outbox Bytes :=
  if payload.isEmpty then
    if accepted then (true, out.sendFrame headerFrame false) else (false, out)
  else if accepted then (true, (out.sendFrame headerFrame true).sendFrame payload false)
  else (false, out)

def send (out : Outbox Bytes) (env : Envelope) (accepted : Bool) : Bool × Outbox Bytes :=
  sendFrames out (Wire.encodeHeader pb env.header) env.payload accepted

def sendToClient (out : Outbox Bytes) (clientId headerBytes payload : Bytes) (accepted : Bool) :
    Outbox Bytes :=
  if accepted then
    let hasPayload := !payload.isEmpty
    let out := (out.sendFrame clientId true).sendFrame headerBytes hasPayload
    if hasPayload then out.sendFrame payload false else out
  else out

/-- `wire::recv`; there is no envelope if it returns false. -/
def recv (i : Inbox Bytes) : Option Envelope × Inbox Bytes :=
  match i.recvFrame with
  | none => (none, i)
  | some (headerFrame, i) =>
    match Wire.decodeHeader pb headerFrame with
    | none => (none, i.drainMultipart)
    | some header =>
      if i.rcvmore then
        match i.recvFrame with
        | some (payload, i) => (some ⟨header, payload⟩, i.drainMultipart)
        | none => (some ⟨header, []⟩, i.drainMultipart)
      else (some ⟨header, []⟩, i)

/-- What one turn of `ZmqBroker::run` reads from the ROUTER socket: the identity of the sender and
its message. -/
def recvFromRouter (i : Inbox Bytes) : Option (Bytes × Envelope) × Inbox Bytes :=
  match i.recvFrame with
  | none => (none, i)
  | some (identity, i) =>
    if i.rcvmore then
      let r := recv pb i
      (r.1.map fun env => (identity, env), r.2)
    else (none, i)

theorem recv_cons (frame : Bytes) (more : List Bytes) (groups : List (Multipart Bytes)) :
    recv pb ⟨frame :: more, groups⟩ = (Wire.recv pb (frame :: more), ⟨[], groups⟩) := by
  cases hd : Wire.decodeHeader pb frame with
  | none => simp [recv, Inbox.recvFrame, Wire.recv, hd]
  | some header =>
    cases more with
    | nil => simp [recv, Inbox.recvFrame, Inbox.rcvmore, Wire.recv, hd]
    | cons payload more => simp [recv, Inbox.recvFrame, Inbox.rcvmore, Wire.recv, hd]

theorem recv_group (g : Multipart Bytes) (groups : List (Multipart Bytes)) :
    recv pb ⟨[], g :: groups⟩ = (Wire.recv pb g.frames, ⟨[], groups⟩) :=
  -- reading the first frame of a message and going on inside it are the same
  recv_cons pb g.first g.more groups

theorem recvFromRouter_group (g : Multipart Bytes) (groups : List (Multipart Bytes)) :
    recvFromRouter pb ⟨[], g :: groups⟩ =
      ((Wire.recv pb g.more).map fun env => (g.first, env), ⟨[], groups⟩) := by
  obtain ⟨identity, more⟩ := g
  cases more with
  | nil => simp [recvFromRouter, Inbox.recvFrame, Inbox.rcvmore, Wire.recv]
  | cons frame more => simp [recvFromRouter, Inbox.recvFrame, Inbox.rcvmore, recv_cons]

theorem isSome_recv (frames : List Bytes) :
    (Wire.recv pb frames).isSome ↔ ∃ data more,
      frames = (Wire.protobufFormat :: data) :: more ∧ (pb.parseHeader data).isSome := by
  cases frames with
  | nil => simp [Wire.recv]
  | cons first more =>
    simp only [Wire.recv, Option.isSome_map]
    cases first with
    | nil => simp [Wire.decodeHeader]
    | cons format data =>
      by_cases hf : format = Wire.protobufFormat <;> simp [Wire.decodeHeader, hf]

def group (headerFrame payload : Bytes) : Multipart Bytes :=
  ⟨headerFrame, if payload.isEmpty then [] else [payload]⟩

theorem group_frames (headerFrame payload : Bytes) :
    (group headerFrame payload).frames = Wire.sendFrames headerFrame payload := by
  unfold group Wire.sendFrames
  split_ifs <;> rfl

theorem sendFrames_snd (groups : List (Multipart Bytes)) (headerFrame payload : Bytes)
    (accepted : Bool) : (sendFrames { groups := groups } headerFrame payload accepted).2 =
      { groups := groups ++ if accepted then [group headerFrame payload] else [] } := by
  cases payload <;> cases accepted <;> simp [sendFrames, Outbox.sendFrame, group]

theorem sendToClient_eq (groups : List (Multipart Bytes)) (clientId headerBytes payload : Bytes) :
    sendToClient { groups := groups } clientId headerBytes payload true =
      { groups := groups ++ [⟨clientId, (group headerBytes payload).frames⟩] } := by
  cases payload <;> simp [sendToClient, Outbox.sendFrame, group, Multipart.frames]

/-- What somebody puts on a socket: an arbitrary message, or an envelope through `wire::send`. -/
inductive Written
  | garbage (g : Multipart Bytes)
  | envelope (env : Envelope) (accepted : Bool)

def write (out : Outbox Bytes) : Written → Outbox Bytes
  | .garbage g => { out with groups := out.groups ++ [g] }
  | .envelope env accepted => (send pb out env accepted).2

def received : Written → List (Option Envelope)
  | .garbage g => [Wire.recv pb g.frames]
  | .envelope env accepted => if accepted then [some env] else []

theorem write_groups (groups : List (Multipart Bytes)) (w : Written) :
    ∃ written, write pb { groups := groups } w = { groups := groups ++ written } ∧
      written.map (fun g => Wire.recv pb g.frames) = received pb w := by
  cases w with
  | garbage g => exact ⟨[g], rfl, rfl⟩
  | envelope env accepted =>
    refine ⟨_, sendFrames_snd groups _ _ accepted, ?_⟩
    cases accepted with
    | false => rfl
    | true => simp [received, group_frames]

theorem writes_groups (groups : List (Multipart Bytes)) (ws : List Written) :
    ∃ written, ws.foldl (write pb) { groups := groups } = { groups := groups ++ written } ∧
      written.map (fun g => Wire.recv pb g.frames) = ws.flatMap (received pb) := by
  induction ws generalizing groups with
  | nil => exact ⟨[], by simp, rfl⟩
  | cons w ws ih =>
    obtain ⟨written, hw, hr⟩ := write_groups pb groups w
    obtain ⟨rest, hws, hrs⟩ := ih (groups ++ written)
    refine ⟨written ++ rest, ?_, ?_⟩
    · rw [List.foldl_cons, hw, hws, List.append_assoc]
    · rw [List.map_append, hr, hrs, List.flatMap_cons]

/-- A ROUTER socket puts the sender's identity in front of a message. -/
def identified (identity : Bytes) (g : Multipart Bytes) : Multipart Bytes := ⟨identity, g.frames⟩

/-- Framing is lossless and keeps itself aligned. Each read consumes one whole message, so its
result depends on that message only; it succeeds just for a protobuf header in the first frame; and
whatever was written through `wire::send`, between any other messages, is received as it was. The
ROUTER socket behaves in the same way behind the identity frame, and what `sendToClient` writes
reaches the client as the envelope. -/
theorem framing_lossless :
    (∀ before after : List (Multipart Bytes),
      Inbox.readMany (recv pb) before.length ⟨[], before ++ after⟩ =
        (before.map fun g => Wire.recv pb g.frames, ⟨[], after⟩)) ∧
    (∀ frames, (Wire.recv pb frames).isSome ↔ ∃ data more,
      frames = (Wire.protobufFormat :: data) :: more ∧ (pb.parseHeader data).isSome) ∧
    (∀ ws : List Written, ∃ groups, ws.foldl (write pb) {} = { groups := groups } ∧
      Inbox.readMany (recv pb) groups.length ⟨[], groups⟩ =
        (ws.flatMap (received pb), ⟨[], []⟩)) ∧
    (∀ before after : List (Multipart Bytes),
      Inbox.readMany (recvFromRouter pb) before.length ⟨[], before ++ after⟩ =
        (before.map fun g => (Wire.recv pb g.more).map fun env => (g.first, env), ⟨[], after⟩)) ∧
    (∀ identity (ws : List Written), ∃ groups, ws.foldl (write pb) {} = { groups := groups } ∧
      ∀ before after, Inbox.readMany (recvFromRouter pb) (before ++ groups).length
          ⟨[], before ++ groups.map (identified identity) ++ after⟩ =
        ((before.map fun g => (Wire.recv pb g.more).map fun env => (g.first, env)) ++
          (ws.flatMap (received pb)).map (Option.map fun env => (identity, env)), ⟨[], after⟩)) ∧
    (∀ clientId env, ∃ frames, sendToClient {} clientId (Wire.encodeHeader pb env.header)
        env.payload true = { groups := [⟨clientId, frames⟩] } ∧
      Wire.recv pb frames = some env) := by
  have hrecv := Inbox.readMany_groups (recv_group pb)
  have hrouter := Inbox.readMany_groups (recvFromRouter_group pb)
  refine ⟨hrecv, isSome_recv pb, ?_, hrouter, ?_, ?_⟩
  · intro ws
    obtain ⟨groups, hg, hr⟩ := writes_groups pb [] ws
    refine ⟨groups, hg, ?_⟩
    have h := hrecv groups []
    rwa [List.append_nil, hr] at h
  · intro identity ws
    obtain ⟨groups, hg, hr⟩ := writes_groups pb [] ws
    refine ⟨groups, hg, fun before after => ?_⟩
    have h := hrouter (before ++ groups.map (identified identity)) after
    rw [List.length_append, List.length_map, ← List.length_append, List.map_append] at h
    rw [h, ← hr]
    simp [identified, Function.comp_def]
  · intro clientId env
    refine ⟨_, sendToClient_eq [] clientId _ env.payload, ?_⟩
    rw [group_frames, Wire.recv_sendFrames]

end ZmqPubSub.Framing
