import ZmqPubSub.BrokerHistory
import ZmqPubSub.FilterProxy
import ZmqPubSub.StatsBroadcast
import ZmqPubSub.TrimmedLog

/-!
The broker publishes every message that it processes on a socket of its own. The inspector's worker
thread turns what it receives into packets, and the main window keeps them, offers their topics as
filters and shows the latest statistics. Qt's `QSortFilterProxyModel`, the base class of the proxy
model, and `QString::toLower` are parameters.
-/

namespace ZmqPubSub

open Containers TransitionSystem

/-- What goes out on the inspector socket. -/
def Effect.inspected {ω : Type*} (effects : List (Effect ω)) : List Wire.Group :=
  effects.filterMap fun
    | .inspect headerBytes payload => some (Wire.sendFrames headerBytes payload)
    | _ => none

/-- The message that the broker shows the inspector in a step. -/
def Broker.tap {ω : Type*} (pb : Protobuf) (b : Broker ω) : Broker.Event ω → List Envelope
  | .fromRouter fresh _ env _ => [b.stamped fresh env]
  | .fromPeer fresh _ env => [b.stamped fresh env]
  | .broadcastStats now => [⟨Broker.statsMsg, pb.packStats (b.systemStats now)⟩]
  | _ => []

structure InspectorPacket where
  timestamp : String
  senderId : String
  key : String
  topic : String
  sizeBytes : ℕ
  header : MessageHeader
  payload : Bytes

namespace InspectorPacket

variable (pb : Protobuf) (p : InspectorPacket)

/-- What `InspectorWorker::run` makes of a message. -/
def ofEnvelope (timestamp : String) (env : Envelope) : InspectorPacket where
  timestamp := timestamp
  senderId := env.header.senderId
  key := env.header.handlerKey
  topic := env.header.topic
  sizeBytes := (pb.serializeHeader env.header).length + env.payload.length
  header := env.header
  payload := env.payload

def envelope : Envelope := ⟨p.header, p.payload⟩

/-- The topic column. -/
def displayTopic : String := if p.topic = "" then "[Empty]" else p.topic

/-- The statistics that the packet carries. -/
def stats : Option Payload.StatsMessage :=
  if p.topic = Keys.sysStats then Payload.unpackTo Payload.systemStats p.payload else none

end InspectorPacket

/-- `QString::contains`. -/
def containsText (s text : String) : Bool := decide (text.toList <:+: s.toList)

structure PacketFilterProxyModel (q : FilterProxy) where
  allowedTopics : List String := []
  searchText : String := ""
  base : q.State := q.initial

structure MainWindow (q : FilterProxy) where
  packetHistory : List InspectorPacket := []
  knownTopics : List String := []
  /-- The actions of the topic menu, each with its check mark. -/
  topicMenu : List (String × Bool) := []
  filterBar : String := ""
  proxyModel : PacketFilterProxyModel q := {}
  /-- What the labels of the statistics were last set from. -/
  labels : Option Payload.StatsMessage := none

namespace PacketFilterProxyModel

variable {q : FilterProxy} (toLower : String → String) (m : PacketFilterProxyModel q)

def filterAcceptsRow (p : InspectorPacket) : Bool :=
  if p.displayTopic ∉ m.allowedTopics then false
  else if m.searchText = "" then true
  else containsText (toLower p.senderId) m.searchText ||
    containsText (toLower p.key) m.searchText ||
    containsText (toLower p.displayTopic) m.searchText

/-- The filter as the base class calls it, with the number of a row. -/
def acceptsRow (history : List InspectorPacket) : ℕ → Bool :=
  FilterProxy.onRows (m.filterAcceptsRow toLower) history

def invalidateFilter (history : List InspectorPacket) : PacketFilterProxyModel q :=
  { m with base := q.invalidateFilter (m.acceptsRow toLower history) history.length m.base }

def updateFilters (history : List InspectorPacket) (text : String) (topics : List String) :
    PacketFilterProxyModel q :=
  invalidateFilter toLower { m with searchText := toLower text, allowedTopics := topics } history

end PacketFilterProxyModel

namespace MainWindow

def maxPacketHistory : ℕ := 100000

def trimChunk : ℕ := 10000

variable {q : FilterProxy} (toLower : String → String) (win : MainWindow q)

def checkedTopics : List String := (win.topicMenu.filter Prod.snd).map Prod.fst

def applyFilters : MainWindow q :=
  { win with
    proxyModel := win.proxyModel.updateFilters toLower win.packetHistory win.filterBar
      win.checkedTopics }

/-- `push_back`, then `packetAdded`. -/
def pushPacket (packet : InspectorPacket) : MainWindow q :=
  { win with
    packetHistory := win.packetHistory ++ [packet]
    proxyModel := { win.proxyModel with
      base := q.rowInserted (win.proxyModel.acceptsRow toLower (win.packetHistory ++ [packet]))
        win.packetHistory.length win.proxyModel.base } }

def trimHistory : MainWindow q :=
  if win.packetHistory.length > maxPacketHistory then
    { win with
      packetHistory := win.packetHistory.drop trimChunk
      proxyModel := { win.proxyModel with base := q.rowsRemoved trimChunk win.proxyModel.base } }
  else win

def addTopic (topic : String) : MainWindow q :=
  if topic ∈ win.knownTopics then win
  else applyFilters toLower
    { win with
      knownTopics := win.knownTopics ++ [topic]
      topicMenu := win.topicMenu ++ [(topic, true)] }

def showStats (packet : InspectorPacket) : MainWindow q :=
  { win with labels := packet.stats <|> win.labels }

def onNewPacket (packet : InspectorPacket) : MainWindow q :=
  (((win.pushPacket toLower packet).trimHistory).addTopic toLower
    packet.displayTopic).showStats packet

def toggle (i : ℕ) : MainWindow q :=
  applyFilters toLower
    { win with topicMenu := win.topicMenu.modify i fun action => (action.1, !action.2) }

def setFilter (text : String) : MainWindow q :=
  if text = win.filterBar then win else applyFilters toLower { win with filterBar := text }

def visibleRows : List InspectorPacket := q.shownRows win.proxyModel.base win.packetHistory

end MainWindow

structure Inspector (q : FilterProxy) (ω : Type*) where
  broker : Broker ω
  /-- Published by the broker and not yet read. -/
  pipe : List Wire.Group := []
  /-- Queued calls of `onNewPacket`. -/
  posted : List InspectorPacket := []
  window : MainWindow q := {}
  /-- What the broker has shown. No step reads this or what follows. -/
  processed : List Envelope := []
  shown : List InspectorPacket := []
  lost : ℕ := 0

namespace Inspector

variable {q : FilterProxy} {ω : Type*}

inductive Event (ω : Type*)
  | broker (e : Broker.Event ω)
  /-- A PUB socket may lose a message. -/
  | lose (i : ℕ)
  | recv (timestamp : String)
  | onNewPacket
  | toggle (i : ℕ)
  | setFilter (text : String)

variable (toLower : String → String) (pb : Protobuf) (s : Inspector q ω)

def step : Event ω → Option (Inspector q ω)
  | .broker e =>
    let r := s.broker.step pb e
    some { s with
      broker := r.1
      pipe := s.pipe ++ Effect.inspected r.2
      processed := s.processed ++ s.broker.tap pb e }
  | .lose i => some { s with pipe := s.pipe.eraseIdx i, lost := s.lost + 1 }
  | .recv timestamp =>
    match s.pipe with
    | [] => none
    | group :: rest =>
      match Wire.recv pb group with
      | none => some { s with pipe := rest }
      | some env =>
        some { s with pipe := rest, posted := s.posted ++ [.ofEnvelope pb timestamp env] }
  | .onNewPacket =>
    match s.posted with
    | [] => none
    | packet :: rest =>
      some { s with
        posted := rest
        window := s.window.onNewPacket toLower packet
        shown := s.shown ++ [packet] }
  | .toggle i => some { s with window := s.window.toggle toLower i }
  | .setFilter text => some { s with window := s.window.setFilter toLower text }

def Initial : Prop := s = { broker := s.broker }

end Inspector

section

variable {ω : Type*} {pb : Protobuf} {b : Broker ω}

theorem Effect.inspected_append (xs ys : List (Effect ω)) :
    Effect.inspected (xs ++ ys) = Effect.inspected xs ++ Effect.inspected ys :=
  List.filterMap_append

theorem Effect.inspected_eq_nil {effects : List (Effect ω)}
    (h : ∀ e ∈ effects, ∀ headerBytes payload, e ≠ .inspect headerBytes payload) :
    Effect.inspected effects = [] := by
  refine List.filterMap_eq_nil_iff.mpr fun e he => ?_
  cases e with
  | inspect headerBytes payload => exact absurd rfl (h _ he headerBytes payload)
  | dedup => rfl
  | sendToClient => rfl
  | writeMessage => rfl

theorem Broker.inspected_deliver (headerBytes payload : Bytes) (senderId : String)
    (isFromPeer : Bool) (id : String) :
    Effect.inspected (b.deliver headerBytes payload senderId isFromPeer id) = [] := by
  unfold Broker.deliver
  split_ifs <;> rfl

theorem Broker.inspected_route (header : MessageHeader) (payload : Bytes) (senderId : String)
    (isFromPeer : Bool) :
    Effect.inspected (b.route pb header payload senderId isFromPeer).2 = [] := by
  have hflat : ∀ (f : String → List (Effect ω)) (ids : List String),
      (∀ id, Effect.inspected (f id) = []) → Effect.inspected (ids.flatMap f) = [] := by
    intro f ids hf
    induction ids with
    | nil => rfl
    | cons id ids ih => rw [List.flatMap_cons, Effect.inspected_append, hf, ih, List.append_nil]
  have hlocal : ∀ b : Broker ω, Effect.inspected (b.deliverLocal header
      (Wire.encodeHeader pb header) payload senderId isFromPeer) = [] := by
    intro b
    unfold Broker.deliverLocal
    dsimp only
    rw [Effect.inspected_append, hflat _ _ (Broker.inspected_deliver _ _ _ _), List.nil_append]
    refine hflat _ _ fun id => ?_
    split_ifs
    · rfl
    · exact Broker.inspected_deliver _ _ _ _ id
  have hpeers : ∀ b : Broker ω, Effect.inspected (b.floodPeers header payload) = [] := by
    intro b
    refine Effect.inspected_eq_nil fun e he headerBytes payload => ?_
    obtain ⟨peer, -, rfl⟩ := List.mem_map.mp he
    simp
  unfold Broker.route
  dsimp only
  generalize (if isFromPeer = true then none else some senderId) = sender
  split_ifs
  · rfl
  · have hrest := Effect.inspected_append (Broker.deliverLocal (b.isDuplicate header.messageUuid).2
      header (Wire.encodeHeader pb header) payload senderId isFromPeer)
      (Broker.floodPeers (b.isDuplicate header.messageUuid).2 header payload)
    rw [hlocal, hpeers] at hrest
    exact hrest

/-- A message is shown once, with its identity, whatever becomes of it. -/
theorem Broker.inspected_processMessage (fresh : Uuid) (now : Time) (env : Envelope)
    (senderId : String) (isFromPeer : Bool) :
    Effect.inspected (b.processMessage pb fresh now env senderId isFromPeer).2 =
      [Wire.send pb (b.stamped fresh env)] := by
  by_cases hr : b.Routes env.key senderId isFromPeer
  · rw [Broker.processMessage_of_routes hr]
    exact congrArg (_ :: ·) (Broker.inspected_route _ _ _ _)
  · obtain ⟨-, -, answer, he, hanswer⟩ := @Broker.processMessage_of_not_routes ω pb b fresh now env
      senderId isFromPeer hr
    rw [he]
    refine congrArg (_ :: ·) (Effect.inspected_eq_nil fun e hm headerBytes payload => ?_)
    obtain ⟨header, -, rfl⟩ := hanswer e hm
    simp

theorem Broker.inspected_step (e : Broker.Event ω) :
    Effect.inspected (b.step pb e).2 = (b.tap pb e).map (Wire.send pb) := by
  cases e with
  | fromRouter fresh now env identity =>
    exact Broker.inspected_processMessage fresh now env identity false
  | fromPeer fresh now env => exact Broker.inspected_processMessage fresh now env "PEER" true
  | broadcastStats now =>
    refine congrArg (_ :: ·) (Effect.inspected_eq_nil fun e hm headerBytes payload => ?_)
    obtain ⟨id, -, rfl⟩ := List.mem_map.mp hm
    simp
  | sweep now => rfl
  | addPeer key peer => rfl
  | removePeer key => rfl

end

namespace MainWindow

variable {q : FilterProxy} {toLower : String → String} {win : MainWindow q}
  {packet : InspectorPacket}

/-- A packet is to be shown: its topic is checked, and the text of the filter bar occurs in its
sender, its key or its topic. -/
def matchesFilters (toLower : String → String) (win : MainWindow q) (p : InspectorPacket) : Bool :=
  decide ((p.displayTopic, true) ∈ win.topicMenu) &&
    (toLower win.filterBar == "" || containsText (toLower p.senderId) (toLower win.filterBar) ||
      containsText (toLower p.key) (toLower win.filterBar) ||
      containsText (toLower p.displayTopic) (toLower win.filterBar))

/-- The menu, the proxy model and the labels go with what has been shown. -/
structure Consistent (toLower : String → String) (win : MainWindow q)
    (shown : List InspectorPacket) : Prop where
  history : win.packetHistory =
    shown.drop (shown.length - TrimmedLog.kept maxPacketHistory trimChunk shown.length)
  menu : win.topicMenu.map Prod.fst = win.knownTopics
  nodup : win.knownTopics.Nodup
  known : ∀ t, t ∈ win.knownTopics ↔ ∃ p ∈ shown, p.displayTopic = t
  /-- The filters are first applied when the first topic appears. -/
  searchText : win.topicMenu ≠ [] → win.proxyModel.searchText = toLower win.filterBar
  allowed : win.proxyModel.allowedTopics = win.checkedTopics
  shows : q.Lawful →
    q.Shows win.proxyModel.base (win.proxyModel.filterAcceptsRow toLower) win.packetHistory
  labels : win.labels = (shown.filterMap InspectorPacket.stats).getLast?

theorem consistent_initial (toLower : String → String) :
    Consistent toLower ({} : MainWindow q) [] :=
  ⟨rfl, rfl, .nil, by simp, by simp, rfl, fun hq => hq.shows_initial _, rfl⟩

/-- The rows after a packet has been added and the oldest ones have gone, if they were too many. -/
theorem trimHistory_pushPacket (toLower : String → String) (win : MainWindow q)
    (packet : InspectorPacket)
    (h : q.Lawful →
      q.Shows win.proxyModel.base (win.proxyModel.filterAcceptsRow toLower) win.packetHistory) :
    ∃ base, (win.pushPacket toLower packet).trimHistory =
      { win with
        packetHistory := TrimmedLog.record maxPacketHistory trimChunk win.packetHistory packet
        proxyModel := { win.proxyModel with base := base } } ∧
      (q.Lawful → q.Shows base (win.proxyModel.filterAcceptsRow toLower)
        (TrimmedLog.record maxPacketHistory trimChunk win.packetHistory packet)) := by
  unfold trimHistory TrimmedLog.record
  have hpush : q.Lawful → q.Shows (win.pushPacket toLower packet).proxyModel.base
      (win.proxyModel.filterAcceptsRow toLower) (win.packetHistory ++ [packet]) :=
    fun hq => (h hq).rowInserted hq packet
  split_ifs with hfull hfull' hfull'
  · exact ⟨_, rfl, fun hq => (hpush hq).rowsRemoved hq trimChunk⟩
  · exact absurd hfull hfull'
  · exact absurd hfull' hfull
  · exact ⟨_, rfl, hpush⟩

theorem Consistent.onNewPacket {shown : List InspectorPacket} (h : Consistent toLower win shown)
    (packet : InspectorPacket) :
    Consistent toLower (win.onNewPacket toLower packet) (shown ++ [packet]) := by
  obtain ⟨base, hrows, hshows⟩ := trimHistory_pushPacket toLower win packet h.shows
  have hhistory : TrimmedLog.record maxPacketHistory trimChunk win.packetHistory packet =
      (shown ++ [packet]).drop ((shown ++ [packet]).length -
        TrimmedLog.kept maxPacketHistory trimChunk (shown ++ [packet]).length) := by
    rw [h.history]
    exact TrimmedLog.record_drop (by decide) (by decide) shown packet
  have hlabels : (packet.stats <|> win.labels) =
      ((shown ++ [packet]).filterMap InspectorPacket.stats).getLast? := by
    rw [h.labels, List.filterMap_append]
    cases hs : packet.stats <;> simp [hs]
  have hknown : ∀ t, (∃ p ∈ shown ++ [packet], p.displayTopic = t) ↔
      t ∈ win.knownTopics ∨ t = packet.displayTopic := by
    intro t
    rw [h.known]
    simp [or_and_right, exists_or, eq_comm]
  unfold MainWindow.onNewPacket addTopic
  rw [hrows]
  split_ifs with hmem
  · refine ⟨hhistory, h.menu, h.nodup, fun t => ?_, h.searchText, h.allowed, hshows, hlabels⟩
    rw [hknown]
    exact ⟨.inl, fun ht => ht.elim id fun ht => ht ▸ hmem⟩
  · refine ⟨hhistory, ?_, ?_, fun t => ?_, fun _ => rfl, rfl,
      fun hq => hq.shows_invalidateFilter _ _ _, hlabels⟩
    · exact (List.map_append).trans (congrArg (· ++ [packet.displayTopic]) h.menu)
    · exact List.nodup_append.mpr ⟨h.nodup, List.nodup_singleton _, by
        rintro a ha b hb rfl
        exact hmem (List.mem_singleton.mp hb ▸ ha)⟩
    · rw [hknown]
      exact List.mem_append.trans (or_congr Iff.rfl List.mem_singleton)

theorem Consistent.applyFilters {shown : List InspectorPacket} {win' : MainWindow q}
    (h : Consistent toLower win shown) (hhistory : win'.packetHistory = win.packetHistory)
    (hmenu : win'.topicMenu.map Prod.fst = win.topicMenu.map Prod.fst)
    (hknown : win'.knownTopics = win.knownTopics) (hlabels : win'.labels = win.labels) :
    Consistent toLower (win'.applyFilters toLower) shown :=
  ⟨hhistory.trans h.history, hmenu.trans (h.menu.trans hknown.symm), hknown ▸ h.nodup,
    hknown ▸ h.known, fun _ => rfl, rfl, fun hq => hq.shows_invalidateFilter _ _ _,
    hlabels.trans h.labels⟩

theorem Consistent.toggle {shown : List InspectorPacket} (h : Consistent toLower win shown)
    (i : ℕ) : Consistent toLower (win.toggle toLower i) shown := by
  refine h.applyFilters rfl ?_ rfl rfl
  refine List.ext_getElem? fun j => ?_
  simp only [List.getElem?_map, List.getElem?_modify]
  cases win.topicMenu[j]? with
  | none => rfl
  | some action => split_ifs <;> rfl

theorem Consistent.setFilter {shown : List InspectorPacket} (h : Consistent toLower win shown)
    (text : String) : Consistent toLower (win.setFilter toLower text) shown := by
  unfold MainWindow.setFilter
  split_ifs
  · exact h
  · exact h.applyFilters rfl rfl rfl rfl

theorem mem_checkedTopics (win : MainWindow q) (t : String) :
    t ∈ win.checkedTopics ↔ (t, true) ∈ win.topicMenu := by
  simp [checkedTopics]

theorem Consistent.filterAcceptsRow_eq {shown : List InspectorPacket}
    (h : Consistent toLower win shown) (p : InspectorPacket) :
    win.proxyModel.filterAcceptsRow toLower p = win.matchesFilters toLower p := by
  rw [PacketFilterProxyModel.filterAcceptsRow, matchesFilters, h.allowed]
  by_cases hm : (p.displayTopic, true) ∈ win.topicMenu
  · rw [h.searchText (List.ne_nil_of_mem hm),
      if_neg (not_not.mpr ((mem_checkedTopics win _).mpr hm)), decide_eq_true hm]
    split_ifs with he
    · simp [he]
    · rw [beq_false_of_ne he, Bool.false_or, Bool.true_and]
  · rw [if_pos fun hc => hm ((mem_checkedTopics win _).mp hc), decide_eq_false hm, Bool.false_and]

/-- The rows that the proxy model has accepted one by one are those that the filters let through. -/
theorem Consistent.visibleRows {shown : List InspectorPacket} (h : Consistent toLower win shown)
    (hq : q.Lawful) :
    win.visibleRows = win.packetHistory.filter (win.matchesFilters toLower) := by
  have hfilter : win.proxyModel.filterAcceptsRow toLower = win.matchesFilters toLower :=
    funext h.filterAcceptsRow_eq
  rw [MainWindow.visibleRows, (h.shows hq).shownRows_eq, hfilter]

end MainWindow

namespace Inspector

variable {q : FilterProxy} {ω : Type*} {toLower : String → String} {pb : Protobuf}
  {s s' : Inspector q ω} {e : Event ω}

/-- What has come from the broker so far, in the order in which it was processed. -/
def arrived (pb : Protobuf) (s : Inspector q ω) : List Envelope :=
  (s.shown ++ s.posted).map InspectorPacket.envelope ++ s.pipe.filterMap (Wire.recv pb)

structure Faithful (toLower : String → String) (pb : Protobuf) (s : Inspector q ω) : Prop where
  window : s.window.Consistent toLower s.shown
  packets : ∀ p ∈ s.shown ++ s.posted, p = .ofEnvelope pb p.timestamp p.envelope
  order : (s.arrived pb).Sublist s.processed
  complete : s.lost = 0 → s.arrived pb = s.processed

theorem faithful_initial (h : s.Initial) : Faithful toLower pb s := by
  rw [h]
  exact ⟨MainWindow.consistent_initial toLower, by simp, List.Sublist.refl _, fun _ => rfl⟩

theorem Faithful.step (h : Faithful toLower pb s) (hs : s.step toLower pb e = some s') :
    Faithful toLower pb s' := by
  obtain ⟨hw, hp, ho, hc⟩ := h
  cases e with
  | broker e =>
    cases hs
    have harrived : arrived pb { s with
        broker := (s.broker.step pb e).1
        pipe := s.pipe ++ Effect.inspected (s.broker.step pb e).2
        processed := s.processed ++ s.broker.tap pb e } = s.arrived pb ++ s.broker.tap pb e := by
      have htap : ((s.broker.tap pb e).map (Wire.send pb)).filterMap (Wire.recv pb) =
          s.broker.tap pb e := by
        rw [List.filterMap_map]
        exact (List.filterMap_congr fun env _ => Wire.recv_send pb env).trans List.filterMap_some
      unfold arrived
      rw [Broker.inspected_step, List.filterMap_append, htap, List.append_assoc]
    exact ⟨hw, hp, harrived ▸ ho.append (List.Sublist.refl _), fun hl => harrived ▸ hc hl ▸ rfl⟩
  | lose i =>
    cases hs
    refine ⟨hw, hp, List.Sublist.trans ?_ ho, fun hl => absurd hl (Nat.succ_ne_zero _)⟩
    exact List.Sublist.append (List.Sublist.refl _) ((List.eraseIdx_sublist _ _).filterMap _)
  | recv timestamp =>
    rw [Inspector.step] at hs
    split at hs
    · cases hs
    · next group rest hpipe =>
      split at hs
      · next hr =>
        cases hs
        have harrived : arrived pb { s with pipe := rest } = s.arrived pb := by
          simp [arrived, hpipe, hr]
        exact ⟨hw, hp, harrived ▸ ho, fun hl => harrived ▸ hc hl⟩
      · next env hr =>
        cases hs
        have harrived : arrived pb { s with
            pipe := rest
            posted := s.posted ++ [.ofEnvelope pb timestamp env] } = s.arrived pb := by
          simp [arrived, hpipe, hr, InspectorPacket.envelope, InspectorPacket.ofEnvelope]
        refine ⟨hw, fun p hm => ?_, harrived ▸ ho, fun hl => harrived ▸ hc hl⟩
        rw [← List.append_assoc] at hm
        rcases List.mem_append.mp hm with hm | hm
        · exact hp p hm
        · rw [List.mem_singleton.mp hm]
          rfl
  | onNewPacket =>
    rw [Inspector.step] at hs
    split at hs
    · cases hs
    · next packet rest hposted =>
      cases hs
      have hsame : s.shown ++ [packet] ++ rest = s.shown ++ s.posted := by
        rw [hposted, List.append_assoc]
        rfl
      have harrived : arrived pb { s with
          posted := rest
          window := s.window.onNewPacket toLower packet
          shown := s.shown ++ [packet] } = s.arrived pb := by
        rw [arrived, arrived, hsame]
      exact ⟨hw.onNewPacket packet, hsame ▸ hp, harrived ▸ ho, fun hl => harrived ▸ hc hl⟩
  | toggle i =>
    cases hs
    exact ⟨hw.toggle i, hp, ho, hc⟩
  | setFilter text =>
    cases hs
    exact ⟨hw.setFilter text, hp, ho, hc⟩

variable {s₀ : Inspector q ω} {tr : List (Event ω × Inspector q ω)}

theorem faithful_of_run (h₀ : s₀.Initial) (hr : Run (ofFun (step toLower pb)) s₀ tr s) :
    Faithful toLower pb s :=
  hr.invariant (P := Faithful toLower pb) (faithful_initial h₀) fun _ _ _ h hs => h.step hs

/-- The inspector shows the messages that the broker has processed, control messages included, in
their order and without inventing or repeating any; if the socket loses nothing, it misses none. The
history is all of them, or the last 90001 to 100000. -/
theorem capture_follows_broker (h₀ : s₀.Initial) (hr : Run (ofFun (step toLower pb)) s₀ tr s) :
    (s.shown.map InspectorPacket.envelope).Sublist s.processed ∧
    (s.lost = 0 → s.shown.map InspectorPacket.envelope <+: s.processed ∧
      (s.posted = [] → s.pipe = [] → s.shown.map InspectorPacket.envelope = s.processed)) ∧
    (∀ p ∈ s.shown, p = .ofEnvelope pb p.timestamp p.envelope) ∧
    s.window.packetHistory <:+ s.shown ∧
    (s.shown.length ≤ 100000 → s.window.packetHistory = s.shown) ∧
    (100000 < s.shown.length →
      90001 ≤ s.window.packetHistory.length ∧ s.window.packetHistory.length ≤ 100000) := by
  obtain ⟨hw, hp, ho, hc⟩ := faithful_of_run h₀ hr
  have hparts : s.arrived pb = s.shown.map InspectorPacket.envelope ++
      (s.posted.map InspectorPacket.envelope ++ s.pipe.filterMap (Wire.recv pb)) := by
    rw [arrived, List.map_append, List.append_assoc]
  have hkept := @TrimmedLog.kept_le MainWindow.maxPacketHistory MainWindow.trimChunk (by decide)
    (by decide) s.shown.length
  have hlength : s.window.packetHistory.length =
      TrimmedLog.kept MainWindow.maxPacketHistory MainWindow.trimChunk s.shown.length := by
    rw [hw.history, List.length_drop]
    omega
  refine ⟨?_, fun hl => ⟨?_, fun hposted hpipe => ?_⟩,
    fun p hm => hp p (List.mem_append_left _ hm), ?_, fun hle => ?_, fun hlt => ?_⟩
  · exact (List.sublist_append_left _ _).trans (hparts ▸ ho)
  · rw [← hc hl, hparts]
    exact List.prefix_append _ _
  · rw [← hc hl, hparts, hposted, hpipe]
    exact (List.append_nil _).symm
  · rw [hw.history]
    exact List.drop_suffix _ _
  · have hall : TrimmedLog.kept MainWindow.maxPacketHistory MainWindow.trimChunk s.shown.length =
        s.shown.length := TrimmedLog.kept_of_le hle
    rw [hw.history, hall, Nat.sub_self, List.drop_zero]
  · have hmany : MainWindow.maxPacketHistory + 1 - MainWindow.trimChunk ≤
        TrimmedLog.kept MainWindow.maxPacketHistory MainWindow.trimChunk s.shown.length :=
      TrimmedLog.le_kept hlt
    rw [hlength]
    exact ⟨hmany, hkept.2⟩

def opened : Inspector .listing Unit := { broker := { brokerId := "broker-1" } }

theorem opened_initial : opened.Initial := rfl

/-- Two messages are processed, and the first one is shown. -/
def watching : List (Event Unit) :=
  [.broker (.fromRouter ⟨"00000000-0000-4000-8000-000000000012", rfl⟩ 0 (heartbeatEnvelope "a")
      "a"),
    .broker (.fromRouter ⟨"00000000-0000-4000-8000-000000000013", rfl⟩ 0
      { header := { handlerKey := "news", topic := "news" }, payload := [1] } "a"),
    .recv "12:00:00.000", .recv "12:00:00.001", .onNewPacket]

def watched : Inspector .listing Unit :=
  (exec (step id BrokerProto.proto3) opened watching).get (by decide +kernel)

theorem watched_run : Run (ofFun (step id BrokerProto.proto3)) opened
    (trace (step id BrokerProto.proto3) opened watching) watched := exec_run (by simp [watched])

theorem capture_follows_broker_watched : watched.shown.length = 1 ∧ watched.processed.length = 2 ∧
    watched.shown.map InspectorPacket.envelope <+: watched.processed ∧
    watched.window.packetHistory = watched.shown := by
  obtain ⟨-, hcomplete, -, -, hall, -⟩ := capture_follows_broker opened_initial watched_run
  have hlength : watched.shown.length = 1 := by decide +kernel
  exact ⟨hlength, by decide +kernel, (hcomplete (by decide +kernel)).1,
    hall (hlength.trans_le (by decide))⟩

/-- The topic menu has one action for each topic that has been shown. Although the proxy model
judges a row when it comes in, the table always shows those rows of the history whose topic is
checked now and which the text in the filter bar now matches. The labels show the latest statistics
that could be decoded. -/
theorem window_shows_capture (hq : q.Lawful) (h₀ : s₀.Initial)
    (hr : Run (ofFun (step toLower pb)) s₀ tr s) :
    (s.window.topicMenu.map Prod.fst).Nodup ∧
    (∀ t, t ∈ s.window.topicMenu.map Prod.fst ↔ ∃ p ∈ s.shown, p.displayTopic = t) ∧
    s.window.visibleRows = s.window.packetHistory.filter (s.window.matchesFilters toLower) ∧
    s.window.labels = (s.shown.filterMap InspectorPacket.stats).getLast? := by
  have hw := (faithful_of_run h₀ hr).window
  exact ⟨hw.menu ▸ hw.nodup, hw.menu ▸ hw.known, hw.visibleRows hq, hw.labels⟩

def unchecking : List (Event Unit) := watching ++ [.onNewPacket, .toggle 1]

def unchecked : Inspector .listing Unit :=
  (exec (step id BrokerProto.proto3) opened unchecking).get (by decide +kernel)

theorem window_shows_capture_unchecked : unchecked.window.packetHistory.length = 2 ∧
    unchecked.window.topicMenu = [("[Empty]", true), ("news", false)] ∧
    unchecked.window.visibleRows = unchecked.window.packetHistory.filter
      (unchecked.window.matchesFilters id) := by
  have hr : Run (ofFun (step id BrokerProto.proto3)) opened
      (trace (step id BrokerProto.proto3) opened unchecking) unchecked :=
    exec_run (by simp [unchecked])
  exact ⟨by decide +kernel, by decide +kernel,
    (window_shows_capture FilterProxy.listing_lawful opened_initial hr).2.2.1⟩

end Inspector

end ZmqPubSub
