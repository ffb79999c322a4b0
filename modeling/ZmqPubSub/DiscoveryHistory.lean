import ZmqPubSub.Discovery

/-!
Any sequence of datagrams and expiries, with the calls of `dial` and `drop` that they make. The
events of a uuid and its entry in the table are functions of the beacons that were heard.
-/

namespace ZmqPubSub

open Containers TransitionSystem Discovery BrokerDiscovery

/-- A call of one of the two callbacks of `BrokerDiscovery`. -/
inductive LinkEvent
  | dial (uuid address : String)
  | drop (uuid : String)
deriving DecidableEq, Repr

namespace LinkEvent

def uuid : LinkEvent → String
  | dial uuid _ => uuid
  | drop uuid => uuid

def isDial : LinkEvent → Bool
  | dial _ _ => true
  | drop _ => false

def dialed : LinkEvent → Option String
  | dial _ address => some address
  | drop _ => none

end LinkEvent

/-- A `BrokerDiscovery` with the events it has emitted, oldest first. -/
structure DialLog where
  discovery : BrokerDiscovery
  events : List LinkEvent := []

namespace DialLog

inductive Call
  | onDatagram (senderIp data : String) (now : Time)
  | expireStale (now : Time)

def step (s : DialLog) : Call → DialLog
  | .onDatagram senderIp data now =>
    let (discovery, call) := s.discovery.onDatagram senderIp data now
    ⟨discovery, s.events ++ call.toList.map fun c => .dial c.1 c.2⟩
  | .expireStale now =>
    let (discovery, lost) := s.discovery.expireStale now
    ⟨discovery, s.events ++ lost.map .drop⟩

def Initial (s : DialLog) : Prop := s.discovery.dialed = ∅ ∧ s.events = []

def Step (s : DialLog) (c : Call) (s' : DialLog) : Prop := s' = s.step c

def eventsOf (s : DialLog) (uuid : String) : List LinkEvent :=
  s.events.filter fun e => e.uuid = uuid

def lastDial (s : DialLog) (uuid : String) : Option String :=
  ((s.eventsOf uuid).filterMap LinkEvent.dialed).getLast?

/-- The time of the call, if it brings a qualifying beacon of `uuid`. -/
def Call.beaconTime (d : BrokerDiscovery) (uuid : String) : Call → Option Time
  | .onDatagram _ data now => if (d.qualifying data).any (·.uuid = uuid) then some now else none
  | .expireStale _ => none

def lastBeacon (d : BrokerDiscovery) (uuid : String) (calls : List Call) : Option Time :=
  (calls.filterMap (Call.beaconTime d uuid)).getLast?

section

variable {s s' : DialLog} {c : Call} {uuid : String}

inductive Moves (s : DialLog) : Call → DialLog → Prop
  | ignore {senderIp data : String} {now : Time} :
      s.discovery.qualifying data = none → Moves s (.onDatagram senderIp data now) s
  | refresh {senderIp data : String} {now : Time} {beacon : Beacon} {entry : PeerEntry} :
      s.discovery.qualifying data = some beacon →
      s.discovery.dialed.lookup beacon.uuid = some entry →
      Moves s (.onDatagram senderIp data now)
        ⟨{ s.discovery with
            dialed := s.discovery.dialed.insert beacon.uuid ⟨dialAddress senderIp beacon, now⟩ },
          s.events⟩
  | dial {senderIp data : String} {now : Time} {beacon : Beacon} :
      s.discovery.qualifying data = some beacon → beacon.uuid ∉ s.discovery.dialed →
      Moves s (.onDatagram senderIp data now)
        ⟨{ s.discovery with
            dialed := s.discovery.dialed.insert beacon.uuid ⟨dialAddress senderIp beacon, now⟩ },
          s.events ++ [.dial beacon.uuid (dialAddress senderIp beacon)]⟩
  | expire (now : Time) :
      Moves s (.expireStale now)
        ⟨(s.discovery.expireStale now).1, s.events ++ (s.discovery.expireStale now).2.map .drop⟩

theorem step_moves (s : DialLog) (c : Call) : s.Moves c (s.step c) := by
  cases c with
  | onDatagram senderIp data now =>
    simp only [step, onDatagram_eq]
    cases hq : s.discovery.qualifying data with
    | none => simpa using Moves.ignore hq
    | some beacon =>
      by_cases hm : beacon.uuid ∈ s.discovery.dialed
      · obtain ⟨entry, he⟩ := mem_table_iff.mp hm
        have h : s.Moves (.onDatagram senderIp data now) _ := .refresh hq he
        simpa [hm] using h
      · have h : s.Moves (.onDatagram senderIp data now) _ := .dial hq hm
        simpa [hm] using h
  | expireStale now => exact .expire now

theorem lastBeacon_snoc (d : BrokerDiscovery) (uuid : String) (calls : List Call) (c : Call) :
    lastBeacon d uuid (calls ++ [c]) = (c.beaconTime d uuid).or (lastBeacon d uuid calls) := by
  unfold lastBeacon
  cases hc : c.beaconTime d uuid with
  | none => simp [hc]
  | some t => simp [hc]

theorem beaconTime_of_none {d : BrokerDiscovery} {senderIp data : String} {now : Time}
    (hq : d.qualifying data = none) :
    Call.beaconTime d uuid (.onDatagram senderIp data now) = none := by
  simp [Call.beaconTime, hq]

theorem lastBeacon_heard {d : BrokerDiscovery} {calls : List Call} {senderIp data address : String}
    {now : Time} {beacon : Beacon} (hq : d.qualifying data = some beacon)
    (h : ∀ entry, d.dialed.lookup uuid = some entry → lastBeacon d uuid calls = some entry.lastSeen)
    (entry : PeerEntry)
    (hl : (d.dialed.insert beacon.uuid ⟨address, now⟩).lookup uuid = some entry) :
    lastBeacon d uuid (calls ++ [.onDatagram senderIp data now]) = some entry.lastSeen := by
  rw [lastBeacon_snoc]
  by_cases hu : uuid = beacon.uuid
  · subst hu
    rw [AList.lookup_insert] at hl
    obtain rfl := Option.some.inj hl
    simp [Call.beaconTime, hq]
  · rw [AList.lookup_insert_ne hu] at hl
    have ht : Call.beaconTime d uuid (.onDatagram senderIp data now) = none := by
      simp [Call.beaconTime, hq, Ne.symm hu]
    rw [ht, Option.none_or]
    exact h entry hl

theorem eventsOf_snoc (d : BrokerDiscovery) (events : List LinkEvent) (e : LinkEvent)
    (uuid : String) : eventsOf ⟨d, events ++ [e]⟩ uuid =
      events.filter (fun e => e.uuid = uuid) ++ if e.uuid = uuid then [e] else [] := by
  by_cases he : e.uuid = uuid <;> simp [eventsOf, he]

/-- The events of `uuid` after some uuids were dropped, each once. -/
theorem eventsOf_drops (d : BrokerDiscovery) (events : List LinkEvent) {lost : List String}
    (hl : lost.Nodup) (uuid : String) :
    eventsOf ⟨d, events ++ lost.map .drop⟩ uuid =
      events.filter (fun e => e.uuid = uuid) ++ if uuid ∈ lost then [.drop uuid] else [] := by
  rw [eventsOf, List.filter_append]
  congr 1
  induction lost with
  | nil => rfl
  | cons u lost ih =>
    obtain ⟨hu, hl⟩ := List.nodup_cons.mp hl
    rw [List.map_cons, List.filter_cons, ih hl]
    by_cases he : u = uuid
    · subst he
      simp [LinkEvent.uuid, hu]
    · simp [LinkEvent.uuid, he, Ne.symm he]

/-- What the table and the log say of one uuid, after some calls. -/
structure Follows (uuid : String) (calls : List Call) (s : DialLog) : Prop where
  toggles : Toggles LinkEvent.isDial (s.eventsOf uuid) (uuid ∈ s.discovery.dialed)
  lastSeen : ∀ entry, s.discovery.dialed.lookup uuid = some entry →
    lastBeacon s.discovery uuid calls = some entry.lastSeen

theorem follows_initial (h : s.Initial) (uuid : String) : Follows uuid [] s := by
  obtain ⟨hd, he⟩ := h
  refine ⟨?_, fun entry hl => ?_⟩
  · rw [eventsOf, he, hd]
    exact toggles_nil.congr (iff_false_intro (AList.notMem_empty uuid))
  · rw [hd, AList.lookup_empty] at hl
    cases hl

theorem Follows.step {calls : List Call} (h : Follows uuid calls s) (c : Call) :
    Follows uuid (calls ++ [c]) (s.step c) := by
  have hm := step_moves s c
  generalize s.step c = s' at hm
  cases hm with
  | ignore hq =>
    refine ⟨h.toggles, fun entry hl => ?_⟩
    rw [lastBeacon_snoc, beaconTime_of_none hq]
    exact h.lastSeen entry hl
  | refresh hq he =>
    refine ⟨h.toggles.congr ?_, lastBeacon_heard hq h.lastSeen⟩
    refine (AList.mem_insert _).trans (or_iff_right_of_imp fun hu => ?_)
    rw [hu]
    exact mem_table_iff.mpr ⟨_, he⟩
  | dial hq hn =>
    refine ⟨?_, lastBeacon_heard hq h.lastSeen⟩
    rw [eventsOf_snoc]
    split_ifs with hu
    · exact h.toggles.turnOn rfl (hu ▸ hn) (AList.mem_insert _ |>.mpr (.inl hu.symm))
    · rw [List.append_nil]
      exact h.toggles.congr ((AList.mem_insert _).trans (or_iff_right (Ne.symm hu)))
  | expire now =>
    have hmem := s.discovery.mem_dialed_expireStale now uuid
    refine ⟨?_, fun entry hl => ?_⟩
    · rw [eventsOf_drops _ _ (s.discovery.nodup_expireStale now)]
      split_ifs with hu
      · -- only what is dialed can be lost
        obtain ⟨entry, he, -⟩ := s.discovery.mem_expireStale now uuid |>.mp hu
        have hin : uuid ∈ s.discovery.dialed := mem_table_iff.mpr ⟨entry, he⟩
        exact h.toggles.turnOff Bool.false_ne_true hin fun h' => (hmem.mp h').2 hu
      · rw [List.append_nil]
        exact h.toggles.congr (hmem.trans (and_iff_left hu))
    · rw [lookup_dialed_expireStale] at hl
      split_ifs at hl
      rw [lastBeacon_snoc]
      exact h.lastSeen entry hl

theorem follows_of_run {tr : List (Call × DialLog)} {s₀ : DialLog} (h₀ : s₀.Initial)
    (hr : Run Step s₀ tr s) (uuid : String) : Follows uuid (tr.map Prod.fst) s := by
  refine hr.traceInvariant (P := fun tr s => Follows uuid (tr.map Prod.fst) s)
    (follows_initial h₀ uuid) ?_
  rintro tr t c _ - ih rfl
  rw [List.map_append]
  exact ih.step c

def oneBroker : DialLog :=
  { discovery := { cluster := "default", selfUuid := "aaa", routerPort := 5555 } }

def heardAt (senderIp : String) (now : Time) : Call :=
  .onDatagram senderIp (encodeBeacon "default" "zzz" 6000) now

/-- The dials and drops of each uuid alternate, the table holds the uuids that were dialed last, an
expiry drops those whose latest beacon is older than the timeout, and other datagrams have no
effect. -/
theorem links_follow_beacons {tr : List (Call × DialLog)} {s₀ : DialLog} (h₀ : s₀.Initial)
    (hr : Run Step s₀ tr s) :
    (∀ uuid, Alternates LinkEvent.isDial (s.eventsOf uuid)) ∧
    (∀ uuid, uuid ∈ s.discovery.dialed ↔
      ∃ e, (s.eventsOf uuid).getLast? = some e ∧ e.isDial = true) ∧
    (∀ now, ∃ lost : List String, lost.Nodup ∧
      (s.step (.expireStale now)).events = s.events ++ lost.map .drop ∧
      ∀ uuid, uuid ∈ lost ↔ uuid ∈ s.discovery.dialed ∧
        ∃ t, lastBeacon s.discovery uuid (tr.map Prod.fst) = some t ∧ now - t > seconds 5) ∧
    (∀ senderIp data now,
      (∀ beacon, decodeBeacon data = some beacon → beacon.cluster ≠ s.discovery.cluster ∨
        beacon.uuid = s.discovery.selfUuid ∨ beacon.uuid < s.discovery.selfUuid) →
      s.step (.onDatagram senderIp data now) = s) := by
  have hf := follows_of_run h₀ hr
  refine ⟨fun uuid => (hf uuid).toggles.alternates, fun uuid => (hf uuid).toggles.getLast?_iff,
    fun now => ⟨_, s.discovery.nodup_expireStale now, rfl, fun uuid => ?_⟩,
    fun senderIp data now hno => ?_⟩
  · rw [mem_expireStale]
    constructor
    · rintro ⟨entry, he, hlate⟩
      exact ⟨mem_table_iff.mpr ⟨entry, he⟩, entry.lastSeen, (hf uuid).lastSeen entry he,
        hlate⟩
    · rintro ⟨hin, t, ht, hlate⟩
      obtain ⟨entry, he⟩ := mem_table_iff.mp hin
      obtain rfl : entry.lastSeen = t := by
        have := ((hf uuid).lastSeen entry he).symm.trans ht
        exact Option.some.inj this
      exact ⟨entry, he, hlate⟩
  · have hq : s.discovery.qualifying data = none := by
      rw [Option.eq_none_iff_forall_ne_some]
      intro beacon hb
      obtain ⟨hb, hcl, hne, hlt⟩ := qualifying_eq_some.mp hb
      rcases hno beacon hb with h | h | h
      · exact h hcl
      · exact hne h
      · exact lt_asymm h hlt
    simp [step, onDatagram_eq, hq]

theorem links_follow_beacons_oneBroker :
    ∃ s, Run Step oneBroker [(heardAt "10.0.0.5" 0, s)] s ∧ "zzz" ∈ s.discovery.dialed ∧
      .drop "zzz" ∈ (s.step (.expireStale (seconds 6))).events := by
  have hr : Run Step oneBroker [(heardAt "10.0.0.5" 0, _)] _ := (Run.nil _).snoc rfl
  have hin : "zzz" ∈ (oneBroker.step (heardAt "10.0.0.5" 0)).discovery.dialed := by decide
  obtain ⟨lost, -, he, hlost⟩ := (links_follow_beacons ⟨rfl, rfl⟩ hr).2.2.1 (seconds 6)
  refine ⟨_, hr, hin, ?_⟩
  rw [he]
  exact List.mem_append_right _ (List.mem_map_of_mem
    ((hlost "zzz").mpr ⟨hin, 0, by decide, by decide⟩))

/-- The address in the table is the one that was dialed. -/
def RecordsLink (s : DialLog) (uuid : String) : Prop :=
  ∀ entry, s.discovery.dialed.lookup uuid = some entry → s.lastDial uuid = some entry.address

/-- A beacon of a peer that is dialed comes from the address in the table. -/
def FromKnownAddress (s : DialLog) : Call → Prop
  | .onDatagram senderIp data _ => ∀ beacon ∈ s.discovery.qualifying data,
      ∀ entry ∈ s.discovery.dialed.lookup beacon.uuid, entry.address = dialAddress senderIp beacon
  | .expireStale _ => True

/-- The peer moves: the table has its new address, the link still goes to the old one. -/
theorem address_refreshed_without_dial :
    ∃ s tr entry, Run Step oneBroker tr s ∧ s.discovery.dialed.lookup "zzz" = some entry ∧
      entry.address = "tcp://10.0.0.6:6000" ∧ s.lastDial "zzz" = some "tcp://10.0.0.5:6000" :=
  ⟨(oneBroker.step (heardAt "10.0.0.5" 0)).step (heardAt "10.0.0.6" (seconds 1)), _,
    ⟨"tcp://10.0.0.6:6000", seconds 1⟩, ((Run.nil _).snoc rfl).snoc rfl, by decide, rfl, by decide⟩

theorem RecordsLink.step (h : s.RecordsLink uuid) (hc : s.FromKnownAddress c) :
    (s.step c).RecordsLink uuid := by
  have hm := step_moves s c
  generalize s.step c = s' at hm
  intro entry hl
  cases hm with
  | ignore hq => exact h entry hl
  | @refresh senderIp data now beacon old hq he =>
    by_cases hu : uuid = beacon.uuid
    · subst hu
      rw [AList.lookup_insert] at hl
      obtain rfl := Option.some.inj hl
      have haddr : old.address = dialAddress senderIp beacon := hc _ hq _ he
      exact haddr ▸ h old he
    · rw [AList.lookup_insert_ne hu] at hl
      exact h entry hl
  | @dial senderIp data now beacon hq hn =>
    rw [lastDial, eventsOf_snoc]
    by_cases hu : uuid = beacon.uuid
    · subst hu
      rw [AList.lookup_insert] at hl
      obtain rfl := Option.some.inj hl
      simp [LinkEvent.uuid, LinkEvent.dialed]
    · rw [AList.lookup_insert_ne hu] at hl
      have hne : ¬ LinkEvent.uuid (.dial beacon.uuid (dialAddress senderIp beacon)) = uuid :=
        fun he => hu he.symm
      rw [if_neg hne, List.append_nil]
      exact h entry hl
  | expire now =>
    rw [lookup_dialed_expireStale] at hl
    split_ifs at hl with hu
    rw [lastDial, eventsOf_drops _ _ (s.discovery.nodup_expireStale now), if_neg hu,
      List.append_nil]
    exact h entry hl

/-- While no peer beacons from a new address, the table records where the links go. -/
theorem table_records_links {tr : List (Call × DialLog)} {s₀ : DialLog} (h₀ : s₀.Initial)
    (hr : Run (guarded FromKnownAddress Step) s₀ tr s) (uuid : String) (entry : PeerEntry)
    (hl : s.discovery.dialed.lookup uuid = some entry) : s.lastDial uuid = some entry.address := by
  refine hr.invariant (P := fun s => s.RecordsLink uuid) ?_ ?_ entry hl
  · intro entry hl
    rw [h₀.1, AList.lookup_empty] at hl
    cases hl
  · rintro t c _ ht ⟨hc, rfl⟩
    exact ht.step hc

theorem table_records_links_oneBroker :
    ∃ s tr entry, Run (guarded FromKnownAddress Step) oneBroker tr s ∧
      s.discovery.dialed.lookup "zzz" = some entry ∧ s.lastDial "zzz" = some entry.address := by
  have hfirst : oneBroker.FromKnownAddress (heardAt "10.0.0.5" 0) := by
    intro beacon _ entry hl
    cases hl
  have hagain : (oneBroker.step (heardAt "10.0.0.5" 0)).FromKnownAddress
      (heardAt "10.0.0.5" (seconds 1)) := by
    unfold FromKnownAddress heardAt
    decide
  have hr : Run (guarded FromKnownAddress Step) oneBroker _ _ :=
    ((Run.nil _).snoc ⟨hfirst, rfl⟩).snoc ⟨hagain, rfl⟩
  have hl : ((oneBroker.step (heardAt "10.0.0.5" 0)).step
      (heardAt "10.0.0.5" (seconds 1))).discovery.dialed.lookup "zzz" =
        some ⟨"tcp://10.0.0.5:6000", seconds 1⟩ := by decide
  exact ⟨_, _, _, hr, hl, table_records_links ⟨rfl, rfl⟩ hr "zzz" _ hl⟩

end

end DialLog

end ZmqPubSub
