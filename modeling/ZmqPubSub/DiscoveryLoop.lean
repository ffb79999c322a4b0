import ZmqPubSub.BeaconFormat
import ZmqPubSub.DiscoveryHistory
import ZmqPubSub.Periodic

/-!
`BrokerDiscovery::run`: a beacon and an expiry every second, and at most one datagram read in a
pass. Two such loops on one network keep their link although some beacons are lost.
-/

namespace ZmqPubSub

open Containers TransitionSystem Discovery BrokerDiscovery
open Periodic (Within)

structure Datagram where
  /-- When it was sent. -/
  sent : Time
  senderIp : String
  data : String
deriving DecidableEq

structure DiscoveryLoop where
  log : DialLog
  running : Bool := true
  /-- The loop stands before the poll. -/
  polling : Bool := false
  nextBeacon : Time
  socket : List Datagram := []
  /-- The last reading of the clock, and the last one at the top of the loop. -/
  clock : Time
  lastPass : Time
  /-- When beacons were sent, and the calls that were made. No step reads them. -/
  beacons : List Time := []
  calls : List DialLog.Call := []

namespace DiscoveryLoop

def beaconInterval : Time := seconds 1

variable (s : DiscoveryLoop)

def call (c : DialLog.Call) : DiscoveryLoop :=
  { s with log := s.log.step c, calls := s.calls ++ [c] }

def pass (now : Time) : DiscoveryLoop :=
  if s.nextBeacon ≤ now then
    let s := { s with beacons := s.beacons ++ [now] }.call (.expireStale now)
    { s with nextBeacon := now + beaconInterval, polling := true, lastPass := now }
  else { s with polling := true, lastPass := now }

/-- At most one datagram is read, up to the size of the buffer. -/
def poll (now : Time) (readable : Bool) : DiscoveryLoop :=
  match readable, s.socket with
  | true, datagram :: rest =>
    let s := { s with polling := false, socket := rest }
    if datagram.data = "" then s
    else s.call (.onDatagram datagram.senderIp (received datagram.data) now)
  | _, _ => { s with polling := false }

inductive Event
  | turn (now : Time) (readable : Bool)
  | arrive (datagram : Datagram)
  | stop

def step : Event → Option DiscoveryLoop
  | .turn now readable =>
    if s.clock ≤ now then
      let s := { s with clock := now }
      if s.polling then some (s.poll now readable)
      else if s.running then some (s.pass now) else none
    else none
  | .arrive datagram => some { s with socket := s.socket ++ [datagram] }
  | .stop => some { s with running := false }

/-- The thread has its socket and its first reading of the clock. -/
def Initial (start : Time) : Prop :=
  ∃ discovery : BrokerDiscovery, discovery.dialed = ∅ ∧
    s = { log := { discovery := discovery }, nextBeacon := start, clock := start,
          lastPass := start }

inductive Acts (s : DiscoveryLoop) : Event → DiscoveryLoop → Prop
  | beacon {now : Time} {readable : Bool} : s.polling = false → s.nextBeacon ≤ now →
      Acts s (.turn now readable)
        { s with
          clock := now
          log := s.log.step (.expireStale now)
          calls := s.calls ++ [.expireStale now]
          nextBeacon := now + beaconInterval
          beacons := s.beacons ++ [now]
          polling := true
          lastPass := now }
  | pass {now : Time} {readable : Bool} : s.polling = false → now < s.nextBeacon →
      Acts s (.turn now readable) { s with clock := now, polling := true, lastPass := now }
  | read {now : Time} {readable : Bool} {datagram : Datagram} {rest : List Datagram} :
      s.polling = true → s.socket = datagram :: rest → datagram.data ≠ "" →
      Acts s (.turn now readable)
        { s with
          clock := now
          polling := false
          socket := rest
          log := s.log.step (.onDatagram datagram.senderIp (received datagram.data) now)
          calls := s.calls ++ [.onDatagram datagram.senderIp (received datagram.data) now] }
  | idle {now : Time} {readable : Bool} {socket : List Datagram} : s.polling = true →
      (socket = s.socket ∨ ∃ datagram, datagram.data = "" ∧ s.socket = datagram :: socket) →
      Acts s (.turn now readable) { s with clock := now, polling := false, socket := socket }
  | arrive (datagram : Datagram) :
      Acts s (.arrive datagram) { s with socket := s.socket ++ [datagram] }
  | stop : Acts s .stop { s with running := false }

variable {s} {s' : DiscoveryLoop} {e : Event}

theorem step_acts (h : s.step e = some s') : Acts s e s' := by
  cases e with
  | arrive datagram =>
    cases h
    exact .arrive datagram
  | stop =>
    cases h
    exact .stop
  | turn now readable =>
    simp only [step] at h
    split_ifs at h with hc hp hrun
    · cases h
      unfold poll
      split
      · next datagram rest hs =>
        dsimp only
        split_ifs with hd
        · exact .idle hp (.inr ⟨datagram, hd, hs⟩)
        · exact .read hp hs hd
      · exact .idle hp (.inl rfl)
    · cases h
      have hp' : s.polling = false := Bool.eq_false_iff.mpr hp
      unfold pass
      split_ifs with hn
      · exact .beacon hp' hn
      · exact .pass hp' (not_le.mp hn)

theorem step_clock {now : Time} {readable : Bool} (h : s.step (.turn now readable) = some s') :
    s.clock ≤ now := by
  simp only [step] at h
  split_ifs at h with hc <;> exact hc

theorem step_discovery (log : DialLog) (c : DialLog.Call) :
    ∃ dialed, (log.step c).discovery = { log.discovery with dialed := dialed } := by
  have hm := DialLog.step_moves log c
  generalize log.step c = log' at hm
  cases hm <;> exact ⟨_, rfl⟩

theorem lastBeacon_step (log : DialLog) (c : DialLog.Call) (uuid : String)
    (calls : List DialLog.Call) :
    DialLog.lastBeacon (log.step c).discovery uuid calls =
      DialLog.lastBeacon log.discovery uuid calls := by
  obtain ⟨dialed, hd⟩ := step_discovery log c
  rw [hd]
  rfl

/-- A datagram brings a beacon of `uuid`, or leaves its entry and its events. -/
theorem onDatagram_cases (log : DialLog) (senderIp data : String) (now : Time) (uuid : String) :
    (∃ beacon, log.discovery.qualifying data = some beacon ∧ beacon.uuid = uuid ∧
      (log.step (.onDatagram senderIp data now)).discovery.dialed.lookup uuid =
        some ⟨dialAddress senderIp beacon, now⟩ ∧
      (log.step (.onDatagram senderIp data now)).eventsOf uuid = log.eventsOf uuid ++
        if uuid ∈ log.discovery.dialed then [] else [.dial uuid (dialAddress senderIp beacon)]) ∨
    ((∀ beacon ∈ log.discovery.qualifying data, beacon.uuid ≠ uuid) ∧
      (log.step (.onDatagram senderIp data now)).discovery.dialed.lookup uuid =
        log.discovery.dialed.lookup uuid ∧
      (log.step (.onDatagram senderIp data now)).eventsOf uuid = log.eventsOf uuid) := by
  simp only [DialLog.step, onDatagram_eq]
  cases hq : log.discovery.qualifying data with
  | none => exact .inr ⟨by simp, rfl, by simp [DialLog.eventsOf]⟩
  | some beacon =>
    by_cases hu : beacon.uuid = uuid
    · subst hu
      refine .inl ⟨beacon, rfl, rfl, AList.lookup_insert _, ?_⟩
      by_cases hin : beacon.uuid ∈ log.discovery.dialed <;>
        simp [DialLog.eventsOf, hin, LinkEvent.uuid]
    · refine .inr ⟨by simpa using hu, AList.lookup_insert_ne (Ne.symm hu), ?_⟩
      by_cases hin : beacon.uuid ∈ log.discovery.dialed <;>
        simp [DialLog.eventsOf, hin, hu, LinkEvent.uuid]

/-- What the broker was started with stays. -/
theorem step_config {d : BrokerDiscovery}
    (h : ∃ dialed, s.log.discovery = { d with dialed := dialed }) (hs : s.step e = some s') :
    ∃ dialed, s'.log.discovery = { d with dialed := dialed } := by
  have hcall : ∀ c, ∃ dialed, (s.log.step c).discovery = { d with dialed := dialed } := by
    intro c
    obtain ⟨dialed, hd⟩ := h
    obtain ⟨dialed', hd'⟩ := step_discovery s.log c
    exact ⟨dialed', by rw [hd', hd]⟩
  cases step_acts hs with
  | @beacon now => exact hcall (.expireStale now)
  | @read now _ datagram =>
    exact hcall (.onDatagram datagram.senderIp (received datagram.data) now)
  | pass => exact h
  | idle => exact h
  | arrive => exact h
  | stop => exact h

variable {start : Time}

def Late (t t' : Time) : Prop := t + beaconInterval ≤ t'

/-- The table against the beacons that were heard, and the beacons that were sent. -/
structure Fresh (start : Time) (s : DiscoveryLoop) : Prop where
  follows : ∀ uuid, DialLog.Follows uuid s.calls s.log
  beacons : Periodic.Done Late (start - beaconInterval) s.beacons (s.nextBeacon - beaconInterval)
  notAhead : s.nextBeacon - beaconInterval ≤ s.clock
  pass : s.lastPass ≤ s.nextBeacon
  fresh : ∀ uuid entry, s.log.discovery.dialed.lookup uuid = some entry →
    s.nextBeacon - beaconInterval ≤ entry.lastSeen + peerTimeout
  remembered : ∀ uuid t, DialLog.lastBeacon s.log.discovery uuid s.calls = some t →
    uuid ∈ s.log.discovery.dialed ∨ t + peerTimeout < s.clock

theorem fresh_initial (h : s.Initial start) : Fresh start s := by
  obtain ⟨discovery, hd, rfl⟩ := h
  have hint : 0 ≤ beaconInterval := by decide
  refine ⟨DialLog.follows_initial ⟨hd, rfl⟩, .begin _ _, by linarith, le_refl _, ?_, ?_⟩
  · intro uuid entry hl
    rw [hd, AList.lookup_empty] at hl
    cases hl
  · intro uuid t ht
    cases ht

theorem Fresh.tick (h : Fresh start s) {now : Time} (hc : s.clock ≤ now) :
    Fresh start { s with clock := now } :=
  ⟨h.follows, h.beacons, h.notAhead.trans hc, h.pass, h.fresh, fun uuid t ht =>
    (h.remembered uuid t ht).imp_right hc.trans_lt'⟩

theorem Fresh.beacon (h : Fresh start s) (hn : s.nextBeacon ≤ s.clock) :
    Fresh start
      { s with
        log := s.log.step (.expireStale s.clock)
        calls := s.calls ++ [.expireStale s.clock]
        nextBeacon := s.clock + beaconInterval
        beacons := s.beacons ++ [s.clock]
        polling := true
        lastPass := s.clock } := by
  have hint : 0 ≤ beaconInterval := by decide
  have hmem := s.log.discovery.mem_expireStale s.clock
  refine ⟨fun uuid => (h.follows uuid).step _, ?_, by simp, by linarith, ?_, ?_⟩
  · have hlate : Late (s.nextBeacon - beaconInterval) s.clock := by
      unfold Late
      linarith
    rw [add_sub_cancel_right]
    exact h.beacons.again hlate
  · intro uuid entry hl
    replace hl : (s.log.discovery.expireStale s.clock).1.dialed.lookup uuid = some entry := hl
    rw [lookup_dialed_expireStale] at hl
    split_ifs at hl with hu
    by_contra hlate
    rw [add_sub_cancel_right] at hlate
    exact hu ((hmem uuid).mpr ⟨entry, hl, by linarith⟩)
  · intro uuid t ht
    dsimp only at ht
    rw [lastBeacon_step, DialLog.lastBeacon_snoc] at ht
    rcases h.remembered uuid t ht with hin | hlate
    · by_cases hu : uuid ∈ (s.log.discovery.expireStale s.clock).2
      · obtain ⟨entry, hl, hlate⟩ := (hmem uuid).mp hu
        obtain rfl := Option.some.inj (((h.follows uuid).lastSeen entry hl).symm.trans ht)
        exact .inr (by linarith)
      · exact .inl ((s.log.discovery.mem_dialed_expireStale s.clock uuid).mpr ⟨hin, hu⟩)
    · exact .inr hlate

theorem Fresh.read (h : Fresh start s) (senderIp data : String) :
    Fresh start (s.call (.onDatagram senderIp data s.clock)) := by
  have hcases := onDatagram_cases s.log senderIp data s.clock
  refine ⟨fun uuid => (h.follows uuid).step _, h.beacons, h.notAhead, h.pass,
    fun uuid entry hl => ?_, fun uuid t ht => ?_⟩
  · rcases hcases uuid with ⟨beacon, -, -, hnew, -⟩ | ⟨-, hold, -⟩
    · obtain rfl := Option.some.inj (hnew.symm.trans hl)
      have htimeout : 0 ≤ peerTimeout := by decide
      exact h.notAhead.trans (le_add_of_nonneg_right htimeout)
    · exact h.fresh uuid entry (hold.symm.trans hl)
  · rcases hcases uuid with ⟨beacon, -, -, hnew, -⟩ | ⟨hno, hold, -⟩
    · exact .inl (mem_table_iff.mpr ⟨_, hnew⟩)
    · have hnone : DialLog.Call.beaconTime s.log.discovery uuid
          (.onDatagram senderIp data s.clock) = none := by
        simpa [DialLog.Call.beaconTime, Option.any_eq_false] using hno
      dsimp only [call] at ht
      rw [lastBeacon_step, DialLog.lastBeacon_snoc, hnone, Option.none_or] at ht
      refine (h.remembered uuid t ht).imp_left fun hin => ?_
      obtain ⟨entry, he⟩ := mem_table_iff.mp hin
      exact mem_table_iff.mpr ⟨entry, hold.trans he⟩

theorem Fresh.step (h : Fresh start s) (hs : s.step e = some s') : Fresh start s' := by
  cases step_acts hs with
  | beacon hp hn => exact (h.tick (step_clock hs)).beacon hn
  | pass hp hn =>
    obtain ⟨h1, h2, h3, -, h5, h6⟩ := h.tick (step_clock hs)
    exact ⟨h1, h2, h3, hn.le, h5, h6⟩
  | @read now _ datagram rest hp hsocket hd =>
    have htaken : Fresh start { s with clock := now, polling := false, socket := rest } := by
      obtain ⟨h1, h2, h3, h4, h5, h6⟩ := h.tick (step_clock hs)
      exact ⟨h1, h2, h3, h4, h5, h6⟩
    exact htaken.read datagram.senderIp (received datagram.data)
  | idle hp hsocket =>
    obtain ⟨h1, h2, h3, h4, h5, h6⟩ := h.tick (step_clock hs)
    exact ⟨h1, h2, h3, h4, h5, h6⟩
  | arrive datagram =>
    obtain ⟨h1, h2, h3, h4, h5, h6⟩ := h
    exact ⟨h1, h2, h3, h4, h5, h6⟩
  | stop =>
    obtain ⟨h1, h2, h3, h4, h5, h6⟩ := h
    exact ⟨h1, h2, h3, h4, h5, h6⟩

theorem fresh_of_run {s₀ : DiscoveryLoop} {tr : List (Event × DiscoveryLoop)}
    (h₀ : s₀.Initial start) (hr : Run (ofFun step) s₀ tr s) : Fresh start s :=
  hr.invariant (P := Fresh start) (fresh_initial h₀) fun _ _ _ h hs => h.step hs

/-- Beacons are sent at least a second apart. A peer whose latest beacon was heard in the last five
seconds is in the table, and one in the table was heard at most six seconds before the last
pass. -/
theorem table_follows_clock {s₀ : DiscoveryLoop} {tr : List (Event × DiscoveryLoop)}
    (h₀ : s₀.Initial start) (hr : Run (ofFun step) s₀ tr s) :
    s.beacons.IsChain (fun t t' => t + seconds 1 ≤ t') ∧
    s.beacons.length * seconds 1 ≤ s.clock - start + seconds 1 ∧
    (∀ uuid t, DialLog.lastBeacon s.log.discovery uuid s.calls = some t →
      s.clock ≤ t + seconds 5 → uuid ∈ s.log.discovery.dialed) ∧
    (∀ uuid ∈ s.log.discovery.dialed, ∃ t,
      DialLog.lastBeacon s.log.discovery uuid s.calls = some t ∧ s.lastPass ≤ t + seconds 6) := by
  have h := fresh_of_run h₀ hr
  refine ⟨h.beacons.chain.tail, ?_, fun uuid t ht hc => ?_, fun uuid hu => ?_⟩
  · have hcount := h.beacons.length_mul_le fun t t' hl => le_sub_iff_add_le'.mpr hl
    have hlast := h.notAhead
    change (s.beacons.length : ℤ) * beaconInterval ≤ s.clock - start + beaconInterval
    linarith
  · exact (h.remembered uuid t ht).resolve_right (not_lt.mpr hc)
  · obtain ⟨entry, he⟩ := mem_table_iff.mp hu
    refine ⟨entry.lastSeen, (h.follows uuid).lastSeen entry he, ?_⟩
    have hfresh := h.fresh uuid entry he
    have hpass := h.pass
    have hsix : seconds 6 = beaconInterval + peerTimeout := by decide
    linarith

def alone : DiscoveryLoop :=
  { log := DialLog.oneBroker, nextBeacon := 0, clock := 0, lastPass := 0 }

def hearing : List Event :=
  [.turn 0 false, .arrive ⟨0, "10.0.0.5", encodeBeacon "default" "zzz" 6000⟩, .turn 1000 true,
    .turn (seconds 1) false]

def heardOnce : DiscoveryLoop := (exec step alone hearing).get (by decide +kernel)

theorem table_follows_clock_heard : Run (ofFun step) alone (trace step alone hearing) heardOnce ∧
    heardOnce.beacons = [0, seconds 1] ∧ "zzz" ∈ heardOnce.log.discovery.dialed := by
  have hr : Run (ofFun step) alone (trace step alone hearing) heardOnce :=
    exec_run (by simp [heardOnce])
  have h := table_follows_clock ⟨_, rfl, rfl⟩ hr
  exact ⟨hr, by decide +kernel, h.2.2.1 "zzz" 1000 (by decide +kernel) (by decide +kernel)⟩

end DiscoveryLoop

/-- Two brokers of one cluster, the first of which dials. -/
structure DiscoveryPair where
  here : DiscoveryConfig
  there : DiscoveryConfig
  cluster_eq : here.cluster = there.cluster
  dials : here.selfUuid < there.selfUuid
  beacon_le : there.beacon.length ≤ 512

structure Beaconing where
  here : DiscoveryLoop
  there : DiscoveryLoop
  /-- The address that `there` sends from. -/
  thereIp : String
  clock : Time
  /-- When the latest beacon of `there` that was not lost was sent, and how many were lost since. -/
  lastArrived : Time
  lost : ℕ := 0

namespace Beaconing

open DiscoveryLoop (beaconInterval)

inductive Event
  | here (now : Time) (readable : Bool)
  /-- With what becomes of the beacon, if one is sent. -/
  | there (now : Time) (readable arrives : Bool)
  /-- Any other datagram at one of the sockets. -/
  | hereArrive (senderIp data : String)
  | thereArrive (senderIp data : String)

def Event.time? : Event → Option Time
  | .here now _ => some now
  | .there now _ _ => some now
  | .hereArrive _ _ => none
  | .thereArrive _ _ => none

variable (s : Beaconing)

/-- The loop of `there` after a turn, and its beacon. -/
def thereDoes (arrives : Bool) (there : DiscoveryLoop) : Beaconing :=
  if there.beacons = s.there.beacons then { s with there := there }
  else if arrives then
    { s with
      there := there
      here := { s.here with
        socket := s.here.socket ++ [⟨s.clock, s.thereIp, s.there.log.discovery.beacon⟩] }
      lastArrived := s.clock
      lost := 0 }
  else { s with there := there, lost := s.lost + 1 }

def act : Event → Option Beaconing
  | .here now readable => (s.here.step (.turn now readable)).map fun here => { s with here := here }
  | .there now readable arrives => (s.there.step (.turn now readable)).map (s.thereDoes arrives)
  | .hereArrive senderIp data =>
    (s.here.step (.arrive ⟨s.clock, senderIp, data⟩)).map fun here => { s with here := here }
  | .thereArrive senderIp data =>
    (s.there.step (.arrive ⟨s.clock, senderIp, data⟩)).map fun there => { s with there := there }

/-- Time goes on to that of the event. -/
def step (e : Event) : Option Beaconing :=
  if s.clock ≤ e.time?.getD s.clock then act { s with clock := e.time?.getD s.clock } e else none

/-- `there` starts; `here` has been running and has never heard of it. -/
def Initial (c : DiscoveryPair) : Prop :=
  (∃ s₀ tr start, s₀.log.discovery = c.here.discovery ∧ s₀.Initial start ∧
    Run (ofFun DiscoveryLoop.step) s₀ tr s.here) ∧
  s.here.log.eventsOf c.there.selfUuid = [] ∧
  s.there = { log := { discovery := c.there.discovery }, nextBeacon := s.clock, clock := s.clock,
              lastPass := s.clock } ∧
  s.lastArrived = s.clock - beaconInterval ∧ s.lost = 0

/-- How long a pass and a datagram may take, and how many beacons in a row may be lost. -/
structure Bounds where
  pass : Time
  transit : Time
  losses : ℕ
  pass_nonneg : 0 ≤ pass
  transit_nonneg : 0 ≤ transit
  sum_le : (losses + 1) * (beaconInterval + pass) + transit ≤ peerTimeout

def MayLose (B : Bounds) (s : Beaconing) : Event → Prop
  | .there now _ false => s.there.nextBeacon ≤ now → s.lost < B.losses
  | _ => True

instance (B : Bounds) (s : Beaconing) : (e : Event) → Decidable (s.MayLose B e)
  | .there now _ false => inferInstanceAs (Decidable (s.there.nextBeacon ≤ now → s.lost < B.losses))
  | .there _ _ true | .here _ _ | .hereArrive _ _ | .thereArrive _ _ => instDecidableTrue

/-- Nothing is overdue at the time of the event. -/
def Punctual (B : Bounds) (s : Beaconing) (e : Event) : Prop :=
  (∀ now ∈ e.time?, now ≤ s.there.lastPass + B.pass ∧
    ∀ x ∈ s.here.socket, now ≤ x.sent + B.transit) ∧ s.MayLose B e

instance (B : Bounds) (s : Beaconing) (e : Event) : Decidable (s.Punctual B e) :=
  inferInstanceAs (Decidable ((∀ now ∈ e.time?, _) ∧ _))

variable {s} {s' : Beaconing} {B : Bounds} {p : Time} {c : DiscoveryPair}

/-- The longest time between two beacons at the socket of `there`, and between two that arrive. -/
def Bounds.beat (B : Bounds) : Time := beaconInterval + B.pass

def Bounds.gap (B : Bounds) : Time := (B.losses + 1) * B.beat

/-- What `here` knows of `uuid`: nothing, or it has dialed it once and heard it since `p`. -/
def Holds (p : Time) (uuid : String) (log : DialLog) : Prop :=
  (uuid ∉ log.discovery.dialed ∧ log.eventsOf uuid = []) ∨
  ∃ entry address, log.discovery.dialed.lookup uuid = some entry ∧ p ≤ entry.lastSeen ∧
    log.eventsOf uuid = [.dial uuid address]

theorem Holds.notMem_lost {uuid : String} {log : DialLog} {now : Time} (h : Holds p uuid log)
    (hnow : now ≤ p + peerTimeout) : uuid ∉ (log.discovery.expireStale now).2 := by
  rw [BrokerDiscovery.mem_expireStale]
  rintro ⟨entry, hl, hlate⟩
  rcases h with ⟨hno, -⟩ | ⟨entry', -, hl', hp, -⟩
  · exact hno (mem_table_iff.mpr ⟨entry, hl⟩)
  · obtain rfl := Option.some.inj (hl.symm.trans hl')
    linarith

theorem Holds.expireStale {uuid : String} {log : DialLog} {now : Time} (h : Holds p uuid log)
    (hnow : now ≤ p + peerTimeout) : Holds p uuid (log.step (.expireStale now)) := by
  have hlost := h.notMem_lost hnow
  have hevents : (log.step (.expireStale now)).eventsOf uuid = log.eventsOf uuid := by
    have he := DialLog.eventsOf_drops (log.discovery.expireStale now).1 log.events
      (log.discovery.nodup_expireStale now) uuid
    rw [if_neg hlost, List.append_nil] at he
    exact he
  rcases h with ⟨hno, he⟩ | ⟨entry, address, hl, hp, he⟩
  · refine .inl ⟨fun hin => hno ?_, hevents.trans he⟩
    exact ((log.discovery.mem_dialed_expireStale now uuid).mp hin).1
  · refine .inr ⟨entry, address, ?_, hp, hevents.trans he⟩
    exact (log.discovery.lookup_dialed_expireStale now uuid).trans ((if_neg hlost).trans hl)

theorem Holds.mem_expireStale {uuid : String} {log : DialLog} {now : Time} (h : Holds p uuid log)
    (hnow : now ≤ p + peerTimeout) (hin : uuid ∈ log.discovery.dialed) :
    uuid ∈ (log.step (.expireStale now)).discovery.dialed :=
  (log.discovery.mem_dialed_expireStale now uuid).mpr ⟨hin, h.notMem_lost hnow⟩

/-- A beacon of `uuid`, which is then known as of now, or nothing for it. -/
theorem Holds.onDatagram {uuid : String} {log : DialLog} (h : Holds p uuid log)
    (senderIp data : String) (now : Time) :
    (Holds now uuid (log.step (.onDatagram senderIp data now)) ∧
      uuid ∈ (log.step (.onDatagram senderIp data now)).discovery.dialed) ∨
    ((∀ beacon ∈ log.discovery.qualifying data, beacon.uuid ≠ uuid) ∧
      Holds p uuid (log.step (.onDatagram senderIp data now)) ∧
      (uuid ∈ log.discovery.dialed →
        uuid ∈ (log.step (.onDatagram senderIp data now)).discovery.dialed)) := by
  have hmem : ∀ {t t' : Table String PeerEntry}, t'.lookup uuid = t.lookup uuid →
      (uuid ∈ t' ↔ uuid ∈ t) := by
    intro t t' hl
    rw [mem_table_iff, mem_table_iff, hl]
  rcases DiscoveryLoop.onDatagram_cases log senderIp data now uuid with
    ⟨beacon, -, -, hnew, hevents⟩ | ⟨hno, hold, hevents⟩
  · refine .inl ⟨.inr ?_, mem_table_iff.mpr ⟨_, hnew⟩⟩
    rcases h with ⟨hnot, he⟩ | ⟨entry, address, hl, -, he⟩
    · rw [if_neg hnot, he] at hevents
      exact ⟨_, _, hnew, le_refl now, hevents⟩
    · rw [if_pos (mem_table_iff.mpr ⟨entry, hl⟩), List.append_nil, he] at hevents
      exact ⟨_, address, hnew, le_refl now, hevents⟩
  · refine .inr ⟨hno, ?_, (hmem hold).mpr⟩
    rcases h with ⟨hnot, he⟩ | ⟨entry, address, hl, hp, he⟩
    · exact .inl ⟨fun hin => hnot ((hmem hold).mp hin), hevents.trans he⟩
    · exact .inr ⟨entry, address, hold.trans hl, hp, hevents.trans he⟩

theorem Holds.mono {uuid : String} {log : DialLog} {p' : Time} (h : Holds p uuid log)
    (hp : p' ≤ p) : Holds p' uuid log := by
  rcases h with h | ⟨entry, address, hl, hseen, he⟩
  · exact .inl h
  · exact .inr ⟨entry, address, hl, hp.trans hseen, he⟩

theorem qualifying_beacon (c : DiscoveryPair) {d : BrokerDiscovery}
    (hd : ∃ dialed, d = { c.here.discovery with dialed := dialed }) :
    d.qualifying (received c.there.beacon) =
      some ⟨c.there.cluster, c.there.selfUuid, c.there.routerPort⟩ := by
  obtain ⟨dialed, rfl⟩ := hd
  have hwhole : received c.there.beacon = c.there.beacon := received_of_length_le c.beacon_le
  rw [hwhole, qualifying_eq_some]
  exact ⟨decodeBeacon_encodeBeacon c.there.cluster_noBar c.there.uuid_noBar c.there.port_pos
    c.there.port_le, c.cluster_eq.symm, c.dials.ne', c.dials⟩

theorem beacon_ne_empty (c : DiscoveryConfig) : c.beacon ≠ "" := by
  intro h
  have hlen := length_encodeBeacon c.cluster c.selfUuid c.routerPort
  rw [← DiscoveryConfig.beacon, h, String.length_empty] at hlen
  omega

theorem Bounds.beat_nonneg (B : Bounds) : 0 ≤ B.beat := by
  have hint : 0 ≤ beaconInterval := by decide
  exact add_nonneg hint B.pass_nonneg

theorem Bounds.mul_beat_le (B : Bounds) {n : ℕ} (h : n ≤ B.losses) :
    n * B.beat + B.beat ≤ B.gap := by
  have hn : (n : ℤ) + 1 ≤ B.losses + 1 := by omega
  calc n * B.beat + B.beat = (n + 1) * B.beat := (add_one_mul _ _).symm
    _ ≤ B.gap := mul_le_mul_of_nonneg_right hn B.beat_nonneg

theorem Bounds.gap_add_transit_le (B : Bounds) : B.gap + B.transit ≤ peerTimeout := B.sum_le

/-- `p` is when the latest beacon of `there` that `here` has read was sent. -/
structure Alive (c : DiscoveryPair) (B : Bounds) (start p : Time) (s : Beaconing) : Prop where
  hereConfig : ∃ dialed, s.here.log.discovery = { c.here.discovery with dialed := dialed }
  thereConfig : ∃ dialed, s.there.log.discovery = { c.there.discovery with dialed := dialed }
  pass : s.there.lastPass ≤ s.there.nextBeacon
  notAhead : p ≤ s.clock
  notLate : s.clock ≤ p + (B.gap + B.transit)
  onTheWay : ∃ beats : List Datagram, beats.Sublist s.here.socket ∧
    (∀ x ∈ beats, x.data = c.there.beacon ∧ x.sent ≤ s.clock) ∧
    Periodic.Done (Within B.gap) p (beats.map Datagram.sent) s.lastArrived
  next : s.there.nextBeacon ≤ s.lastArrived + beaconInterval + s.lost * B.beat
  lost : s.lost ≤ B.losses
  holds : Holds p c.there.selfUuid s.here.log
  met : p = start ∨ c.there.selfUuid ∈ s.here.log.discovery.dialed

variable {start : Time}

theorem Alive.inTime (h : Alive c B start p s) {now : Time}
    (hpass : now ≤ s.there.lastPass + B.pass)
    (hsocket : ∀ x ∈ s.here.socket, now ≤ x.sent + B.transit) :
    now ≤ p + (B.gap + B.transit) := by
  obtain ⟨beats, hsub, -, hdone⟩ := h.onTheWay
  cases beats with
  | nil =>
    -- it is not sent yet, or the ones sent were lost
    have hlast : p = s.lastArrived := by simpa using hdone.last_eq
    have hbeat : B.beat = beaconInterval + B.pass := rfl
    have hgap := B.mul_beat_le h.lost
    have hnext := h.next
    have hpass' := h.pass
    have htransit := B.transit_nonneg
    linarith
  | cons x rest =>
    have hfirst : x.sent ≤ p + B.gap := hdone.rest.1
    have hnow := hsocket x (hsub.subset List.mem_cons_self)
    linarith

theorem Alive.tick (h : Alive c B start p s) {e : Event} (hp : s.Punctual B e)
    (hc : s.clock ≤ e.time?.getD s.clock) :
    Alive c B start p { s with clock := e.time?.getD s.clock } := by
  have hlate : e.time?.getD s.clock ≤ p + (B.gap + B.transit) := by
    cases he : e.time? with
    | none => exact h.notLate
    | some now => exact h.inTime (hp.1 now he).1 (hp.1 now he).2
  obtain ⟨h1, h2, h3, h4, -, ⟨beats, hsub, hbeats, hdone⟩, h7, h8, h9, h10⟩ := h
  exact ⟨h1, h2, h3, h4.trans hc, hlate,
    ⟨beats, hsub, fun x hx => ⟨(hbeats x hx).1, (hbeats x hx).2.trans hc⟩, hdone⟩, h7, h8, h9, h10⟩

/-- `here` reads the datagram at the head of its socket. -/
theorem Alive.read (h : Alive c B start p s) {datagram : Datagram}
    (hsocket : ∀ x ∈ s.here.socket, s.clock ≤ x.sent + B.transit) {here : DiscoveryLoop}
    (hs : s.here.socket = datagram :: here.socket)
    (hlog : here.log = s.here.log.step
      (.onDatagram datagram.senderIp (received datagram.data) s.clock))
    (hconfig : ∃ dialed, here.log.discovery = { c.here.discovery with dialed := dialed }) :
    ∃ p', Alive c B start p' { s with here := here } := by
  have hread := h.holds.onDatagram datagram.senderIp (received datagram.data) s.clock
  rw [← hlog] at hread
  have hq := qualifying_beacon c h.hereConfig
  obtain ⟨-, h2, h3, h4, h5, ⟨beats, hsub, hbeats, hdone⟩, h7, h8, h9, h10⟩ := h
  rw [hs] at hsub
  cases hsub with
  | cons _ hsub =>
    -- not one that was counted on
    refine ⟨p, hconfig, h2, h3, h4, h5, ⟨beats, hsub, hbeats, hdone⟩, h7, h8, ?_, ?_⟩
    · rcases hread with ⟨hnow, -⟩ | ⟨-, hsame, -⟩
      · exact hnow.mono h4
      · exact hsame
    · rcases hread with ⟨-, hin⟩ | ⟨-, -, hin⟩
      · exact .inr hin
      · exact h10.imp_right hin
  | @cons_cons beats _ _ hsub =>
    obtain ⟨hdata, hsent⟩ := hbeats datagram List.mem_cons_self
    rw [hdata] at hread
    obtain ⟨hnow, hin⟩ := hread.resolve_right fun hno => hno.1 _ hq rfl
    have hgap : 0 ≤ B.gap :=
      B.beat_nonneg.trans (by simpa using B.mul_beat_le (Nat.zero_le B.losses))
    have hlate := hsocket datagram (hs ▸ List.mem_cons_self)
    refine ⟨datagram.sent, hconfig, h2, h3, hsent, ?_, ⟨beats, hsub, ?_, hdone.rest.2⟩, h7, h8,
      hnow.mono hsent, .inr hin⟩
    · change s.clock ≤ datagram.sent + (B.gap + B.transit)
      linarith
    · exact fun x hx => hbeats x (List.mem_cons_of_mem _ hx)

theorem Alive.here (h : Alive c B start p s) {readable : Bool}
    (hsocket : ∀ x ∈ s.here.socket, s.clock ≤ x.sent + B.transit) {here : DiscoveryLoop}
    (hs : s.here.step (.turn s.clock readable) = some here) :
    ∃ p', Alive c B start p' { s with here := here } := by
  have hconfig := DiscoveryLoop.step_config h.hereConfig hs
  cases DiscoveryLoop.step_acts hs with
  | beacon hp hn =>
    have hnow : s.clock ≤ p + peerTimeout := h.notLate.trans (by linarith [B.gap_add_transit_le])
    obtain ⟨-, h2, h3, h4, h5, h6, h7, h8, h9, h10⟩ := h
    refine ⟨p, hconfig, h2, h3, h4, h5, h6, h7, h8, h9.expireStale hnow, ?_⟩
    exact h10.imp_right (h9.mem_expireStale hnow)
  | pass hp hn =>
    obtain ⟨-, h2, h3, h4, h5, h6, h7, h8, h9, h10⟩ := h
    exact ⟨p, hconfig, h2, h3, h4, h5, h6, h7, h8, h9, h10⟩
  | read hp hhead hd => exact h.read hsocket hhead rfl hconfig
  | @idle _ _ socket hp hhead =>
    obtain ⟨-, h2, h3, h4, h5, ⟨beats, hsub, hbeats, hdone⟩, h7, h8, h9, h10⟩ := h
    refine ⟨p, hconfig, h2, h3, h4, h5, ⟨beats, ?_, hbeats, hdone⟩, h7, h8, h9, h10⟩
    obtain rfl | ⟨datagram, hempty, hhead⟩ := hhead
    · exact hsub
    · rw [hhead] at hsub
      cases hsub with
      | cons _ hsub => exact hsub
      | cons_cons _ hsub =>
        have hdata := (hbeats datagram List.mem_cons_self).1
        exact absurd (hdata.symm.trans hempty) (beacon_ne_empty c.there)

theorem Alive.there (h : Alive c B start p s) {readable arrives : Bool} {there : DiscoveryLoop}
    (hpass : s.clock ≤ s.there.lastPass + B.pass)
    (hlost : arrives = false → s.there.nextBeacon ≤ s.clock → s.lost < B.losses)
    (hs : s.there.step (.turn s.clock readable) = some there) :
    Alive c B start p (s.thereDoes arrives there) := by
  have hconfig := DiscoveryLoop.step_config h.thereConfig hs
  have hbeacon : s.there.log.discovery.beacon = c.there.beacon := by
    obtain ⟨dialed, hd⟩ := h.thereConfig
    rw [hd]
    rfl
  have hbeat : B.beat = beaconInterval + B.pass := rfl
  have hint : 0 ≤ beaconInterval := by decide
  obtain ⟨h1, -, h3, h4, h5, ⟨beats, hsub, hbeats, hdone⟩, h7, h8, h9, h10⟩ := h
  have hsince : s.clock ≤ s.lastArrived + (s.lost * B.beat + B.beat) := by linarith
  unfold thereDoes
  cases DiscoveryLoop.step_acts hs with
  | beacon hp hn =>
    rw [if_neg (by simp)]
    cases arrives with
    | true =>
      refine ⟨h1, hconfig, ?_, h4, h5,
        ⟨beats ++ [⟨s.clock, s.thereIp, s.there.log.discovery.beacon⟩], ?_, ?_, ?_⟩,
        ?_, ?_, h9, h10⟩
      · change s.clock ≤ s.clock + beaconInterval
        linarith
      · exact hsub.append (List.Sublist.refl _)
      · intro x hx
        rcases List.mem_append.mp hx with hx | hx
        · exact hbeats x hx
        · obtain rfl := List.mem_singleton.mp hx
          exact ⟨hbeacon, le_refl _⟩
      · rw [List.map_append]
        exact hdone.again (hsince.trans (by linarith [B.mul_beat_le h8]))
      · simp
      · exact Nat.zero_le _
    | false =>
      refine ⟨h1, hconfig, ?_, h4, h5, ⟨beats, hsub, hbeats, hdone⟩, ?_, hlost rfl hn, h9, h10⟩
      · change s.clock ≤ s.clock + beaconInterval
        linarith
      · change s.clock + beaconInterval ≤
          s.lastArrived + beaconInterval + ((s.lost + 1 : ℕ) : ℤ) * B.beat
        rw [Nat.cast_succ, add_one_mul]
        linarith
  | pass hp hn =>
    rw [if_pos rfl]
    exact ⟨h1, hconfig, hn.le, h4, h5, ⟨beats, hsub, hbeats, hdone⟩, h7, h8, h9, h10⟩
  | read =>
    rw [if_pos rfl]
    exact ⟨h1, hconfig, h3, h4, h5, ⟨beats, hsub, hbeats, hdone⟩, h7, h8, h9, h10⟩
  | idle =>
    rw [if_pos rfl]
    exact ⟨h1, hconfig, h3, h4, h5, ⟨beats, hsub, hbeats, hdone⟩, h7, h8, h9, h10⟩

theorem step_act {e : Event} (h : s.step e = some s') :
    s.clock ≤ e.time?.getD s.clock ∧ act { s with clock := e.time?.getD s.clock } e = some s' := by
  rw [step] at h
  split_ifs at h with hc
  exact ⟨hc, h⟩

theorem Alive.step (h : Alive c B start p s) {e : Event} (hp : s.Punctual B e)
    (hs : s.step e = some s') : ∃ p', Alive c B start p' s' := by
  obtain ⟨hc, ha⟩ := step_act hs
  have ht := h.tick hp hc
  cases e with
  | here now readable =>
    obtain ⟨here, hhere, rfl⟩ := Option.map_eq_some_iff.mp ha
    exact ht.here (hp.1 now rfl).2 hhere
  | there now readable arrives =>
    obtain ⟨there, hthere, rfl⟩ := Option.map_eq_some_iff.mp ha
    refine ⟨p, ht.there (hp.1 now rfl).1 ?_ hthere⟩
    rintro rfl
    exact hp.2
  | hereArrive senderIp data =>
    cases ha
    obtain ⟨h1, h2, h3, h4, h5, ⟨beats, hsub, hbeats, hdone⟩, h7, h8, h9, h10⟩ := ht
    exact ⟨p, h1, h2, h3, h4, h5,
      ⟨beats, hsub.trans (List.sublist_append_left _ _), hbeats, hdone⟩, h7, h8, h9, h10⟩
  | thereArrive senderIp data =>
    cases ha
    obtain ⟨h1, h2, h3, h4, h5, h6, h7, h8, h9, h10⟩ := ht
    exact ⟨p, h1, h2, h3, h4, h5, h6, h7, h8, h9, h10⟩

/-- The two brokers of `Lan.twoBrokers`, of which the second starts; its first beacon is lost. -/
def twoBrokers : DiscoveryPair :=
  ⟨Lan.twoBrokers false, Lan.twoBrokers true, rfl, by decide, by decide⟩

def joining : Beaconing where
  here := { log := { discovery := twoBrokers.here.discovery }, nextBeacon := 0, clock := 0,
            lastPass := 0 }
  there := { log := { discovery := twoBrokers.there.discovery }, nextBeacon := 0, clock := 0,
             lastPass := 0 }
  thereIp := "10.0.0.5"
  clock := 0
  lastArrived := 0 - beaconInterval

def round (now : Time) : List Event :=
  [.there now false true, .there now false true, .here now false, .here now true]

def rounds : List Event :=
  [.there 0 false false, .there 0 false true] ++ round (seconds 1) ++ round (seconds 2) ++
    round (seconds 3) ++ round (seconds 4) ++ round (seconds 5)

def joined : Beaconing := (exec step joining rounds).get (by decide +kernel)

end Beaconing

end ZmqPubSub
