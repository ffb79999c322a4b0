import ZmqPubSub.DiscoveryLoop
import ZmqPubSub.Text

/-!
`generateUUID`, `parseTcpPort` and `ZmqBroker::start`: the name that a broker draws, the port that
it advertises, and that two brokers started with nothing but a cluster name find each other.
-/

namespace ZmqPubSub

open TransitionSystem Discovery BrokerDiscovery

def hexChars : List Char := "0123456789abcdef".toList

def hexChar (d : Fin 16) : Char := hexChars.getD d.val ' '

/-- `hex_chars[dis2(gen)]`; `d` counts from 8. -/
def variantChar (d : Fin 4) : Char := hexChars.getD (8 + d.val) ' '

/-- `set_hex` with the next draw of `dis`. -/
def setHex (dis : ℕ → Fin 16) (s : List Char × ℕ) (index : ℕ) : List Char × ℕ :=
  (s.1.set index (hexChar (dis s.2)), s.2 + 1)

/-- `dis` are the draws from 0 to 15 in their order, `dis2` is the one from 8 to 11. -/
def generateUUID (dis : ℕ → Fin 16) (dis2 : Fin 4) : String :=
  let uuid := (((List.replicate 36 ' ').set 8 '-').set 13 '-').set 18 '-' |>.set 23 '-'
  let s := (List.range' 0 8).foldl (setHex dis) (uuid, 0)
  let s := (List.range' 9 4).foldl (setHex dis) s
  let s := (List.range' 15 3).foldl (setHex dis) (s.1.set 14 '4', s.2)
  let s := (List.range' 20 3).foldl (setHex dis) (s.1.set 19 (variantChar dis2), s.2)
  let s := (List.range' 24 12).foldl (setHex dis) s
  String.ofList s.1

def hexDigits (dis : ℕ → Fin 16) (first count : ℕ) : List Char :=
  (List.range' first count).map fun i => hexChar (dis i)

variable {dis dis' : ℕ → Fin 16} {dis2 dis2' : Fin 4}

theorem length_hexDigits (dis : ℕ → Fin 16) (first count : ℕ) :
    (hexDigits dis first count).length = count := by
  simp [hexDigits]

theorem toList_generateUUID (dis : ℕ → Fin 16) (dis2 : Fin 4) :
    (generateUUID dis dis2).toList =
      hexDigits dis 0 8 ++ '-' :: (hexDigits dis 8 4 ++ '-' :: '4' :: (hexDigits dis 12 3 ++
        '-' :: variantChar dis2 :: (hexDigits dis 15 3 ++ '-' :: hexDigits dis 18 12))) := by
  rw [generateUUID, String.toList_ofList]
  simp [setHex, List.range', hexDigits, List.replicate]

theorem hexChar_injective : Function.Injective hexChar := by
  intro d d'
  revert d d'
  decide

theorem bar_ne_hexChar (d : Fin 16) : '|' ≠ hexChar d := by
  revert d
  decide

theorem variantChar_injective : Function.Injective variantChar := by
  intro d d'
  revert d d'
  decide

theorem bar_ne_variantChar (d : Fin 4) : '|' ≠ variantChar d := by
  revert d
  decide

theorem length_generateUUID (dis : ℕ → Fin 16) (dis2 : Fin 4) :
    (generateUUID dis dis2).length = 36 := by
  rw [← String.length_toList, toList_generateUUID]
  rfl

theorem bar_notMem_generateUUID (dis : ℕ → Fin 16) (dis2 : Fin 4) :
    '|' ∉ (generateUUID dis dis2).toList := by
  have hdigits : ∀ first count, '|' ∉ hexDigits dis first count := by
    intro first count h
    obtain ⟨i, -, hi⟩ := List.mem_map.mp h
    exact bar_ne_hexChar (dis i) hi.symm
  rw [toList_generateUUID]
  simp [hdigits, bar_ne_variantChar]

theorem hexDigits_injective {first count : ℕ}
    (h : hexDigits dis first count = hexDigits dis' first count) :
    ∀ i, first ≤ i → i < first + count → dis i = dis' i := by
  intro i hi hlt
  have hmem : i ∈ List.range' first count := List.mem_range'_1.mpr ⟨hi, hlt⟩
  exact hexChar_injective (List.map_inj_left.mp h i hmem)

/-- Different draws give different names. -/
theorem generateUUID_inj (h : generateUUID dis dis2 = generateUUID dis' dis2') :
    (∀ i < 30, dis i = dis' i) ∧ dis2 = dis2' := by
  have hlen : ∀ first count, (hexDigits dis first count).length =
      (hexDigits dis' first count).length := by
    intro first count
    rw [length_hexDigits, length_hexDigits]
  have hl := congrArg String.toList h
  rw [toList_generateUUID, toList_generateUUID] at hl
  obtain ⟨h0, hl⟩ := List.append_inj hl (hlen 0 8)
  obtain ⟨h8, hl⟩ := List.append_inj (List.cons.inj hl).2 (hlen 8 4)
  obtain ⟨h12, hl⟩ := List.append_inj (List.cons.inj (List.cons.inj hl).2).2 (hlen 12 3)
  obtain ⟨hv, hl⟩ := List.cons.inj (List.cons.inj hl).2
  obtain ⟨h15, hl⟩ := List.append_inj hl (hlen 15 3)
  have h18 := (List.cons.inj hl).2
  refine ⟨fun i hi => ?_, variantChar_injective hv⟩
  by_cases hi8 : i < 8
  · exact hexDigits_injective h0 i (by omega) (by omega)
  by_cases hi12 : i < 12
  · exact hexDigits_injective h8 i (by omega) (by omega)
  by_cases hi15 : i < 15
  · exact hexDigits_injective h12 i (by omega) (by omega)
  by_cases hi18 : i < 18
  · exact hexDigits_injective h15 i (by omega) (by omega)
  · exact hexDigits_injective h18 i (by omega) (by omega)

/-- The body of the loop of `parseTcpPort`. -/
def tcpPort (addr : String) : Option ℕ :=
  if "tcp://".toList.isPrefixOf addr.toList then
    match Text.rfind ':' addr.toList with
    | none => none
    | some colon =>
      match stoi (addr.toList.drop (colon + 1)) with
      | none => none
      | some port => if 0 < port ∧ port ≤ 65535 then some port.toNat else none
  else none

def parseTcpPort : List String → ℕ
  | [] => 0
  | addr :: addresses =>
    match tcpPort addr with
    | some port => port
    | none => parseTcpPort addresses

theorem colon_notMem_toDigits (n : ℕ) : ':' ∉ Nat.toDigits 10 n := by
  intro h
  have hdigit := Text.isDigit_toDigits h
  simp at hdigit

def bindAddress (host : String) (port : ℕ) : String := "tcp://" ++ host ++ ":" ++ toString port

theorem tcpPort_bindAddress (host : String) {port : ℕ} (hpos : 0 < port) (hle : port ≤ 65535) :
    tcpPort (bindAddress host port) = some port := by
  have htext : (bindAddress host port).toList =
      ("tcp://".toList ++ host.toList) ++ ':' :: Nat.toDigits 10 port := by
    simp [bindAddress, toString]
  have hstart : "tcp://".toList.isPrefixOf (bindAddress host port).toList = true := by
    rw [htext, List.isPrefixOf_iff_prefix, List.append_assoc]
    exact List.prefix_append _ _
  have hdrop : (("tcp://".toList ++ host.toList) ++ ':' :: Nat.toDigits 10 port).drop
      (("tcp://".toList ++ host.toList).length + 1) = Nat.toDigits 10 port := by
    rw [List.drop_length_add_append, List.drop_succ_cons, List.drop_zero]
  have hstoi : stoi (Nat.toDigits 10 port) = some (port : ℤ) := stoi_toDigits (by omega)
  have hrange : 0 < (port : ℤ) ∧ (port : ℤ) ≤ 65535 := by omega
  rw [tcpPort, if_pos hstart, htext, Text.rfind_append _ (colon_notMem_toDigits port)]
  simp only [hdrop, hstoi, if_pos hrange, Int.toNat_natCast]

theorem parseTcpPort_append {before after : List String} {addr : String} {port : ℕ}
    (hbefore : ∀ a ∈ before, tcpPort a = none) (haddr : tcpPort addr = some port) :
    parseTcpPort (before ++ addr :: after) = port := by
  induction before with
  | nil => simp [parseTcpPort, haddr]
  | cons a before ih =>
    rw [List.cons_append, parseTcpPort, hbefore a List.mem_cons_self]
    exact ih fun a' ha' => hbefore a' (List.mem_cons_of_mem a ha')

/-- What a broker is started with. -/
structure Launch where
  dis : ℕ → Fin 16
  dis2 : Fin 4
  /-- The argument of `enableDiscovery`, if it was called. -/
  clusterName : Option String
  bindAddresses : List String

namespace Launch

variable (l : Launch)

def brokerId : String := generateUUID l.dis l.dis2

/-- The discovery that `start` creates. -/
def start : Option BrokerDiscovery :=
  match l.clusterName with
  | none => none
  | some clusterName =>
    let routerPort := parseTcpPort l.bindAddresses
    -- "Discovery enabled but no tcp:// bind address found; auto-mesh disabled"
    if routerPort = 0 then none
    else some { cluster := clusterName, selfUuid := l.brokerId, routerPort := routerPort }

/-- The broker of `server/main.cpp`; the two variables of its environment are `WISP_NO_DISCOVERY`
and `WISP_CLUSTER`. -/
def main (dis : ℕ → Fin 16) (dis2 : Fin 4) (noDiscovery : Bool) (cluster : Option String) :
    Launch where
  dis := dis
  dis2 := dis2
  clusterName := if noDiscovery then none else some (cluster.getD "default")
  bindAddresses := ["tcp://*:5555", "ipc:///tmp/broker.sock"]

/-- The broker takes part in `cluster`, and `port` is that of the first bind address with one. -/
structure Meshed (cluster : String) (port : ℕ) : Prop where
  clusterName : l.clusterName = some cluster
  noBar : '|' ∉ cluster.toList
  short : cluster.length ≤ 462
  binds : ∃ before host after, l.bindAddresses = before ++ bindAddress host port :: after ∧
    ∀ addr ∈ before, tcpPort addr = none
  port_pos : 0 < port
  port_le : port ≤ 65535

variable {l} {cluster : String} {port : ℕ}

def Meshed.config (h : l.Meshed cluster port) : DiscoveryConfig where
  cluster := cluster
  selfUuid := l.brokerId
  routerPort := port
  cluster_noBar := h.noBar
  uuid_noBar := bar_notMem_generateUUID l.dis l.dis2
  port_pos := h.port_pos
  port_le := h.port_le

theorem Meshed.start_eq (h : l.Meshed cluster port) : l.start = some h.config.discovery := by
  obtain ⟨before, host, after, hb, hbefore⟩ := h.binds
  have hport : parseTcpPort l.bindAddresses = port := by
    rw [hb]
    exact parseTcpPort_append hbefore (tcpPort_bindAddress host h.port_pos h.port_le)
  simp only [start, h.clusterName, hport, if_neg h.port_pos.ne']
  rfl

theorem Meshed.received_beacon (h : l.Meshed cluster port) :
    received h.config.beacon = h.config.beacon := by
  have hport : (Nat.toDigits 10 port).length ≤ 5 := by
    have hlt : port < 10 ^ 5 := lt_of_le_of_lt h.port_le (by decide)
    exact Nat.length_toDigits_le_iff (by decide) (by decide) |>.mpr hlt
  have hlen : (encodeBeacon cluster l.brokerId port).length =
      9 + cluster.length + l.brokerId.length + (Nat.toDigits 10 port).length := by
    have hport : (toString port).length = (Nat.toDigits 10 port).length := by
      rw [← String.length_toList]
      simp [toString]
    have hbar : "|".length = 1 := by decide
    have hmagic : kMagic.length = 4 := by decide
    have hversion : kVersion.length = 1 := by decide
    simp only [encodeBeacon, String.length_append, hport, hbar, hmagic, hversion]
    omega
  have hid : l.brokerId.length = 36 := length_generateUUID l.dis l.dis2
  have hshort := h.short
  have hfits : (encodeBeacon cluster l.brokerId port).length ≤ 512 := by omega
  exact received_of_length_le hfits

end Launch

namespace Lan

variable {ι : Type*} {l : ι → Launch} {cluster : ι → String} {port : ι → ℕ}

/-- Every broker of the network has been started, and none has heard anything. -/
def Started (l : ι → Launch) (s : Lan ι) : Prop :=
  (∀ i, (l i).start = some (s.brokers i)) ∧ ∀ i j, s.heard i j = false

theorem Started.initial {s : Lan ι} (h : Started l s)
    (hl : ∀ i, (l i).Meshed (cluster i) (port i)) :
    Initial (fun i => (hl i).config) s := by
  obtain ⟨brokers, heard⟩ := s
  have hb : brokers = fun i => (hl i).config.discovery := by
    funext i
    exact Option.some.inj ((h.1 i).symm.trans (hl i).start_eq)
  have hh : heard = fun _ _ => false := by
    funext i j
    exact h.2 i j
  rw [Initial, hb, hh]

/-- Every link of broker `i` goes to the host that a beacon came from, at the port that the broker
of this beacon advertises. -/
def LinksTo (c : ι → DiscoveryConfig) (tr : List (Event ι × Lan ι)) (i : ι) (d : BrokerDiscovery) :
    Prop :=
  ∀ uuid entry, d.dialed.lookup uuid = some entry → ∃ j senderIp,
    uuid = (c j).selfUuid ∧ .deliver j i senderIp entry.lastSeen ∈ tr.map Prod.fst ∧
    entry.address = "tcp://" ++ senderIp ++ ":" ++ toString (c j).routerPort

section

variable {c : ι → DiscoveryConfig} {tr : List (Event ι × Lan ι)} {i : ι} {d : BrokerDiscovery}

theorem LinksTo.mono (h : LinksTo c tr i d) (e : Event ι) (s : Lan ι) :
    LinksTo c (tr ++ [(e, s)]) i d := by
  intro uuid entry he
  obtain ⟨j, senderIp, hu, hmem, ha⟩ := h uuid entry he
  exact ⟨j, senderIp, hu, by simp [List.map_append, hmem], ha⟩

theorem LinksTo.onDatagram (h : LinksTo c tr i d) (src : ι) (senderIp : String) (now : Time)
    (s : Lan ι) : LinksTo c (tr ++ [(.deliver src i senderIp now, s)]) i
      (d.onDatagram senderIp (c src).beacon now).1 := by
  have hdec : decodeBeacon (c src).beacon =
      some ⟨(c src).cluster, (c src).selfUuid, (c src).routerPort⟩ :=
    decodeBeacon_encodeBeacon (c src).cluster_noBar (c src).uuid_noBar (c src).port_pos
      (c src).port_le
  rw [onDatagram_eq]
  cases hq : d.qualifying (c src).beacon with
  | none => exact h.mono _ s
  | some beacon =>
    obtain rfl := Option.some.inj (hdec.symm.trans (qualifying_eq_some.mp hq).1)
    intro uuid entry he
    by_cases hu : uuid = (c src).selfUuid
    · subst hu
      rw [AList.lookup_insert] at he
      cases he
      exact ⟨src, senderIp, rfl, by simp, rfl⟩
    · rw [AList.lookup_insert_ne hu] at he
      exact h.mono _ s uuid entry he

theorem LinksTo.expireStale (h : LinksTo c tr i d) (now : Time) :
    LinksTo c tr i (d.expireStale now).1 := by
  intro uuid entry he
  rw [lookup_dialed_expireStale] at he
  split_ifs at he
  exact h uuid entry he

theorem Linked.beacon_eq {heard : ι → Bool} (h : Linked c i d heard) : d.beacon = (c i).beacon := by
  rw [BrokerDiscovery.beacon, h.cluster, h.uuid, h.port, DiscoveryConfig.beacon]

variable [DecidableEq ι]

theorem linksTo_step {s : Lan ι} (hb : ∀ j, (s.brokers j).beacon = (c j).beacon)
    (h : ∀ i, LinksTo c tr i (s.brokers i)) (e : Event ι) (i : ι) :
    LinksTo c (tr ++ [(e, s.step e)]) i ((s.step e).brokers i) := by
  cases e with
  | deliver src dst senderIp now =>
    by_cases hi : i = dst
    · subst hi
      simp only [Lan.step, Function.update_self, hb]
      exact (h i).onDatagram src senderIp now _
    · simp only [Lan.step, Function.update_of_ne hi]
      exact (h i).mono _ _
  | expireStale broker now =>
    by_cases hi : i = broker
    · subst hi
      simp only [Lan.step, Function.update_self]
      exact ((h i).expireStale now).mono _ _
    · simp only [Lan.step, Function.update_of_ne hi]
      exact (h i).mono _ _

theorem linksTo_of_run {s₀ s : Lan ι} (h₀ : Initial c s₀) (hr : Run Step s₀ tr s) (i : ι) :
    LinksTo c tr i (s.brokers i) := by
  refine hr.traceInvariant (P := fun tr s => ∀ i, LinksTo c tr i (s.brokers i)) ?_ ?_ i
  · cases h₀
    intro i uuid entry he
    cases he
  · rintro tr t e _ hrun ht rfl
    have hlink := linked_of_reachable ⟨s₀, tr, h₀, hrun⟩
    exact linksTo_step (fun j => (hlink j).beacon_eq) ht e

end

variable [DecidableEq ι]

/-- Brokers that were started with the same cluster name and drew different names find each other:
their beacons arrive whole, of two that have heard each other exactly one dials, and it dials the
port of the first bind address of the other. -/
theorem started_brokers_link (hl : ∀ i, (l i).Meshed (cluster i) (port i))
    (hdraw : ∀ i j, (∀ k < 30, (l i).dis k = (l j).dis k) → (l i).dis2 = (l j).dis2 → i = j)
    {s₀ s : Lan ι} {tr : List (Event ι × Lan ι)} (h₀ : Started l s₀) (hr : Run Step s₀ tr s) :
    (∀ i, received (s.brokers i).beacon = (s.brokers i).beacon) ∧
    (∀ i uuid entry, (s.brokers i).dialed.lookup uuid = some entry → ∃ j senderIp,
      uuid = (l j).brokerId ∧ cluster i = cluster j ∧ (l i).brokerId < (l j).brokerId ∧
      .deliver j i senderIp entry.lastSeen ∈ tr.map Prod.fst ∧
      entry.address = "tcp://" ++ senderIp ++ ":" ++ toString (port j)) ∧
    ∀ i j, i ≠ j → cluster i = cluster j → s.heard i j = true → s.heard j i = true →
      Xor ((l j).brokerId ∈ (s.brokers i).dialed) ((l i).brokerId ∈ (s.brokers j).dialed) := by
  have hi := h₀.initial hl
  have hlink := linked_of_reachable ⟨s₀, tr, hi, hr⟩
  have hinj : ∀ {i j}, (l i).brokerId = (l j).brokerId → i = j := by
    intro i j h
    obtain ⟨hdis, hdis2⟩ := generateUUID_inj h
    exact hdraw i j hdis hdis2
  -- a table holds larger names only
  have hlt : ∀ {i uuid}, uuid ∈ (s.brokers i).dialed → (l i).brokerId < uuid := by
    intro i uuid hu
    obtain ⟨j, -, -, hlt⟩ := (hlink i).dialed uuid hu
    exact hlt
  refine ⟨fun i => ?_, fun i uuid entry he => ?_, fun i j hij hcl hheard hheard' => ?_⟩
  · rw [(hlink i).beacon_eq]
    exact (hl i).received_beacon
  · obtain ⟨j, senderIp, rfl, hmem, haddr⟩ := linksTo_of_run hi hr i uuid entry he
    have hu : (hl j).config.selfUuid ∈ (s.brokers i).dialed :=
      AList.lookup_isSome.mp (Option.isSome_iff_exists.mpr ⟨entry, he⟩)
    obtain ⟨j', hj', hcl, -⟩ := (hlink i).dialed _ hu
    obtain rfl : j = j' := hinj hj'
    exact ⟨j, senderIp, rfl, hcl, hlt hu, hmem, haddr⟩
  · obtain h | h := lt_or_gt_of_ne fun h => hij (hinj h)
    · exact .inl ⟨(hlink i).heard j hheard hcl h, fun h' => lt_asymm h (hlt h')⟩
    · exact .inr ⟨(hlink j).heard i hheard' hcl.symm h, fun h' => lt_asymm h (hlt h')⟩

def launched (second : Bool) : Launch :=
  Launch.main (fun _ => if second then 1 else 0) 0 false none

theorem launched_meshed (second : Bool) : (launched second).Meshed "default" 5555 :=
  ⟨rfl, by decide, by decide, ⟨[], "*", ["ipc:///tmp/broker.sock"], rfl, by simp⟩, by decide,
    by decide⟩

theorem started_brokers_link_launched : ∃ s₀ tr s, Started launched s₀ ∧ Run Step s₀ tr s ∧
    Xor ((launched true).brokerId ∈ (s.brokers false).dialed)
      ((launched false).brokerId ∈ (s.brokers true).dialed) := by
  have h₀ : Started launched { brokers := fun i => (launched_meshed i).config.discovery } :=
    ⟨fun i => (launched_meshed i).start_eq, fun _ _ => rfl⟩
  have hdraw : ∀ i j, (∀ k < 30, (launched i).dis k = (launched j).dis k) →
      (launched i).dis2 = (launched j).dis2 → i = j := by
    intro i j h _
    have h := h 0 (by decide)
    revert h
    revert i j
    decide
  have hr := ((Run.nil _).snoc (show Step
      { brokers := fun i => (launched_meshed i).config.discovery }
      (.deliver true false "10.0.0.5" 0) _ from rfl)).snoc
    (show Step _ (.deliver false true "10.0.0.4" 0) _ from rfl)
  exact ⟨_, _, _, h₀, hr, (started_brokers_link launched_meshed hdraw h₀ hr).2.2 false true
    (by decide) rfl rfl rfl⟩

end Lan

end ZmqPubSub
