import Mathlib.Algebra.Group.Int.Defs
import Mathlib.Data.List.TakeWhile
import Mathlib.Data.String.Basic
import ZmqPubSub.Broker

/-!
`BrokerDiscovery`: the beacons that brokers broadcast, the table of the links a broker has dialed,
and any number of brokers on one network that loses, repeats, delays and reorders beacons.
-/

namespace ZmqPubSub

open Containers TransitionSystem

namespace Discovery

def kMagic : String := "WISP"
def kVersion : String := "1"

structure Beacon where
  cluster : String
  uuid : String
  routerPort : ℕ
deriving DecidableEq, Repr

def encodeBeacon (cluster uuid : String) (routerPort : ℕ) : String :=
  kMagic ++ "|" ++ kVersion ++ "|" ++ cluster ++ "|" ++ uuid ++ "|" ++ toString routerPort

/-- `std::isspace` in the C locale. -/
def isSpace (c : Char) : Bool := c == ' ' || ('\t' ≤ c && c ≤ '\r')

def stripSign : List Char → Bool × List Char
  | '-' :: s => (true, s)
  | '+' :: s => (false, s)
  | s => (false, s)

/-- `std::stoi`: blanks, a sign, digits, and anything after them; `none` where it throws. -/
def stoi (s : List Char) : Option ℤ :=
  let (negative, rest) := stripSign (s.dropWhile isSpace)
  let digits := rest.takeWhile Char.isDigit
  if digits.isEmpty then none
  else
    let magnitude : ℤ := Nat.ofDigitChars 10 digits 0
    let value := if negative then -magnitude else magnitude
    if -2 ^ 31 ≤ value ∧ value < 2 ^ 31 then some value else none

/-- The loop over `find('|', start)` splits at every bar. -/
def decodeBeacon (data : String) : Option Beacon :=
  match data.toList.splitOn '|' with
  | [magic, version, cluster, uuid, port] =>
    if magic = kMagic.toList ∧ version = kVersion.toList then
      match stoi port with
      | none => none
      | some port =>
        if port ≤ 0 ∨ port > 65535 then none
        else some ⟨String.ofList cluster, String.ofList uuid, port.toNat⟩
    else none
  | _ => none

theorem stripSign_of_isDigit {c : Char} (hc : c.isDigit = true) (s : List Char) :
    stripSign (c :: s) = (false, c :: s) := by
  unfold stripSign
  split
  · next h => cases h; simp at hc
  · next h => cases h; simp at hc
  · rfl

theorem isSpace_of_isDigit {c : Char} (hc : c.isDigit = true) : isSpace c = false := by
  have hlow : 48 ≤ c.val.toNat := by
    simp only [Char.isDigit, ge_iff_le, Bool.and_eq_true, decide_eq_true_eq] at hc
    exact UInt32.le_iff_toNat_le.mp hc.1
  have hblank : c ≠ ' ' := by
    rintro rfl
    simp at hc
  have hcontrol : ¬ c ≤ '\r' := by
    intro h
    have h' : c.val.toNat ≤ 13 := UInt32.le_iff_toNat_le.mp h
    omega
  simp [isSpace, hblank, hcontrol]

theorem stoi_toDigits {n : ℕ} (hn : n < 2 ^ 31) : stoi (Nat.toDigits 10 n) = some (n : ℤ) := by
  have hd : ∀ c ∈ Nat.toDigits 10 n, c.isDigit = true := fun c hc =>
    Nat.isDigit_of_mem_toDigits (by decide) (by decide) hc
  have htake : (Nat.toDigits 10 n).takeWhile Char.isDigit = Nat.toDigits 10 n :=
    List.takeWhile_eq_self_iff.mpr hd
  have hval : Nat.ofDigitChars 10 (Nat.toDigits 10 n) 0 = n :=
    Nat.ofDigitChars_toDigits (by decide) (by decide)
  have hne : Nat.toDigits 10 n ≠ [] := Nat.toDigits_ne_nil
  have hstrip : stripSign ((Nat.toDigits 10 n).dropWhile isSpace) = (false, Nat.toDigits 10 n) := by
    cases hs : Nat.toDigits 10 n with
    | nil => exact absurd hs hne
    | cons c s =>
      have hc : c.isDigit = true := hd c (hs ▸ List.mem_cons_self)
      rw [List.dropWhile_cons_of_neg (by simp [isSpace_of_isDigit hc]), stripSign_of_isDigit hc]
  have hrange : (n : ℤ) < 2147483648 := by omega
  simp [stoi, hstrip, htake, hval, hne, hrange]

theorem toList_encodeBeacon (cluster uuid : String) (routerPort : ℕ) :
    (encodeBeacon cluster uuid routerPort).toList = ['|'].intercalate
      [kMagic.toList, kVersion.toList, cluster.toList, uuid.toList,
        Nat.toDigits 10 routerPort] := by
  simp [encodeBeacon, List.intercalate, toString]

theorem bar_notMem_toDigits (n : ℕ) : '|' ∉ Nat.toDigits 10 n := by
  intro h
  have hdigit := Nat.isDigit_of_mem_toDigits (by decide) (by decide) h
  simp at hdigit

theorem splitOn_fields {cluster uuid port : List Char} (hc : '|' ∉ cluster) (hu : '|' ∉ uuid)
    (hp : '|' ∉ port) :
    (['|'].intercalate [kMagic.toList, kVersion.toList, cluster, uuid, port]).splitOn '|' =
      [kMagic.toList, kVersion.toList, cluster, uuid, port] := by
  refine List.splitOn_intercalate '|' ?_ (List.cons_ne_nil _ _)
  simp only [List.mem_cons, List.not_mem_nil, or_false]
  rintro l (rfl | rfl | rfl | rfl | rfl)
  · decide
  · decide
  · exact hc
  · exact hu
  · exact hp

/-- A beacon is read back as it was written, provided no field holds a bar. -/
theorem decodeBeacon_encodeBeacon {cluster uuid : String} {routerPort : ℕ}
    (hc : '|' ∉ cluster.toList) (hu : '|' ∉ uuid.toList) (hpos : 0 < routerPort)
    (hle : routerPort ≤ 65535) :
    decodeBeacon (encodeBeacon cluster uuid routerPort) = some ⟨cluster, uuid, routerPort⟩ := by
  have hsplit : (encodeBeacon cluster uuid routerPort).toList.splitOn '|' =
      [kMagic.toList, kVersion.toList, cluster.toList, uuid.toList,
        Nat.toDigits 10 routerPort] := by
    rw [toList_encodeBeacon]
    exact splitOn_fields hc hu (bar_notMem_toDigits routerPort)
  have hstoi : stoi (Nat.toDigits 10 routerPort) = some (routerPort : ℤ) := stoi_toDigits (by omega)
  have hrange : ¬ ((routerPort : ℤ) ≤ 0 ∨ (routerPort : ℤ) > 65535) := by omega
  simp only [decodeBeacon, hsplit, hstoi, and_self, if_true, if_neg hrange, String.ofList_toList,
    Int.toNat_natCast]

end Discovery

open Discovery

/-- What a broker is started with, such that its beacons can be read. -/
structure DiscoveryConfig where
  cluster : String
  selfUuid : String
  routerPort : ℕ
  cluster_noBar : '|' ∉ cluster.toList
  uuid_noBar : '|' ∉ selfUuid.toList
  port_pos : 0 < routerPort
  port_le : routerPort ≤ 65535

def DiscoveryConfig.beacon (c : DiscoveryConfig) : String :=
  encodeBeacon c.cluster c.selfUuid c.routerPort

structure PeerEntry where
  address : String
  lastSeen : Time
deriving DecidableEq, Repr

/-- The datagrams and names are byte strings, one character to a byte. -/
structure BrokerDiscovery where
  cluster : String
  selfUuid : String
  routerPort : ℕ
  /-- The links this broker initiated, by the uuid of the other broker. -/
  dialed : Table String PeerEntry := ∅

def DiscoveryConfig.discovery (c : DiscoveryConfig) : BrokerDiscovery where
  cluster := c.cluster
  selfUuid := c.selfUuid
  routerPort := c.routerPort

namespace BrokerDiscovery

def peerTimeout : Time := seconds 5

variable (d : BrokerDiscovery)

def beacon : String := encodeBeacon d.cluster d.selfUuid d.routerPort

/-- With the call of `dial`, if there is one. -/
def onDatagram (senderIp data : String) (now : Time) :
    BrokerDiscovery × Option (String × String) :=
  match decodeBeacon data with
  | none => (d, none)
  | some beacon =>
    if beacon.cluster ≠ d.cluster then (d, none)
    else if beacon.uuid = d.selfUuid then (d, none)
    else if ¬ d.selfUuid < beacon.uuid then (d, none)
    else
      let address := "tcp://" ++ senderIp ++ ":" ++ toString beacon.routerPort
      -- a known entry gets the new address and time
      ({ d with dialed := d.dialed.insert beacon.uuid ⟨address, now⟩ },
        if beacon.uuid ∈ d.dialed then none else some (beacon.uuid, address))

/-- With the peers for which `drop` is called. -/
def expireStale (now : Time) : BrokerDiscovery × List String :=
  let lost := (d.dialed.entries.filter fun e => now - e.2.lastSeen > peerTimeout).map Sigma.fst
  ({ d with dialed := lost.foldl (fun dialed uuid => dialed.erase uuid) d.dialed }, lost)

/-- The beacon in a datagram, if it is one that makes this broker the initiator of a link. -/
def qualifying (data : String) : Option Beacon :=
  (decodeBeacon data).filter fun beacon =>
    beacon.cluster = d.cluster ∧ beacon.uuid ≠ d.selfUuid ∧ d.selfUuid < beacon.uuid

def dialAddress (senderIp : String) (beacon : Beacon) : String :=
  "tcp://" ++ senderIp ++ ":" ++ toString beacon.routerPort

variable {d}

theorem qualifying_eq_some {data : String} {beacon : Beacon} :
    d.qualifying data = some beacon ↔ decodeBeacon data = some beacon ∧
      beacon.cluster = d.cluster ∧ beacon.uuid ≠ d.selfUuid ∧ d.selfUuid < beacon.uuid := by
  simp [qualifying, Option.filter_eq_some_iff]

theorem onDatagram_eq (senderIp data : String) (now : Time) :
    d.onDatagram senderIp data now =
      match d.qualifying data with
      | none => (d, none)
      | some beacon =>
        ({ d with dialed := d.dialed.insert beacon.uuid ⟨dialAddress senderIp beacon, now⟩ },
          if beacon.uuid ∈ d.dialed then none
          else some (beacon.uuid, dialAddress senderIp beacon)) := by
  unfold onDatagram qualifying
  cases hd : decodeBeacon data with
  | none => rfl
  | some beacon =>
    dsimp only
    by_cases hc : beacon.cluster = d.cluster
    swap
    · rw [if_pos hc, Option.filter_some, if_neg (by simp [hc])]
    by_cases hs : beacon.uuid = d.selfUuid
    · rw [if_neg (not_not.mpr hc), if_pos hs, Option.filter_some, if_neg (by simp [hs])]
    by_cases hlt : d.selfUuid < beacon.uuid
    · have hq : beacon.cluster = d.cluster ∧ beacon.uuid ≠ d.selfUuid ∧ d.selfUuid < beacon.uuid :=
        ⟨hc, hs, hlt⟩
      rw [if_neg (not_not.mpr hc), if_neg hs, if_neg (not_not.mpr hlt), Option.filter_some,
        decide_eq_true hq]
      rfl
    · rw [if_neg (not_not.mpr hc), if_neg hs, if_pos hlt, Option.filter_some,
        if_neg (by simp [hlt])]

/-- What a broker does with the beacon of another. -/
theorem onDatagram_beacon (senderIp : String) (c : DiscoveryConfig) (now : Time) :
    (d.cluster = c.cluster ∧ d.selfUuid < c.selfUuid ∧
      ∃ entry, d.onDatagram senderIp c.beacon now =
        ({ d with dialed := d.dialed.insert c.selfUuid entry },
          if c.selfUuid ∈ d.dialed then none else some (c.selfUuid, entry.address))) ∨
    (¬ (d.cluster = c.cluster ∧ d.selfUuid < c.selfUuid) ∧
      d.onDatagram senderIp c.beacon now = (d, none)) := by
  have hdec : decodeBeacon c.beacon = some ⟨c.cluster, c.selfUuid, c.routerPort⟩ :=
    decodeBeacon_encodeBeacon c.cluster_noBar c.uuid_noBar c.port_pos c.port_le
  rw [onDatagram_eq]
  by_cases h : d.cluster = c.cluster ∧ d.selfUuid < c.selfUuid
  · have hq : d.qualifying c.beacon = some ⟨c.cluster, c.selfUuid, c.routerPort⟩ :=
      qualifying_eq_some.mpr ⟨hdec, h.1.symm, h.2.ne', h.2⟩
    rw [hq]
    exact .inl ⟨h.1, h.2, ⟨_, now⟩, rfl⟩
  · have hq : d.qualifying c.beacon = none := by
      rw [Option.eq_none_iff_forall_ne_some]
      intro beacon hb
      obtain ⟨hb, hcl, -, hlt⟩ := qualifying_eq_some.mp hb
      obtain rfl := Option.some.inj (hdec.symm.trans hb)
      exact h ⟨hcl.symm, hlt⟩
    rw [hq]
    exact .inr ⟨h, rfl⟩

theorem mem_foldl_erase {ν : Type*} (t : Table String ν) (lost : List String) (uuid : String) :
    uuid ∈ lost.foldl (fun t uuid => t.erase uuid) t ↔ uuid ∈ t ∧ uuid ∉ lost := by
  induction lost generalizing t with
  | nil => simp
  | cons u lost ih =>
    rw [List.foldl_cons, ih, AList.mem_erase, List.mem_cons, not_or]
    tauto

theorem lookup_foldl_erase {ν : Type*} (t : Table String ν) (lost : List String) (uuid : String) :
    (lost.foldl (fun t uuid => t.erase uuid) t).lookup uuid =
      if uuid ∈ lost then none else t.lookup uuid := by
  induction lost generalizing t with
  | nil => simp
  | cons u lost ih =>
    rw [List.foldl_cons, ih]
    by_cases hu : uuid = u
    · subst hu
      simp
    · rw [AList.lookup_erase_ne hu]
      simp [hu]

theorem mem_expireStale (now : Time) (uuid : String) :
    uuid ∈ (d.expireStale now).2 ↔
      ∃ entry, d.dialed.lookup uuid = some entry ∧ now - entry.lastSeen > peerTimeout := by
  simp only [expireStale, List.mem_map, List.mem_filter, decide_eq_true_eq]
  constructor
  · rintro ⟨⟨u, entry⟩, ⟨he, hlate⟩, rfl⟩
    exact ⟨entry, AList.mem_lookup_iff.mpr he, hlate⟩
  · rintro ⟨entry, he, hlate⟩
    exact ⟨⟨uuid, entry⟩, ⟨AList.mem_lookup_iff.mp he, hlate⟩, rfl⟩

theorem nodup_expireStale (now : Time) : (d.expireStale now).2.Nodup :=
  d.dialed.nodupKeys.sublist List.filter_sublist

theorem lookup_dialed_expireStale (now : Time) (uuid : String) :
    (d.expireStale now).1.dialed.lookup uuid =
      if uuid ∈ (d.expireStale now).2 then none else d.dialed.lookup uuid :=
  lookup_foldl_erase d.dialed _ uuid

theorem mem_dialed_expireStale (now : Time) (uuid : String) :
    uuid ∈ (d.expireStale now).1.dialed ↔ uuid ∈ d.dialed ∧ uuid ∉ (d.expireStale now).2 :=
  mem_foldl_erase d.dialed _ uuid

end BrokerDiscovery

/-- Brokers on one network. A beacon says the same whenever it was sent, so that it can be delivered
at any moment and any number of times covers every loss, repetition, delay and reordering. -/
structure Lan (ι : Type*) where
  brokers : ι → BrokerDiscovery
  /-- `heard i j`: `i` has processed a beacon of `j` and not dropped `j` since. -/
  heard : ι → ι → Bool := fun _ _ => false

namespace Lan

variable {ι : Type*}

inductive Event (ι : Type*)
  | deliver (src dst : ι) (senderIp : String) (now : Time)
  | expireStale (broker : ι) (now : Time)

def Initial (c : ι → DiscoveryConfig) (s : Lan ι) : Prop :=
  s = { brokers := fun i => (c i).discovery }

/-- What broker `i` has dialed: brokers of its cluster with a larger uuid, and all of these that it
has heard. -/
structure Linked (c : ι → DiscoveryConfig) (i : ι) (d : BrokerDiscovery) (heard : ι → Bool) :
    Prop where
  cluster : d.cluster = (c i).cluster
  uuid : d.selfUuid = (c i).selfUuid
  port : d.routerPort = (c i).routerPort
  dialed : ∀ uuid ∈ d.dialed, ∃ j, uuid = (c j).selfUuid ∧ (c i).cluster = (c j).cluster ∧
    (c i).selfUuid < uuid
  heard : ∀ j, heard j = true → (c i).cluster = (c j).cluster →
    (c i).selfUuid < (c j).selfUuid → (c j).selfUuid ∈ d.dialed

section

variable [DecidableEq ι] (s : Lan ι)

def step : Event ι → Lan ι
  | .deliver src dst senderIp now =>
    let d := s.brokers dst
    { brokers := Function.update s.brokers dst
        (d.onDatagram senderIp (s.brokers src).beacon now).1
      heard := Function.update s.heard dst (Function.update (s.heard dst) src true) }
  | .expireStale broker now =>
    let r := (s.brokers broker).expireStale now
    { brokers := Function.update s.brokers broker r.1
      heard := Function.update s.heard broker fun j =>
        s.heard broker j && (s.brokers j).selfUuid ∉ r.2 }

end

def Step [DecidableEq ι] (s : Lan ι) (e : Event ι) (s' : Lan ι) : Prop := s' = s.step e

section

variable {c : ι → DiscoveryConfig} {i : ι} {d : BrokerDiscovery} {heard : ι → Bool}

theorem Linked.expireStale (h : Linked c i d heard) (now : Time) :
    Linked c i (d.expireStale now).1
      fun j => heard j && (c j).selfUuid ∉ (d.expireStale now).2 := by
  refine ⟨h.cluster, h.uuid, h.port, fun uuid hu => ?_, fun j hj hcj hlj => ?_⟩
  · exact h.dialed uuid (d.mem_dialed_expireStale now uuid |>.mp hu).1
  · rw [Bool.and_eq_true, decide_eq_true_eq] at hj
    exact d.mem_dialed_expireStale now _ |>.mpr ⟨h.heard j hj.1 hcj hlj, hj.2⟩

variable [DecidableEq ι]

theorem Linked.onDatagram (h : Linked c i d heard) (src : ι) (senderIp : String) (now : Time) :
    Linked c i (d.onDatagram senderIp (c src).beacon now).1 (Function.update heard src true) := by
  obtain ⟨hc, hlt, entry, he⟩ | ⟨hno, he⟩ := d.onDatagram_beacon senderIp (c src) now
  · rw [h.cluster] at hc
    rw [h.uuid] at hlt
    rw [he]
    refine ⟨h.cluster, h.uuid, h.port, fun uuid hu => ?_, fun j hj hcj hlj => ?_⟩
    · obtain rfl | hu := AList.mem_insert _ |>.mp hu
      · exact ⟨src, rfl, hc, hlt⟩
      · exact h.dialed uuid hu
    · refine AList.mem_insert _ |>.mpr ?_
      by_cases hjs : j = src
      · exact .inl (by rw [hjs])
      · rw [Function.update_of_ne hjs] at hj
        exact .inr (h.heard j hj hcj hlj)
  · rw [he]
    refine ⟨h.cluster, h.uuid, h.port, h.dialed, fun j hj hcj hlj => ?_⟩
    by_cases hjs : j = src
    · -- the beacon of `src` was not one to dial
      subst hjs
      exact absurd ⟨h.cluster.trans hcj, h.uuid ▸ hlj⟩ hno
    · rw [Function.update_of_ne hjs] at hj
      exact h.heard j hj hcj hlj

theorem linked_step {s : Lan ι} (h : ∀ i, Linked c i (s.brokers i) (s.heard i)) (e : Event ι)
    (i : ι) : Linked c i ((s.step e).brokers i) ((s.step e).heard i) := by
  have hb : ∀ j, (s.brokers j).beacon = (c j).beacon := by
    intro j
    rw [BrokerDiscovery.beacon, (h j).cluster, (h j).uuid, (h j).port, DiscoveryConfig.beacon]
  have hu : ∀ j, (s.brokers j).selfUuid = (c j).selfUuid := fun j => (h j).uuid
  cases e with
  | deliver src dst senderIp now =>
    by_cases hi : i = dst
    · subst hi
      simp only [Lan.step, Function.update_self, hb]
      exact (h i).onDatagram src senderIp now
    · simp only [Lan.step, Function.update_of_ne hi]
      exact h i
  | expireStale broker now =>
    by_cases hi : i = broker
    · subst hi
      simp only [Lan.step, Function.update_self, hu]
      exact (h i).expireStale now
    · simp only [Lan.step, Function.update_of_ne hi]
      exact h i

theorem linked_of_reachable {s : Lan ι} (h : Reachable (Initial c) Step s) (i : ι) :
    Linked c i (s.brokers i) (s.heard i) := by
  refine h.invariant (P := fun s => ∀ i, Linked c i (s.brokers i) (s.heard i)) ?_ ?_ i
  · rintro s rfl i
    exact ⟨rfl, rfl, rfl, fun uuid hu => absurd hu (AList.notMem_empty uuid), by simp⟩
  · rintro s e _ hs rfl i
    exact linked_step hs e i

/-- Discovery forms at most one link per pair of brokers, and exactly one once the two have heard
each other. -/
theorem one_link_per_pair (hc : Function.Injective fun i => (c i).selfUuid) {s : Lan ι}
    (h : Reachable (Initial c) Step s) :
    (∀ i, ∀ uuid ∈ (s.brokers i).dialed, ∃ j, uuid = (c j).selfUuid) ∧
    (∀ i j, (c j).selfUuid ∈ (s.brokers i).dialed → (c i).cluster = (c j).cluster ∧
      (c i).selfUuid < (c j).selfUuid ∧ (c i).selfUuid ∉ (s.brokers j).dialed) ∧
    (∀ i, (c i).selfUuid ∉ (s.brokers i).dialed ∧ ∀ src senderIp now,
      ∀ call ∈ ((s.brokers i).onDatagram senderIp (c src).beacon now).2,
        call.1 ≠ (c i).selfUuid) ∧
    (∀ i j, i ≠ j → (c i).cluster = (c j).cluster → s.heard i j = true → s.heard j i = true →
      Xor ((c j).selfUuid ∈ (s.brokers i).dialed) ((c i).selfUuid ∈ (s.brokers j).dialed)) := by
  have hlink := linked_of_reachable h
  have hlt : ∀ {i uuid}, uuid ∈ (s.brokers i).dialed → (c i).selfUuid < uuid := by
    intro i uuid hu
    obtain ⟨j, -, -, hlt⟩ := (hlink i).dialed uuid hu
    exact hlt
  refine ⟨fun i uuid hu => ?_, fun i j hu => ?_, fun i => ⟨fun hu => lt_irrefl _ (hlt hu), ?_⟩,
    fun i j hij hcl hi hj => ?_⟩
  · obtain ⟨j, hj, -⟩ := (hlink i).dialed uuid hu
    exact ⟨j, hj⟩
  · obtain ⟨j', hj, hcl, hij⟩ := (hlink i).dialed _ hu
    obtain rfl : j = j' := hc hj
    exact ⟨hcl, hij, fun hji => lt_asymm hij (hlt hji)⟩
  · intro src senderIp now call hcall
    have hui : (s.brokers i).selfUuid = (c i).selfUuid := (hlink i).uuid
    obtain ⟨-, hlt, entry, he⟩ | ⟨-, he⟩ :=
      (s.brokers i).onDatagram_beacon senderIp (c src) now
    · rw [he] at hcall
      split_ifs at hcall
      · cases hcall
      · obtain rfl := Option.some.inj hcall
        exact hui ▸ hlt.ne'
    · rw [he] at hcall
      cases hcall
  · obtain hij | hji := lt_or_gt_of_ne (hc.ne hij)
    · exact .inl ⟨(hlink i).heard j hi hcl hij, fun hji => lt_asymm hij (hlt hji)⟩
    · exact .inr ⟨(hlink j).heard i hj hcl.symm hji, fun hij => lt_asymm hji (hlt hij)⟩

end

def twoBrokers : Bool → DiscoveryConfig
  | false => ⟨"default", "aaa", 5555, by decide, by decide, by decide, by decide⟩
  | true => ⟨"default", "zzz", 6000, by decide, by decide, by decide, by decide⟩

theorem one_link_per_pair_twoBrokers : ∃ s, Reachable (Initial twoBrokers) Step s ∧
    s.heard false true = true ∧ s.heard true false = true ∧
    Xor ((twoBrokers true).selfUuid ∈ (s.brokers false).dialed)
      ((twoBrokers false).selfUuid ∈ (s.brokers true).dialed) := by
  have hc : Function.Injective fun i => (twoBrokers i).selfUuid := by
    intro i j h
    cases i <;> cases j <;> simp_all [twoBrokers]
  have h : Reachable (Initial twoBrokers) Step _ := ⟨_, _, rfl,
    ((Run.nil _).snoc (show Step _ (.deliver true false "10.0.0.5" 0) _ from rfl)).snoc
      (show Step _ (.deliver false true "10.0.0.4" 0) _ from rfl)⟩
  exact ⟨_, h, rfl, rfl, (one_link_per_pair hc h).2.2.2 false true (by decide) rfl rfl rfl⟩

end Lan

end ZmqPubSub
