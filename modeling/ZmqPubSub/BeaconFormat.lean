import ZmqPubSub.Discovery
import ZmqPubSub.Text

/-!
The splitting loop of `decodeBeacon`, which datagrams it accepts, and what becomes of a beacon that
does not fit into the receive buffer.
-/

namespace ZmqPubSub.Discovery

open Text

/-- `s.find('|', start)`. -/
def findBar (s : List Char) (start : ℕ) : Option ℕ :=
  ((s.drop start).idxOf? '|').map fun i => start + i

def fieldsFrom (s : List Char) : ℕ → ℕ → List (List Char)
  | 0, _ => []
  | fuel + 1, start =>
    match findBar s start with
    | none => [s.drop start]
    | some pos => (s.drop start).take (pos - start) :: fieldsFrom s fuel (pos + 1)

def fields (s : List Char) : List (List Char) := fieldsFrom s (s.length + 1) 0

theorem fieldsFrom_eq (s : List Char) {fuel start : ℕ} (hf : (s.drop start).length < fuel) :
    fieldsFrom s fuel start = (s.drop start).splitOn '|' := by
  induction fuel generalizing start with
  | zero => exact absurd hf (Nat.not_lt_zero _)
  | succ fuel ih =>
    rw [fieldsFrom, findBar]
    cases hi : (s.drop start).idxOf? '|' with
    | none => exact (List.splitOn_eq_singleton (List.idxOf?_eq_none_iff.mp hi)).symm
    | some i =>
      -- the field that ends at the bar, and what comes after the bar
      obtain ⟨before, after, hs, hlen, hbar⟩ := eq_append_cons_of_idxOf? hi
      have hrest : s.drop (start + i + 1) = after := by
        rw [Nat.add_assoc, ← List.drop_drop, hs, ← hlen, List.drop_length_add_append,
          List.drop_succ_cons, List.drop_zero]
      have hshort : (s.drop (start + i + 1)).length < fuel := by
        have h := congrArg List.length hs
        rw [List.length_append, List.length_cons] at h
        rw [hrest]
        omega
      simp only [Option.map_some, Nat.add_sub_cancel_left]
      rw [ih hshort, hrest, hs, List.splitOn_append_cons_self_of_not_mem hbar, ← hlen,
        List.take_left]

theorem fields_eq_splitOn (s : List Char) : fields s = s.splitOn '|' :=
  fieldsFrom_eq s (Nat.lt_succ_self _)

/-- `WISP|1|cluster|uuid|port`. -/
def frame (cluster uuid port : List Char) : List Char :=
  ['|'].intercalate [kMagic.toList, kVersion.toList, cluster, uuid, port]

variable {cluster uuid port : List Char}

theorem toList_encodeBeacon_frame (cluster uuid : String) (routerPort : ℕ) :
    (encodeBeacon cluster uuid routerPort).toList =
      frame cluster.toList uuid.toList (Nat.toDigits 10 routerPort) :=
  toList_encodeBeacon cluster uuid routerPort

theorem frame_eq_append (cluster uuid port : List Char) :
    frame cluster uuid port = frame cluster uuid [] ++ port := by
  simp [frame, List.intercalate]

theorem length_frame (cluster uuid port : List Char) :
    (frame cluster uuid port).length = 9 + cluster.length + uuid.length + port.length := by
  have hmagic : kMagic.toList.length = 4 := by decide
  have hversion : kVersion.toList.length = 1 := by decide
  simp only [frame, List.intercalate, List.intersperse, List.flatten_cons, List.flatten_nil,
    List.length_append, List.length_cons, List.length_nil, hmagic, hversion]
  omega

theorem splitOn_frame (hc : '|' ∉ cluster) (hu : '|' ∉ uuid) (hp : '|' ∉ port) :
    (frame cluster uuid port).splitOn '|' =
      [kMagic.toList, kVersion.toList, cluster, uuid, port] :=
  splitOn_fields hc hu hp

theorem count_frame (hc : '|' ∉ cluster) (hu : '|' ∉ uuid) (hp : '|' ∉ port) :
    (frame cluster uuid port).count '|' = 4 := by
  have h := length_splitOn '|' (frame cluster uuid port)
  rw [splitOn_frame hc hu hp] at h
  exact (Nat.succ.inj h).symm

/-- The fields of a beacon's text, as the loop finds them, and the beacon read from them. -/
theorem beacon_roundTrips {cluster uuid : String} {routerPort : ℕ}
    (hc : '|' ∉ cluster.toList) (hu : '|' ∉ uuid.toList) (hpos : 0 < routerPort)
    (hle : routerPort ≤ 65535) :
    fields (encodeBeacon cluster uuid routerPort).toList =
        [kMagic.toList, kVersion.toList, cluster.toList, uuid.toList,
          (toString routerPort).toList] ∧
      decodeBeacon (encodeBeacon cluster uuid routerPort) = some ⟨cluster, uuid, routerPort⟩ := by
  constructor
  · have hport : (toString routerPort).toList = Nat.toDigits 10 routerPort := by simp [toString]
    rw [fields_eq_splitOn, toList_encodeBeacon_frame, hport]
    exact splitOn_frame hc hu (bar_notMem_toDigits routerPort)
  · exact decodeBeacon_encodeBeacon hc hu hpos hle

theorem beacon_roundTrips_empty :
    fields (encodeBeacon "" "" 65535).toList =
        [kMagic.toList, kVersion.toList, "".toList, "".toList, (toString 65535).toList] ∧
      decodeBeacon (encodeBeacon "" "" 65535) = some ⟨"", "", 65535⟩ :=
  beacon_roundTrips (by decide) (by decide) (by decide) (by decide)

/-- A datagram is decoded exactly when it is framed like a beacon and `std::stoi` reads a port. -/
theorem decodeBeacon_eq_some {d : String} {b : Beacon} :
    decodeBeacon d = some b ↔ ∃ cluster uuid port, ∃ n : ℤ, d.toList = frame cluster uuid port ∧
      '|' ∉ cluster ∧ '|' ∉ uuid ∧ '|' ∉ port ∧ stoi port = some n ∧ 0 < n ∧ n ≤ 65535 ∧
      b = ⟨String.ofList cluster, String.ofList uuid, n.toNat⟩ := by
  constructor
  · intro h
    unfold decodeBeacon at h
    split at h
    · next magic version cluster uuid port hsplit =>
      split_ifs at h with hhead
      split at h
      · cases h
      · next n hn =>
        split_ifs at h with hrange
        have hbar : ∀ f ∈ [magic, version, cluster, uuid, port], '|' ∉ f := fun f hf =>
          notMem_of_mem_splitOn (hsplit ▸ hf)
        refine ⟨cluster, uuid, port, n, ?_, hbar _ (by simp), hbar _ (by simp), hbar _ (by simp),
          hn, by omega, by omega, (Option.some.inj h).symm⟩
        rw [frame, ← hhead.1, ← hhead.2, ← hsplit, List.intercalate_splitOn]
    · cases h
  · rintro ⟨cluster, uuid, port, n, hd, hc, hu, hp, hn, hpos, hle, rfl⟩
    have hrange : ¬ (n ≤ 0 ∨ n > 65535) := by omega
    simp only [decodeBeacon, hd, splitOn_frame hc hu hp, hn, and_self, if_true, if_neg hrange]

theorem encodeBeacon_eq_iff {d : String} {n : ℕ} :
    encodeBeacon (String.ofList cluster) (String.ofList uuid) n = d ↔
      d.toList = frame cluster uuid (Nat.toDigits 10 n) := by
  rw [← String.toList_inj, toList_encodeBeacon_frame, String.toList_ofList, String.toList_ofList,
    eq_comm]

/-- The parts of a text from which `std::stoi` reads a positive number. -/
structure Reading where
  blanks : List Char
  sign : List Char
  zeros : List Char
  digits : List Char
  rest : List Char
  blanks_space : ∀ c ∈ blanks, isSpace c = true
  sign_plus : sign = [] ∨ sign = ['+']
  zeros_zero : ∀ c ∈ zeros, c = '0'
  digits_plain : PlainDecimal digits
  rest_head : ∀ c ∈ rest.head?, c.isDigit = false

namespace Reading

def text (r : Reading) : List Char := r.blanks ++ (r.sign ++ (r.zeros ++ r.digits ++ r.rest))

def value (r : Reading) : ℕ := Nat.ofDigitChars 10 r.digits 0

theorem toDigits_value (r : Reading) : Nat.toDigits 10 r.value = r.digits :=
  toDigits_ofDigitChars r.digits_plain

end Reading

theorem ofDigitChars_zeros_append {zeros : List Char} (hz : ∀ c ∈ zeros, c = '0')
    (digits : List Char) :
    Nat.ofDigitChars 10 (zeros ++ digits) 0 = Nat.ofDigitChars 10 digits 0 := by
  induction zeros with
  | nil => rfl
  | cons c zeros ih =>
    obtain rfl := hz c List.mem_cons_self
    rw [List.cons_append, Nat.ofDigitChars_cons]
    exact ih fun c hc => hz c (List.mem_cons_of_mem _ hc)

theorem stoi_text (r : Reading) (h : r.value < 2 ^ 31) : stoi r.text = some (r.value : ℤ) := by
  have hnumber : ∀ c ∈ r.zeros ++ r.digits, c.isDigit = true := by
    intro c hc
    rcases List.mem_append.mp hc with hc | hc
    · rw [r.zeros_zero c hc]
      decide
    · exact r.digits_plain.2.1 c hc
  have hne : r.zeros ++ r.digits ≠ [] := List.append_ne_nil_of_right_ne_nil _ r.digits_plain.1
  obtain ⟨c, s, hcs⟩ := List.exists_cons_of_ne_nil hne
  have hc : c.isDigit = true := hnumber c (hcs ▸ List.mem_cons_self)
  -- the blanks go, then the sign
  have hdrop : r.text.dropWhile isSpace = r.sign ++ (r.zeros ++ r.digits ++ r.rest) := by
    rw [Reading.text, List.dropWhile_append_of_pos r.blanks_space]
    rcases r.sign_plus with hs | hs
    · rw [hs, List.nil_append, hcs, List.cons_append,
        List.dropWhile_cons_of_neg (by simp [isSpace_of_isDigit hc])]
    · rw [hs, List.singleton_append, List.dropWhile_cons_of_neg (by decide)]
  have hstrip : stripSign (r.text.dropWhile isSpace) = (false, r.zeros ++ r.digits ++ r.rest) := by
    rw [hdrop]
    rcases r.sign_plus with hs | hs
    · rw [hs, List.nil_append, hcs, List.cons_append, stripSign_of_isDigit hc]
    · rw [hs]
      rfl
  have htake : (r.zeros ++ r.digits ++ r.rest).takeWhile Char.isDigit = r.zeros ++ r.digits := by
    rw [List.takeWhile_append_of_pos hnumber]
    cases hr : r.rest with
    | nil => simp
    | cons x rest =>
      have hx : x.isDigit = false := r.rest_head x (hr ▸ rfl)
      rw [List.takeWhile_cons_of_neg (by simp [hx]), List.append_nil]
  have hvalue : Nat.ofDigitChars 10 (r.zeros ++ r.digits) 0 = r.value :=
    ofDigitChars_zeros_append r.zeros_zero r.digits
  have hrange : -2 ^ 31 ≤ (r.value : ℤ) ∧ (r.value : ℤ) < 2 ^ 31 := by omega
  simp only [stoi, hstrip, htake, hvalue, List.isEmpty_eq_false_iff.mpr hne, if_pos hrange,
    Bool.false_eq_true, if_false]

theorem eq_of_stripSign {s rest : List Char} (h : stripSign s = (false, rest)) :
    s = rest ∨ s = '+' :: rest := by
  unfold stripSign at h
  split at h
  · cases h
  · cases h
    exact .inr rfl
  · cases h
    exact .inl rfl

theorem exists_reading {t : List Char} {n : ℤ} (h : stoi t = some n) (hn : 0 < n) :
    ∃ r : Reading, r.text = t ∧ n = r.value := by
  obtain ⟨⟨negative, s⟩, hstrip⟩ : ∃ p, stripSign (t.dropWhile isSpace) = p := ⟨_, rfl⟩
  simp only [stoi, hstrip] at h
  split_ifs at h with hempty hneg hrange hrange
  · -- a minus sign gives no positive number
    cases h
    omega
  obtain rfl : negative = false := Bool.eq_false_of_not_eq_true hneg
  obtain ⟨number, hnumber⟩ : ∃ l, s.takeWhile Char.isDigit = l := ⟨_, rfl⟩
  rw [hnumber] at h
  have hzeros : ∀ c ∈ number.takeWhile (· == '0'), c = '0' := fun c hc =>
    eq_of_beq (List.mem_takeWhile_imp (p := (· == '0')) hc)
  have hsplit : number.takeWhile (· == '0') ++ number.dropWhile (· == '0') = number :=
    List.takeWhile_append_dropWhile
  have hvalue : n = Nat.ofDigitChars 10 (number.dropWhile (· == '0')) 0 := by
    rw [← ofDigitChars_zeros_append hzeros, hsplit]
    exact (Option.some.inj h).symm
  have hplain : PlainDecimal (number.dropWhile (· == '0')) := by
    refine ⟨?_, ?_, ?_⟩
    · intro hnil
      rw [hnil, Nat.ofDigitChars_nil] at hvalue
      omega
    · intro c hc
      have hmem : c ∈ s.takeWhile Char.isDigit := hnumber ▸ (List.dropWhile_sublist _).mem hc
      exact List.mem_takeWhile_imp hmem
    · intro hhead
      have := List.head?_dropWhile_not (· == '0') number
      rw [hhead] at this
      simp at this
  obtain ⟨sign, hsign, hs⟩ :
      ∃ sign, (sign = [] ∨ sign = ['+']) ∧ sign ++ s = t.dropWhile isSpace := by
    rcases eq_of_stripSign hstrip with hs | hs
    · exact ⟨[], .inl rfl, hs.symm⟩
    · exact ⟨['+'], .inr rfl, hs.symm⟩
  refine ⟨⟨t.takeWhile isSpace, sign, number.takeWhile (· == '0'), number.dropWhile (· == '0'),
    s.dropWhile Char.isDigit, fun c hc => List.mem_takeWhile_imp hc, hsign, hzeros, hplain, ?_⟩,
    ?_, hvalue⟩
  · intro c hc
    have := List.head?_dropWhile_not Char.isDigit s
    rw [Option.mem_def.mp hc] at this
    simpa using this
  · simp only [Reading.text]
    rw [hsplit, ← hnumber, List.takeWhile_append_dropWhile, hs, List.takeWhile_append_dropWhile]

/-- The datagrams that `decodeBeacon` accepts: any blanks, plus sign and zeros in front of the port
and any text behind it are let through. -/
theorem decodeBeacon_eq_some_iff_reading {d : String} {b : Beacon} :
    decodeBeacon d = some b ↔ ∃ cluster uuid, ∃ r : Reading, d.toList = frame cluster uuid r.text ∧
      '|' ∉ cluster ∧ '|' ∉ uuid ∧ '|' ∉ r.text ∧ r.value ≤ 65535 ∧
      b = ⟨String.ofList cluster, String.ofList uuid, r.value⟩ := by
  rw [decodeBeacon_eq_some]
  constructor
  · rintro ⟨cluster, uuid, port, n, hd, hc, hu, hp, hn, hpos, hle, hb⟩
    obtain ⟨r, rfl, rfl⟩ := exists_reading hn hpos
    exact ⟨cluster, uuid, r, hd, hc, hu, hp, by omega, hb⟩
  · rintro ⟨cluster, uuid, r, hd, hc, hu, hp, hle, hb⟩
    have hpos : 0 < r.value := r.digits_plain.pos
    exact ⟨cluster, uuid, r.text, r.value, hd, hc, hu, hp, stoi_text r (by omega), by omega,
      by omega, hb⟩

/-- Exactly the encodings of beacons are accepted, and decoding loses nothing of them. -/
def AcceptsFormat (d : String) : Prop :=
  ((decodeBeacon d).isSome ↔ ∃ cluster uuid routerPort, '|' ∉ cluster.toList ∧ '|' ∉ uuid.toList ∧
      0 < routerPort ∧ routerPort ≤ 65535 ∧ d = encodeBeacon cluster uuid routerPort) ∧
    ∀ b, decodeBeacon d = some b → encodeBeacon b.cluster b.uuid b.routerPort = d

/-- Nothing stands before or behind the digits of the port. -/
def PlainPort (d : String) : Prop :=
  ∀ cluster uuid, ∀ r : Reading, d.toList = frame cluster uuid r.text → '|' ∉ cluster →
    '|' ∉ uuid → '|' ∉ r.text → r.value ≤ 65535 → r.text = r.digits

theorem PlainPort.encodeBeacon_eq {d : String} (h : PlainPort d) {b : Beacon}
    (hb : decodeBeacon d = some b) : encodeBeacon b.cluster b.uuid b.routerPort = d := by
  obtain ⟨cluster, uuid, r, hd, hc, hu, hp, hle, rfl⟩ := decodeBeacon_eq_some_iff_reading.mp hb
  rw [encodeBeacon_eq_iff, r.toDigits_value, ← h cluster uuid r hd hc hu hp hle]
  exact hd

theorem decodeBeacon_noBar {d : String} {b : Beacon} (hb : decodeBeacon d = some b) :
    '|' ∉ b.cluster.toList ∧ '|' ∉ b.uuid.toList ∧ 0 < b.routerPort ∧ b.routerPort ≤ 65535 := by
  obtain ⟨cluster, uuid, r, -, hc, hu, -, hle, rfl⟩ := decodeBeacon_eq_some_iff_reading.mp hb
  exact ⟨by simpa using hc, by simpa using hu, r.digits_plain.pos, hle⟩

theorem acceptsFormat_iff (d : String) : AcceptsFormat d ↔ PlainPort d := by
  constructor
  · rintro ⟨-, hback⟩ cluster uuid r hd hc hu hp hle
    have hb := hback _ (decodeBeacon_eq_some_iff_reading.mpr
      ⟨cluster, uuid, r, hd, hc, hu, hp, hle, rfl⟩)
    rw [encodeBeacon_eq_iff, hd, r.toDigits_value, frame_eq_append, frame_eq_append _ _ r.digits]
      at hb
    exact List.append_cancel_left hb
  · intro h
    refine ⟨⟨?_, ?_⟩, fun b hb => h.encodeBeacon_eq hb⟩
    · intro hsome
      obtain ⟨b, hb⟩ := Option.isSome_iff_exists.mp hsome
      obtain ⟨hc, hu, hpos, hle⟩ := decodeBeacon_noBar hb
      exact ⟨b.cluster, b.uuid, b.routerPort, hc, hu, hpos, hle, (h.encodeBeacon_eq hb).symm⟩
    · rintro ⟨cluster, uuid, routerPort, hc, hu, hpos, hle, rfl⟩
      rw [decodeBeacon_encodeBeacon hc hu hpos hle]
      rfl

theorem decodeBeacon_lenient :
    decodeBeacon "WISP|1|c|u| +05555x" = some ⟨"c", "u", 5555⟩ ∧
      ¬ AcceptsFormat "WISP|1|c|u| +05555x" := by
  have hdecode : decodeBeacon "WISP|1|c|u| +05555x" = some ⟨"c", "u", 5555⟩ := by decide +kernel
  refine ⟨hdecode, fun h => ?_⟩
  exact absurd (h.2 _ hdecode) (by decide +kernel)

/-- `recvfrom` into `char buf[512]`. -/
def received (data : String) : String := String.ofList (data.toList.take 512)

section

variable {cluster uuid : String} {routerPort : ℕ}

theorem length_encodeBeacon (cluster uuid : String) (routerPort : ℕ) :
    (encodeBeacon cluster uuid routerPort).length =
      9 + cluster.length + uuid.length + (Nat.toDigits 10 routerPort).length := by
  rw [← String.length_toList, toList_encodeBeacon_frame, length_frame, String.length_toList,
    String.length_toList]

theorem received_of_length_le (h : (encodeBeacon cluster uuid routerPort).length ≤ 512) :
    received (encodeBeacon cluster uuid routerPort) = encodeBeacon cluster uuid routerPort := by
  rw [received, List.take_of_length_le (by rwa [String.length_toList]), String.ofList_toList]

/-- A text that holds all bars of a beacon and nothing of its port is no beacon, nor is one that
holds fewer bars. -/
theorem decodeBeacon_received_of_le (hc : '|' ∉ cluster.toList) (hu : '|' ∉ uuid.toList)
    (h : 512 ≤ 9 + cluster.length + uuid.length) :
    decodeBeacon (received (encodeBeacon cluster uuid routerPort)) = none := by
  rw [Option.eq_none_iff_forall_ne_some]
  intro b hb
  obtain ⟨c, u, r, hd, hc', hu', hp', -, -⟩ := decodeBeacon_eq_some_iff_reading.mp hb
  have hle : 512 ≤ (frame cluster.toList uuid.toList []).length := by
    rw [length_frame, String.length_toList, String.length_toList]
    exact h
  rw [received, String.toList_ofList, toList_encodeBeacon_frame, frame_eq_append,
    List.take_append_of_le_length hle] at hd
  -- what was cut off before the port holds no bar, since the rest holds all four
  have hsplit := List.take_append_drop 512 (frame cluster.toList uuid.toList [])
  rw [hd] at hsplit
  have hcount := congrArg (List.count '|') hsplit
  rw [List.count_append, count_frame hc' hu' hp', count_frame hc hu List.not_mem_nil] at hcount
  have hbar : '|' ∉ (frame cluster.toList uuid.toList []).drop 512 :=
    List.count_eq_zero.mp (by omega)
  rw [frame_eq_append, List.append_assoc, ← frame_eq_append] at hsplit
  have hfields := congrArg (List.splitOn '|') hsplit
  rw [splitOn_frame hc' hu' (by simp [hp', hbar]), splitOn_frame hc hu List.not_mem_nil] at hfields
  have hport : r.text = [] := by
    simp only [List.cons.injEq, List.append_eq_nil_iff] at hfields
    exact hfields.2.2.2.2.1.1
  have hdigits : r.digits = [] := by
    simp only [Reading.text, List.append_eq_nil_iff] at hport
    exact hport.2.2.1.2
  exact r.digits_plain.1 hdigits

theorem decodeBeacon_received_of_lt (hc : '|' ∉ cluster.toList) (hu : '|' ∉ uuid.toList)
    (hpos : 0 < routerPort) (hle : routerPort ≤ 65535)
    (hlt : 9 + cluster.length + uuid.length < 512)
    (hlong : 512 < (encodeBeacon cluster uuid routerPort).length) :
    ∃ cut < routerPort, Nat.toDigits 10 cut =
        (Nat.toDigits 10 routerPort).take (512 - (9 + cluster.length + uuid.length)) ∧
      decodeBeacon (received (encodeBeacon cluster uuid routerPort)) =
        some ⟨cluster, uuid, cut⟩ := by
  rw [length_encodeBeacon] at hlong
  obtain ⟨k, hk⟩ : ∃ k, k + (9 + cluster.length + uuid.length) = 512 :=
    ⟨_, Nat.sub_add_cancel (Nat.le_of_lt hlt)⟩
  have hsub : 512 - (9 + cluster.length + uuid.length) = k := by omega
  rw [hsub]
  have hkpos : 0 < k := by omega
  obtain ⟨cut, hdigits⟩ : ∃ cut, Nat.toDigits 10 cut = (Nat.toDigits 10 routerPort).take k :=
    ⟨_, toDigits_ofDigitChars ((plainDecimal_toDigits hpos).take hkpos)⟩
  have hcut : 0 < cut := by
    have hplain := (plainDecimal_toDigits hpos).take hkpos
    rw [← hdigits] at hplain
    rw [Nat.pos_iff_ne_zero]
    rintro rfl
    exact hplain.2.2 rfl
  -- it has fewer digits, so it is the smaller number
  have hsmall : cut < routerPort := by
    have hlen : (Nat.toDigits 10 cut).length ≤ k := by
      rw [hdigits]
      exact List.length_take_le _ _
    have hcut := (Nat.length_toDigits_le_iff (by decide) hkpos).mp hlen
    have hport := mt (Nat.length_toDigits_le_iff (n := routerPort) (by decide) hkpos).mpr
      (show ¬ (Nat.toDigits 10 routerPort).length ≤ k by omega)
    omega
  refine ⟨cut, hsmall, hdigits, ?_⟩
  have hreceived : received (encodeBeacon cluster uuid routerPort) =
      encodeBeacon cluster uuid cut := by
    rw [← String.toList_inj, received, String.toList_ofList, toList_encodeBeacon_frame,
      toList_encodeBeacon_frame, hdigits, frame_eq_append, frame_eq_append _ _ (List.take _ _),
      List.take_append, List.take_of_length_le]
    · rw [length_frame, String.length_toList, String.length_toList, List.length_nil,
        Nat.add_zero, hsub]
    · rw [length_frame, String.length_toList, String.length_toList, List.length_nil]
      omega
  rw [hreceived]
  exact decodeBeacon_encodeBeacon hc hu hcut (by omega)

/-- A beacon arrives intact or not at all exactly when the end of the buffer does not fall between
two digits of its port. -/
theorem received_intact_iff (hc : '|' ∉ cluster.toList) (hu : '|' ∉ uuid.toList)
    (hpos : 0 < routerPort) (hle : routerPort ≤ 65535) :
    (decodeBeacon (received (encodeBeacon cluster uuid routerPort)) = none ∨
        decodeBeacon (received (encodeBeacon cluster uuid routerPort)) =
          some ⟨cluster, uuid, routerPort⟩) ↔
      (encodeBeacon cluster uuid routerPort).length ≤ 512 ∨
        512 ≤ 9 + cluster.length + uuid.length := by
  by_cases hwhole : (encodeBeacon cluster uuid routerPort).length ≤ 512
  · rw [received_of_length_le hwhole, decodeBeacon_encodeBeacon hc hu hpos hle]
    simp [hwhole]
  by_cases hcut : 512 ≤ 9 + cluster.length + uuid.length
  · rw [decodeBeacon_received_of_le hc hu hcut]
    simp [hcut]
  · obtain ⟨cut, hlt, -, hdecode⟩ := decodeBeacon_received_of_lt hc hu hpos hle
      (Nat.lt_of_not_le hcut) (Nat.lt_of_not_le hwhole)
    rw [hdecode]
    simp [hwhole, hcut, hlt.ne]

theorem received_intact_iff_short :
    (decodeBeacon (received (encodeBeacon "prod" "0f8fad5b-d9cb-469f-a165-70867728950e" 5555)) =
          none ∨
        decodeBeacon (received (encodeBeacon "prod" "0f8fad5b-d9cb-469f-a165-70867728950e" 5555)) =
          some ⟨"prod", "0f8fad5b-d9cb-469f-a165-70867728950e", 5555⟩) ↔
      (encodeBeacon "prod" "0f8fad5b-d9cb-469f-a165-70867728950e" 5555).length ≤ 512 ∨
        512 ≤ 9 + "prod".length + "0f8fad5b-d9cb-469f-a165-70867728950e".length :=
  received_intact_iff (by decide) (by decide) (by decide) (by decide)

theorem received_other_port :
    decodeBeacon (received (encodeBeacon (String.ofList (List.replicate 464 'c'))
        "0f8fad5b-d9cb-469f-a165-70867728950e" 5555)) =
      some ⟨String.ofList (List.replicate 464 'c'), "0f8fad5b-d9cb-469f-a165-70867728950e",
        555⟩ := by
  have hc : '|' ∉ (String.ofList (List.replicate 464 'c')).toList := by
    rw [String.toList_ofList, List.mem_replicate]
    decide
  have hu : "0f8fad5b-d9cb-469f-a165-70867728950e".length = 36 := by decide
  have hlen : (String.ofList (List.replicate 464 'c')).length = 464 := by
    rw [String.length_ofList, List.length_replicate]
  obtain ⟨cut, -, hdigits, hdecode⟩ := @decodeBeacon_received_of_lt _ _ 5555 hc
    (show '|' ∉ "0f8fad5b-d9cb-469f-a165-70867728950e".toList by decide) (by decide) (by decide)
    (by rw [hlen, hu]; decide) (by rw [length_encodeBeacon, hlen, hu]; decide)
  rw [hlen, hu] at hdigits
  have hcut : cut = 555 := by
    rw [← Nat.ofDigitChars_toDigits (b := 10) (n := cut) (by decide) (by decide), hdigits]
    decide
  rw [hdecode, hcut]

end

end ZmqPubSub.Discovery
