import ZmqPubSub.OStream
import ZmqPubSub.Text

/-!
`HexUtils::generateHexDump`, and how its text is read: line by line, each with an offset, the bytes
in hexadecimal, and the bytes as characters between two bars.
-/

namespace ZmqPubSub.HexUtils

open OStream Text

section

variable (data : List UInt8)

/-- The turn of the first inner loop for byte `i + j`. -/
def hexCell (i : ℕ) (s : OStream) (j : ℕ) : OStream :=
  let s := match data[i + j]? with
    | some b => (s.putHex '0' 2 b.toNat).putString " "
    | none => s.putString "   "
  -- the gap in the middle, also on a short line
  if j = 7 then s.putString " " else s

/-- `char` is signed. -/
def asciiChar (b : UInt8) : Char :=
  let c := b.toInt8
  if 32 ≤ c ∧ c ≤ 126 then Char.ofNat b.toNat else '.'

/-- The turn of the second inner loop for byte `i + j`. -/
def asciiCell (i : ℕ) (s : OStream) (j : ℕ) : OStream :=
  match data[i + j]? with
  | some b => s.putChar (asciiChar b)
  | none => s

def dumpLine (i : ℕ) (s : OStream) : OStream :=
  let s := (s.putHex '0' 4 i).putString "  "
  let s := (List.range 16).foldl (hexCell data i) s
  let s := s.putString "  |"
  let s := (List.range 16).foldl (asciiCell data i) s
  s.putString "|\n"

/-- The turns of the outer loop from `i` on. -/
def dumpFrom : ℕ → ℕ → OStream → OStream
  | 0, _, s => s
  | fuel + 1, i, s => if i < data.length then dumpFrom fuel (i + 16) (dumpLine data i s) else s

def generateHexDump : String := String.ofList (dumpFrom data data.length 0 {}).text

end

section

variable (data : List UInt8) (i : ℕ)

def hexByte (b : UInt8) : List Char := pad 2 '0' (Nat.toDigits 16 b.toNat)

def hexText (j : ℕ) : List Char :=
  (match data[i + j]? with
    | some b => hexByte b ++ [' ']
    | none => [' ', ' ', ' ']) ++ if j = 7 then [' '] else []

/-- The first column of the line at `i`, and the next two. -/
def offsetText : List Char := pad 4 '0' (Nat.toDigits 16 i)

def hexColumnText : List Char :=
  "  ".toList ++ (List.range 16).flatMap (hexText data i) ++ "  ".toList

def asciiText : List Char := (List.range 16).flatMap fun j => (data[i + j]?.map asciiChar).toList

/-- A line without its end. -/
def lineText : List Char :=
  offsetText i ++ hexColumnText data i ++ '|' :: asciiText data i ++ ['|']

theorem emits_hexCell (j : ℕ) : Emits (fun s => hexCell data i s j) (hexText data i j) := by
  have hcell : Emits (fun s => match data[i + j]? with
      | some b => (s.putHex '0' 2 b.toNat).putString " "
      | none => s.putString "   ")
      (match data[i + j]? with
      | some b => hexByte b ++ [' ']
      | none => [' ', ' ', ' ']) := by
    cases data[i + j]? with
    | some b => exact (emits_putHex '0' 2 b.toNat).seq (emits_putString " ")
    | none => exact emits_putString "   "
  have hgap : Emits (fun s => if j = 7 then s.putString " " else s)
      (if j = 7 then [' '] else []) := by
    split_ifs
    · exact emits_putString " "
    · exact emits_id
  exact hcell.seq hgap

theorem emits_asciiCell (j : ℕ) :
    Emits (fun s => asciiCell data i s j) (data[i + j]?.map asciiChar).toList := by
  unfold asciiCell
  cases data[i + j]? with
  | some b => exact emits_putChar (asciiChar b)
  | none => exact emits_id

theorem emits_dumpLine : Emits (dumpLine data i) (lineText data i ++ ['\n']) := by
  have h := (((((emits_putHex '0' 4 i).seq (emits_putString "  ")).seq
    (emits_foldl (emits_hexCell data i) (List.range 16))).seq (emits_putString "  |")).seq
    (emits_foldl (emits_asciiCell data i) (List.range 16))).seq (emits_putString "|\n")
  have htext : lineText data i ++ ['\n'] = pad 4 '0' (Nat.toDigits 16 i) ++ "  ".toList ++
      (List.range 16).flatMap (hexText data i) ++ "  |".toList ++
      ((List.range 16).flatMap fun j => (data[i + j]?.map asciiChar).toList) ++ "|\n".toList := by
    simp [lineText, offsetText, hexColumnText, asciiText]
  rw [htext]
  exact h

end

def lineCount (n : ℕ) : ℕ := (n + 15) / 16

theorem lineCount_eq_zero {n : ℕ} (h : n = 0) : lineCount n = 0 := by
  rw [h, lineCount]

theorem emits_dumpFrom (data : List UInt8) (fuel i : ℕ) (hf : data.length ≤ i + 16 * fuel) :
    Emits (dumpFrom data fuel i) ((List.range (lineCount (data.length - i))).flatMap fun k =>
      lineText data (i + 16 * k) ++ ['\n']) := by
  induction fuel generalizing i with
  | zero =>
    rw [lineCount_eq_zero (by omega)]
    exact emits_id
  | succ fuel ih =>
    have hturn : dumpFrom data (fuel + 1) i = fun s =>
      if i < data.length then dumpFrom data fuel (i + 16) (dumpLine data i s) else s := rfl
    rw [hturn]
    by_cases hlt : i < data.length
    · -- the line at `i` and those from `i + 16` on
      have hsucc : lineCount (data.length - i) = lineCount (data.length - (i + 16)) + 1 := by
        unfold lineCount
        omega
      have hrest := (emits_dumpLine data i).seq (ih (i + 16) (by omega))
      simp only [if_pos hlt, hsucc, List.range_succ_eq_map, List.flatMap_cons, List.flatMap_map]
      simpa [Nat.mul_add, Nat.add_assoc, Nat.add_comm 16] using hrest
    · simp only [if_neg hlt]
      rw [lineCount_eq_zero (by omega)]
      exact emits_id

theorem toList_generateHexDump (data : List UInt8) : (generateHexDump data).toList =
    (List.range (lineCount data.length)).flatMap fun k => lineText data (16 * k) ++ ['\n'] := by
  have h := (emits_dumpFrom data data.length 0 (by omega) {} rfl).1
  rw [generateHexDump, String.toList_ofList, h]
  simp

def dumpLines (text : String) : List (List Char) := (text.toList.splitOn '\n').dropLast

def offsetColumn (line : List Char) : List Char := line.takeWhile (· != ' ')

def hexColumn (line : List Char) : List Char :=
  (line.takeWhile (· != '|')).drop (offsetColumn line).length

/-- Two digits a byte, with any blanks between the bytes. -/
def readBytes : List Char → List UInt8
  | ' ' :: t => readBytes t
  | a :: b :: t => UInt8.ofNat (16 * hexValue a + hexValue b) :: readBytes t
  | _ => []

/-- Behind the first bar. -/
def asciiStart (line : List Char) : ℕ := line.idxOf '|' + 1

/-- Up to the bar at the end. -/
def asciiColumn (line : List Char) : List Char := (line.drop (asciiStart line)).dropLast

/-- The byte itself if it is printable. -/
def printable (b : UInt8) : Char :=
  if 32 ≤ b.toNat ∧ b.toNat ≤ 126 then Char.ofNat b.toNat else '.'

/-- Bytes from 128 on are negative characters. -/
theorem asciiChar_eq (b : UInt8) : asciiChar b = printable b := by
  have h : ∀ n : Fin 256, asciiChar (UInt8.ofFin n) = printable (UInt8.ofFin n) := by
    decide +kernel
  exact h b.toFin

theorem hexByte_eq (b : UInt8) :
    hexByte b = [(b.toNat / 16).digitChar, (b.toNat % 16).digitChar] := by
  have hb := b.toNat_lt
  unfold hexByte
  by_cases hlt : b.toNat < 16
  · rw [Nat.toDigits_of_lt_base hlt, Nat.div_eq_of_lt hlt, Nat.mod_eq_of_lt hlt]
    rfl
  · rw [Nat.toDigits_of_base_le (by decide) (by omega), Nat.toDigits_of_lt_base (by omega)]
    rfl

theorem readBytes_hexByte_append (b : UInt8) (t : List Char) :
    readBytes (hexByte b ++ t) = b :: readBytes t := by
  have hb := b.toNat_lt
  have hhigh : b.toNat / 16 < 16 := by omega
  have hlow : b.toNat % 16 < 16 := by omega
  have hblank : (b.toNat / 16).digitChar ≠ ' ' := fun h =>
    absurd (h ▸ isHexDigit_digitChar _ hhigh) (by decide)
  rw [hexByte_eq, List.cons_append, List.cons_append, List.nil_append, readBytes,
    hexValue_digitChar _ hhigh, hexValue_digitChar _ hlow, Nat.div_add_mod, UInt8.ofNat_toNat]
  exact hblank

theorem readBytes_hexText_append (data : List UInt8) (i j : ℕ) (t : List Char) :
    readBytes (hexText data i j ++ t) = data[i + j]?.toList ++ readBytes t := by
  have hgap : readBytes ((if j = 7 then [' '] else []) ++ t) = readBytes t := by
    split_ifs <;> rfl
  unfold hexText
  rw [List.append_assoc]
  cases data[i + j]? with
  | some b =>
    rw [List.append_assoc, readBytes_hexByte_append, List.singleton_append, readBytes, hgap]
    rfl
  | none => exact hgap

theorem readBytes_flatMap_append (data : List UInt8) (i : ℕ) (js : List ℕ) (t : List Char) :
    readBytes (js.flatMap (hexText data i) ++ t) =
      js.flatMap (fun j => data[i + j]?.toList) ++ readBytes t := by
  induction js with
  | nil => rfl
  | cons j js ih =>
    rw [List.flatMap_cons, List.append_assoc, readBytes_hexText_append, ih, List.flatMap_cons,
      List.append_assoc]

theorem readBytes_hexColumnText (data : List UInt8) (i : ℕ) :
    readBytes (hexColumnText data i) = (data.drop i).take 16 := by
  have h := readBytes_flatMap_append data i (List.range 16) "  ".toList
  rw [flatMap_getElem?] at h
  rw [hexColumnText, List.append_assoc]
  exact h.trans (List.append_nil _)

theorem asciiText_eq (data : List UInt8) (i : ℕ) :
    asciiText data i = ((data.drop i).take 16).map printable := by
  rw [← flatMap_getElem?, List.map_flatMap, asciiText]
  refine List.flatMap_congr fun j _ => ?_
  cases data[i + j]? with
  | some b => simp [asciiChar_eq]
  | none => rfl

theorem isHexDigit_of_mem_pad {width n : ℕ} {c : Char}
    (hc : c ∈ pad width '0' (Nat.toDigits 16 n)) : isHexDigit c = true := by
  rw [pad, List.mem_append, List.mem_replicate] at hc
  rcases hc with ⟨-, rfl⟩ | hc
  · decide
  · exact isHexDigit_of_mem_toDigits hc

theorem hexText_chars {data : List UInt8} {i j : ℕ} {c : Char} (hc : c ∈ hexText data i j) :
    isHexDigit c = true ∨ c = ' ' := by
  unfold hexText at hc
  rcases List.mem_append.mp hc with hc | hc
  · split at hc
    · rcases List.mem_append.mp hc with hc | hc
      · exact .inl (isHexDigit_of_mem_pad hc)
      · exact .inr (List.mem_singleton.mp hc)
    · right
      simpa using hc
  · split_ifs at hc
    · exact .inr (List.mem_singleton.mp hc)
    · cases hc

theorem hexColumnText_chars {data : List UInt8} {i : ℕ} {c : Char}
    (hc : c ∈ hexColumnText data i) : isHexDigit c = true ∨ c = ' ' := by
  have hblank : ∀ c ∈ "  ".toList, c = ' ' := fun c hc =>
    List.eq_of_mem_replicate (show c ∈ List.replicate 2 ' ' from hc)
  rcases List.mem_append.mp hc with hc | hc
  · rcases List.mem_append.mp hc with hc | hc
    · exact .inr (hblank c hc)
    · obtain ⟨j, -, hj⟩ := List.mem_flatMap.mp hc
      exact hexText_chars hj
  · exact .inr (hblank c hc)

/-- Neither a bar nor the end of a line stands before the first bar. -/
theorem notMem_columns {c : Char} (hc : isHexDigit c = false) (hblank : c ≠ ' ')
    (data : List UInt8) (i : ℕ) : c ∉ offsetText i ++ hexColumnText data i := by
  intro h
  rcases List.mem_append.mp h with h | h
  · exact absurd (isHexDigit_of_mem_pad h) (by simp [hc])
  · rcases hexColumnText_chars h with h | h
    · exact absurd h (by simp [hc])
    · exact hblank h

theorem printable_ne_newline (b : UInt8) : printable b ≠ '\n' := by
  have h : ∀ n : Fin 256, printable (UInt8.ofFin n) ≠ '\n' := by decide +kernel
  exact h b.toFin

theorem newline_notMem_lineText (data : List UInt8) (i : ℕ) : '\n' ∉ lineText data i := by
  have hcolumns := notMem_columns (c := '\n') (by decide) (by decide) data i
  have hascii : '\n' ∉ asciiText data i := by
    rw [asciiText_eq]
    intro h
    obtain ⟨b, -, hb⟩ := List.mem_map.mp h
    exact printable_ne_newline b hb
  simp only [lineText, List.mem_append, List.mem_cons, List.not_mem_nil] at hcolumns ⊢
  simp [hcolumns, hascii]

theorem dumpLines_generateHexDump (data : List UInt8) : dumpLines (generateHexDump data) =
    (List.range (lineCount data.length)).map fun k => lineText data (16 * k) := by
  rw [dumpLines, toList_generateHexDump,
    splitOn_flatMap_append (fun k => newline_notMem_lineText data (16 * k)), List.dropLast_concat]

theorem offsetColumn_lineText (data : List UInt8) (i : ℕ) :
    offsetColumn (lineText data i) = offsetText i := by
  have hdigits : ∀ c ∈ offsetText i, (c != ' ') = true := by
    intro c hc
    have hne : c ≠ ' ' := fun h => absurd (h ▸ isHexDigit_of_mem_pad hc) (by decide)
    simpa using hne
  have hblank : hexColumnText data i = ' ' :: (hexColumnText data i).tail := rfl
  rw [offsetColumn, lineText, List.append_assoc, List.append_assoc,
    List.takeWhile_append_of_pos hdigits, hblank]
  simp

theorem takeWhile_bar_lineText (data : List UInt8) (i : ℕ) :
    (lineText data i).takeWhile (· != '|') = offsetText i ++ hexColumnText data i := by
  have hbar : ∀ c ∈ offsetText i ++ hexColumnText data i, (c != '|') = true := by
    intro c hc
    have hne : c ≠ '|' := fun h => notMem_columns (by decide) (by decide) data i (h ▸ hc)
    simpa using hne
  rw [lineText, List.append_assoc, List.takeWhile_append_of_pos hbar]
  simp

theorem hexColumn_lineText (data : List UInt8) (i : ℕ) :
    hexColumn (lineText data i) = hexColumnText data i := by
  rw [hexColumn, takeWhile_bar_lineText, offsetColumn_lineText, List.drop_left]

theorem asciiStart_lineText (data : List UInt8) (i : ℕ) :
    asciiStart (lineText data i) = (offsetText i ++ hexColumnText data i).length + 1 := by
  have hbar := notMem_columns (c := '|') (by decide) (by decide) data i
  rw [asciiStart, lineText, List.append_assoc, List.idxOf_append_of_notMem hbar]
  simp

theorem asciiColumn_lineText (data : List UInt8) (i : ℕ) :
    asciiColumn (lineText data i) = ((data.drop i).take 16).map printable := by
  have hsplit : lineText data i =
      (offsetText i ++ hexColumnText data i ++ ['|']) ++ (asciiText data i ++ ['|']) := by
    simp [lineText]
  have hlen : (offsetText i ++ hexColumnText data i).length + 1 =
      (offsetText i ++ hexColumnText data i ++ ['|']).length := by
    simp only [List.length_append, List.length_singleton]
  rw [asciiColumn, asciiStart_lineText, hsplit, hlen, List.drop_left, List.dropLast_concat,
    asciiText_eq]

theorem length_hexText (data : List UInt8) (i j : ℕ) :
    (hexText data i j).length = 3 + if j = 7 then 1 else 0 := by
  unfold hexText
  rw [List.length_append]
  congr 1
  · cases data[i + j]? with
    | some b => simp [hexByte_eq]
    | none => rfl
  · split_ifs <;> rfl

theorem length_hexColumnText (data : List UInt8) (i : ℕ) :
    (hexColumnText data i).length = 53 := by
  have hcells : ((List.range 16).flatMap (hexText data i)).length = 49 := by
    rw [List.length_flatMap, funext (length_hexText data i)]
    decide
  have hblank : "  ".toList.length = 2 := by decide
  rw [hexColumnText, List.length_append, List.length_append, hcells, hblank]

theorem length_offsetText {i : ℕ} (hi : i < 65536) : (offsetText i).length = 4 :=
  length_pad ((Nat.length_toDigits_le_iff (by decide) (by decide)).mpr hi) '0'

theorem readHex_offsetText (i : ℕ) : readHex (offsetText i) = i := by
  rw [offsetText, pad, readHex_zeros_append, readHex_toDigits]

/-- The dump loses nothing and is aligned: the number of its lines, the bytes that are read back
from them, the offset and the characters on each, and where the characters begin. -/
theorem generateHexDump_lossless (data : List UInt8) :
    (dumpLines (generateHexDump data)).length = (data.length + 15) / 16 ∧
    (dumpLines (generateHexDump data)).flatMap (fun line => readBytes (hexColumn line)) = data ∧
    (∀ i line, (dumpLines (generateHexDump data))[i]? = some line →
      readHex (offsetColumn line) = 16 * i ∧
      asciiColumn line = ((data.drop (16 * i)).take 16).map printable) ∧
    (data.length ≤ 65536 → ∀ line ∈ dumpLines (generateHexDump data), asciiStart line = 58) := by
  rw [dumpLines_generateHexDump]
  refine ⟨?_, ?_, ?_, ?_⟩
  · rw [List.length_map, List.length_range, lineCount]
  · have hlines : (fun k => readBytes (hexColumn (lineText data (16 * k)))) =
        fun k => (data.drop (16 * k)).take 16 := by
      funext k
      rw [hexColumn_lineText, readBytes_hexColumnText]
    rw [List.flatMap_map, hlines, flatMap_take_drop, List.take_of_length_le]
    unfold lineCount
    omega
  · intro i line hline
    rw [List.getElem?_map] at hline
    obtain ⟨k, hk, rfl⟩ := Option.map_eq_some_iff.mp hline
    obtain ⟨hlt, hki⟩ := List.getElem?_eq_some_iff.mp hk
    rw [List.getElem_range] at hki
    subst hki
    rw [offsetColumn_lineText, asciiColumn_lineText, readHex_offsetText]
    exact ⟨rfl, rfl⟩
  · intro hlen line hline
    obtain ⟨k, hk, rfl⟩ := List.mem_map.mp hline
    have hoffset : 16 * k < 65536 := by
      rw [List.mem_range, lineCount] at hk
      omega
    rw [asciiStart_lineText, List.length_append, length_offsetText hoffset, length_hexColumnText]

theorem generateHexDump_lossless_short :
    ∀ line ∈ dumpLines (generateHexDump ((List.range 20).map UInt8.ofNat)), asciiStart line = 58 :=
  (generateHexDump_lossless ((List.range 20).map UInt8.ofNat)).2.2.2 (by decide)

example : generateHexDump [72, 105, 10, 124, 128] =
    "0000  48 69 0a 7c 80                                     |Hi.|.|\n" := by
  decide +kernel

end ZmqPubSub.HexUtils
