import Mathlib.Data.List.Basic

/-!
The formatting state of a `std::ostream`: the base and the fill character stay, the width holds for
one insertion. What a command appends to a stream is described by `Emits`, so that a text is
computed without looking at the state in between.
-/

namespace ZmqPubSub

structure OStream where
  hex : Bool := false
  fill : Char := ' '
  width : ℕ := 0
  text : List Char := []

namespace OStream

/-- Padding on the left, as numbers and strings get it by default. -/
def pad (width : ℕ) (fill : Char) (t : List Char) : List Char :=
  List.replicate (width - t.length) fill ++ t

section

variable (s : OStream)

def setHex : OStream := { s with hex := true }

def setFill (c : Char) : OStream := { s with fill := c }

def setWidth (n : ℕ) : OStream := { s with width := n }

/-- An insertion uses up the width. -/
def put (t : List Char) : OStream :=
  { s with text := s.text ++ pad s.width s.fill t, width := 0 }

def putString (t : String) : OStream := s.put t.toList

def putChar (c : Char) : OStream := s.put [c]

def putNat (n : ℕ) : OStream := s.put (Nat.toDigits (if s.hex then 16 else 10) n)

def putHex (fill : Char) (width n : ℕ) : OStream :=
  (((s.setHex).setFill fill).setWidth width).putNat n

end

theorem pad_zero (fill : Char) (t : List Char) : pad 0 fill t = t := by simp [pad]

theorem length_pad {width : ℕ} {t : List Char} (h : t.length ≤ width) (fill : Char) :
    (pad width fill t).length = width := by
  rw [pad, List.length_append, List.length_replicate]
  omega

/-- A command that leaves no width behind appends `t` to a stream without one. -/
def Emits (f : OStream → OStream) (t : List Char) : Prop :=
  ∀ s, s.width = 0 → (f s).text = s.text ++ t ∧ (f s).width = 0

variable {f g : OStream → OStream} {t u : List Char}

theorem emits_id : Emits (fun s => s) [] := fun s hs => ⟨(List.append_nil s.text).symm, hs⟩

theorem emits_putString (t : String) : Emits (fun s => s.putString t) t.toList := by
  intro s hs
  simp [putString, put, hs, pad_zero]

theorem emits_putChar (c : Char) : Emits (fun s => s.putChar c) [c] := by
  intro s hs
  simp [putChar, put, hs, pad_zero]

theorem emits_putHex (fill : Char) (width n : ℕ) :
    Emits (fun s => s.putHex fill width n) (pad width fill (Nat.toDigits 16 n)) := by
  intro s hs
  simp [putHex, putNat, put, setHex, setFill, setWidth]

/-- The rule for sequences. -/
theorem Emits.seq (hf : Emits f t) (hg : Emits g u) : Emits (fun s => g (f s)) (t ++ u) := by
  intro s hs
  have h := hf s hs
  have h' := hg (f s) h.2
  exact ⟨by rw [h'.1, h.1, List.append_assoc], h'.2⟩

/-- The rule for loops. -/
theorem emits_foldl {ι : Type*} {f : OStream → ι → OStream} {t : ι → List Char}
    (h : ∀ i, Emits (fun s => f s i) (t i)) (l : List ι) :
    Emits (fun s => l.foldl f s) (l.flatMap t) := by
  induction l with
  | nil => exact emits_id
  | cons i l ih => exact (h i).seq ih

end OStream

end ZmqPubSub
