import Mathlib.Data.List.Basic

/-!
Messages that consist of one or more frames and are delivered as a whole. A reader takes frame after
frame and can ask whether the message it is in has more; a writer says with each frame whether more
will follow.
-/

namespace ZmqPubSub

structure Multipart (φ : Type*) where
  first : φ
  more : List φ
deriving DecidableEq, Repr

def Multipart.frames {φ : Type*} (g : Multipart φ) : List φ := g.first :: g.more

/-- The reading side: what is left of the message being read, and the messages behind it. -/
structure Inbox (φ : Type*) where
  more : List φ
  groups : List (Multipart φ)
deriving DecidableEq, Repr

namespace Inbox

variable {φ β : Type*}

def recvFrame : Inbox φ → Option (φ × Inbox φ)
  | ⟨frame :: more, groups⟩ => some (frame, ⟨more, groups⟩)
  | ⟨[], g :: groups⟩ => some (g.first, ⟨g.more, groups⟩)
  | ⟨[], []⟩ => none

def rcvmore (i : Inbox φ) : Bool := !i.more.isEmpty

def discard : List φ → List (Multipart φ) → Inbox φ
  | [], groups => ⟨[], groups⟩
  | _ :: more, groups => discard more groups

def drainMultipart (i : Inbox φ) : Inbox φ := discard i.more i.groups

def readMany (read : Inbox φ → β × Inbox φ) : ℕ → Inbox φ → List β × Inbox φ
  | 0, i => ([], i)
  | n + 1, i =>
    let r := read i
    let rs := readMany read n r.2
    (r.1 :: rs.1, rs.2)

@[simp] theorem drainMultipart_eq (i : Inbox φ) : i.drainMultipart = ⟨[], i.groups⟩ := by
  obtain ⟨more, groups⟩ := i
  simp only [drainMultipart]
  induction more with
  | nil => rfl
  | cons frame more ih => exact ih

/-- A reader that takes one whole message stays aligned, and its results are those of the messages
one by one. -/
theorem readMany_groups {read : Inbox φ → β × Inbox φ} {result : Multipart φ → β}
    (h : ∀ g groups, read ⟨[], g :: groups⟩ = (result g, ⟨[], groups⟩))
    (before after : List (Multipart φ)) :
    readMany read before.length ⟨[], before ++ after⟩ = (before.map result, ⟨[], after⟩) := by
  induction before with
  | nil => rfl
  | cons g before ih => simp [readMany, h, ih]

end Inbox

/-- The writing side: the frames of an unfinished message, and the messages written. -/
structure Outbox (φ : Type*) where
  pending : List φ := []
  groups : List (Multipart φ) := []
deriving DecidableEq, Repr

namespace Outbox

variable {φ : Type*}

def sendFrame (out : Outbox φ) (frame : φ) (sndmore : Bool) : Outbox φ :=
  if sndmore then { out with pending := out.pending ++ [frame] }
  else
    match out.pending with
    | [] => { pending := [], groups := out.groups ++ [⟨frame, []⟩] }
    | first :: more => { pending := [], groups := out.groups ++ [⟨first, more ++ [frame]⟩] }

end Outbox

end ZmqPubSub
