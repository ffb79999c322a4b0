import ZmqPubSub.ConnectionManager

/-!
`handleMessage` and `replyToSender` on the processing thread, with `t_currentReplyTopic`. A callback
is a program that calls into the library and ends by returning or by throwing. What other threads do
between two of its calls, and what it learns from elsewhere, is up to a `World`.
-/

namespace ZmqPubSub.ReplyContext

/-- The body of a callback. -/
inductive Program
  | done
  | throw
  | replyToSender (data : Bytes) (next : Bool → Program)
  | sendData (key : String) (data : Bytes) (next : Bool → Program)
  | registerCallback (key : String) (callback : Option (Bytes → Program)) (owner : ℕ)
      (next : Program)
  | unregisterCallback (key : String) (owner : ℕ) (next : Program)
  /-- Anything else, and what comes of it. -/
  | ask (next : ℕ → Program)

/-- A `std::function`, which may be empty. -/
abbrev Callback := Option (Bytes → Program)

/-- What is not up to the processing thread, at each of its calls. -/
structure World where
  /-- `getInstance` returns the manager. -/
  initialised : ℕ → Bool
  /-- The `push` of `sendRawEnvelope` finds room in time. -/
  accepts : ℕ → Bool
  answer : ℕ → ℕ
  /-- What other threads did to the manager since the last call. -/
  others : ℕ → ConnectionManager Callback → ConnectionManager Callback

inductive Note
  | begins (entry : CallbackEntry Callback)
  /-- A call of `replyToSender`: the envelopes that `sendRawEnvelope` was called with, and the
  result. -/
  | reply (initialised : Bool) (data : Bytes) (handed : List Envelope) (ok : Bool)

structure Processing where
  manager : ConnectionManager Callback
  /-- `t_currentReplyTopic`. -/
  currentReplyTopic : String := ""
  /-- What `sendRawEnvelope` was called with for `replyToSender` and `sendData`. -/
  sent : List Envelope := []
  notes : List Note := []
  clock : ℕ := 0

namespace Processing

variable (w : World) (s : Processing)

def yield : Processing := { s with manager := w.others s.clock s.manager, clock := s.clock + 1 }

def note (n : Note) : Processing := { s with notes := s.notes ++ [n] }

def sendRawEnvelope (env : Envelope) : Bool × Processing :=
  (w.accepts s.clock, { s with
    manager := if w.accepts s.clock then s.manager.sendRawEnvelope env else s.manager
    sent := s.sent ++ [env] })

def sendReplyEnvelope (payload : Bytes) : Bool × Processing :=
  if s.currentReplyTopic = "" then (false, s)
  else
    s.sendRawEnvelope w
      { header := { handlerKey := s.currentReplyTopic, senderId := s.manager.clientId,
                    topic := s.currentReplyTopic }
        payload := payload }

def replyToSender (data : Bytes) : Bool × Processing :=
  if w.initialised s.clock then s.sendReplyEnvelope w data else (false, s)

def sendData (key : String) (data : Bytes) : Bool × Processing :=
  if w.initialised s.clock then s.sendRawEnvelope w (s.manager.dataEnvelope key data)
  else (false, s)

/-- Without an instance the callback is queued for the next one. -/
def registerCallback (key : String) (callback : Callback) (owner : ℕ) : Processing :=
  if w.initialised s.clock then
    { s with manager := s.manager.performRegistration key callback owner }
  else s

def unregisterCallback (key : String) (owner : ℕ) : Processing :=
  if w.initialised s.clock then { s with manager := s.manager.performUnregistration key owner }
  else s

/-- `replyToSender` as a callback calls it, and the note of what it did. -/
def reply (data : Bytes) : Bool × Processing :=
  let r := s.replyToSender w data
  (r.1, r.2.note (.reply (w.initialised s.clock) data (r.2.sent.drop s.sent.length) r.1))

end Processing

/-- The result is false if the program threw. -/
def Program.run (w : World) : Program → Processing → Bool × Processing
  | .done, s => (true, s)
  | .throw, s => (false, s)
  | .replyToSender data next, s =>
    run w (next ((s.yield w).reply w data).1) ((s.yield w).reply w data).2
  | .sendData key data next, s =>
    run w (next ((s.yield w).sendData w key data).1) ((s.yield w).sendData w key data).2
  | .registerCallback key callback owner next, s =>
    run w next ((s.yield w).registerCallback w key callback owner)
  | .unregisterCallback key owner next, s => run w next ((s.yield w).unregisterCallback w key owner)
  | .ask next, s => run w (next (w.answer s.clock)) (s.yield w)

namespace Processing

/-- One turn of the loop in `handleMessage`. What the function throws is caught. -/
def call (w : World) (data : Bytes) (s : Processing) (entry : CallbackEntry Callback) :
    Processing :=
  match entry.func with
  | none => s
  | some func => ((func data).run w (s.note (.begins entry))).2

def handleMessage (w : World) (s : Processing) (env : Envelope) : Processing :=
  let s := s.yield w
  let callbacks := s.manager.callbacks env.header.topic
  let s := { s with currentReplyTopic := env.header.replyTopic }
  let s := callbacks.foldl (call w env.payload) s
  { s with currentReplyTopic := "" }

def process (w : World) (s : Processing) (env : Envelope) : Processing :=
  if env.key = Keys.reset then
    { s.yield w with manager := (s.yield w).manager.resubscribeAll }
  else s.handleMessage w env

variable {w : World} {s : Processing}

theorem replyToSender_eq (data : Bytes) (hi : w.initialised s.clock = true)
    (ha : w.accepts s.clock = true) :
    ((s.replyToSender w data).1, (s.replyToSender w data).2.manager) =
      s.manager.sendReplyEnvelope s.currentReplyTopic data := by
  simp only [replyToSender, hi, if_true, sendReplyEnvelope, ConnectionManager.sendReplyEnvelope]
  split_ifs
  · rfl
  · simp [sendRawEnvelope, ha, ConnectionManager.dataEnvelope]

end Processing

/-- A reply goes to the reply topic of the message, if it has one, and nowhere otherwise. -/
def Note.Confined (replyTopic : String) : Note → Prop
  | .begins _ => True
  | .reply initialised data handed ok => initialised = true →
    if replyTopic = "" then handed = [] ∧ ok = false
    else ∃ env, handed = [env] ∧ env.header.topic = replyTopic ∧
      env.header.handlerKey = replyTopic ∧ env.payload = data

def Note.begun : Note → Option (CallbackEntry Callback)
  | .begins entry => some entry
  | .reply .. => none

def Note.replied : Note → Option Bytes
  | .begins _ => none
  | .reply _ data _ _ => some data

/-- What a program calls `replyToSender` with, call by call. -/
def Program.replies (w : World) : Program → Processing → List Bytes
  | .done, _ => []
  | .throw, _ => []
  | .replyToSender data next, s =>
    data :: replies w (next ((s.yield w).reply w data).1) ((s.yield w).reply w data).2
  | .sendData key data next, s =>
    replies w (next ((s.yield w).sendData w key data).1) ((s.yield w).sendData w key data).2
  | .registerCallback key callback owner next, s =>
    replies w next ((s.yield w).registerCallback w key callback owner)
  | .unregisterCallback key owner next, s =>
    replies w next ((s.yield w).unregisterCallback w key owner)
  | .ask next, s => replies w (next (w.answer s.clock)) (s.yield w)

namespace Processing

variable {w : World} {s s' s'' : Processing} {entries entries' : List (CallbackEntry Callback)}

/-- From `s` to `s'` the reply topic is kept, replies are confined to it, and just the callbacks
`entries` begin. -/
structure Acts (s s' : Processing) (entries : List (CallbackEntry Callback)) : Prop where
  topic : s'.currentReplyTopic = s.currentReplyTopic
  notes : ∃ notes, s'.notes = s.notes ++ notes ∧
    (∀ n ∈ notes, n.Confined s.currentReplyTopic) ∧ notes.filterMap Note.begun = entries

theorem Acts.quiet (h : s'.currentReplyTopic = s.currentReplyTopic ∧ s'.notes = s.notes) :
    Acts s s' [] :=
  ⟨h.1, [], by simp [h.2], by simp, rfl⟩

theorem Acts.trans (h : Acts s s' entries) (h' : Acts s' s'' entries') :
    Acts s s'' (entries ++ entries') := by
  obtain ⟨ht, notes, hn, hc, hb⟩ := h
  obtain ⟨ht', notes', hn', hc', hb'⟩ := h'
  refine ⟨ht'.trans ht, notes ++ notes', ?_, ?_, ?_⟩
  · rw [hn', hn, List.append_assoc]
  · intro n hm
    rcases List.mem_append.mp hm with hm | hm
    · exact hc n hm
    · exact ht ▸ hc' n hm
  · rw [List.filterMap_append, hb, hb']

theorem Acts.note {n : Note} (hn : n.Confined s.currentReplyTopic) :
    Acts s (s.note n) n.begun.toList := by
  refine ⟨rfl, [n], rfl, by simpa using hn, ?_⟩
  cases n <;> rfl

theorem replyToSender_spec (data : Bytes) :
    (s.replyToSender w data).2.currentReplyTopic = s.currentReplyTopic ∧
    (s.replyToSender w data).2.notes = s.notes ∧
    (Note.reply (w.initialised s.clock) data
      ((s.replyToSender w data).2.sent.drop s.sent.length) (s.replyToSender w data).1).Confined
        s.currentReplyTopic := by
  unfold replyToSender
  split_ifs with hi
  · unfold sendReplyEnvelope
    split_ifs with ht
    · simp [Note.Confined, ht]
    · simp [Note.Confined, ht, sendRawEnvelope]
  · simp [Note.Confined, hi]

theorem sendData_quiet (w : World) (s : Processing) (key : String) (data : Bytes) :
    (s.sendData w key data).2.currentReplyTopic = s.currentReplyTopic ∧
      (s.sendData w key data).2.notes = s.notes := by
  unfold sendData
  split_ifs <;> exact ⟨rfl, rfl⟩

theorem registerCallback_quiet (w : World) (s : Processing) (key : String) (callback : Callback)
    (owner : ℕ) :
    (s.registerCallback w key callback owner).currentReplyTopic = s.currentReplyTopic ∧
      (s.registerCallback w key callback owner).notes = s.notes := by
  unfold registerCallback
  split_ifs <;> exact ⟨rfl, rfl⟩

theorem unregisterCallback_quiet (w : World) (s : Processing) (key : String) (owner : ℕ) :
    (s.unregisterCallback w key owner).currentReplyTopic = s.currentReplyTopic ∧
      (s.unregisterCallback w key owner).notes = s.notes := by
  unfold unregisterCallback
  split_ifs <;> exact ⟨rfl, rfl⟩

end Processing

open Processing

/-- Each call of `replyToSender` leaves one note, and nothing else of the program leaves any. -/
theorem Program.run_notes (w : World) (p : Program) (s : Processing) :
    (p.run w s).2.notes.map Note.replied =
      s.notes.map Note.replied ++ (p.replies w s).map some := by
  fun_induction Program.run w p s with
  | case1 s | case2 s => simp [Program.replies]
  | case3 data next s ih =>
    have hnotes : ((s.yield w).reply w data).2.notes.map Note.replied =
        s.notes.map Note.replied ++ [some data] := by
      obtain ⟨-, hn, -⟩ := replyToSender_spec (w := w) (s := s.yield w) data
      simp only [Processing.reply, Processing.note, hn, List.map_append]
      rfl
    rw [ih, hnotes, List.append_assoc]
    rfl
  | case4 key data next s ih =>
    rw [ih, (sendData_quiet w _ key data).2]
    rfl
  | case5 key callback owner next s ih =>
    rw [ih, (registerCallback_quiet w _ key callback owner).2]
    rfl
  | case6 key owner next s ih =>
    rw [ih, (unregisterCallback_quiet w _ key owner).2]
    rfl
  | case7 next s ih => exact ih

namespace Processing

-- A request and a plain message, for a callback that throws and one that replies and throws.
example :
    let w : World := ⟨fun _ => true, fun _ => true, fun _ => 0, fun _ m => m⟩
    let callbacks : List (CallbackEntry Callback) :=
      [⟨0, some fun _ => .throw⟩, ⟨0, some fun data => .replyToSender data fun _ => .throw⟩]
    let s : Processing :=
      { manager := { clientId := "c", msgHandlers := AList.singleton "t" callbacks } }
    let envelopes : List Envelope :=
      [{ header := { topic := "t", replyTopic := "r" }, payload := [1] },
        { header := { topic := "t" }, payload := [2] }]
    (envelopes.foldl (process w) s).sent.map (fun env => (env.header.topic, env.payload)) =
      [("r", [1])] := by
  decide

end Processing

end ZmqPubSub.ReplyContext
