import LoginServer.Protocol
import LoginServer.Written
import Mathlib.Data.Option.Basic

/-! # Buffered output

`writeOutputBuffer` takes a new buffer where the message would pass the end of the memory, but
`putString` refuses it as soon as it would pass the end of the body. In between the message is
dropped, and a page model of the buffers shows that it is dropped nowhere else. -/
namespace LoginServer.Message

open Faults Bytes

/-- The current buffer, and those before it as they were when they were left. -/
structure Buffered where
  m_outputBuffer : Option OutputMessage
  left : List OutputMessage

def noOutput : Buffered := ⟨none, []⟩

def putMessage (msg : NetworkMessage) (buffer : OutputMessage) : Option OutputMessage := do
  let value ← load NETWORK_CRYPTOHEADER_SIZE msg.m_size msg
  let done ← base (putString value.1 false) buffer
  some done.2

/-- `pool` is what the pool hands out when it is asked. -/
def writeOutputBuffer (m_connection : Bool) (pool : Option OutputMessage) (msg : NetworkMessage)
    (s : Buffered) : Option Buffered :=
  if s.m_outputBuffer.isNone ∧ m_connection = false then some s
  else
    let s := match s.m_outputBuffer with
      | none => { s with m_outputBuffer := pool }
      | some buffer =>
        if NETWORK_MAX_SIZE < buffer.m_position + msg.m_size then ⟨pool, s.left ++ [buffer]⟩ else s
    match s.m_outputBuffer with
    | none => some s
    | some buffer => (putMessage msg buffer).map fun buffer => ⟨some buffer, s.left⟩

/-- What `onSendMessage` does about the buffer when it is the one that goes out. -/
def resetOutputBuffer (s : Buffered) : Buffered := ⟨none, s.left ++ s.m_outputBuffer.toList⟩

def body (m : NetworkMessage) : List UInt8 := m.m_buffer.read NETWORK_CRYPTOHEADER_SIZE m.m_size

/-- A message that was filled by `put` and `putString`. -/
structure Built where
  msg : NetworkMessage
  built : ∃ stale calls, runAll calls ⟨0, NETWORK_CRYPTOHEADER_SIZE, stale⟩ = some (⟨⟩, msg)

/-- A write, with the memory of the buffer that the pool has for it, or the sending of the
current buffer. -/
inductive OutputEvent where
  | write (msg : Built) (stale : Memory)
  | sent

def OutputEvent.payload : OutputEvent → List UInt8
  | .write msg _ => body msg.msg
  | .sent => []

/-- The connection is there and the pool is not stopped. -/
def outputStep (s : Buffered) : OutputEvent → Option Buffered
  | .write msg stale => writeOutputBuffer true (some (configured stale)) msg.msg s
  | .sent => some (resetOutputBuffer s)

def runOutput : Buffered → List OutputEvent → Option Buffered
  | s, [] => some s
  | s, e :: events => (outputStep s e).bind fun t => runOutput t events

def Buffered.bodies (s : Buffered) : List (List UInt8) :=
  (s.left ++ s.m_outputBuffer.toList).map fun m => body m.toNetworkMessage

/-- The message goes whole behind the last body or into a new one. -/
def AppendsWhole (before after : List (List UInt8)) (message : List UInt8) : Prop :=
  after = before ++ [message] ∨
    ∃ front held, before = front ++ [held] ∧ after = front ++ [held ++ message]

def EachWhole : Buffered → List OutputEvent → Prop
  | _, [] => True
  | s, e :: events => ∃ t, outputStep s e = some t ∧
      (match e with
        | .write msg _ => AppendsWhole s.bodies t.bodies (body msg.msg)
        | .sent => t.bodies = s.bodies) ∧ EachWhole t events

def NothingDropped (events : List OutputEvent) : Prop :=
  EachWhole noOutput events ∧
    ∃ s, runOutput noOutput events = some s ∧
      s.bodies.flatten = events.flatMap OutputEvent.payload

/-- The current body is too full for `putString` and not full enough for a new buffer. -/
def InGap (fill : Option ℕ) (length : ℕ) : Prop :=
  ∃ n ∈ fill, NETWORK_BODY_SIZE ≤ NETWORK_CRYPTOHEADER_SIZE + n + length ∧
    NETWORK_CRYPTOHEADER_SIZE + n + length ≤ NETWORK_MAX_SIZE

def nextFill : Option ℕ → ℕ → Option ℕ
  | none, length => some length
  | some n, length =>
    if NETWORK_MAX_SIZE < NETWORK_CRYPTOHEADER_SIZE + n + length then some length
    else some (n + length)

/-- No message comes upon such a body. -/
def NoneInGap : Option ℕ → List OutputEvent → Prop
  | _, [] => True
  | fill, .write msg _ :: events =>
    ¬ InGap fill msg.msg.m_size ∧ NoneInGap (nextFill fill msg.msg.m_size) events
  | _, .sent :: events => NoneInGap none events

theorem sizes : bodyLimit = 16361 ∧ NETWORK_BODY_SIZE = 16370 ∧ NETWORK_MAX_SIZE = 16384 ∧
    NETWORK_CRYPTOHEADER_SIZE = 8 := by
  decide

/-! ## Pages of bytes -/

/-- The bodies alone: the pages that are full, and the one that is written on. -/
structure Pages where
  full : List (List UInt8)
  current : Option (List UInt8)

namespace Pages

def all (p : Pages) : List (List UInt8) := p.full ++ p.current.toList

def fill (p : Pages) : Option ℕ := p.current.map List.length

def write (p : Pages) (message : List UInt8) : Pages :=
  match p.current with
  | none => { p with current := some message }
  | some held =>
    if NETWORK_MAX_SIZE < NETWORK_CRYPTOHEADER_SIZE + held.length + message.length then
      ⟨p.full ++ [held], some message⟩
    else if NETWORK_CRYPTOHEADER_SIZE + held.length + message.length < NETWORK_BODY_SIZE then
      { p with current := some (held ++ message) }
    else p

def send (p : Pages) : Pages := ⟨p.all, none⟩

def Room (p : Pages) : Prop := ∀ held ∈ p.current, held.length ≤ bodyLimit

variable {p : Pages} {message : List UInt8}

theorem all_send (p : Pages) : p.send.all = p.all := List.append_nil _

theorem write_whole (h : ¬ InGap p.fill message.length) :
    AppendsWhole p.all (p.write message).all message ∧
      (p.write message).fill = nextFill p.fill message.length := by
  obtain ⟨full, current⟩ := p
  cases current with
  | none => exact ⟨Or.inl (by simp [all, write]), rfl⟩
  | some held =>
    by_cases hnew : NETWORK_MAX_SIZE <
        NETWORK_CRYPTOHEADER_SIZE + held.length + message.length
    · refine ⟨Or.inl ?_, ?_⟩
      · simp [all, write, hnew]
      · simp [fill, write, nextFill, hnew]
    · have hfits : NETWORK_CRYPTOHEADER_SIZE + held.length + message.length <
          NETWORK_BODY_SIZE := by
        by_contra hover
        exact h ⟨held.length, rfl, Nat.le_of_not_lt hover, Nat.le_of_not_lt hnew⟩
      refine ⟨Or.inr ⟨full, held, rfl, ?_⟩, ?_⟩
      · simp [all, write, hnew, hfits]
      · simp [fill, write, nextFill, hnew, hfits]

theorem write_dropped (hroom : p.Room) (h : InGap p.fill message.length) :
    p.write message = p ∧ message ≠ [] := by
  obtain ⟨full, current⟩ := p
  obtain ⟨n, hn, hover, hunder⟩ := h
  obtain ⟨held, hheld, rfl⟩ := Option.map_eq_some_iff.mp hn
  cases hheld
  constructor
  · simp only [write, if_neg (Nat.not_lt.mpr hunder), if_neg (Nat.not_lt.mpr hover)]
  · rintro rfl
    obtain ⟨hlimit, hbody, -, hheader⟩ := sizes
    have hle := hroom held rfl
    rw [List.length_nil] at hover
    omega

theorem appendsWhole_iff (hroom : p.Room) :
    AppendsWhole p.all (p.write message).all message ↔ ¬ InGap p.fill message.length := by
  constructor
  · intro hwhole hgap
    obtain ⟨hsame, hne⟩ := write_dropped hroom hgap
    rw [hsame] at hwhole
    rcases hwhole with h | ⟨front, held, hbefore, hafter⟩
    · have hlen := congrArg List.length h
      rw [List.length_append, List.length_singleton] at hlen
      omega
    · rw [hbefore, List.append_cancel_left_eq, List.cons.injEq] at hafter
      exact hne (List.append_right_eq_self.mp hafter.1.symm)
  · intro hgap
    exact (write_whole hgap).1

end Pages

def leftBodies (left : List OutputMessage) : List (List UInt8) :=
  left.map fun m => body m.toNetworkMessage

inductive Refines : Buffered → Pages → Prop
  | none (left) : Refines ⟨none, left⟩ ⟨leftBodies left, none⟩
  | some (left buffer page) (h : Holds buffer.toNetworkMessage page) :
      Refines ⟨some buffer, left⟩ ⟨leftBodies left, some page⟩

variable {s : Buffered} {p : Pages}

theorem body_of_holds {m : NetworkMessage} {page : List UInt8} (h : Holds m page) :
    body m = page := by
  rw [body, h.size, h.bytes]

theorem Built.holds (m : Built) : Holds m.msg (body m.msg) := by
  obtain ⟨msg, stale, calls, hrun⟩ := m
  obtain ⟨u, hu, hholds⟩ := runAll_written stale calls
  cases hu.symm.trans hrun
  rwa [body_of_holds hholds]

theorem Built.length_body (m : Built) : (body m.msg).length = m.msg.m_size := m.holds.size.symm

theorem Built.body_le (m : Built) : (body m.msg).length ≤ bodyLimit := by
  have hroom := m.holds.room
  simp only [bodyLimit]
  omega

theorem leftBodies_concat (left : List OutputMessage) {buffer : OutputMessage}
    {page : List UInt8} (h : Holds buffer.toNetworkMessage page) :
    leftBodies (left ++ [buffer]) = leftBodies left ++ [page] := by
  rw [leftBodies, List.map_append, List.map_singleton, body_of_holds h, leftBodies]

theorem Refines.bodies (h : Refines s p) : s.bodies = p.all := by
  cases h with
  | none left => exact congrArg leftBodies (List.append_nil left) |>.trans (List.append_nil _).symm
  | some left buffer page h => exact leftBodies_concat left h

theorem Refines.room (h : Refines s p) : p.Room := by
  cases h with
  | none left => exact fun _ hnone => nomatch hnone
  | some left buffer page h =>
    rintro held ⟨⟩
    have hroom := h.room
    simp only [bodyLimit]
    omega

theorem putMessage_run {buffer : OutputMessage} {page : List UInt8}
    (h : Holds buffer.toNetworkMessage page) (m : Built) :
    ∃ u, putMessage m.msg buffer = some u ∧
      Holds u.toNetworkMessage
        (if NETWORK_CRYPTOHEADER_SIZE + page.length + (body m.msg).length < NETWORK_BODY_SIZE then
          page ++ body m.msg else page) := by
  obtain ⟨hlimit, hbody, hmax, hheader⟩ := sizes
  have hle := m.body_le
  have hmod : (body m.msg).length % 4294967296 = (body m.msg).length := Nat.mod_eq_of_lt (by omega)
  have hload : load NETWORK_CRYPTOHEADER_SIZE m.msg.m_size m.msg = some (body m.msg, m.msg) :=
    load_run (by rw [← m.length_body]; omega)
  obtain ⟨u, hu, hholds⟩ := putString_run h (body m.msg) false
  refine ⟨{ buffer with toNetworkMessage := u }, ?_, ?_⟩
  · rw [putMessage, hload, Option.bind_eq_bind, Option.bind_some, base, zoom_of_run hu]
    rfl
  · have hfits : Call.Fits page.length (.putString (body m.msg) false) ↔
        NETWORK_CRYPTOHEADER_SIZE + page.length + (body m.msg).length < NETWORK_BODY_SIZE := by
      simp only [Call.Fits, hmod, Bool.false_eq_true, if_false, Nat.add_zero]
      omega
    simpa only [writeCall, hfits, Call.encode, hmod, List.take_length] using hholds

theorem putMessage_configured (m : Built) (stale : Memory) :
    ∃ u, putMessage m.msg (configured stale) = some u ∧
      Holds u.toNetworkMessage (body m.msg) := by
  obtain ⟨hlimit, hbody, -, hheader⟩ := sizes
  have hle := m.body_le
  have hfits : NETWORK_CRYPTOHEADER_SIZE + ([] : List UInt8).length + (body m.msg).length <
      NETWORK_BODY_SIZE := by
    rw [List.length_nil]
    omega
  have hempty : Holds (configured stale).toNetworkMessage [] := holds_empty stale
  obtain ⟨u, hu, hholds⟩ := putMessage_run hempty m
  rw [if_pos hfits, List.nil_append] at hholds
  exact ⟨u, hu, hholds⟩

theorem write_refines (h : Refines s p) (m : Built) (stale : Memory) :
    ∃ t, outputStep s (.write m stale) = some t ∧ Refines t (p.write (body m.msg)) := by
  cases h with
  | none left =>
    obtain ⟨u, hu, hholds⟩ := putMessage_configured m stale
    exact ⟨⟨some u, left⟩, by simp [outputStep, writeOutputBuffer, hu], .some left u _ hholds⟩
  | some left buffer page h =>
    have hposition : buffer.m_position + m.msg.m_size =
        NETWORK_CRYPTOHEADER_SIZE + page.length + (body m.msg).length := by
      rw [h.position, m.length_body]
    by_cases hnew : NETWORK_MAX_SIZE <
        NETWORK_CRYPTOHEADER_SIZE + page.length + (body m.msg).length
    · obtain ⟨u, hu, hholds⟩ := putMessage_configured m stale
      refine ⟨⟨some u, left ++ [buffer]⟩, ?_, ?_⟩
      · simp [outputStep, writeOutputBuffer, hposition, hnew, hu]
      · have hrefines := Refines.some (left ++ [buffer]) u _ hholds
        rw [leftBodies_concat left h] at hrefines
        simpa [Pages.write, hnew] using hrefines
    · obtain ⟨u, hu, hholds⟩ := putMessage_run h m
      refine ⟨⟨some u, left⟩, ?_, ?_⟩
      · simp [outputStep, writeOutputBuffer, hposition, hnew, hu]
      · have hrefines := Refines.some left u _ hholds
        simp only [Pages.write, hnew, if_false]
        split_ifs at hrefines ⊢ <;> exact hrefines

theorem sent_refines (h : Refines s p) : Refines (resetOutputBuffer s) p.send := by
  have hall := h.bodies
  have hsent := Refines.none (s.left ++ s.m_outputBuffer.toList)
  rwa [show leftBodies (s.left ++ s.m_outputBuffer.toList) = p.all from hall] at hsent

theorem eachWhole_write {m : Built} {stale : Memory} {events : List OutputEvent} {t : Buffered}
    (ht : outputStep s (.write m stale) = some t) :
    EachWhole s (.write m stale :: events) ↔
      AppendsWhole s.bodies t.bodies (body m.msg) ∧ EachWhole t events := by
  constructor
  · rintro ⟨u, hu, hwhole, hrest⟩
    cases ht.symm.trans hu
    exact ⟨hwhole, hrest⟩
  · rintro ⟨hwhole, hrest⟩
    exact ⟨t, ht, hwhole, hrest⟩

/-- Every message is appended whole just when none comes upon a body in the gap. -/
theorem eachWhole_iff (h : Refines s p) (events : List OutputEvent) :
    EachWhole s events ↔ NoneInGap p.fill events := by
  induction events generalizing s p with
  | nil => exact Iff.rfl
  | cons e events ih =>
    cases e with
    | write m stale =>
      obtain ⟨t, ht, hrefines⟩ := write_refines h m stale
      rw [eachWhole_write ht, h.bodies, hrefines.bodies, Pages.appendsWhole_iff h.room,
        NoneInGap, ← m.length_body]
      apply and_congr_right
      intro hgap
      rw [ih hrefines, (Pages.write_whole hgap).2]
    | sent =>
      have hrefines := sent_refines h
      have hsame : (resetOutputBuffer s).bodies = s.bodies := by
        rw [hrefines.bodies, Pages.all_send, h.bodies]
      constructor
      · rintro ⟨t, ⟨⟩, -, hrest⟩
        exact (ih hrefines).mp hrest
      · intro hrest
        exact ⟨resetOutputBuffer s, rfl, hsame, (ih hrefines).mpr hrest⟩

theorem AppendsWhole.flatten {before after : List (List UInt8)} {message : List UInt8}
    (h : AppendsWhole before after message) : after.flatten = before.flatten ++ message := by
  rcases h with rfl | ⟨front, held, rfl, rfl⟩
  · simp
  · simp

theorem EachWhole.joined {events : List OutputEvent} (h : EachWhole s events) :
    ∃ t, runOutput s events = some t ∧
      t.bodies.flatten = s.bodies.flatten ++ events.flatMap OutputEvent.payload := by
  induction events generalizing s with
  | nil => exact ⟨s, rfl, (List.append_nil _).symm⟩
  | cons e events ih =>
    obtain ⟨u, hu, hwhole, hrest⟩ := h
    obtain ⟨t, ht, hjoined⟩ := ih hrest
    refine ⟨t, by rw [runOutput, hu, Option.bind_some, ht], ?_⟩
    cases e with
    | write m stale =>
      rw [hjoined, hwhole.flatten, List.append_assoc]
      rfl
    | sent =>
      rw [hjoined, hwhole]
      rfl

theorem eachWhole_start_iff (events : List OutputEvent) :
    EachWhole noOutput events ↔ NoneInGap none events :=
  eachWhole_iff (.none []) events

/-- No byte of output is dropped just when no message comes upon a body in the gap. -/
theorem nothingDropped_iff (events : List OutputEvent) :
    NothingDropped events ↔ NoneInGap none events := by
  constructor
  · rintro ⟨hwhole, -⟩
    exact (eachWhole_start_iff events).mp hwhole
  · intro hgap
    have hwhole := (eachWhole_start_iff events).mpr hgap
    exact ⟨hwhole, hwhole.joined⟩

theorem exists_built {n : ℕ} (h : n ≤ bodyLimit) : ∃ m : Built, m.msg.m_size = n := by
  obtain ⟨hlimit, hbody, -, hheader⟩ := sizes
  obtain ⟨u, hu, hholds⟩ :=
    runAll_written (fun _ => 0) [.putString (List.replicate n 0) false]
  have hmod : n % 4294967296 = n := Nat.mod_eq_of_lt (by omega)
  have hfits : Call.Fits ([] : List UInt8).length (.putString (List.replicate n 0) false) := by
    simp only [Call.Fits, List.length_replicate, hmod, List.length_nil, Bool.false_eq_true,
      if_false]
    omega
  refine ⟨⟨u, _, _, hu⟩, ?_⟩
  rw [hholds.size, written, List.foldl_cons, List.foldl_nil, writeCall, if_pos hfits]
  simp [Call.encode, hmod]

/-- The second of two messages of 8181 bytes is dropped. -/
theorem second_message_dropped : ¬ ∀ events : List OutputEvent, NothingDropped events := by
  intro hall
  obtain ⟨m, hm⟩ := exists_built (n := 8181) (by decide)
  have hwhole := (hall [.write m fun _ => 0, .write m fun _ => 0]).1
  rw [eachWhole_start_iff, NoneInGap, NoneInGap, hm] at hwhole
  exact hwhole.2.1 ⟨8181, rfl, by decide, by decide⟩

end LoginServer.Message
