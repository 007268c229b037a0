import LoginServer.Library.Runs
import Mathlib.Data.List.Basic
import Std.Data.TreeMap

/-! # `acceptConnection`

The connections that `ConnectionManager` counts for each address. The count of a window is read
once, by the first call more than a second after the window began, and that call opens the next
one. The windows of an address are therefore a list in which each decides how the next answers. -/
namespace LoginServer.ConnectBlocks

open Runs

structure ConnectBlock where
  count : UInt32
  startTime : ℕ
  blockTime : ℕ
  deriving DecidableEq, Repr

/-- What `acceptConnection` answers for an address with this entry, and the entry it leaves. -/
def accept (it : Option ConnectBlock) (currentTime : ℕ) : Bool × ConnectBlock :=
  match it with
  | none => (true, { count := 1, startTime := currentTime, blockTime := 0 })
  | some it =>
    let it := { it with count := it.count + 1 }
    if it.blockTime > currentTime then (false, it)
    else if currentTime - it.startTime > 1000 then
      if it.count > 10 then
        (false, { count := 0, startTime := currentTime, blockTime := currentTime + 10000 })
      else (true, { count := 0, startTime := currentTime, blockTime := 0 })
    else (true, it)

abbrev IpConnectMap := Std.TreeMap UInt32 ConnectBlock

def acceptConnection (ipConnectMap : IpConnectMap) (clientIp : UInt32) (currentTime : ℕ) :
    Bool × IpConnectMap :=
  if clientIp = 0 then (false, ipConnectMap)
  else
    let (accepted, it) := accept ipConnectMap[clientIp]? currentTime
    (accepted, ipConnectMap.insert clientIp it)

structure Call where
  clientIp : UInt32
  time : ℕ
  accepted : Bool
  deriving DecidableEq, Repr

/-- The manager, the time of the last call, and the calls so far, the last one first. -/
structure State where
  ipConnectMap : IpConnectMap
  time : ℕ
  calls : List Call

def initial : State where
  ipConnectMap := ∅
  time := 0
  calls := []

def call (s : State) (clientIp : UInt32) (currentTime : ℕ) : State :=
  let (accepted, ipConnectMap) := acceptConnection s.ipConnectMap clientIp currentTime
  { ipConnectMap := ipConnectMap
    time := currentTime
    calls := ⟨clientIp, currentTime, accepted⟩ :: s.calls }

/-- Calls from any address but 0, at times that do not fall. -/
def machine : Machine State (UInt32 × ℕ) where
  start s := s = initial
  step s e := if e.1 ≠ 0 ∧ s.time ≤ e.2 then some (call s e.1 e.2) else none

def callsOf (s : State) (clientIp : UInt32) : List Call :=
  s.calls.filter fun c => c.clientIp = clientIp

/-- The calls from one window start to the next. They are answered alike; the last of `times` is
the call that opened the window. -/
structure Window where
  startTime : ℕ
  accepted : Bool
  times : List ℕ

def Window.endTime (w : Window) : ℕ := w.startTime + if w.accepted then 1001 else 10000

structure Window.Whole (w : Window) : Prop where
  opened : w.times.getLast? = some w.startTime
  within : ∀ time ∈ w.times, w.startTime ≤ time ∧ time < w.endTime

/-- The `count` of the first window includes its opening call; the later ones start from 0. -/
def counted : List Window → UInt32
  | [] => 0
  | [w] => .ofNat w.times.length
  | w :: _ :: _ => .ofNat (w.times.length - 1)

/-- Windows in the order in which the limiter opens them, the last one first. -/
inductive Windows : List Window → Prop where
  | first {w} : w.Whole → w.accepted = true → Windows [w]
  | next {w v ws} : w.Whole → Windows (v :: ws) → v.endTime ≤ w.startTime →
      w.accepted = decide (counted (v :: ws) + 1 ≤ 10) → Windows (w :: v :: ws)

def blockOf : List Window → Option ConnectBlock
  | [] => none
  | w :: ws => some
    { count := counted (w :: ws)
      startTime := w.startTime
      blockTime := if w.accepted then 0 else w.startTime + 10000 }

def Window.calls (clientIp : UInt32) (w : Window) : List Call :=
  w.times.map fun time => ⟨clientIp, time, w.accepted⟩

/-- The calls of an address, window by window. -/
inductive Counted (clientIp : UInt32) (it : Option ConnectBlock) (calls : List Call) : Prop where
  | none : it = none → calls = [] → Counted clientIp it calls
  | windows (ws) : Windows ws → it = blockOf ws → calls = ws.flatMap (Window.calls clientIp) →
      Counted clientIp it calls

def Window.add (w : Window) (time : ℕ) : Window := { w with times := time :: w.times }

theorem Window.Whole.add {w : Window} (h : w.Whole) {time : ℕ} (hs : w.startTime ≤ time)
    (he : time < w.endTime) : (w.add time).Whole where
  opened := by
    rw [Window.add, List.getLast?_cons, h.opened]
    rfl
  within := by
    intro x hx
    rcases List.mem_cons.mp hx with rfl | hx
    · exact ⟨hs, he⟩
    · exact h.within x hx

theorem Window.Whole.mem {w : Window} (h : w.Whole) : w.startTime ∈ w.times :=
  List.mem_of_getLast? h.opened

theorem Window.Whole.length_pos {w : Window} (h : w.Whole) : 0 < w.times.length :=
  List.length_pos_of_mem h.mem

theorem counted_add {w : Window} (h : w.Whole) (ws : List Window) (time : ℕ) :
    counted (w.add time :: ws) = counted (w :: ws) + 1 := by
  have hpos := h.length_pos
  cases ws with
  | nil => simp [counted, Window.add, UInt32.ofNat_add]
  | cons v ws =>
    obtain ⟨n, hn⟩ := Nat.exists_eq_add_of_lt hpos
    simp [counted, Window.add, hn, UInt32.ofNat_add]

def Window.open (time : ℕ) (accepted : Bool) : Window := ⟨time, accepted, [time]⟩

theorem Window.whole_open (time : ℕ) (accepted : Bool) : (Window.open time accepted).Whole where
  opened := rfl
  within := by
    intro x hx
    cases List.mem_singleton.mp hx
    cases accepted <;> simp [Window.open, Window.endTime]

theorem counted_open (time : ℕ) (accepted : Bool) (v : Window) (ws : List Window) :
    counted (Window.open time accepted :: v :: ws) = 0 := rfl

theorem accept_within {w : Window} (h : w.Whole) (ws : List Window) {time : ℕ}
    (hs : w.startTime ≤ time) (he : time < w.endTime) :
    (accept (blockOf (w :: ws)) time).1 = w.accepted ∧
      some (accept (blockOf (w :: ws)) time).2 = blockOf (w.add time :: ws) := by
  have hcount := counted_add h ws time
  simp only [Window.endTime] at he
  cases hw : w.accepted with
  | false =>
    have hblocked : w.startTime + 10000 > time := by simpa [hw] using he
    simp only [blockOf, hcount]
    simp [accept, hw, hblocked, Window.add]
  | true =>
    have hwithin : ¬ time - w.startTime > 1000 := by
      simp only [hw, if_true] at he
      omega
    simp only [blockOf, hcount]
    simp [accept, hw, hwithin, Window.add]

theorem accept_after {w : Window} (ws : List Window) {time : ℕ} (he : w.endTime ≤ time) :
    (accept (blockOf (w :: ws)) time).1 = decide (counted (w :: ws) + 1 ≤ 10) ∧
      some (accept (blockOf (w :: ws)) time).2 =
        blockOf (Window.open time (decide (counted (w :: ws) + 1 ≤ 10)) :: w :: ws) := by
  have hblocked : ¬ (if w.accepted then 0 else w.startTime + 10000) > time := by
    simp only [Window.endTime] at he
    split <;> simp_all
  have hafter : time - w.startTime > 1000 := by
    simp only [Window.endTime] at he
    split at he <;> omega
  by_cases hfew : counted (w :: ws) + 1 ≤ 10
  · have hnot : ¬ counted (w :: ws) + 1 > 10 := UInt32.not_lt.mpr hfew
    simp only [blockOf, counted_open]
    simp only [accept, hblocked, hafter, hfew, hnot]
    simp [Window.open]
  · have hmany : counted (w :: ws) + 1 > 10 := UInt32.not_le.mp hfew
    simp only [blockOf, counted_open]
    simp only [accept, hblocked, hafter, hfew, hmany]
    simp [Window.open]

theorem Windows.head {w : Window} {ws : List Window} (h : Windows (w :: ws)) : w.Whole := by
  cases h with
  | first hw => exact hw
  | next hw => exact hw

theorem Windows.add {w : Window} {ws : List Window} (h : Windows (w :: ws)) {time : ℕ}
    (hs : w.startTime ≤ time) (he : time < w.endTime) : Windows (w.add time :: ws) := by
  cases h with
  | first hw haccepted => exact .first (hw.add hs he) haccepted
  | next hw hws hafter haccepted => exact .next (hw.add hs he) hws hafter haccepted

theorem Counted.call {clientIp : UInt32} {it : Option ConnectBlock} {calls : List Call}
    (h : Counted clientIp it calls) {time : ℕ} (ht : ∀ c ∈ calls, c.time ≤ time) :
    Counted clientIp (some (accept it time).2) (⟨clientIp, time, (accept it time).1⟩ :: calls) := by
  cases h with
  | none hit hcalls =>
    subst hit hcalls
    exact .windows [Window.open time true] (.first (Window.whole_open time true) rfl) rfl rfl
  | windows ws hws hit hcalls =>
    subst hit hcalls
    cases ws with
    | nil => cases hws
    | cons w ws =>
      have hs : w.startTime ≤ time := by
        apply ht ⟨clientIp, w.startTime, w.accepted⟩
        simp [Window.calls, hws.head.mem]
      rcases Nat.lt_or_ge time w.endTime with he | he
      · obtain ⟨haccepted, hblock⟩ := accept_within hws.head ws hs he
        refine .windows (w.add time :: ws) (hws.add hs he) hblock ?_
        rw [haccepted]
        rfl
      · obtain ⟨haccepted, hblock⟩ := accept_after ws he
        refine .windows _ (.next (Window.whole_open time _) hws he rfl) hblock ?_
        rw [haccepted]
        rfl

theorem acceptConnection_self (ipConnectMap : IpConnectMap) {clientIp : UInt32}
    (hip : clientIp ≠ 0) (time : ℕ) :
    (acceptConnection ipConnectMap clientIp time).1 = (accept ipConnectMap[clientIp]? time).1 ∧
      (acceptConnection ipConnectMap clientIp time).2[clientIp]? =
        some (accept ipConnectMap[clientIp]? time).2 := by
  simp [acceptConnection, hip]

theorem acceptConnection_other {ipConnectMap : IpConnectMap} {clientIp other : UInt32}
    (hne : clientIp ≠ other) (time : ℕ) :
    (acceptConnection ipConnectMap clientIp time).2[other]? = ipConnectMap[other]? := by
  rw [acceptConnection]
  split
  · rfl
  · simp [Std.TreeMap.getElem?_insert, hne]

structure Limited (s : State) : Prop where
  times : ∀ c ∈ s.calls, c.time ≤ s.time
  counted : ∀ clientIp, Counted clientIp s.ipConnectMap[clientIp]? (callsOf s clientIp)

theorem limited_initial : Limited initial where
  times := by simp [initial]
  counted clientIp := .none Std.TreeMap.getElem?_emptyc rfl

theorem limited_call {s : State} (h : Limited s) {clientIp : UInt32} (hip : clientIp ≠ 0) {time : ℕ}
    (ht : s.time ≤ time) : Limited (call s clientIp time) where
  times := by
    intro c hc
    rcases List.mem_cons.mp hc with rfl | hc
    · exact Nat.le_refl _
    · exact Nat.le_trans (h.times c hc) ht
  counted other := by
    by_cases hne : clientIp = other
    · subst hne
      obtain ⟨haccepted, hit⟩ := acceptConnection_self s.ipConnectMap hip time
      have hcalls : callsOf (call s clientIp time) clientIp =
          ⟨clientIp, time, (accept s.ipConnectMap[clientIp]? time).1⟩ :: callsOf s clientIp := by
        simp [callsOf, call, haccepted]
      have hmap : (call s clientIp time).ipConnectMap[clientIp]? =
          some (accept s.ipConnectMap[clientIp]? time).2 := hit
      rw [hcalls, hmap]
      apply (h.counted clientIp).call
      intro c hc
      exact Nat.le_trans (h.times c (List.mem_of_mem_filter hc)) ht
    · have hcalls : callsOf (call s clientIp time) other = callsOf s other := by
        simp [callsOf, call, hne]
      have hmap : (call s clientIp time).ipConnectMap[other]? = s.ipConnectMap[other]? :=
        acceptConnection_other hne time
      rw [hcalls, hmap]
      exact h.counted other

theorem limited_of_reachable {s : State} (h : machine.Reachable s) : Limited s := by
  refine Machine.invariant (fun s hs => ?_) (fun s e u hi hstep => ?_) h
  · cases hs
    exact limited_initial
  · simp only [machine] at hstep
    split at hstep <;> cases hstep
    rename_i hcall
    exact limited_call hi hcall.1 hcall.2

/-- The calls of an address are those of its windows. -/
theorem windows_of_reachable {s : State} (h : machine.Reachable s) {clientIp : UInt32} {c : Call}
    (hc : c ∈ callsOf s clientIp) :
    ∃ ws, Windows ws ∧ callsOf s clientIp = ws.flatMap (Window.calls clientIp) := by
  cases (limited_of_reachable h).counted clientIp with
  | none _ hcalls =>
    rw [hcalls] at hc
    cases hc
  | windows ws hws _ hcalls => exact ⟨ws, hws, hcalls⟩

end LoginServer.ConnectBlocks
