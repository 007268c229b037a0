import LoginServer.Library.Runs
import Mathlib.Data.Int.Notation
import Mathlib.Data.List.Count
import Mathlib.Tactic.Ring

/-! # The packet rate of a connection

The rate test of `parsePacket` divides the packets of a window by its length in seconds. A packet
that finds the window longer than two seconds is tested first and starts the next window then.
Each packet has two times, what `time(NULL)` answers in the test and at the start of a window. -/
namespace LoginServer.PacketRate

open Runs

inductive Verdict where
  | passes
  | tooMany
  | notOpen
  deriving DecidableEq, Repr

structure Parsed where
  now : ℕ
  verdict : Verdict
  deriving DecidableEq, Repr

/-- What the test reads and writes, the time of the last call of `time(NULL)`, and the packets so
far, the last one first. -/
structure State where
  m_time : ℕ
  m_packets : UInt32
  isOpen : Bool
  clock : ℕ
  parsed : List Parsed
  deriving DecidableEq, Repr

/-- A connection that is made at this time. -/
def initial (created : ℕ) : State := ⟨created, 0, true, created, []⟩

/-- `passed`, a 32-bit number made of a 64-bit one. -/
def passed (m_time now : ℕ) : UInt32 := UInt32.ofInt (max 1 ((now : ℤ) - m_time + 1))

/-- The test; a `passed` that is cut to 0 divides by zero and gives no state. -/
def rateTest (MAX_PACKETS_PER_SECOND : ℤ) (s : State) (now again : ℕ) : Option (State × Verdict) :=
  if s.isOpen = false then some (s, .notOpen)
  else if passed s.m_time now = 0 then none
  else if (s.m_packets + 1) / passed s.m_time now > UInt32.ofInt MAX_PACKETS_PER_SECOND then
    some ({ s with m_packets := s.m_packets + 1, isOpen := false }, .tooMany)
  else if passed s.m_time now > 2 then some ({ s with m_time := again, m_packets := 0 }, .passes)
  else some ({ s with m_packets := s.m_packets + 1 }, .passes)

def parsePacket (MAX_PACKETS_PER_SECOND : ℤ) (s : State) (now again : ℕ) : Option State :=
  (rateTest MAX_PACKETS_PER_SECOND s now again).map fun r =>
    { r.1 with clock := again, parsed := ⟨now, r.2⟩ :: r.1.parsed }

/-- Packets at times that do not fall and fit in 32 bits. -/
def machine (MAX_PACKETS_PER_SECOND : ℤ) : Machine State (ℕ × ℕ) where
  start s := ∃ created, s = initial created
  step s e := if s.clock ≤ e.1 ∧ e.1 ≤ e.2 ∧ e.2 < 4294967296 then
    parsePacket MAX_PACKETS_PER_SECOND s e.1 e.2 else none

def packetsIn (second : ℕ) (l : List Parsed) : ℕ := l.countP fun p => p.now = second

def passesIn (second : ℕ) (l : List Parsed) : ℕ :=
  l.countP fun p => p.now = second ∧ p.verdict = .passes

theorem passed_mod {m_time now : ℕ} (h : m_time ≤ now) :
    (passed m_time now).toNat = (now - m_time + 1) % 4294967296 := by
  have hmax : max 1 ((now : ℤ) - m_time + 1) = ((now - m_time + 1 : ℕ) : ℤ) := by omega
  rw [passed, hmax, UInt32.ofInt, UInt32.toNat_ofNat']
  omega

/-- The divisor is 0 only for a window of all the seconds there are. -/
theorem passed_eq_zero_iff {m_time now : ℕ} (h : m_time ≤ now) (hlt : now < 4294967296) :
    passed m_time now = 0 ↔ m_time = 0 ∧ now = 4294967295 := by
  have hzero : passed m_time now = 0 ↔ (passed m_time now).toNat = 0 :=
    (UInt32.toNat_inj (b := 0)).symm
  rw [hzero, passed_mod h]
  omega

theorem passed_toNat {m_time now : ℕ} (h : m_time ≤ now) (hlt : now < 4294967296)
    (hne : passed m_time now ≠ 0) : (passed m_time now).toNat = now - m_time + 1 := by
  rw [ne_eq, passed_eq_zero_iff h hlt] at hne
  rw [passed_mod h]
  omega

variable {MAX : ℕ} {s u : State} {now again : ℕ}

/-- So few packets that the next one is not too many. -/
def Admits (MAX : ℕ) (s : State) (now : ℕ) : Prop :=
  s.m_packets.toNat + 1 < (MAX + 1) * (now - s.m_time + 1)

inductive Outcome (MAX : ℕ) (s : State) (now again : ℕ) : State → Prop where
  | notOpen : s.isOpen = false → Outcome MAX s now again
      { s with clock := again, parsed := ⟨now, .notOpen⟩ :: s.parsed }
  | tooMany : s.isOpen = true → ¬ Admits MAX s now → Outcome MAX s now again
      { s with
        m_packets := s.m_packets + 1, isOpen := false
        clock := again, parsed := ⟨now, .tooMany⟩ :: s.parsed }
  | restarts : s.isOpen = true → Admits MAX s now → s.m_time + 2 ≤ now → Outcome MAX s now again
      { s with
        m_time := again, m_packets := 0
        clock := again, parsed := ⟨now, .passes⟩ :: s.parsed }
  | counts : s.isOpen = true → Admits MAX s now → now < s.m_time + 2 → Outcome MAX s now again
      { s with
        m_packets := s.m_packets + 1
        clock := again, parsed := ⟨now, .passes⟩ :: s.parsed }

theorem exceeds_iff (hMAX : MAX < 2147483648) (hcount : s.m_packets.toNat + 1 < 4294967296)
    (hpassed : (passed s.m_time now).toNat = now - s.m_time + 1) :
    (s.m_packets + 1) / passed s.m_time now > UInt32.ofInt MAX ↔ ¬ Admits MAX s now := by
  have hlimit : (UInt32.ofInt MAX).toNat = MAX := by
    rw [UInt32.ofInt, UInt32.toNat_ofNat']
    omega
  have hnext : (s.m_packets + 1).toNat = s.m_packets.toNat + 1 := by
    rw [UInt32.toNat_add]
    exact Nat.mod_eq_of_lt hcount
  rw [gt_iff_lt, UInt32.lt_iff_toNat_lt, UInt32.toNat_div, hlimit, hnext, hpassed,
    Nat.lt_iff_add_one_le, Nat.le_div_iff_mul_le (by omega), Admits, Nat.not_lt]

theorem parsePacket_outcome (hMAX : MAX < 2147483648) (hs : s.m_time ≤ now)
    (hlt : now < 4294967296) (hcount : s.m_packets.toNat + 1 < 4294967296)
    (h : parsePacket MAX s now again = some u) : Outcome MAX s now again u := by
  obtain ⟨⟨v, verdict⟩, htest, rfl⟩ := Option.map_eq_some_iff.mp h
  rw [rateTest] at htest
  by_cases hopen : s.isOpen = false
  · rw [if_pos hopen] at htest
    cases htest
    exact .notOpen hopen
  rw [if_neg hopen] at htest
  have hisOpen : s.isOpen = true := by simpa using hopen
  by_cases hzero : passed s.m_time now = 0
  · rw [if_pos hzero] at htest
    cases htest
  rw [if_neg hzero] at htest
  have hpassed := passed_toNat hs hlt hzero
  have hexceeds := exceeds_iff hMAX hcount hpassed
  by_cases hmany : (s.m_packets + 1) / passed s.m_time now > UInt32.ofInt MAX
  · rw [if_pos hmany] at htest
    cases htest
    exact .tooMany hisOpen (hexceeds.mp hmany)
  rw [if_neg hmany] at htest
  have hadmits : Admits MAX s now := by
    by_contra hno
    exact hmany (hexceeds.mpr hno)
  have hlong : passed s.m_time now > 2 ↔ s.m_time + 2 ≤ now := by
    have htwo : (2 : UInt32).toNat = 2 := rfl
    rw [gt_iff_lt, UInt32.lt_iff_toNat_lt, hpassed, htwo]
    omega
  by_cases hrestart : passed s.m_time now > 2
  · rw [if_pos hrestart] at htest
    cases htest
    exact .restarts hisOpen hadmits (hlong.mp hrestart)
  · rw [if_neg hrestart] at htest
    cases htest
    exact .counts hisOpen hadmits (Nat.lt_of_not_le fun h => hrestart (hlong.mpr h))

/-- The packets of the window so far, at least. -/
def windowPackets (m_time : ℕ) (l : List Parsed) : ℕ := l.countP fun p => m_time ≤ p.now

/-- No more than the packets of the window are counted, and no packet is later than the clock. -/
structure Counted (s : State) : Prop where
  window : s.m_time ≤ s.clock
  past : ∀ p ∈ s.parsed, p.now ≤ s.clock
  packets : s.m_packets.toNat ≤ windowPackets s.m_time s.parsed

theorem windowPackets_cons {m_time : ℕ} {p : Parsed} (h : m_time ≤ p.now) (l : List Parsed) :
    windowPackets m_time (p :: l) = windowPackets m_time l + 1 := by
  simp [windowPackets, h]

theorem Counted.room (h : Counted s) (hlen : s.parsed.length + 1 < 4294967296) :
    s.m_packets.toNat + 1 < 4294967296 := by
  have hle : windowPackets s.m_time s.parsed ≤ s.parsed.length := List.countP_le_length
  have hpackets := h.packets
  omega

theorem toNat_succ_le (n : UInt32) : (n + 1).toNat ≤ n.toNat + 1 := by
  rw [UInt32.toNat_add]
  exact Nat.mod_le _ _

theorem Counted.step (h : Counted s) (hnow : s.clock ≤ now) (hagain : now ≤ again)
    (ho : Outcome MAX s now again u) : Counted u := by
  have hwindow := h.window
  have hpackets := h.packets
  have hpast : ∀ (verdict : Verdict) (p : Parsed), p ∈ ⟨now, verdict⟩ :: s.parsed →
      p.now ≤ again := by
    intro verdict p hp
    rcases List.mem_cons.mp hp with rfl | hp
    · exact hagain
    · exact (h.past p hp).trans (hnow.trans hagain)
  have hcons : ∀ verdict, windowPackets s.m_time (⟨now, verdict⟩ :: s.parsed) =
      windowPackets s.m_time s.parsed + 1 :=
    fun verdict => windowPackets_cons (hwindow.trans hnow) s.parsed
  have hsucc := toNat_succ_le s.m_packets
  cases ho with
  | notOpen hopen =>
    refine ⟨?_, hpast _, ?_⟩
    · exact hwindow.trans (hnow.trans hagain)
    · rw [hcons]
      exact hpackets.trans (Nat.le_succ _)
  | tooMany hopen hadmits =>
    refine ⟨?_, hpast _, ?_⟩
    · exact hwindow.trans (hnow.trans hagain)
    · rw [hcons]
      exact hsucc.trans (Nat.succ_le_succ hpackets)
  | restarts hopen hadmits hlong => exact ⟨le_rfl, hpast _, Nat.zero_le _⟩
  | counts hopen hadmits hshort =>
    refine ⟨?_, hpast _, ?_⟩
    · exact hwindow.trans (hnow.trans hagain)
    · rw [hcons]
      exact hsucc.trans (Nat.succ_le_succ hpackets)

/-- A client that sends at most `MAX` packets in each second sends few in any window. -/
def Compliant (MAX : ℕ) (l : List Parsed) : Prop := ∀ second, packetsIn second l ≤ MAX

theorem countP_window_succ (m_time n : ℕ) (l : List Parsed) :
    (l.countP fun p => m_time ≤ p.now ∧ p.now < m_time + (n + 1)) ≤
      (l.countP fun p => m_time ≤ p.now ∧ p.now < m_time + n) + packetsIn (m_time + n) l := by
  induction l with
  | nil => simp
  | cons p l ih =>
    simp only [packetsIn, List.countP_cons, decide_eq_true_eq] at ih ⊢
    split_ifs <;> omega

theorem Compliant.window {l : List Parsed} (h : Compliant MAX l) (m_time n : ℕ) :
    (l.countP fun p => m_time ≤ p.now ∧ p.now < m_time + n) ≤ MAX * n := by
  induction n with
  | zero => simp
  | succ n ih =>
    have hsucc := countP_window_succ m_time n l
    have hsecond := h (m_time + n)
    rw [Nat.mul_succ]
    omega

theorem Compliant.windowPackets_le {l : List Parsed} (h : Compliant MAX l) (m_time : ℕ)
    (hpast : ∀ p ∈ l, p.now ≤ now) : windowPackets m_time l ≤ MAX * (now - m_time + 1) := by
  refine le_trans ?_ (h.window m_time (now - m_time + 1))
  apply List.countP_mono_left
  intro p hp hp'
  have := hpast p hp
  simp only [decide_eq_true_eq] at hp' ⊢
  omega

theorem Compliant.admits {verdict : Verdict} (h : Compliant MAX (⟨now, verdict⟩ :: s.parsed))
    (hc : Counted s) (hnow : s.clock ≤ now) : Admits MAX s now := by
  have hwindow := hc.window
  have hpackets := hc.packets
  have hpast : ∀ p ∈ (⟨now, verdict⟩ :: s.parsed : List Parsed), p.now ≤ now := by
    intro p hp
    rcases List.mem_cons.mp hp with rfl | hp
    · exact le_rfl
    · exact (hc.past p hp).trans hnow
  have hle := h.windowPackets_le s.m_time hpast
  rw [windowPackets_cons (hwindow.trans hnow)] at hle
  have hpos : 0 < now - s.m_time + 1 := Nat.succ_pos _
  rw [Admits, Nat.add_mul, Nat.one_mul]
  omega

/-- How many packets passed in a second, by where it lies from the start of the window on. The
packet that started the window passed in its first second or before it. -/
structure Bounded (MAX : ℕ) (s : State) : Prop where
  every : ∀ second, passesIn second s.parsed ≤ 2 * MAX + 1
  first : s.isOpen = true → passesIn s.m_time s.parsed ≤ s.m_packets.toNat + 1
  next : s.isOpen = true → passesIn (s.m_time + 1) s.parsed ≤ s.m_packets.toNat
  later : s.isOpen = true → ∀ second, s.m_time + 2 ≤ second → passesIn second s.parsed = 0

theorem passesIn_refused {verdict : Verdict} (hv : verdict ≠ .passes) (second : ℕ)
    (l : List Parsed) : passesIn second (⟨now, verdict⟩ :: l) = passesIn second l := by
  simp [passesIn, hv]

theorem passesIn_now (l : List Parsed) :
    passesIn now (⟨now, .passes⟩ :: l) = passesIn now l + 1 := by
  simp [passesIn]

theorem passesIn_other {second : ℕ} (h : now ≠ second) (l : List Parsed) :
    passesIn second (⟨now, .passes⟩ :: l) = passesIn second l := by
  simp [passesIn, h]

theorem passesIn_le {bound : ℕ} {l : List Parsed} (hall : ∀ second, passesIn second l ≤ bound)
    (hnow : passesIn now l < bound) (second : ℕ) :
    passesIn second (⟨now, .passes⟩ :: l) ≤ bound := by
  by_cases hs : now = second
  · subst hs
    rw [passesIn_now]
    exact hnow
  · rw [passesIn_other hs]
    exact hall second

theorem passesIn_later {start second : ℕ} {l : List Parsed}
    (hlater : ∀ second, start ≤ second → passesIn second l = 0) (hnow : now < start)
    (hs : start ≤ second) : passesIn second (⟨now, .passes⟩ :: l) = 0 := by
  rw [passesIn_other (by omega)]
  exact hlater second hs

theorem Bounded.counts (h : Bounded MAX s) (hopen : s.isOpen = true) (hnow : s.m_time ≤ now)
    (hadmits : Admits MAX s now) (hshort : now < s.m_time + 2)
    (hcount : s.m_packets.toNat + 1 < 4294967296) :
    Bounded MAX { s with
      m_packets := s.m_packets + 1
      clock := again, parsed := ⟨now, .passes⟩ :: s.parsed } := by
  have hnext : (s.m_packets + 1).toNat = s.m_packets.toNat + 1 := by
    rw [UInt32.toNat_add]
    exact Nat.mod_eq_of_lt hcount
  have hfirst := h.first hopen
  have hsecond := h.next hopen
  rcases (by omega : now = s.m_time ∨ now = s.m_time + 1) with rfl | rfl
  · have hfew : s.m_packets.toNat + 1 ≤ MAX := by
      have hlength : s.m_time - s.m_time + 1 = 1 := by omega
      rw [Admits, hlength, Nat.mul_one] at hadmits
      omega
    refine ⟨fun second => ?_, fun _ => ?_, fun _ => ?_, fun _ second hlater => ?_⟩
    · exact passesIn_le h.every (by omega) second
    · simp only [hnext]
      rw [passesIn_now]
      omega
    · simp only [hnext]
      rw [passesIn_other (by omega)]
      omega
    · exact passesIn_later (h.later hopen) (by omega) hlater
  · have hfew : s.m_packets.toNat + 1 ≤ 2 * MAX + 1 := by
      have hlength : s.m_time + 1 - s.m_time + 1 = 2 := by omega
      rw [Admits, hlength] at hadmits
      omega
    refine ⟨fun second => ?_, fun _ => ?_, fun _ => ?_, fun _ second hlater => ?_⟩
    · exact passesIn_le h.every (by omega) second
    · simp only [hnext]
      rw [passesIn_other (by omega)]
      omega
    · simp only [hnext]
      rw [passesIn_now]
      omega
    · exact passesIn_later (h.later hopen) (by omega) hlater

theorem Bounded.restarts (h : Bounded MAX s) (hopen : s.isOpen = true)
    (hlong : s.m_time + 2 ≤ now) (hagain : now ≤ again) :
    Bounded MAX { s with
      m_time := again, m_packets := 0
      clock := again, parsed := ⟨now, .passes⟩ :: s.parsed } := by
  have hlater := h.later hopen
  have hnone : ∀ second, now < second → passesIn second (⟨now, .passes⟩ :: s.parsed) = 0 := by
    intro second hs
    rw [passesIn_other (by omega), hlater second (by omega)]
  have hone : passesIn now (⟨now, .passes⟩ :: s.parsed) = 1 := by
    rw [passesIn_now, hlater now hlong]
  refine ⟨fun second => ?_, fun _ => ?_, fun _ => ?_, fun _ second hs => ?_⟩
  · have hnow : passesIn now s.parsed = 0 := hlater now hlong
    exact passesIn_le h.every (by omega) second
  · rcases Nat.eq_or_lt_of_le hagain with rfl | hlt
    · exact hone.le
    · exact (hnone again hlt).le.trans (Nat.zero_le _)
  · exact (hnone (again + 1) (by omega)).le
  · simp only at hs
    exact hnone second (by omega)

theorem Bounded.refused {verdict : Verdict} (h : Bounded MAX s) (hv : verdict ≠ .passes)
    (hu : u.parsed = ⟨now, verdict⟩ :: s.parsed) (hclosed : u.isOpen = false) :
    Bounded MAX u := by
  have hne : ¬ u.isOpen = true := by simp [hclosed]
  refine ⟨fun second => ?_, fun hopen => absurd hopen hne, fun hopen => absurd hopen hne,
    fun hopen => absurd hopen hne⟩
  rw [hu, passesIn_refused hv]
  exact h.every second

theorem Bounded.step (h : Bounded MAX s) (hc : Counted s) (hnow : s.clock ≤ now)
    (hagain : now ≤ again) (hcount : s.m_packets.toNat + 1 < 4294967296)
    (ho : Outcome MAX s now again u) : Bounded MAX u := by
  cases ho with
  | notOpen hopen => exact h.refused (by decide) rfl hopen
  | tooMany hopen hadmits => exact h.refused (by decide) rfl rfl
  | restarts hopen hadmits hlong => exact h.restarts hopen hlong hagain
  | counts hopen hadmits hshort =>
    exact h.counts hopen (hc.window.trans hnow) hadmits hshort hcount

theorem machine_step {e : ℕ × ℕ} (h : (machine MAX).step s e = some u) :
    (s.clock ≤ e.1 ∧ e.1 ≤ e.2 ∧ e.2 < 4294967296) ∧ parsePacket MAX s e.1 e.2 = some u := by
  simp only [machine] at h
  split at h
  · rename_i htimes
    exact ⟨htimes, h⟩
  · cases h

theorem parsePacket_parsed (h : parsePacket MAX s now again = some u) :
    ∃ verdict, u.parsed = ⟨now, verdict⟩ :: s.parsed := by
  obtain ⟨⟨v, verdict⟩, htest, rfl⟩ := Option.map_eq_some_iff.mp h
  have hkept : v.parsed = s.parsed := by
    rw [rateTest] at htest
    repeat' split at htest
    all_goals cases htest
    all_goals rfl
  exact ⟨verdict, by rw [hkept]⟩

/-- What holds after every run of fewer than 2^32 packets. -/
structure Limited (MAX : ℕ) (s : State) : Prop where
  counted : Counted s
  bounded : Bounded MAX s
  compliant : Compliant MAX s.parsed → ∀ p ∈ s.parsed, p.verdict ≠ .tooMany

theorem limited_initial (MAX created : ℕ) : Limited MAX (initial created) where
  counted := ⟨le_rfl, fun _ hp => (List.not_mem_nil hp).elim, Nat.zero_le _⟩
  bounded := ⟨fun _ => Nat.zero_le _, fun _ => Nat.zero_le _, fun _ => Nat.zero_le _,
    fun _ _ _ => rfl⟩
  compliant _ p hp := by cases hp

theorem Compliant.tail {p : Parsed} {l : List Parsed} (h : Compliant MAX (p :: l)) :
    Compliant MAX l := fun second =>
  (List.sublist_cons_self p l).countP_le.trans (h second)

theorem Limited.step (h : Limited MAX s) (hMAX : MAX < 2147483648)
    (hlen : s.parsed.length + 1 < 4294967296) {e : ℕ × ℕ}
    (hstep : (machine MAX).step s e = some u) :
    Limited MAX u := by
  obtain ⟨⟨hnow, hagain, hsmall⟩, hparse⟩ := machine_step hstep
  have hcount := h.counted.room hlen
  have ho : Outcome MAX s e.1 e.2 u := parsePacket_outcome hMAX (h.counted.window.trans hnow)
    (by omega) hcount hparse
  refine ⟨h.counted.step hnow hagain ho, h.bounded.step h.counted hnow hagain hcount ho, ?_⟩
  intro hcompliant p hp
  have hbefore : ∀ verdict, u.parsed = ⟨e.1, verdict⟩ :: s.parsed → p ∈ s.parsed →
      p.verdict ≠ .tooMany := by
    intro verdict hu hmem
    rw [hu] at hcompliant
    exact h.compliant hcompliant.tail p hmem
  cases ho with
  | notOpen hopen =>
    rcases List.mem_cons.mp hp with rfl | hmem
    · exact nofun
    · exact hbefore _ rfl hmem
  | tooMany hopen hadmits => exact absurd (hcompliant.admits h.counted hnow) hadmits
  | restarts hopen hadmits hlong =>
    rcases List.mem_cons.mp hp with rfl | hmem
    · exact nofun
    · exact hbefore _ rfl hmem
  | counts hopen hadmits hshort =>
    rcases List.mem_cons.mp hp with rfl | hmem
    · exact nofun
    · exact hbefore _ rfl hmem

theorem limited_of_reachable (hMAX : MAX < 2147483648) (h : (machine MAX).Reachable s)
    (hlen : s.parsed.length < 4294967296) : Limited MAX s := by
  induction h with
  | start hs =>
    obtain ⟨created, rfl⟩ := hs
    exact limited_initial MAX created
  | tail _ _ hstep ih =>
    obtain ⟨verdict, hparsed⟩ := parsePacket_parsed (machine_step hstep).2
    rw [hparsed, List.length_cons] at hlen
    exact (ih (by omega)).step hMAX hlen hstep

/-- The limiter never closes the connection of a client that sends at most `MAX` packets in each
second, and lets no client have more than `2 * MAX + 1` packets in any second. -/
theorem packet_rate_limited (hMAX : MAX < 2147483648) (h : (machine MAX).Reachable s)
    (hlen : s.parsed.length < 4294967296) :
    ((∀ second, packetsIn second s.parsed ≤ MAX) → ∀ p ∈ s.parsed, p.verdict ≠ .tooMany) ∧
      ∀ second, passesIn second s.parsed ≤ 2 * MAX + 1 := by
  obtain ⟨_, hbounded, hcompliant⟩ := limited_of_reachable hMAX h hlen
  exact ⟨hcompliant, hbounded.every⟩

def burst : List (ℕ × ℕ) := [(11, 11), (11, 11), (11, 11), (11, 11), (12, 12)]

theorem burst_limited : ∃ s, (machine 1).run (initial 10) burst = some s ∧
    passesIn 11 s.parsed = 3 ∧ ∀ second, passesIn second s.parsed ≤ 3 := by
  obtain ⟨s, hrun, hthree, hlen⟩ : ∃ s, (machine 1).run (initial 10) burst = some s ∧
      passesIn 11 s.parsed = 3 ∧ s.parsed.length < 4294967296 := ⟨_, rfl, by decide, by decide⟩
  have hreach : (machine ((1 : ℕ) : ℤ)).Reachable s :=
    Machine.run_reachable (.start ⟨10, rfl⟩) hrun
  exact ⟨s, hrun, hthree, (packet_rate_limited (by decide) hreach hlen).2⟩

end LoginServer.PacketRate
