import LoginServer.ConnectBlock

/-! # While an address is blocked

A call that trips the limit starts a block of ten seconds. Calls during the block are refused
and counted, and the first call behind it is judged by that count. An address has its entry to
itself, so nothing of this depends on the calls of other addresses. -/
namespace LoginServer.ConnectBlocks

open Runs

variable {s u v : State} {clientIp : UInt32} {time next : ℕ} {it : ConnectBlock}

/-- The call is refused, and not for a block that is already there. -/
def Trips (s : State) (clientIp : UInt32) (time : ℕ) : Prop :=
  (acceptConnection s.ipConnectMap clientIp time).1 = false ∧
    ∀ it ∈ s.ipConnectMap[clientIp]?, it.blockTime ≤ time

/-- The entry of an address that was blocked at this time, with so many calls since. -/
def blockedSince (time : ℕ) (count : UInt32) : ConnectBlock :=
  { count := count, startTime := time, blockTime := time + 10000 }

theorem accept_trips (h : (accept (some it) time).1 = false) (hblock : it.blockTime ≤ time) :
    (accept (some it) time).2 = blockedSince time 0 := by
  have hnot : ¬ it.blockTime > time := Nat.not_lt.mpr hblock
  simp only [accept, hnot, if_false] at h ⊢
  split at h
  · rename_i hlong
    split at h
    · rename_i hmany
      rw [if_pos hlong, if_pos hmany, blockedSince]
    · cases h
  · cases h

theorem Trips.entry (h : Trips s clientIp time) (hip : clientIp ≠ 0) :
    (call s clientIp time).ipConnectMap[clientIp]? = some (blockedSince time 0) := by
  obtain ⟨haccepted, hentry⟩ := acceptConnection_self s.ipConnectMap hip time
  obtain ⟨hrefused, hblock⟩ := h
  rw [haccepted] at hrefused
  cases hit : s.ipConnectMap[clientIp]? with
  | none =>
    rw [hit] at hrefused
    cases hrefused
  | some it =>
    rw [hit] at hrefused hentry
    exact hentry.trans (congrArg some (accept_trips hrefused (hblock it hit)))

theorem accept_blocked {count : UInt32} (h : next < time + 10000) :
    accept (some (blockedSince time count)) next = (false, blockedSince time (count + 1)) := by
  simp only [accept, blockedSince, gt_iff_lt, h, if_true]

theorem accept_behind {count : UInt32} (h : time + 10000 ≤ next) :
    (accept (some (blockedSince time count)) next).1 = false ↔ count + 1 > 10 := by
  have hover : ¬ time + 10000 > next := Nat.not_lt.mpr h
  have hlong : next - time > 1000 := by omega
  by_cases hmany : count + 1 > 10
  · simp [accept, blockedSince, hover, hlong, hmany]
  · simp [accept, blockedSince, hover, hlong, hmany]

def own (clientIp : UInt32) (e : UInt32 × ℕ) : Bool := e.1 = clientIp

def view (clientIp : UInt32) (s : State) : Option ConnectBlock × List Call :=
  (s.ipConnectMap[clientIp]?, callsOf s clientIp)

def act (clientIp : UInt32) (w : Option ConnectBlock × List Call) (e : UInt32 × ℕ) :
    Option ConnectBlock × List Call :=
  (some (accept w.1 e.2).2, ⟨clientIp, e.2, (accept w.1 e.2).1⟩ :: w.2)

theorem machine_call {e : UInt32 × ℕ} (h : machine.step s e = some u) :
    (e.1 ≠ 0 ∧ s.time ≤ e.2) ∧ u = call s e.1 e.2 := by
  simp only [machine] at h
  split at h <;> cases h
  exact ⟨‹_›, rfl⟩

theorem view_own (s : State) (e : UInt32 × ℕ) (u : State) (h : machine.step s e = some u)
    (he : own clientIp e = true) : view clientIp u = act clientIp (view clientIp s) e := by
  obtain ⟨⟨hip, _⟩, rfl⟩ := machine_call h
  obtain rfl : e.1 = clientIp := of_decide_eq_true he
  obtain ⟨haccepted, hentry⟩ := acceptConnection_self s.ipConnectMap hip e.2
  have hcalls : callsOf (call s e.1 e.2) e.1 =
      ⟨e.1, e.2, (accept s.ipConnectMap[e.1]? e.2).1⟩ :: callsOf s e.1 := by
    simp [callsOf, call, haccepted]
  exact Prod.ext hentry hcalls

theorem view_other (s : State) (e : UInt32 × ℕ) (u : State) (h : machine.step s e = some u)
    (he : own clientIp e = false) : view clientIp u = view clientIp s := by
  obtain ⟨_, rfl⟩ := machine_call h
  have hne : e.1 ≠ clientIp := of_decide_eq_false he
  refine Prod.ext (acceptConnection_other hne e.2) ?_
  simp [view, callsOf, call, hne]

/-- The entry and the calls of an address are made by its own calls. -/
theorem view_run (clientIp : UInt32) {es : List (UInt32 × ℕ)}
    (h : machine.run s es = some v) :
    view clientIp v = (es.filter (own clientIp)).foldl (act clientIp) (view clientIp s) :=
  Machine.run_view view_own view_other h

theorem foldl_act_blocked {calls : List (UInt32 × ℕ)} {count : UInt32} {log : List Call}
    (h : ∀ e ∈ calls, e.2 < time + 10000) :
    (calls.foldl (act clientIp) (some (blockedSince time count), log)).1 =
      some (blockedSince time (count + UInt32.ofNat calls.length)) := by
  induction calls generalizing count log with
  | nil => simp
  | cons e calls ih =>
    obtain ⟨he, hcalls⟩ := List.forall_mem_cons.mp h
    have hsum : count + 1 + UInt32.ofNat calls.length =
        count + UInt32.ofNat (calls.length + 1) := by
      rw [UInt32.ofNat_add]
      grind
    rw [List.foldl_cons, act, accept_blocked he, ih hcalls, hsum, List.length_cons]

theorem run_blocked {es : List (UInt32 × ℕ)} {count : UInt32} (h : machine.run s es = some v)
    (hentry : s.ipConnectMap[clientIp]? = some (blockedSince time count))
    (hes : ∀ e ∈ es, e.1 = clientIp → e.2 < time + 10000) :
    v.ipConnectMap[clientIp]? =
      some (blockedSince time (count + UInt32.ofNat (es.countP (own clientIp)))) := by
  have hview := congrArg Prod.fst (view_run clientIp h)
  rw [view, view, hentry, foldl_act_blocked] at hview
  · rwa [List.countP_eq_length_filter]
  · intro e he
    obtain ⟨hmem, hown⟩ := List.mem_filter.mp he
    exact hes e hmem (of_decide_eq_true hown)

theorem run_time {es : List (UInt32 × ℕ)} (h : machine.run s es = some v) :
    s.time ≤ v.time ∧ (∀ e ∈ es, e.2 ≤ v.time) ∧ v.calls.length = s.calls.length + es.length := by
  induction es generalizing s with
  | nil =>
    cases h
    exact ⟨Nat.le_refl _, fun _ he => (List.not_mem_nil he).elim, rfl⟩
  | cons e es ih =>
    obtain ⟨w, hw, hrest⟩ := Machine.run_cons h
    obtain ⟨⟨_, htime⟩, rfl⟩ := machine_call hw
    obtain ⟨hle, hes, hlen⟩ := ih hrest
    have hcall : (call s e.1 e.2).time = e.2 := rfl
    have hcalls : (call s e.1 e.2).calls.length = s.calls.length + 1 := rfl
    refine ⟨by omega, ?_, by rw [hlen, hcalls, List.length_cons]; omega⟩
    intro x hx
    rcases List.mem_cons.mp hx with rfl | hx
    · exact hle
    · exact hes x hx

/-- The answers to an address over two runs with the same calls of this address are the same. -/
def Isolated : Prop :=
  ∀ (clientIp : UInt32) (es es' : List (UInt32 × ℕ)) (v v' : State),
    machine.run initial es = some v → machine.run initial es' = some v' →
    es.filter (own clientIp) = es'.filter (own clientIp) →
    callsOf v clientIp = callsOf v' clientIp

theorem isolated : Isolated := by
  intro clientIp es es' v v' h h' hsame
  have hview := view_run clientIp h
  have hview' := view_run clientIp h'
  rw [← hsame, ← hview] at hview'
  exact (congrArg Prod.snd hview').symm

/-- What follows a call that trips the limit: the block, and the first call behind it. -/
structure BlockPhase (s : State) (clientIp : UInt32) (time : ℕ) : Prop where
  refused : ∀ es v next, machine.run (call s clientIp time) es = some v → v.time ≤ next →
    next < time + 10000 → (acceptConnection v.ipConnectMap clientIp next).1 = false
  judged : ∀ es v next, machine.run (call s clientIp time) es = some v → v.time ≤ next →
    time + 10000 ≤ next → (∀ e ∈ es, e.1 = clientIp → e.2 < time + 10000) →
    v.calls.length + 1 < 4294967296 →
    ((acceptConnection v.ipConnectMap clientIp next).1 = false ↔
      10 ≤ es.countP (own clientIp))

/-- The block after a tripping call is exact, and an address is judged by its own calls only. -/
theorem block_exact_and_isolated (hip : clientIp ≠ 0) (htrips : Trips s clientIp time) :
    BlockPhase s clientIp time ∧ Isolated := by
  have hentry := htrips.entry hip
  have haccepted : ∀ (w : State) (next : ℕ), (acceptConnection w.ipConnectMap clientIp next).1 =
      (accept w.ipConnectMap[clientIp]? next).1 :=
    fun w next => (acceptConnection_self w.ipConnectMap hip next).1
  refine ⟨⟨?_, ?_⟩, isolated⟩
  · intro es v next hrun hnext hwithin
    have hes : ∀ e ∈ es, e.1 = clientIp → e.2 < time + 10000 := by
      intro e he _
      have hle := (run_time hrun).2.1 e he
      omega
    rw [haccepted, run_blocked hrun hentry hes, accept_blocked hwithin]
  · intro es v next hrun hnext hbehind hes hcalls
    have hlen := (run_time hrun).2.2
    have hcount : es.countP (own clientIp) ≤ es.length := List.countP_le_length
    have hnat : (0 + UInt32.ofNat (es.countP (own clientIp)) + 1 : UInt32).toNat =
        es.countP (own clientIp) + 1 := by
      rw [UInt32.zero_add, UInt32.toNat_add, UInt32.toNat_ofNat']
      have hone : (1 : UInt32).toNat = 1 := rfl
      omega
    have hten : (10 : UInt32).toNat = 10 := rfl
    rw [haccepted, run_blocked hrun hentry hes, accept_behind hbehind, gt_iff_lt,
      UInt32.lt_iff_toNat_lt, hnat, hten]
    omega

def blockTrace : List (UInt32 × ℕ) :=
  List.replicate 9 (0x0100007F, 3000) ++ [(0x0200007F, 4000)]

def tenCalls : State :=
  (List.replicate 10 ((0x0100007F, 1000) : UInt32 × ℕ)).foldl (fun s e => call s e.1 e.2) initial

/-- Nine calls in the block are not enough to be refused behind it. -/
theorem nine_calls_accepted : ∃ v, machine.run (call tenCalls 0x0100007F 2001) blockTrace = some v ∧
    (acceptConnection v.ipConnectMap 0x0100007F 12001).1 = true := by
  have htrips : Trips tenCalls 0x0100007F 2001 := by
    refine ⟨by decide +kernel, fun it hit => ?_⟩
    have hall : ∀ it ∈ tenCalls.ipConnectMap[(0x0100007F : UInt32)]?, it.blockTime ≤ 2001 := by
      decide +kernel
    exact hall it hit
  have hrun : ((machine.run (call tenCalls 0x0100007F 2001) blockTrace).any fun v =>
      decide (v.time ≤ 12001 ∧ v.calls.length + 1 < 4294967296)) = true := by decide +kernel
  obtain ⟨v, hv, htime, hlen⟩ := Machine.exists_run hrun
  have hphase := (block_exact_and_isolated (by decide) htrips).1
  have hjudged := hphase.judged blockTrace v 12001 hv htime (by decide) (by decide) hlen
  refine ⟨v, hv, ?_⟩
  by_contra hrefused
  exact absurd (hjudged.mp (Bool.eq_false_iff.mpr hrefused)) (by decide)

end LoginServer.ConnectBlocks
