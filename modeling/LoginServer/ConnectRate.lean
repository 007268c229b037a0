import LoginServer.ConnectBlock
import Mathlib.Algebra.Group.Nat.Defs

/-! # What the connection limit is worth

A window is judged by the call that ends it, so its own calls are never limited, and the first
window is judged by one call too many. -/
namespace LoginServer.ConnectBlocks

open Runs

theorem Windows.whole {ws : List Window} (h : Windows ws) : ∀ w ∈ ws, w.Whole := by
  induction h with
  | first hw => simpa using hw
  | next hw _ _ _ ih => exact List.forall_mem_cons.mpr ⟨hw, ih⟩

theorem Window.lt_endTime (w : Window) : w.startTime + 1000 < w.endTime := by
  rw [Window.endTime]
  split <;> omega

theorem Windows.order {ws : List Window} (h : Windows ws) :
    ws.Pairwise fun w v => v.endTime ≤ w.startTime := by
  induction h with
  | first => exact List.pairwise_singleton _ _
  | @next w v ws _ _ hafter _ ih =>
    refine List.pairwise_cons.mpr ⟨fun x hx => ?_, ih⟩
    rcases List.mem_cons.mp hx with rfl | hx
    · exact hafter
    · have hx := (List.pairwise_cons.mp ih).1 x hx
      have := v.lt_endTime
      omega

theorem Windows.judged {w v : Window} {ws : List Window} (h : Windows (w :: v :: ws)) :
    Windows (v :: ws) ∧ w.accepted = decide (counted (v :: ws) + 1 ≤ 10) := by
  cases h with
  | next _ hws _ hjudged => exact ⟨hws, hjudged⟩

theorem Windows.of_append {pre : List Window} {w : Window} {ws : List Window}
    (h : Windows (pre ++ w :: ws)) : Windows (w :: ws) := by
  induction pre with
  | nil => exact h
  | cons v pre ih =>
    apply ih
    cases pre with
    | nil => exact h.judged.1
    | cons => exact h.judged.1

/-- The count that the first call after the window reads. -/
def closing : List Window → ℕ
  | [] => 0
  | [w] => w.times.length + 1
  | w :: _ :: _ => w.times.length

theorem counted_closing {w : Window} (h : w.Whole) (ws : List Window)
    (hlt : w.times.length + 1 < 2 ^ 32) :
    counted (w :: ws) + 1 ≤ 10 ↔ closing (w :: ws) ≤ 10 := by
  have hpos := h.length_pos
  cases ws with
  | nil =>
    rw [UInt32.le_iff_toNat_le, counted, closing, UInt32.toNat_add, UInt32.toNat_ofNat']
    simp
    omega
  | cons v ws =>
    rw [UInt32.le_iff_toNat_le, counted, closing, UInt32.toNat_add, UInt32.toNat_ofNat']
    simp
    omega

theorem mem_calls {clientIp : UInt32} {ws : List Window} {c : Call} :
    c ∈ ws.flatMap (Window.calls clientIp) ↔
      ∃ w ∈ ws, c.time ∈ w.times ∧ c = ⟨clientIp, c.time, w.accepted⟩ := by
  simp only [List.mem_flatMap, Window.calls, List.mem_map]
  refine exists_congr fun w => and_congr_right fun _ => ?_
  constructor
  · rintro ⟨time, htime, rfl⟩
    exact ⟨htime, rfl⟩
  · rintro ⟨htime, hc⟩
    exact ⟨c.time, htime, hc.symm⟩

def callsIn (calls : List Call) (t : ℕ) : List Call :=
  calls.filter fun c => t ≤ c.time ∧ c.time ≤ t + 1000

theorem Window.Whole.calls_within {w : Window} (h : w.Whole) (haccepted : w.accepted = true)
    {clientIp : UInt32} {c : Call} (hc : c ∈ w.calls clientIp) :
    w.startTime ≤ c.time ∧ c.time ≤ w.startTime + 1000 := by
  obtain ⟨time, htime, rfl⟩ := List.mem_map.mp hc
  obtain ⟨hs, he⟩ := h.within time htime
  simp only [Window.endTime, haccepted, if_true] at he
  exact ⟨hs, Nat.le_of_lt_succ he⟩

theorem accepted_length_le {ws : List Window} {w : Window} (hw : w ∈ ws) (hwhole : w.Whole)
    (haccepted : w.accepted = true) (clientIp : UInt32) :
    w.times.length ≤ (callsIn (ws.flatMap (Window.calls clientIp)) w.startTime).length := by
  have hin : callsIn (w.calls clientIp) w.startTime = w.calls clientIp := by
    rw [callsIn, List.filter_eq_self]
    intro c hc
    exact decide_eq_true (hwhole.calls_within haccepted hc)
  have hsub : (w.calls clientIp).Sublist (ws.flatMap (Window.calls clientIp)) :=
    List.sublist_flatten_of_mem (List.mem_map_of_mem hw)
  have hlen := (hsub.filter fun c => w.startTime ≤ c.time ∧ c.time ≤ w.startTime + 1000).length_le
  rw [← callsIn, hin] at hlen
  simpa [Window.calls, callsIn] using hlen

theorem Windows.split {ws : List Window} (h : Windows ws) :
    ∃ rest first, ws = rest ++ [first] ∧ first.accepted = true := by
  induction h with
  | @first w _ haccepted => exact ⟨[], w, rfl, haccepted⟩
  | @next w v ws _ _ _ _ ih =>
    obtain ⟨rest, first, heq, haccepted⟩ := ih
    exact ⟨w :: rest, first, by rw [heq]; rfl, haccepted⟩

theorem Windows.accepted_iff {rest : List Window} {first : Window}
    (h : Windows (rest ++ [first])) (haccepted : first.accepted = true)
    (hten : ∀ w ∈ rest ++ [first], w.accepted = true → w.times.length ≤ 10) :
    (∀ w ∈ rest ++ [first], w.accepted = true) ↔ ¬ (first.times.length = 10 ∧ rest ≠ []) := by
  induction rest with
  | nil => simpa using haccepted
  | cons w rest ih =>
    rw [List.cons_append] at h hten ⊢
    have hrest : ∀ v ∈ rest ++ [first], v.accepted = true → v.times.length ≤ 10 :=
      fun v hv => hten v (List.mem_cons_of_mem _ hv)
    cases rest with
    | nil =>
      obtain ⟨hws, hjudged⟩ := Windows.judged h
      have hfirst := hrest first (List.mem_singleton.mpr rfl) haccepted
      have hcount := counted_closing hws.head [] (by omega)
      rw [List.nil_append] at *
      simp only [List.mem_cons, List.not_mem_nil, or_false, forall_eq_or_imp, forall_eq,
        haccepted, hjudged, hcount, closing, and_true, decide_eq_true_eq, ne_eq,
        List.cons_ne_nil, not_false_eq_true]
      omega
    | cons v rest =>
      simp only [List.cons_append] at h
      obtain ⟨hws, hjudged⟩ := Windows.judged h
      have ih := ih hws hrest
      rw [List.forall_mem_cons, ih]
      simp only [ne_eq, List.cons_ne_nil, not_false_eq_true, and_true] at ih ⊢
      refine and_iff_right_of_imp fun hfirst => ?_
      have hv := hrest v List.mem_cons_self (ih.mpr hfirst v List.mem_cons_self)
      rw [hjudged, decide_eq_true_eq, counted_closing hws.head _ (by omega)]
      cases rest <;> exact hv

/-- Never more than ten calls in 1001 ms. -/
def Compliant (s : State) (clientIp : UInt32) : Prop :=
  ∀ t, (callsIn (callsOf s clientIp) t).length ≤ 10

/-- Ten calls in the 1001 ms from the first one, and a later one. -/
def FirstSecondFull (calls : List Call) : Prop :=
  ∃ first, calls.getLast? = some first ∧
    (calls.filter fun c => c.time ≤ first.time + 1000).length = 10 ∧
    ∃ c ∈ calls, first.time + 1000 < c.time

theorem Windows.rest_after {rest : List Window} {first : Window} (h : Windows (rest ++ [first]))
    (haccepted : first.accepted = true) {w : Window} (hw : w ∈ rest) {time : ℕ}
    (htime : time ∈ w.times) : first.startTime + 1000 < time := by
  have horder := (List.pairwise_append.mp h.order).2.2 w hw first (List.mem_singleton.mpr rfl)
  have hs := ((h.whole w (List.mem_append_left _ hw)).within time htime).1
  simp only [Window.endTime, haccepted, if_true] at horder
  omega

theorem firstSecondFull_iff {clientIp : UInt32} {rest : List Window} {first : Window}
    (h : Windows (rest ++ [first])) (haccepted : first.accepted = true) :
    FirstSecondFull ((rest ++ [first]).flatMap (Window.calls clientIp)) ↔
      first.times.length = 10 ∧ rest ≠ [] := by
  have hfirst : first.Whole := h.whole first (List.mem_append_right _ (List.mem_singleton.mpr rfl))
  have hlast : ((rest ++ [first]).flatMap (Window.calls clientIp)).getLast? =
      some ⟨clientIp, first.startTime, true⟩ := by
    rw [List.flatMap_append, List.flatMap_singleton, List.getLast?_append, Window.calls,
      List.getLast?_map, hfirst.opened, haccepted]
    rfl
  have hin : ∀ c ∈ first.calls clientIp, c.time ≤ first.startTime + 1000 :=
    fun c hc => (hfirst.calls_within haccepted hc).2
  have hlater : ∀ c ∈ rest.flatMap (Window.calls clientIp), first.startTime + 1000 < c.time := by
    intro c hc
    obtain ⟨w, hw, htime, -⟩ := mem_calls.mp hc
    exact h.rest_after haccepted hw htime
  have hlength : (((rest ++ [first]).flatMap (Window.calls clientIp)).filter fun c =>
      c.time ≤ first.startTime + 1000).length = first.times.length := by
    have hnone : (rest.flatMap (Window.calls clientIp)).filter (fun c =>
        c.time ≤ first.startTime + 1000) = [] := by
      rw [List.filter_eq_nil_iff]
      intro c hc
      simpa using hlater c hc
    have hall : (first.calls clientIp).filter (fun c => c.time ≤ first.startTime + 1000) =
        first.calls clientIp := by
      rw [List.filter_eq_self]
      intro c hc
      simpa using hin c hc
    rw [List.flatMap_append, List.flatMap_singleton, List.filter_append, hnone, hall,
      List.nil_append, Window.calls, List.length_map]
  have hmore : (∃ c ∈ (rest ++ [first]).flatMap (Window.calls clientIp),
      first.startTime + 1000 < c.time) ↔ rest ≠ [] := by
    constructor
    · rintro ⟨c, hc, hlt⟩ rfl
      rw [List.nil_append, List.flatMap_singleton] at hc
      exact absurd (hin c hc) (Nat.not_le.mpr hlt)
    · intro hne
      obtain ⟨w, hw⟩ := List.exists_mem_of_ne_nil rest hne
      have hmem := (h.whole w (List.mem_append_left _ hw)).mem
      refine ⟨⟨clientIp, w.startTime, w.accepted⟩, mem_calls.mpr ?_,
        h.rest_after haccepted hw hmem⟩
      exact ⟨w, List.mem_append_left _ hw, hmem, rfl⟩
  rw [FirstSecondFull, hlast]
  simp only [Option.some.injEq, exists_eq_left', hlength, hmore]

theorem compliant_accepted_iff {s : State} (hs : machine.Reachable s) {clientIp : UInt32}
    (hc : Compliant s clientIp) :
    (∀ c ∈ callsOf s clientIp, c.accepted = true) ↔ ¬ FirstSecondFull (callsOf s clientIp) := by
  rcases List.eq_nil_or_concat' (callsOf s clientIp) with hnil | ⟨_, c, hcalls⟩
  · simp [hnil, FirstSecondFull]
  · obtain ⟨ws, hws, heq⟩ := windows_of_reachable hs (c := c) (by rw [hcalls]; simp)
    obtain ⟨rest, first, rfl, haccepted⟩ := hws.split
    have hten : ∀ w ∈ rest ++ [first], w.accepted = true → w.times.length ≤ 10 := by
      intro w hw hw'
      refine Nat.le_trans (accepted_length_le hw (hws.whole w hw) hw' clientIp) ?_
      rw [← heq]
      exact hc w.startTime
    rw [heq, firstSecondFull_iff hws haccepted, ← hws.accepted_iff haccepted hten]
    constructor
    · intro hall w hw
      exact hall ⟨clientIp, w.startTime, w.accepted⟩
        (mem_calls.mpr ⟨w, hw, (hws.whole w hw).mem, rfl⟩)
    · intro hall c hc
      obtain ⟨w, hw, -, hcall⟩ := mem_calls.mp hc
      rw [hcall]
      exact hall w hw

def steady : List (UInt32 × ℕ) :=
  [(1, 0), (1, 100), (1, 200), (1, 300), (1, 400), (1, 500), (1, 600), (1, 700), (1, 800), (1, 900),
    (1, 2000)]

def steadyCalls : List Call :=
  ⟨1, 2000, false⟩ :: [900, 800, 700, 600, 500, 400, 300, 200, 100].map (⟨1, ·, true⟩)

theorem steady_run : ∃ s, machine.run initial steady = some s ∧
    callsOf s 1 = steadyCalls ++ [⟨1, 0, true⟩] :=
  Machine.exists_run (by decide +kernel)

theorem steady_compliant {s : State} (hcalls : callsOf s 1 = steadyCalls ++ [⟨1, 0, true⟩]) :
    Compliant s 1 := by
  intro t
  rw [hcalls]
  cases t with
  | zero => decide
  | succ t =>
    rw [callsIn, List.filter_append]
    have hlen := List.length_filter_le (fun c => decide (t + 1 ≤ c.time ∧ c.time ≤ t + 1 + 1000))
      steadyCalls
    have hten : steadyCalls.length = 10 := rfl
    simpa [hten] using hlen

theorem steady_refused : ¬ ∀ (s : State) (clientIp : UInt32), machine.Reachable s →
    Compliant s clientIp → ∀ c ∈ callsOf s clientIp, c.accepted = true := by
  intro hall
  obtain ⟨s, hrun, hcalls⟩ := steady_run
  have h := hall s 1 (Machine.run_reachable (.start rfl) hrun) (steady_compliant hcalls)
  rw [hcalls] at h
  exact absurd (h ⟨1, 2000, false⟩ List.mem_cons_self) (by decide)

theorem steady_accepted_iff : ∃ s, callsOf s 1 = steadyCalls ++ [⟨1, 0, true⟩] ∧
    ((∀ c ∈ callsOf s 1, c.accepted = true) ↔ ¬ FirstSecondFull (callsOf s 1)) := by
  obtain ⟨s, hrun, hcalls⟩ := steady_run
  exact ⟨s, hcalls, compliant_accepted_iff (Machine.run_reachable (.start rfl) hrun)
    (steady_compliant hcalls)⟩

def acceptedIn (calls : List Call) (t : ℕ) : List Call :=
  (callsIn calls t).filter Call.accepted

theorem acceptedIn_append (calls others : List Call) (t : ℕ) :
    acceptedIn (calls ++ others) t = acceptedIn calls t ++ acceptedIn others t := by
  simp [acceptedIn, callsIn]

def Window.Reaches (w : Window) (t : ℕ) : Prop :=
  w.accepted = true ∧ ∃ time ∈ w.times, t ≤ time ∧ time ≤ t + 1000

theorem acceptedIn_of_not_reaches {w : Window} {t : ℕ} (h : ¬ w.Reaches t) (clientIp : UInt32) :
    acceptedIn (w.calls clientIp) t = [] := by
  simp only [acceptedIn, callsIn, List.filter_filter, List.filter_eq_nil_iff]
  intro c hc hin
  obtain ⟨time, htime, rfl⟩ := List.mem_map.mp hc
  simp only [Bool.and_eq_true, decide_eq_true_eq] at hin
  exact h ⟨hin.1, time, htime, hin.2⟩

theorem acceptedIn_length_le (w : Window) (clientIp : UInt32) (t : ℕ) :
    (acceptedIn (w.calls clientIp) t).length ≤ w.times.length := by
  have hlen : (w.calls clientIp).length = w.times.length := List.length_map ..
  rw [← hlen]
  exact Nat.le_trans (List.length_filter_le ..) (List.length_filter_le ..)

theorem acceptedIn_length_lt {w : Window} (h : w.Whole) {t : ℕ} (ht : w.startTime < t)
    (clientIp : UInt32) : (acceptedIn (w.calls clientIp) t).length < w.times.length := by
  obtain ⟨times, htimes⟩ := List.getLast?_eq_some_iff.mp h.opened
  have hlast : acceptedIn [⟨clientIp, w.startTime, w.accepted⟩] t = [] := by
    simp [acceptedIn, callsIn, Nat.not_le.mpr ht]
  rw [Window.calls, htimes, List.map_append, acceptedIn_append, List.map_singleton, hlast,
    List.append_nil, List.length_append, List.length_singleton]
  have hlen : (times.map fun time => (⟨clientIp, time, w.accepted⟩ : Call)).length = times.length :=
    List.length_map ..
  rw [← hlen]
  exact Nat.lt_succ_of_le (Nat.le_trans (List.length_filter_le ..) (List.length_filter_le ..))

theorem Window.Reaches.after {w : Window} {t : ℕ} (h : w.Reaches t) (hw : w.Whole) :
    t < w.endTime ∧ w.startTime ≤ t + 1000 ∧ w.endTime = w.startTime + 1001 := by
  obtain ⟨haccepted, time, htime, hs, he⟩ := h
  have hend : w.endTime = w.startTime + 1001 := by rw [Window.endTime, if_pos haccepted]
  have hin := hw.within time htime
  omega

theorem acceptedIn_flatMap_nil {ws : List Window} {t : ℕ} (h : ∀ w ∈ ws, ¬ w.Reaches t)
    (clientIp : UInt32) : acceptedIn (ws.flatMap (Window.calls clientIp)) t = [] := by
  induction ws with
  | nil => rfl
  | cons w ws ih =>
    obtain ⟨hw, hws⟩ := List.forall_mem_cons.mp h
    rw [List.flatMap_cons, acceptedIn_append, acceptedIn_of_not_reaches hw, ih hws]
    rfl

theorem not_reaches_of_endTime_le {w : Window} (hw : w.Whole) {t : ℕ} (h : w.endTime ≤ t) :
    ¬ w.Reaches t := fun hreach => Nat.not_lt.mpr h (hreach.after hw).1

theorem before_length_le {ws : List Window} (hws : ∀ w ∈ ws, w.Whole)
    (horder : ws.Pairwise fun w v => v.endTime ≤ w.startTime) {t : ℕ}
    (hten : ∀ w ∈ ws, w.Reaches t → w.times.length ≤ 10) (clientIp : UInt32)
    (hbefore : ∀ w ∈ ws, w.startTime < t) :
    (acceptedIn (ws.flatMap (Window.calls clientIp)) t).length ≤ 9 := by
  induction ws with
  | nil => exact Nat.zero_le 9
  | cons w ws ih =>
    obtain ⟨hw, hws⟩ := List.forall_mem_cons.mp hws
    obtain ⟨hwten, hten⟩ := List.forall_mem_cons.mp hten
    obtain ⟨hwbefore, hbefore⟩ := List.forall_mem_cons.mp hbefore
    obtain ⟨hworder, horder⟩ := List.pairwise_cons.mp horder
    rw [List.flatMap_cons, acceptedIn_append, List.length_append]
    by_cases hreach : w.Reaches t
    · have hended : ∀ v ∈ ws, v.endTime ≤ t := fun v hv =>
        Nat.le_of_lt (Nat.lt_of_le_of_lt (hworder v hv) hwbefore)
      have hnone := acceptedIn_flatMap_nil
        (fun v hv => not_reaches_of_endTime_le (hws v hv) (hended v hv)) clientIp
      have hlt := acceptedIn_length_lt hw hwbefore clientIp
      have := hwten hreach
      rw [hnone, List.length_nil]
      omega
    · rw [acceptedIn_of_not_reaches hreach]
      simpa using ih hws horder hten hbefore

/-- Two windows at most meet an interval of 1001 ms, and the older one without its first call. -/
theorem acceptedIn_flatMap_le {ws : List Window} (hws : ∀ w ∈ ws, w.Whole)
    (horder : ws.Pairwise fun w v => v.endTime ≤ w.startTime) {t : ℕ}
    (hten : ∀ w ∈ ws, w.Reaches t → w.times.length ≤ 10) (clientIp : UInt32) :
    (acceptedIn (ws.flatMap (Window.calls clientIp)) t).length ≤ 19 := by
  induction ws with
  | nil => exact Nat.zero_le 19
  | cons w ws ih =>
    have hall := before_length_le hws horder hten clientIp
    obtain ⟨hw, hws⟩ := List.forall_mem_cons.mp hws
    obtain ⟨hwten, hten⟩ := List.forall_mem_cons.mp hten
    obtain ⟨hworder, horder⟩ := List.pairwise_cons.mp horder
    have hstarts : ∀ v ∈ ws, v.startTime + 1000 < w.startTime := fun v hv =>
      Nat.lt_of_lt_of_le v.lt_endTime (hworder v hv)
    rcases Nat.lt_or_ge w.startTime t with hlt | hge
    · have := hall fun v hv => by
        rcases List.mem_cons.mp hv with rfl | hv
        · exact hlt
        · have := hstarts v hv
          omega
      omega
    · rw [List.flatMap_cons, acceptedIn_append, List.length_append]
      by_cases hreach : w.Reaches t
      · have hstart := (hreach.after hw).2.1
        have hrest := before_length_le hws horder hten clientIp fun v hv => by
          have := hstarts v hv
          omega
        have hlen := acceptedIn_length_le w clientIp t
        have := hwten hreach
        omega
      · rw [acceptedIn_of_not_reaches hreach]
        simpa using ih hws horder hten

/-- A window with more than ten calls is followed by a refused one. -/
theorem Windows.refused_after {pre post : List Window} {y x : Window}
    (h : Windows (pre ++ y :: x :: post)) (hmany : 10 < x.times.length)
    (hwrap : x.times.length + 1 < 2 ^ 32) : y.accepted = false := by
  obtain ⟨hx, hjudged⟩ := h.of_append.judged
  have hclosing : ¬ closing (x :: post) ≤ 10 := by
    cases post <;> simp only [closing] <;> omega
  rw [hjudged, decide_eq_false_iff_not, counted_closing hx.head _ hwrap]
  exact hclosing

def RefusedFrom (calls : List Call) (r : Call) : Prop :=
  r ∈ calls ∧ r.accepted = false ∧
    ∀ c ∈ calls, r.time ≤ c.time → c.time < r.time + 10000 → c.accepted = false

theorem Windows.refusedFrom {clientIp : UInt32} {pre post : List Window} {y : Window}
    (h : Windows (pre ++ y :: post)) (hy : y.accepted = false) :
    RefusedFrom ((pre ++ y :: post).flatMap (Window.calls clientIp))
      ⟨clientIp, y.startTime, y.accepted⟩ := by
  have hmem : y ∈ pre ++ y :: post := List.mem_append_right _ List.mem_cons_self
  have hend : y.endTime = y.startTime + 10000 := by simp [Window.endTime, hy]
  refine ⟨mem_calls.mpr ⟨y, hmem, (h.whole y hmem).mem, rfl⟩, hy, fun c hc hs he => ?_⟩
  obtain ⟨w, hw, htime, hcall⟩ := mem_calls.mp hc
  have hin := (h.whole w hw).within c.time htime
  have horder := List.pairwise_append.mp h.order
  rcases List.mem_append.mp hw with hpre | hpost
  · have := horder.2.2 w hpre y List.mem_cons_self
    simp only at he
    omega
  · rcases List.mem_cons.mp hpost with rfl | hpost
    · rw [hcall]
      exact hy
    · have := (List.pairwise_cons.mp horder.2.1).1 w hpost
      simp only at hs
      omega

/-- Of the calls of an address in 1001 ms at most 19 are accepted, or its first call a second
later is refused if none was before, and with it all its calls for ten seconds. -/
theorem connection_rate_bounded {s : State} (hs : machine.Reachable s) {clientIp : UInt32}
    (hwrap : ∀ t, (callsIn (callsOf s clientIp) t).length + 1 < 2 ^ 32) (t : ℕ) :
    (acceptedIn (callsOf s clientIp) t).length ≤ 19 ∨
      ∀ e ∈ callsOf s clientIp, t + 2000 < e.time →
        ∃ r, RefusedFrom (callsOf s clientIp) r ∧ t < r.time ∧ r.time ≤ e.time := by
  rw [or_iff_not_imp_left]
  intro hmany e he hlate
  obtain ⟨ws, hws, heq⟩ := windows_of_reachable hs he
  rw [heq] at hmany he hwrap ⊢
  have hexceeded : ∃ x ∈ ws, x.Reaches t ∧ 10 < x.times.length := by
    by_contra hnone
    simp only [not_exists, not_and, Nat.not_lt] at hnone
    exact hmany (acceptedIn_flatMap_le hws.whole hws.order hnone clientIp)
  obtain ⟨x, hx, hreach, hlen⟩ := hexceeded
  obtain ⟨hxt, hxstart, hxend⟩ := hreach.after (hws.whole x hx)
  have hxwrap : x.times.length + 1 < 2 ^ 32 :=
    Nat.lt_of_le_of_lt (Nat.succ_le_succ (accepted_length_le hx (hws.whole x hx) hreach.1 _))
      (hwrap x.startTime)
  obtain ⟨w, hw, htime, -⟩ := mem_calls.mp he
  have hin := (hws.whole w hw).within e.time htime
  obtain ⟨pre, post, rfl⟩ := List.append_of_mem hx
  have horder := List.pairwise_append.mp hws.order
  -- the late call is in a window after `x`, so there is a first such window
  have hafter : w ∈ pre := by
    rcases List.mem_append.mp hw with hpre | hpost
    · exact hpre
    · rcases List.mem_cons.mp hpost with rfl | hpost
      · omega
      · have := (List.pairwise_cons.mp horder.2.1).1 w hpost
        omega
  rcases List.eq_nil_or_concat' pre with rfl | ⟨pre, y, rfl⟩
  · cases hafter
  · rw [List.append_assoc, List.singleton_append] at *
    have hxy := horder.2.2 y (by simp) x List.mem_cons_self
    have hyw : y.startTime ≤ w.startTime := by
      rcases List.mem_append.mp hafter with hpre | hlast
      · have := (List.pairwise_append.mp horder.1).2.2 w hpre y (List.mem_singleton.mpr rfl)
        have := y.lt_endTime
        omega
      · exact Nat.le_of_eq (by rw [List.mem_singleton.mp hlast])
    refine ⟨_, hws.refusedFrom (hws.refused_after hlen hxwrap), ?_, ?_⟩
    · exact Nat.lt_of_lt_of_le hxt hxy
    · exact Nat.le_trans hyw hin.1

def burst : List (UInt32 × ℕ) := List.replicate 11 (1, 0)

theorem burst_run : ∃ s, machine.run initial burst = some s ∧
    callsOf s 1 = List.replicate 11 ⟨1, 0, true⟩ :=
  Machine.exists_run (by decide +kernel)

theorem burst_accepted : ¬ ∀ (s : State) (clientIp : UInt32) (t : ℕ), machine.Reachable s →
    (acceptedIn (callsOf s clientIp) t).length ≤ 10 := by
  intro hall
  obtain ⟨s, hrun, hcalls⟩ := burst_run
  have h := hall s 1 0 (Machine.run_reachable (.start rfl) hrun)
  rw [hcalls] at h
  exact absurd h (by decide)

theorem burst_bounded : ∃ s, callsOf s 1 = List.replicate 11 ⟨1, 0, true⟩ ∧
    ((acceptedIn (callsOf s 1) 0).length ≤ 19 ∨
      ∀ e ∈ callsOf s 1, 0 + 2000 < e.time →
        ∃ r, RefusedFrom (callsOf s 1) r ∧ 0 < r.time ∧ r.time ≤ e.time) := by
  obtain ⟨s, hrun, hcalls⟩ := burst_run
  refine ⟨s, hcalls, connection_rate_bounded (Machine.run_reachable (.start rfl) hrun) ?_ 0⟩
  intro t
  rw [hcalls]
  have hlen := List.length_filter_le (fun c : Call => decide (t ≤ c.time ∧ c.time ≤ t + 1000))
    (List.replicate 11 ⟨1, 0, true⟩)
  rw [List.length_replicate] at hlen
  rw [callsIn]
  omega

end LoginServer.ConnectBlocks
