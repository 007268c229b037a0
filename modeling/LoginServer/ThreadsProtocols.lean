import LoginServer.ThreadsCloseOrder

/-! # A protocol is used only while it is there

From the first packet to the close, a connection has its protocol, and whatever uses the protocol
comes before the close. The close takes the connection from the protocol and leaves one release,
which deletes it when no message refers to it any more. -/
namespace LoginServer.Threads

open Locks Runs
open Connection (ErrorCode Arm)

section Server

variable {n : ℕ} {s u : Server n} {t : Thread n} {i : Choice} {c : ℕ}

theorem closingsLeft_add (e e' r r' k k' c : ℕ) (s : Server n) :
    closingsLeft (e + e') (r + r') (k + k') c s =
      closingsLeft e r k c s + closingsLeft e' r' k' c s := by
  have htask : taskClosings (e + e') (r + r') c =
      fun x => taskClosings e r c x + taskClosings e' r' c x := by
    funext x
    cases x with
    | closeConnection y | releaseProtocol y =>
      simp only [taskClosings]
      split <;> rfl
    | _ => rfl
  have hstate : stateClosings (e + e') (r + r') c =
      fun x => stateClosings e r c x + stateClosings e' r' c x := by
    funext x
    simp only [stateClosings, htask, List.sum_map_add]
    split <;> omega
  have haction : closings (e + e') (r + r') (k + k') c =
      fun a => closings e r k c a + closings e' r' k' c a := by
    funext a
    cases a with
    | addTask y _ | addEvent y | execute y => exact congrFun htask y
    | closeConnection y | releaseProtocol y | closing y =>
      simp only [closings]
      split <;> rfl
    | _ => rfl
  rw [closingsLeft, hstate, haction, weight_add]
  rfl

theorem CloseOrder.nothing_closed (h : CloseOrder c s) (he : closingsLeft 1 0 0 c s ≠ 0) :
    closingsLeft 0 1 0 c s = 0 ∧ closingsLeft 0 0 1 c s = 0 := by
  have hr := closingsLeft_add 1 0 0 1 0 0 c s
  have hk := closingsLeft_add 1 0 0 0 0 1 c s
  have hreleased := h.released_once
  have hclosed := h.closed_once
  simp only [Nat.zero_add, Nat.add_zero] at hr hk
  omega

theorem closing_ne_zero {e r k : ℕ} {a : Action} {rest : Code} (hcode : s.code t = .act a :: rest)
    (ha : closings e r k c a ≠ 0) : closingsLeft e r k c s ≠ 0 := by
  have hle := le_weight (stateClosings e r c) (closings e r k c) hcode
  rw [closingsLeft]
  omega

theorem open_ne_zero (ho : (s.shared.peers c).isOpen) : closingsLeft 1 0 0 c s ≠ 0 := by
  have hle := load_le_weight (stateClosings 1 0 c) (closings 1 0 0 c) s .dispatcher
  simp only [stateClosings, ho, if_true] at hle
  rw [closingsLeft]
  omega

theorem step_unset (hu : step program s (t, i) = some u)
    (hc : ∀ rest, s.code t ≠ .act (.closing c) :: rest) (hk : closingsLeft 0 0 1 c u = 0) :
    closingsLeft 0 0 1 c s = 0 := by
  have hstate : ∀ x, stateClosings 0 0 c x = 0 := by
    intro x
    have htask : taskClosings 0 0 c = fun _ => 0 := by
      funext y
      cases y <;> simp [taskClosings]
    simp [stateClosings, htask]
  obtain ⟨_, hload⟩ := weight_eq_zero.mp hk
  refine weight_eq_zero.mpr ⟨hstate _, fun v => ?_⟩
  rcases step_loads hu with ⟨_, hsame⟩ | ⟨a, rest, r, hcode, _, _, hnext, hother⟩
  · rw [← hsame]
    exact hload v
  · by_cases hv : v = t
    · subst hv
      have hv := hload v
      rw [hnext, load_append] at hv
      have ha : closings 0 0 1 c a = 0 := by
        cases a with
        | closing x =>
          have hx : x ≠ c := fun h => hc rest (h ▸ hcode)
          simp [closings, hx]
        | addTask y _ | addEvent y | execute y => cases y <;> simp [closings, taskClosings]
        | closeConnection y | releaseProtocol y => simp [closings]
        | _ => rfl
      rw [hcode, load, ha]
      omega
    · rw [← hother v hv]
      exact hload v

/-- A protocol is made at the first packet, has its connection while it is used, until the close,
and waits detached for its release. -/
structure Protocols (c : ℕ) (s : Server n) : Prop where
  made : (s.shared.peers c).m_protocol = true → (s.shared.peers c).m_receivedFirst = true
  usable : usesLeft 0 c s ≠ 0 →
    (s.shared.peers c).m_protocol = true ∧ closingsLeft 0 0 1 c s = 0
  attached : (s.shared.peers c).m_protocol = true → closingsLeft 0 0 1 c s = 0 →
    (s.shared.peers c).object = some (false, true)
  detached : closingsLeft 0 1 0 c s ≠ 0 → (s.shared.peers c).m_receivedFirst = true ∧
    (s.shared.peers c).object = some (false, false) ∧
    (closingsLeft 0 0 1 c s = 0 → (s.shared.peers c).m_protocol = false)

theorem initial_protocols (n : ℕ) (time : UInt64) (logError forceClose : Bool) (c : ℕ) :
    Protocols c (initial n time logError forceClose) := by
  have huses : usesLeft 0 c (initial n time logError forceClose) = 0 := by
    refine weight_eq_zero.mpr ⟨rfl, fun t => ?_⟩
    cases t <;> rfl
  have hreleases : closingsLeft 0 1 0 c (initial n time logError forceClose) = 0 := by
    refine weight_eq_zero.mpr ⟨rfl, fun t => ?_⟩
    cases t <;> rfl
  refine ⟨?_, fun h => absurd huses h, ?_, fun h => absurd hreleases h⟩
  · intro h
    cases h
  · intro h
    cases h

/-! ## One step -/

section Act

variable {a : Action} {rest : Code} {q : State × Code}

theorem act_uses (hs : Staffed s) (hcode : s.code t = .act a :: rest)
    (hq : exec i s.shared a = some q) (hu : step program s (t, i) = some u)
    (hf : ∀ p, a = .checkPacket c p → load (uses c) q.2 = 0) :
    usesLeft 0 c u ≤ usesLeft 0 c s := by
  refine step_uses hs (Or.inr fun b rest' r hb hr => ?_) hu
  obtain ⟨rfl, rfl⟩ : b = a ∧ rest' = rest := by
    rw [hcode] at hb
    cases hb
    exact ⟨rfl, rfl⟩
  obtain rfl : q = r := Option.some_injective _ (hq.symm.trans hr)
  exact hf

theorem act_closings {r k : ℕ} (hs : Staffed s) (hcode : s.code t = .act a :: rest)
    (hq : exec i s.shared a = some q) (hu : step program s (t, i) = some u)
    (hk : a = .closeConnection c → load (closings 0 r k c) q.2 = 0) :
    closingsLeft 0 r k c u ≤ closingsLeft 0 r k c s := by
  refine step_closings hs (Or.inr fun b rest' r' hb hr heq => ?_) hu
  obtain ⟨rfl, rfl⟩ : b = a ∧ rest' = rest := by
    rw [hcode] at hb
    cases hb
    exact ⟨rfl, rfl⟩
  obtain rfl : q = r' := Option.some_injective _ (hq.symm.trans hr)
  exact Nat.le_of_eq (hk heq)

theorem kept_protocols (hs : Staffed s) (h : Protocols c s) (hcode : s.code t = .act a :: rest)
    (hq : exec i s.shared a = some q) (hu : step program s (t, i) = some u)
    (hshared : u.shared = q.1) (hk : Kept (s.shared.peers c) (u.shared.peers c))
    (ha : a ≠ .closeConnection c) (hb : a ≠ .closing c) : Protocols c u := by
  have huses : usesLeft 0 c u ≤ usesLeft 0 c s := by
    apply act_uses hs hcode hq hu
    rintro p rfl
    rcases uses_checkPacket (c := c) hq with hzero | ⟨_, _, hbefore, hafter⟩
    · exact hzero
    · rw [← hshared, hk.first, hbefore] at hafter
      cases hafter
  have hreleases : closingsLeft 0 1 0 c u ≤ closingsLeft 0 1 0 c s :=
    act_closings hs hcode hq hu fun h => absurd h ha
  have hset : closingsLeft 0 0 1 c u ≤ closingsLeft 0 0 1 c s :=
    act_closings hs hcode hq hu fun h => absurd h ha
  have hunset := step_unset (c := c) hu fun rest' h => hb (by rw [hcode] at h; cases h; rfl)
  refine ⟨?_, fun huse => ?_, fun hm hzero => ?_, fun hrelease => ?_⟩
  · rw [hk.made, hk.first]
    exact h.made
  · rw [hk.made]
    obtain ⟨hm, hzero⟩ := h.usable (by omega)
    exact ⟨hm, by omega⟩
  · rw [hk.object]
    exact h.attached (hk.made ▸ hm) (hunset hzero)
  · obtain ⟨hfirst, hobject, hm⟩ := h.detached (by omega)
    exact ⟨hk.first.trans hfirst, hk.object.trans hobject,
      fun hzero => hk.made.trans (hm (hunset hzero))⟩

theorem first_protocols (hs : Staffed s) (ho : CloseOrder c s) {p : Packet}
    (hcode : s.code t = .act (.checkPacket c p) :: rest)
    (hq : exec i s.shared (.checkPacket c p) = some q) (hu : step program s (t, i) = some u)
    (hopen : (s.shared.peers c).isOpen) (hfirst : (s.shared.peers c).m_receivedFirst = false)
    (hreceived : (u.shared.peers c).m_receivedFirst = true)
    (hm : (u.shared.peers c).m_protocol = false ∧ q.2 = close c ∨
      (u.shared.peers c).m_protocol = true ∧ (u.shared.peers c).object = some (false, true)) :
    Protocols c u := by
  obtain ⟨hrelease, hset⟩ := ho.nothing_closed (open_ne_zero hopen)
  have hreleases : closingsLeft 0 1 0 c u ≤ closingsLeft 0 1 0 c s :=
    act_closings hs hcode hq hu (by simp)
  have hsets : closingsLeft 0 0 1 c u ≤ closingsLeft 0 0 1 c s :=
    act_closings hs hcode hq hu (by simp)
  refine ⟨fun _ => hreceived, fun huse => ?_, fun hmade _ => ?_, fun h => by omega⟩
  · rcases hm with ⟨_, hclose⟩ | ⟨hmade, _⟩
    · have huses : usesLeft 0 c u ≤ usesLeft 0 c s := by
        apply act_uses hs hcode hq hu
        intro _ _
        rw [hclose, load_close]
        rfl
      have hone := ho.used_once
      simp only [usesLeft, weight, stateUses, hfirst, Bool.false_eq_true, if_false] at huses huse hone
      omega
    · exact ⟨hmade, by omega⟩
  · rcases hm with ⟨hnot, _⟩ | ⟨_, hobject⟩
    · cases hmade.symm.trans hnot
    · exact hobject

theorem close_protocols (hs : Staffed s) (ho : CloseOrder c s) (h : Protocols c s)
    (hcode : s.code t = .act (.closeConnection c) :: rest)
    (hq : exec i s.shared (.closeConnection c) = some q) (hu : step program s (t, i) = some u)
    (hm : (u.shared.peers c).m_protocol = (s.shared.peers c).m_protocol)
    (hfirst : (u.shared.peers c).m_receivedFirst = (s.shared.peers c).m_receivedFirst)
    (hcases : (u.shared.peers c).object = (s.shared.peers c).object ∧
        load (closings 0 1 0 c) q.2 = 0 ∨
      (s.shared.peers c).m_protocol = true ∧ closingsLeft 0 0 1 c u ≠ 0 ∧
        (u.shared.peers c).object = (s.shared.peers c).object.map fun o => (o.1, false)) :
    Protocols c u := by
  obtain ⟨hrelease, hset⟩ := ho.nothing_closed (closing_ne_zero hcode (by simp [closings]))
  have hunused : usesLeft 0 c u ≤ 0 :=
    (act_uses hs hcode hq hu (by simp)).trans (Nat.le_of_eq (unused_at_close hs ho hcode))
  refine ⟨?_, fun huse => by omega, fun hmade hzero => ?_, fun hleft => ?_⟩
  · rw [hm, hfirst]
    exact h.made
  · rw [hm] at hmade
    rcases hcases with ⟨hobject, _⟩ | ⟨_, hne, _⟩
    · rw [hobject]
      exact h.attached hmade hset
    · exact absurd hzero hne
  · rcases hcases with ⟨_, hload⟩ | ⟨hmade, hne, hobject⟩
    · have hle : closingsLeft 0 1 0 c u ≤ closingsLeft 0 1 0 c s :=
        act_closings hs hcode hq hu fun _ => hload
      omega
    · refine ⟨hfirst.trans (h.made hmade), ?_, fun hzero => absurd hzero hne⟩
      rw [hobject, h.attached hmade hset]
      rfl

theorem closing_protocols (hs : Staffed s) (h : Protocols c s)
    (hcode : s.code t = .act (.closing c) :: rest)
    (hq : exec i s.shared (.closing c) = some q) (hu : step program s (t, i) = some u)
    (hm : (u.shared.peers c).m_protocol = false)
    (hfirst : (u.shared.peers c).m_receivedFirst = (s.shared.peers c).m_receivedFirst)
    (hobject : (u.shared.peers c).object = (s.shared.peers c).object) : Protocols c u := by
  have hset : closingsLeft 0 0 1 c s ≠ 0 := closing_ne_zero hcode (by simp [closings])
  have hunused : usesLeft 0 c s = 0 := by
    by_contra huse
    exact hset (h.usable huse).2
  have huses : usesLeft 0 c u ≤ usesLeft 0 c s := act_uses hs hcode hq hu (by simp)
  have hreleases : closingsLeft 0 1 0 c u ≤ closingsLeft 0 1 0 c s :=
    act_closings hs hcode hq hu (by simp)
  refine ⟨fun hmade => ?_, fun huse => by omega, fun hmade => ?_, fun hleft => ?_⟩
  · cases hmade.symm.trans hm
  · cases hmade.symm.trans hm
  · obtain ⟨hreceived, hdetached, _⟩ := h.detached (by omega)
    exact ⟨hfirst.trans hreceived, hobject.trans hdetached, fun _ => hm⟩

theorem deleted_protocols (hs : Staffed s) (ho : CloseOrder c s) (h : Protocols c s)
    (hcode : s.code t = .act (.releaseProtocol c) :: rest)
    (hq : exec i s.shared (.releaseProtocol c) = some q) (hu : step program s (t, i) = some u)
    (hnone : q.2 = []) (hm : (u.shared.peers c).m_protocol = (s.shared.peers c).m_protocol)
    (hfirst : (u.shared.peers c).m_receivedFirst = (s.shared.peers c).m_receivedFirst) :
    Protocols c u := by
  have hrelease : closingsLeft 0 1 0 c s ≠ 0 := closing_ne_zero hcode (by simp [closings])
  have hunset := step_unset (c := c) hu fun rest' h => by
    rw [hcode] at h
    cases h
  have hunmade : closingsLeft 0 0 1 c s = 0 → (s.shared.peers c).m_protocol = false :=
    (h.detached hrelease).2.2
  have hunused : usesLeft 0 c s = 0 := by
    by_contra huse
    obtain ⟨hmade, hzero⟩ := h.usable huse
    cases hmade.symm.trans (hunmade hzero)
  have huses : usesLeft 0 c u ≤ usesLeft 0 c s := act_uses hs hcode hq hu (by simp)
  have hdone : closingsLeft 0 1 0 c u = 0 := by
    have hone := closingsLeft_add 1 0 0 1 0 0 c s
    have hreleased := ho.released_once
    have hspent : cost (closings 0 1 0 c) s (t, i) u +
        weight (stateClosings 0 1 c) (closings 0 1 0 c) u ≤
        weight (stateClosings 0 1 c) (closings 0 1 0 c) s := by
      refine step_spends ?_ hu
      intro b rest' r hb hr
      rw [hcode] at hb
      cases hb
      obtain rfl : q = r := Option.some_injective _ (hq.symm.trans hr)
      have hw := exec_within hs.watched.ordinary.quiet hq
      have htask : (none : Option Mutex) ≠ some .m_taskLock := by simp
      have hevent : (none : Option Mutex) ≠ some .m_eventLock := by simp
      simp only [stateClosings, hw.tasks htask, hw.events hevent, hnone, load, ite_self]
      omega
    simp only [cost, hcode, closings, if_true] at hspent
    simp only [Nat.zero_add, Nat.add_zero] at hone
    simp only [closingsLeft] at hone hreleased ⊢
    omega
  refine ⟨?_, fun huse => by omega, fun hmade hzero => ?_, fun hleft => absurd hdone hleft⟩
  · rw [hm, hfirst]
    exact h.made
  · rw [hm] at hmade
    cases hmade.symm.trans (hunmade (hunset hzero))

end Act

theorem step_protocols (hs : Staffed s) (ho : CloseOrder c s) (h : Protocols c s)
    (hu : step program s (t, i) = some u) : Protocols c u := by
  have hq := hs.watched.ordinary.quiet
  rcases step_loads hu with ⟨hshared, hload⟩ | ⟨a, rest, r, hcode, hr, hshared, hnext, _⟩
  · have huses : usesLeft 0 c u = usesLeft 0 c s := by
      simp only [usesLeft, weight, hshared, hload]
    have hclosings : ∀ e r k, closingsLeft e r k c u = closingsLeft e r k c s := by
      intro e r k
      simp only [closingsLeft, weight, hshared, hload]
    exact ⟨by rw [hshared]; exact h.made, by rw [hshared, huses, hclosings]; exact h.usable,
      by rw [hshared, hclosings]; exact h.attached,
      by rw [hshared, hclosings, hclosings]; exact h.detached⟩
  · have hpeer := exec_peer hq hr c
    rw [← hshared] at hpeer
    generalize hcodes : r.2 = code at hpeer
    generalize hafter : u.shared.peers c = after at hpeer
    cases hpeer with
    | kept hk ha hb => exact kept_protocols hs h hcode hr hu hshared (hafter ▸ hk) ha hb
    | early =>
      refine close_protocols hs ho h hcode hr hu ?_ ?_ (Or.inl ⟨?_, ?_⟩)
      · rw [hafter]
      · rw [hafter]
      · rw [hafter]
      · rw [hcodes]
        rfl
    | bare made =>
      refine close_protocols hs ho h hcode hr hu ?_ ?_ (Or.inl ⟨?_, ?_⟩)
      · rw [hafter]
      · rw [hafter]
      · rw [hafter]
      · rw [hcodes]
        simp [load, closings]
    | refused opened first received made =>
      refine first_protocols hs ho hcode hr hu opened first ?_ (Or.inl ⟨?_, hcodes⟩)
      · exact hafter ▸ received
      · exact hafter ▸ made
    | attached opened first received made object =>
      have hm : (s.shared.peers c).m_protocol = false := by
        by_contra hm
        cases (h.made (by simpa using hm)).symm.trans first
      refine first_protocols hs ho hcode hr hu opened first ?_ (Or.inr ⟨?_, ?_⟩)
      · exact hafter ▸ received
      · exact hafter ▸ made
      · exact hafter ▸ object hm
    | detached made first keeps object closed =>
      refine close_protocols hs ho h hcode hr hu (hafter ▸ keeps) (hafter ▸ first)
        (Or.inr ⟨made, ?_, hafter ▸ object⟩)
      have hle := load_le_weight (stateClosings 0 0 c) (closings 0 0 1 c) u t
      rw [hnext, hcodes] at hle
      simp only [List.cons_append, load, closings, if_true] at hle
      rw [closingsLeft]
      omega
    | closing first made object closed =>
      exact closing_protocols hs h hcode hr hu (hafter ▸ made) (hafter ▸ first) (hafter ▸ object)
    | deleted first made opened =>
      exact deleted_protocols hs ho h hcode hr hu hcodes (hafter ▸ made) (hafter ▸ first)

/-! ## A connection without a protocol -/

/-- The first packet has come, no protocol was made, and the connection is not yet closed. -/
def Peer.Unmade (peer : Peer) : Prop :=
  peer.isOpen ∧ peer.m_receivedFirst = true ∧ peer.m_protocol = false

/-- The thread closes the connection before it leaves the mutex. -/
def Refusing (c : ℕ) (s : Server n) (t : Thread n) : Prop :=
  .m_connectionLock c ∈ s.held t ∧ ∃ rest, s.code t = close c ++ rest ∨
    s.code t = .act (.close c) :: rest

theorem PeerStep.unmade {peer after : Peer} {a : Action} {code : Code}
    (h : PeerStep c peer a after code) (hm : after.Unmade) :
    peer.Unmade ∨ code = close c ∧ ∃ p, a = .checkPacket c p := by
  obtain ⟨hopen, hreceived, hmade⟩ := hm
  cases h with
  | kept hk _ _ =>
    exact Or.inl ⟨hk.opened hopen, hk.first.symm.trans hreceived, hk.made.symm.trans hmade⟩
  | early => exact Or.inl ⟨hopen, hreceived, hmade⟩
  | bare _ => exact Or.inl ⟨hopen, hreceived, hmade⟩
  | refused _ _ _ _ => exact Or.inr ⟨rfl, _, rfl⟩
  | attached _ _ _ made _ => cases made.symm.trans hmade
  | detached _ _ _ _ closed => exact absurd hopen closed
  | closing _ _ _ closed => exact absurd hopen closed
  | deleted first made opened =>
    exact Or.inl ⟨opened hopen, first.symm.trans hreceived, made.symm.trans hmade⟩

theorem close_not_open {x : State} {r : State × Code} (hr : exec i x (.close c) = some r) :
    ¬ (r.1.peers c).isOpen := by
  simp only [exec] at hr
  split at hr
  · rename_i hclosed
    cases hr
    intro hopen
    have hstate : (x.peers c).write.m_connectionState = .CONNECTION_STATE_OPEN := hopen
    simp [isClosed, hstate] at hclosed
  · cases hr
    intro hopen
    simp only [Peer.isOpen, State.setWrite, State.setPeer, if_true] at hopen
    exact not_open_close hopen

theorem Refusing.stays (h : Refusing c s t) {v : Thread n} (hv : t ≠ v)
    (hu : step program s (v, i) = some u) : Refusing c u t := by
  obtain ⟨hheld, rest, hcode⟩ := h
  have hsame : u.code t = s.code t := by
    rcases step_code program hu with ⟨l, rest, _, _, hd⟩ | ⟨a, rest, r, _, _, rfl⟩
    · rw [hd, Function.update_of_ne hv]
    · rw [proceed_code, Function.update_of_ne hv]
  refine ⟨?_, rest, ?_⟩
  · rw [step_held_other hv.symm hu]
    exact hheld
  · rw [hsame]
    exact hcode

theorem step_refusing (hs : Staffed s)
    (h : (s.shared.peers c).Unmade → ∃ v, Refusing c s v)
    (hu : step program s (t, i) = some u) :
    (u.shared.peers c).Unmade → ∃ v, Refusing c u v := by
  intro hm
  rcases step_code program hu with ⟨l, rest, hcode, hshared, hd⟩ | ⟨a, rest, r, hcode, hr, rfl⟩
  · rw [hshared] at hm
    obtain ⟨v, hv⟩ := h hm
    by_cases hvt : v = t
    · subst hvt
      obtain ⟨hheld, tail, hv⟩ := hv
      have hlock : s.code v = .lock (.m_connectionLock c) :: rest ∧
          rest = .act (.close c) :: .unlock (.m_connectionLock c) :: tail := by
        rcases hv with hv | hv <;> rcases hcode with hcode | hcode <;>
          cases hv.symm.trans hcode
        exact ⟨hcode, rfl⟩
      refine ⟨v, ?_, .unlock (.m_connectionLock c) :: tail, Or.inr ?_⟩
      · have hbefore := (mem_held_iff hs v c).mp hheld
        rw [hlock.1] at hbefore
        simp only [net, if_true] at hbefore
        refine (mem_held_iff (step_staffed hs hu) v c).mpr ?_
        rw [hd, Function.update_self]
        omega
      · rw [hd, Function.update_self]
        exact hlock.2
    · exact ⟨v, hv.stays hvt hu⟩
  · rcases (exec_peer hs.watched.ordinary.quiet hr c).unmade hm with hbefore | ⟨hclose, p, rfl⟩
    · obtain ⟨v, hv⟩ := h hbefore
      by_cases hvt : v = t
      · subst hvt
        obtain ⟨_, tail, hv | hv⟩ := hv
        · cases hv.symm.trans hcode
        · cases hv.symm.trans hcode
          exact absurd hm.1 (close_not_open (i := i) hr)
      · exact ⟨v, hv.stays hvt hu⟩
    · have hcovered := hs.watched.covered t
      rw [hcode] at hcovered
      refine ⟨t, ?_, rest, Or.inl ?_⟩
      · simpa using hcovered.1 _ rfl
      · simp [hclose]

/-- A packet that is read on an open connection, and is not its first, finds the protocol. -/
theorem packet_made (hs : Staffed s) (h : (s.shared.peers c).Unmade → ∃ v, Refusing c s v)
    {p : Packet} {rest : Code} (hcode : s.code t = .act (.checkPacket c p) :: rest)
    (hopen : (s.shared.peers c).isOpen) (hfirst : (s.shared.peers c).m_receivedFirst = true) :
    (s.shared.peers c).m_protocol = true := by
  by_contra hm
  obtain ⟨v, hheld, tail, hv⟩ := h ⟨hopen, hfirst, by simpa using hm⟩
  have hcovered := hs.watched.covered t
  rw [hcode] at hcovered
  obtain rfl := hs.watched.ordinary.orderly.exclusive v t _ hheld (hcovered.1 _ rfl)
  rw [hcode] at hv
  rcases hv with hv | hv <;> cases hv

/-! ## Every run of the server -/

structure Guarded (c : ℕ) (s : Server n) : Prop where
  staffed : Staffed s
  order : CloseOrder c s
  protocols : Protocols c s
  refusing : (s.shared.peers c).Unmade → ∃ v, Refusing c s v

theorem reachable_guarded (h : (server n).Reachable s) (c : ℕ) : Guarded c s := by
  apply Machine.invariant (I := Guarded c) ?_ ?_ h
  · rintro s ⟨time, logError, forceClose, rfl⟩
    refine ⟨initial_staffed n time logError forceClose,
      initial_closeOrder n time logError forceClose c,
      initial_protocols n time logError forceClose c, ?_⟩
    rintro ⟨_, hreceived, _⟩
    cases hreceived
  · rintro s ⟨t, i⟩ u h hu
    exact ⟨step_staffed h.staffed hu, step_closeOrder h.staffed h.order hu,
      step_protocols h.staffed h.order h.protocols hu, step_refusing h.staffed h.refusing hu⟩

theorem Guarded.attached (h : Guarded c s) {a : Action} {rest : Code}
    (hcode : s.code t = .act a :: rest) (ha : uses c a ≠ 0) :
    (s.shared.peers c).object = some (false, true) := by
  have hle := le_weight (stateUses 0 c) (uses c) hcode
  have huse : usesLeft 0 c s ≠ 0 := by
    rw [usesLeft]
    omega
  obtain ⟨hm, hzero⟩ := h.protocols.usable huse
  exact h.protocols.attached hm hzero

/-- The action calls a function of the protocol, which nothing keeps from being deleted. -/
inductive Calls (s : State) (c : ℕ) : Action → Prop where
  | getOutputMessage (scope : Scope) : Calls s c (.getOutputMessage c scope)
  | configureOutputMessage (scope : Scope) : Calls s c (.configureOutputMessage c scope)
  | getConnection : Calls s c (.closeThroughProtocol c)
  | delegate : Calls s c (.execute (.delegate c))
  | onRecvMessage (p : Packet) (opened : (s.peers c).isOpen)
    (received : (s.peers c).m_receivedFirst = true) : Calls s c (.checkPacket c p)
  | setConnection (made : (s.peers c).m_protocol = true) : Calls s c (.closeConnection c)

theorem object_iff {peer : Peer} {deleted connected : Bool} :
    peer.object = some (deleted, connected) ↔ ∃ k, peer.protocol = some ⟨deleted, connected, k⟩ := by
  rw [Peer.object]
  cases peer.protocol with
  | none => simp
  | some p =>
    obtain ⟨x, y, k⟩ := p
    simp

/-- However the threads interleave, a protocol that a thread calls is there and has its connection,
and one that is released has lost its connection and is deleted once. -/
theorem called_protocol_there (h : (server n).Reachable s) {a : Action} {rest : Code}
    (hcode : s.code t = .act a :: rest) (c : ℕ) :
    (Calls s.shared c a → ∃ k, (s.shared.peers c).protocol = some ⟨false, true, k⟩) ∧
      (a = .releaseProtocol c → ∃ k, (s.shared.peers c).protocol = some ⟨false, false, k⟩) := by
  have hg := reachable_guarded h c
  refine ⟨fun hcall => object_iff.mp ?_, ?_⟩
  · cases hcall with
    | getOutputMessage scope => exact hg.attached hcode (by simp [uses])
    | configureOutputMessage scope => exact hg.attached hcode (by simp [uses])
    | getConnection => exact hg.attached hcode (by simp [uses])
    | delegate => exact hg.attached hcode (by simp [uses])
    | onRecvMessage p opened received =>
      have hm := packet_made hg.staffed hg.refusing hcode opened received
      exact hg.protocols.attached hm (hg.order.nothing_closed (open_ne_zero opened)).2
    | setConnection made =>
      have hclose := closing_ne_zero (e := 1) (r := 0) (k := 0) (c := c) hcode (by simp [closings])
      exact hg.protocols.attached made (hg.order.nothing_closed hclose).2
  · rintro rfl
    have hrelease := closing_ne_zero (e := 0) (r := 1) (k := 0) (c := c) hcode (by simp [closings])
    exact object_iff.mp (hg.protocols.detached hrelease).2.1

end Server

def loginTrace : List (Thread 1 × Choice) :=
  (.service ⟨0, Nat.one_pos⟩, { handler := .parsePacket 0 none ⟨false, true, .checked false⟩ }) ::
    (List.replicate 9 (.service ⟨0, Nat.one_pos⟩, ({} : Choice)) ++
      List.replicate 6 (.dispatcher, ({} : Choice)))

theorem login_trace_protocol_there : ∃ s, (server 1).run (initial 1 20000 true false) loginTrace =
    some s ∧ ∃ k, (s.shared.peers 0).protocol = some ⟨false, true, k⟩ := by
  have hrun : ∃ s, (server 1).run (initial 1 20000 true false) loginTrace = some s ∧
      (s.code .dispatcher).head? = some (.act (.execute (.delegate 0))) :=
    Machine.exists_run (by decide +kernel)
  obtain ⟨s, hs, hhead⟩ := hrun
  obtain ⟨rest, hcode⟩ := List.head?_eq_some_iff.mp hhead
  have hreach : (server 1).Reachable s := Machine.run_reachable (.start ⟨_, _, _, rfl⟩) hs
  exact ⟨s, hs, (called_protocol_there hreach hcode 0).1 .delegate⟩

end LoginServer.Threads
