import LoginServer.MessagePoolSteps
import Mathlib.Data.List.Nodup

/-! # Who owns a message, and who is counted

A message is free, held by a shared pointer, or waiting in a release task, and in one of these
places only. Steps that move pointers leave everything else alone, so one lemma about a pointer
that goes serves them all; the counts change in two places, when a message is configured and when
it goes through `internalReleaseMessage`. -/
namespace LoginServer.MessagePool

open Runs

theorem mem_ptrs {s : State} {m : ℕ} : m ∈ ptrs s ↔ m ∈ s.held ∨ m ∈ s.sending ∨
    m ∈ s.m_addQueue ∨ m ∈ s.m_autoSend ∨ m ∈ s.writing := by
  simp [ptrs]

/-- What no movement of pointers changes. -/
structure Frame (s u : State) : Prop where
  free : u.m_outputMessages = s.m_outputMessages
  releases : u.releases = s.releases
  allocated : u.allocated = s.allocated
  configured : u.configured = s.configured
  messages : ∀ m, (u.messages m).m_protocol = (s.messages m).m_protocol ∧
    (u.messages m).m_connection = (s.messages m).m_connection
  protocols : u.protocols = s.protocols
  peers : ∀ c, (u.peers c).m_refCount = (s.peers c).m_refCount

theorem Frame.refl (s : State) : Frame s s :=
  ⟨rfl, rfl, rfl, rfl, fun _ => ⟨rfl, rfl⟩, rfl, fun _ => rfl⟩

theorem Frame.trans {s u v : State} (h : Frame s u) (k : Frame u v) : Frame s v where
  free := k.free.trans h.free
  releases := k.releases.trans h.releases
  allocated := k.allocated.trans h.allocated
  configured := k.configured.trans h.configured
  messages m := ⟨(k.messages m).1.trans (h.messages m).1, (k.messages m).2.trans (h.messages m).2⟩
  protocols := k.protocols.trans h.protocols
  peers c := (k.peers c).trans (h.peers c)

theorem Frame.pointers {s u : State} (h : Frame s u)
    (held sending addQueue autoSend writing : List ℕ) :
    Frame s { u with held, sending, m_addQueue := addQueue, m_autoSend := autoSend, writing } where
  free := h.free
  releases := h.releases
  allocated := h.allocated
  configured := h.configured
  messages := h.messages
  protocols := h.protocols
  peers := h.peers

theorem setWrite_frame (s : State) (c : ℕ) (f : WriteSide.State → WriteSide.State) :
    Frame s (s.setWrite c f) where
  free := rfl
  releases := rfl
  allocated := rfl
  configured := rfl
  messages _ := ⟨rfl, rfl⟩
  protocols := rfl
  peers x := by
    by_cases hx : x = c <;> simp [State.setWrite, State.setPeer, hx]

theorem record_frame (s : State) (r : Record) : Frame s (s.record r) :=
  ⟨rfl, rfl, rfl, rfl, fun _ => ⟨rfl, rfl⟩, rfl, fun _ => rfl⟩

theorem onSendMessage_frame (s : State) (m : ℕ) (why : Framing) :
    Frame s (onSendMessage s m why) := by
  rw [onSendMessage]
  split
  · exact .refl s
  · exact record_frame s _

theorem setMessage_frame (s : State) (m : ℕ) {f : Message → Message}
    (hf : ∀ msg, (f msg).m_protocol = msg.m_protocol ∧ (f msg).m_connection = msg.m_connection) :
    Frame s (s.setMessage m f) where
  free := rfl
  releases := rfl
  allocated := rfl
  configured := rfl
  messages x := by
    by_cases hx : x = m
    · simp [State.setMessage, hx, hf]
    · simp [State.setMessage, hx]
  protocols := rfl
  peers _ := rfl

/-- The pointers of all messages but `m`, and those of `m` outside the last two lists. -/
structure Moved (s u : State) (m : ℕ) : Prop where
  frame : Frame s u
  held : u.held = s.held
  sending : u.sending = s.sending
  autoSend : u.m_autoSend = s.m_autoSend
  addQueue : ∀ x, x ≠ m → (x ∈ u.m_addQueue ↔ x ∈ s.m_addQueue)
  writing : ∀ x, x ≠ m → (x ∈ u.writing ↔ x ∈ s.writing)

theorem onSendMessage_moved (s : State) (m x : ℕ) (why : Framing) :
    Moved s (onSendMessage s m why) x := by
  refine ⟨onSendMessage_frame s m why, ?_, ?_, ?_, ?_, ?_⟩
  all_goals
    rw [onSendMessage]
    split <;> simp [State.record]

theorem Transmitted.moved {s u : State} {m : ℕ} (h : Transmitted s m u) : Moved s u m := by
  have hwrite : ∀ c f, Moved s (s.setWrite c f) m := fun c f =>
    ⟨setWrite_frame s c f, rfl, rfl, rfl, fun _ _ => Iff.rfl, fun _ _ => Iff.rfl⟩
  have hsend : ∀ c f, Moved s (onSendMessage (s.setWrite c f) m .direct) m := by
    intro c f
    have h1 := hwrite c f
    have h2 := onSendMessage_moved (s.setWrite c f) m m .direct
    exact ⟨h1.frame.trans h2.frame, h2.held.trans h1.held, h2.sending.trans h1.sending,
      h2.autoSend.trans h1.autoSend, fun x hx => (h2.addQueue x hx).trans (h1.addQueue x hx),
      fun x hx => (h2.writing x hx).trans (h1.writing x hx)⟩
  cases h with
  | unconnected _ =>
    exact ⟨.refl s, rfl, rfl, rfl, fun _ _ => Iff.rfl, fun _ _ => Iff.rfl⟩
  | refused => exact onSendMessage_moved s m m .refused
  | framed c f => exact hsend c f
  | written c f =>
    have h1 := hsend c f
    have h2 := record_frame (onSendMessage (s.setWrite c f) m .direct)
      (.written (s.messages m).serial)
    refine ⟨(h1.frame.trans h2).pointers _ _ _ _ _, h1.held, h1.sending, h1.autoSend, h1.addQueue,
      ?_⟩
    intro x hx
    simp [hx]
  | forced c f => exact hwrite c f
  | queued =>
    refine ⟨(Frame.refl s).pointers _ _ _ _ _, rfl, rfl, rfl, ?_, fun _ _ => Iff.rfl⟩
    intro x hx
    simp [hx]

/-- Every message is in one place: free, behind a pointer, or in a release task. -/
structure Places (s : State) : Prop where
  nodup : (s.m_outputMessages ++ s.releases).Nodup
  idle : ∀ m ∈ s.m_outputMessages ++ s.releases, m < s.allocated ∧ m ∉ ptrs s
  live : ∀ m ∈ ptrs s, m < s.allocated
  placed : ∀ m < s.allocated, m ∈ s.m_outputMessages ++ s.releases ∨ m ∈ ptrs s

/-- The counts are those of the configured messages, which are the ones that are not free. -/
structure Counts (s : State) : Prop where
  keys : (s.configured.map Prod.fst).Nodup
  configured : ∀ m, m ∈ s.configured.map Prod.fst ↔ m < s.allocated ∧ m ∉ s.m_outputMessages
  fields : ∀ entry ∈ s.configured, (s.messages entry.1).m_protocol = some entry.2.1 ∧
    (s.messages entry.1).m_connection = some entry.2.2
  protocolRefs : ∀ p, (s.protocols p).m_refCount = s.configured.countP fun entry => entry.2.1 = p
  peerRefs : ∀ c, (s.peers c).m_refCount = s.configured.countP fun entry => entry.2.2 = c
  kept : ∀ entry ∈ s.configured, (s.protocols entry.2.1).deleted = false

theorem Counts.protocolRefs_pos {s : State} {entry : ℕ × ℕ × ℕ} (h : Counts s)
    (he : entry ∈ s.configured) : 0 < (s.protocols entry.2.1).m_refCount := by
  have hpos : 0 < s.configured.countP fun other => other.2.1 = entry.2.1 :=
    List.countP_pos_iff.mpr ⟨entry, he, by simp⟩
  rw [h.protocolRefs]
  omega

theorem Counts.peerRefs_pos {s : State} {entry : ℕ × ℕ × ℕ} (h : Counts s)
    (he : entry ∈ s.configured) : 0 < (s.peers entry.2.2).m_refCount := by
  have hpos : 0 < s.configured.countP fun other => other.2.2 = entry.2.2 :=
    List.countP_pos_iff.mpr ⟨entry, he, by simp⟩
  rw [h.peerRefs]
  omega

structure Owned (s : State) : Prop where
  places : Places s
  counts : Counts s

theorem initial_owned (time : UInt64) (forceClose : Bool) : Owned (initial time forceClose) := by
  constructor
  · constructor <;> simp [initial, ptrs, List.nodup_range]
  · constructor <;> simp [initial]

theorem Places.frame {s u : State} (h : Places s) (hf : Frame s u)
    (hp : ∀ m, m ∈ ptrs u ↔ m ∈ ptrs s) : Places u := by
  refine ⟨?_, ?_, ?_, ?_⟩
  · rw [hf.free, hf.releases]
    exact h.nodup
  · rw [hf.free, hf.releases, hf.allocated]
    intro m hm
    rw [hp m]
    exact h.idle m hm
  · rw [hf.allocated]
    intro m hm
    exact h.live m ((hp m).mp hm)
  · rw [hf.free, hf.releases, hf.allocated]
    intro m hm
    rw [hp m]
    exact h.placed m hm

theorem Counts.frame {s u : State} (h : Counts s) (hf : Frame s u) : Counts u := by
  refine ⟨?_, ?_, ?_, ?_, ?_, ?_⟩
  · rw [hf.configured]
    exact h.keys
  · rw [hf.configured, hf.allocated, hf.free]
    exact h.configured
  · rw [hf.configured]
    intro entry he
    rw [(hf.messages entry.1).1, (hf.messages entry.1).2]
    exact h.fields entry he
  · rw [hf.configured, hf.protocols]
    exact h.protocolRefs
  · rw [hf.configured]
    intro c
    rw [hf.peers c]
    exact h.peerRefs c
  · rw [hf.configured, hf.protocols]
    exact h.kept

theorem Owned.frame {s u : State} (h : Owned s) (hf : Frame s u)
    (hp : ∀ m, m ∈ ptrs u ↔ m ∈ ptrs s) : Owned u :=
  ⟨h.places.frame hf hp, h.counts.frame hf⟩

theorem Places.released {s : State} {m : ℕ} (h : Places s) (hm : m ∈ ptrs s) {u : State}
    (hf : Frame s u) (hmu : m ∉ ptrs u) (hp : ∀ x, x ≠ m → (x ∈ ptrs u ↔ x ∈ ptrs s)) :
    Places { u with releases := m :: u.releases } := by
  have hout : m ∉ s.m_outputMessages ++ s.releases := fun hin => (h.idle m hin).2 hm
  have hperm : (s.m_outputMessages ++ m :: s.releases).Perm
      (m :: (s.m_outputMessages ++ s.releases)) := List.perm_middle
  have hptrs : ptrs { u with releases := m :: u.releases } = ptrs u := rfl
  refine ⟨?_, ?_, ?_, ?_⟩
  · rw [hf.free, hf.releases, hperm.nodup_iff]
    exact List.nodup_cons.mpr ⟨hout, h.nodup⟩
  · rw [hptrs, hf.free, hf.releases, hf.allocated]
    intro x hx
    rcases List.mem_cons.mp (hperm.mem_iff.mp hx) with rfl | hx
    · exact ⟨h.live x hm, hmu⟩
    · have hxm : x ≠ m := fun he => hout (he ▸ hx)
      rw [hp x hxm]
      exact h.idle x hx
  · rw [hptrs, hf.allocated]
    intro x hx
    by_cases hxm : x = m
    · exact h.live x (hxm ▸ hm)
    · exact h.live x ((hp x hxm).mp hx)
  · rw [hptrs, hf.free, hf.releases, hf.allocated]
    intro x hx
    by_cases hxm : x = m
    · exact Or.inl (hperm.mem_iff.mpr (hxm ▸ List.mem_cons_self))
    · rw [hp x hxm]
      exact (h.placed x hx).imp_left fun hin => hperm.mem_iff.mpr (List.mem_cons_of_mem m hin)

theorem Owned.dropped {s u : State} {m : ℕ} (h : Owned s) (hf : Frame s u) (hm : m ∈ ptrs s)
    (hp : ∀ x, x ≠ m → (x ∈ ptrs u ↔ x ∈ ptrs s)) : Owned (u.dropped m) := by
  by_cases hmu : m ∈ ptrs u
  · rw [State.dropped, if_pos hmu]
    apply h.frame hf
    intro x
    by_cases hx : x = m
    · subst hx
      exact iff_of_true hmu hm
    · exact hp x hx
  · rw [State.dropped, if_neg hmu]
    have hc := h.counts.frame hf
    exact ⟨h.places.released hm hf hmu hp, hc.keys, hc.configured, hc.fields, hc.protocolRefs,
      hc.peerRefs, hc.kept⟩

/-! ## `sendAll` -/

theorem requeue_frame (dropTime frameTime : UInt64) (s : State) (m : ℕ) :
    Frame s (requeue dropTime frameTime s m) := by
  rw [requeue]
  split
  · have hf : Frame s (s.setMessage m fun msg => { msg with m_state := .STATE_ALLOCATED }) :=
      setMessage_frame s m fun _ => ⟨rfl, rfl⟩
    split
    · exact hf.pointers _ _ _ _ _
    · exact hf.pointers _ _ _ _ _
  · exact onSendMessage_frame s m .dropped

@[simp] theorem requeue_addQueue (dropTime frameTime : UInt64) (s : State) (m : ℕ) :
    (requeue dropTime frameTime s m).m_addQueue = s.m_addQueue := by
  rw [requeue]
  split
  · split <;> rfl
  · rw [onSendMessage]
    split <;> rfl

theorem ptrs_again {s u : State} {m : ℕ} (hs : m ∈ ptrs s) (hu : m ∈ ptrs u)
    (hother : ∀ x, x ≠ m → (x ∈ ptrs u ↔ x ∈ ptrs s)) (x : ℕ) : x ∈ ptrs u ↔ x ∈ ptrs s := by
  by_cases hx : x = m
  · subst hx
    exact iff_of_true hu hs
  · exact hother x hx

theorem requeue_ptrs (dropTime frameTime : UInt64) {s : State} {m : ℕ} (hm : m ∈ s.m_addQueue)
    (x : ℕ) : x ∈ ptrs (requeue dropTime frameTime s m) ↔ x ∈ ptrs s := by
  have hptr : m ∈ ptrs s := by simp [mem_ptrs, hm]
  rw [requeue]
  split
  · split
    · refine ptrs_again hptr (by simp [mem_ptrs, State.setMessage]) (fun y hy => ?_) x
      simp [mem_ptrs, State.setMessage, hy]
    · refine ptrs_again hptr (by simp [mem_ptrs, State.setMessage]) (fun y hy => ?_) x
      simp [mem_ptrs, State.setMessage, hy]
  · rw [onSendMessage]
    split <;> rfl

theorem foldl_requeue (dropTime frameTime : UInt64) {l : List ℕ} {s : State}
    (hl : ∀ m ∈ l, m ∈ s.m_addQueue) :
    Frame s (l.foldl (requeue dropTime frameTime) s) ∧
      ∀ x, x ∈ ptrs (l.foldl (requeue dropTime frameTime) s) ↔ x ∈ ptrs s := by
  induction l generalizing s with
  | nil => exact ⟨.refl s, fun _ => Iff.rfl⟩
  | cons m rest ih =>
    have hm : m ∈ s.m_addQueue := hl m List.mem_cons_self
    have hrest : ∀ x ∈ rest, x ∈ (requeue dropTime frameTime s m).m_addQueue := by
      intro x hx
      rw [requeue_addQueue]
      exact hl x (List.mem_cons_of_mem m hx)
    obtain ⟨hf, hp⟩ := ih hrest
    rw [List.foldl_cons]
    exact ⟨(requeue_frame dropTime frameTime s m).trans hf,
      fun x => (hp x).trans (requeue_ptrs dropTime frameTime hm x)⟩

theorem Owned.clearAddQueue {l : List ℕ} {s : State} (h : Owned s) (hl : s.m_addQueue = l) :
    Owned (MessagePool.clearAddQueue s l) := by
  induction l generalizing s with
  | nil =>
    rw [MessagePool.clearAddQueue, ← hl]
    exact h
  | cons m rest ih =>
    rw [MessagePool.clearAddQueue]
    apply ih
    · have hf : Frame s { s with m_addQueue := rest } := (Frame.refl s).pointers _ _ _ _ _
      apply h.dropped hf
      · simp [mem_ptrs, hl]
      · intro x hx
        simp [mem_ptrs, hl, hx]
    · rw [State.dropped]
      split <;> rfl

theorem Owned.beginSendAll {s : State} (h : Owned s) : Owned (MessagePool.beginSendAll s) := by
  obtain ⟨hf, hp⟩ := foldl_requeue (s.m_frameTime - 10000) (s.m_frameTime - 10)
    fun m (hm : m ∈ s.m_addQueue) => hm
  have hc := (h.frame hf hp).clearAddQueue rfl
  exact ⟨⟨hc.places.nodup, hc.places.idle, hc.places.live, hc.places.placed⟩, hc.counts.keys,
    hc.counts.configured, hc.counts.fields, hc.counts.protocolRefs, hc.counts.peerRefs,
    hc.counts.kept⟩

/-! ## Handing out and taking back -/

theorem Owned.refill {s : State} (h : Owned s) : Owned s.refill := by
  by_cases he : s.m_outputMessages = []
  · have hnew : ∀ m ∈ s.releases, m < s.allocated ∧ m ∉ ptrs s := by
      intro m hm
      exact h.places.idle m (List.mem_append_right _ hm)
    have hlive : s.allocated ∉ ptrs s := fun hm => Nat.lt_irrefl _ (h.places.live _ hm)
    have hptrs : ptrs { s with m_outputMessages := [s.allocated], allocated := s.allocated + 1 } =
      ptrs s := rfl
    rw [State.refill, if_pos he]
    refine ⟨⟨?_, ?_, ?_, ?_⟩, h.counts.keys, ?_, h.counts.fields, h.counts.protocolRefs,
      h.counts.peerRefs, h.counts.kept⟩
    · have hn := h.places.nodup
      rw [he, List.nil_append] at hn
      exact List.nodup_cons.mpr ⟨fun hm => Nat.lt_irrefl _ (hnew _ hm).1, hn⟩
    · intro m hm
      rw [hptrs]
      rcases List.mem_cons.mp hm with rfl | hm
      · exact ⟨Nat.lt_succ_self _, hlive⟩
      · exact ⟨Nat.lt_succ_of_lt (hnew m hm).1, (hnew m hm).2⟩
    · intro m hm
      exact Nat.lt_succ_of_lt (h.places.live m hm)
    · intro m hm
      rw [hptrs]
      rcases Nat.lt_succ_iff_lt_or_eq.mp hm with hm | rfl
      · have hpl := h.places.placed m hm
        rw [he, List.nil_append] at hpl
        exact hpl.imp_left (List.mem_cons_of_mem _)
      · exact Or.inl List.mem_cons_self
    · intro m
      rw [h.counts.configured m, he]
      simp only [List.mem_singleton, List.not_mem_nil, not_false_eq_true, and_true]
      omega
  · rw [State.refill, if_neg he]
    exact h

theorem ptrs_configureOutputMessage (s : State) (m p c x : ℕ) (autoSend : Bool)
    (hm : m ∈ s.held) : x ∈ ptrs (configureOutputMessage s m p c autoSend) ↔ x ∈ ptrs s := by
  cases autoSend with
  | false => rfl
  | true =>
    have hheld : m ∈ ptrs (configureOutputMessage s m p c true) := mem_ptrs.mpr (.inl hm)
    refine ptrs_again (mem_ptrs.mpr (.inl hm)) hheld (fun y hy => ?_) x
    simp [mem_ptrs, configureOutputMessage, State.setPeer, State.setProtocol, State.setMessage, hy]

theorem protocols_configureOutputMessage (s : State) (m p c x : ℕ) (autoSend : Bool) :
    (configureOutputMessage s m p c autoSend).protocols x =
      if x = p then { s.protocols x with m_refCount := (s.protocols x).m_refCount + 1 }
      else s.protocols x := rfl

theorem peers_configureOutputMessage (s : State) (m p c x : ℕ) (autoSend : Bool) :
    (configureOutputMessage s m p c autoSend).peers x =
      if x = c then { s.peers x with m_refCount := (s.peers x).m_refCount + 1 }
      else s.peers x := rfl

theorem Places.configureOutputMessage {s : State} {front : List ℕ} {m : ℕ} (h : Places s)
    (hf : s.m_outputMessages = front ++ [m]) (p c : ℕ) (autoSend : Bool) :
    Places (configureOutputMessage { s with m_outputMessages := front, held := m :: s.held }
      m p c autoSend) := by
  have hperm : (s.m_outputMessages ++ s.releases).Perm (m :: (front ++ s.releases)) := by
    rw [hf, List.append_assoc]
    exact List.perm_middle
  have hnodup := List.nodup_cons.mp (hperm.nodup_iff.mp h.nodup)
  have hptrs : ∀ x, x ∈ ptrs (MessagePool.configureOutputMessage
      { s with m_outputMessages := front, held := m :: s.held } m p c autoSend) ↔
      x = m ∨ x ∈ ptrs s := by
    intro x
    rw [ptrs_configureOutputMessage _ m p c x autoSend List.mem_cons_self]
    simp only [mem_ptrs, List.mem_cons]
    tauto
  refine ⟨hnodup.2, ?_, ?_, ?_⟩
  · intro x hx
    rw [hptrs x]
    have hin := h.idle x (hperm.mem_iff.mpr (List.mem_cons_of_mem m hx))
    refine ⟨hin.1, ?_⟩
    rintro (rfl | hp)
    · exact hnodup.1 hx
    · exact hin.2 hp
  · intro x hx
    rcases (hptrs x).mp hx with rfl | hx
    · exact (h.idle x (hperm.mem_iff.mpr List.mem_cons_self)).1
    · exact h.live x hx
  · intro x hx
    rw [hptrs x]
    rcases h.placed x hx with hin | hin
    · rcases List.mem_cons.mp (hperm.mem_iff.mp hin) with rfl | hin
      · exact Or.inr (Or.inl rfl)
      · exact Or.inl hin
    · exact Or.inr (Or.inr hin)

theorem Counts.configureOutputMessage {s : State} {front : List ℕ} {m p : ℕ} (h : Counts s)
    (hf : s.m_outputMessages = front ++ [m]) (hm : m < s.allocated) (hfront : m ∉ front)
    (hd : (s.protocols p).deleted = false) (c : ℕ) (autoSend : Bool) :
    Counts (configureOutputMessage { s with m_outputMessages := front, held := m :: s.held }
      m p c autoSend) := by
  have hkey : m ∉ s.configured.map Prod.fst := fun hin =>
    ((h.configured m).mp hin).2 (hf ▸ List.mem_append_right front List.mem_cons_self)
  refine ⟨List.nodup_cons.mpr ⟨hkey, h.keys⟩, ?_, ?_, ?_, ?_, ?_⟩
  · intro x
    change x ∈ m :: s.configured.map Prod.fst ↔ x < s.allocated ∧ x ∉ front
    rw [List.mem_cons, h.configured x, hf]
    by_cases hx : x = m
    · subst hx
      exact iff_of_true (Or.inl rfl) ⟨hm, hfront⟩
    · simp [hx]
  · intro entry he
    rcases List.mem_cons.mp he with rfl | he
    · simp [MessagePool.configureOutputMessage, State.setPeer, State.setProtocol,
        State.setMessage]
    · have hne : entry.1 ≠ m := fun hx => hkey (hx ▸ List.mem_map_of_mem he)
      simpa [MessagePool.configureOutputMessage, State.setPeer, State.setProtocol,
        State.setMessage, hne] using h.fields entry he
  · intro x
    rw [protocols_configureOutputMessage]
    change _ = (((m, p, c) :: s.configured).countP _ : ℤ)
    rw [List.countP_cons]
    have hr := h.protocolRefs x
    by_cases hx : x = p
    · simp [hx, hx ▸ hr]
    · simp [hx, Ne.symm hx, hr]
  · intro x
    rw [peers_configureOutputMessage]
    change _ = (((m, p, c) :: s.configured).countP _ : ℤ)
    rw [List.countP_cons]
    have hr := h.peerRefs x
    by_cases hx : x = c
    · simp [hx, hx ▸ hr]
    · simp [hx, Ne.symm hx, hr]
  · intro entry he
    have hdel : (s.protocols entry.2.1).deleted = false := by
      rcases List.mem_cons.mp he with rfl | he
      · exact hd
      · exact h.kept entry he
    rw [protocols_configureOutputMessage]
    split <;> exact hdel

theorem Owned.configureOutputMessage {s : State} {front : List ℕ} {m p c : ℕ} {autoSend : Bool}
    (h : Owned s) (hf : s.m_outputMessages = front ++ [m]) (hd : (s.protocols p).deleted = false) :
    Owned (configureOutputMessage { s with m_outputMessages := front, held := m :: s.held }
      m p c autoSend) := by
  have hidle := h.places.idle m (List.mem_append_left _ (by simp [hf]))
  have hnodup := (List.nodup_append.mp h.places.nodup).1
  rw [hf] at hnodup
  have hfront : m ∉ front := fun hm => (List.nodup_append.mp hnodup).2.2 m hm m (by simp) rfl
  exact ⟨h.places.configureOutputMessage hf p c autoSend,
    h.counts.configureOutputMessage hf hidle.1 hfront hd c autoSend⟩

theorem countP_filter_key {β : Type} {l : List (ℕ × β)} {m : ℕ} {y : β} (q : ℕ × β → Bool)
    (hk : (l.map Prod.fst).Nodup) (he : (m, y) ∈ l) :
    l.countP q = (l.filter fun entry => entry.1 ≠ m).countP q + if q (m, y) then 1 else 0 := by
  induction l with
  | nil => cases he
  | cons entry rest ih =>
    have hk' := List.nodup_cons.mp hk
    rcases List.mem_cons.mp he with rfl | he
    · have hrest : rest.filter (fun entry => entry.1 ≠ m) = rest := by
        rw [List.filter_eq_self]
        intro e hin
        have hne : e.1 ≠ m := fun hm => hk'.1 (List.mem_map.mpr ⟨e, hin, hm⟩)
        simpa using hne
      rw [List.filter_cons_of_neg (by simp), hrest, List.countP_cons]
    · have hne : entry.1 ≠ m := fun hm => hk'.1 (hm ▸ List.mem_map_of_mem he)
      rw [List.filter_cons_of_pos (by simpa using hne), List.countP_cons, List.countP_cons,
        ih hk'.2 he]
      omega

theorem internalReleaseMessage_eq {s : State} {m p c : ℕ} (hp : (s.messages m).m_protocol = some p)
    (hc : (s.messages m).m_connection = some c) : internalReleaseMessage s m =
    { ((s.setProtocol p
        fun protocol => { protocol with m_refCount := protocol.m_refCount - 1 }).setPeer c
        fun peer => { peer with m_refCount := peer.m_refCount - 1 }).setMessage m Message.free with
      m_outputMessages := s.m_outputMessages ++ [m]
      releases := s.releases.erase m
      configured := s.configured.filter fun entry => entry.1 ≠ m } := by
  simp only [internalReleaseMessage, hp, State.setProtocol, hc, State.setPeer, State.setMessage]

theorem Places.freed {s u : State} {m : ℕ} (h : Places s) (hm : m ∈ s.releases)
    (hfree : u.m_outputMessages = s.m_outputMessages ++ [m])
    (hrel : u.releases = s.releases.erase m) (halloc : u.allocated = s.allocated)
    (hptrs : ptrs u = ptrs s) : Places u := by
  have hperm : (u.m_outputMessages ++ u.releases).Perm (s.m_outputMessages ++ s.releases) := by
    rw [hfree, hrel, List.append_assoc]
    exact (List.perm_cons_erase hm).symm.append_left _
  refine ⟨hperm.nodup_iff.mpr h.nodup, ?_, ?_, ?_⟩
  · intro x hx
    rw [halloc, hptrs]
    exact h.idle x (hperm.mem_iff.mp hx)
  · rw [halloc, hptrs]
    exact h.live
  · intro x hx
    rw [halloc] at hx
    rw [hptrs]
    exact (h.placed x hx).imp_left hperm.mem_iff.mpr

theorem mem_filter_key {s : State} {m : ℕ} {entry : ℕ × ℕ × ℕ} :
    entry ∈ s.configured.filter (fun entry => entry.1 ≠ m) ↔
      entry ∈ s.configured ∧ entry.1 ≠ m := by
  simp

theorem mem_keys_filter {s : State} {m x : ℕ} :
    x ∈ (s.configured.filter fun entry => entry.1 ≠ m).map Prod.fst ↔
      x ∈ s.configured.map Prod.fst ∧ x ≠ m := by
  constructor
  · intro hin
    obtain ⟨entry, he, rfl⟩ := List.mem_map.mp hin
    have he' := mem_filter_key.mp he
    exact ⟨List.mem_map_of_mem he'.1, he'.2⟩
  · rintro ⟨hin, hne⟩
    obtain ⟨entry, he, rfl⟩ := List.mem_map.mp hin
    exact List.mem_map_of_mem (mem_filter_key.mpr ⟨he, hne⟩)

theorem Counts.internalReleaseMessage {s : State} {m p c : ℕ} (h : Counts s)
    (he : (m, p, c) ∈ s.configured) : Counts (MessagePool.internalReleaseMessage s m) := by
  have hfld := h.fields _ he
  rw [internalReleaseMessage_eq hfld.1 hfld.2]
  refine ⟨h.keys.sublist (List.filter_sublist.map Prod.fst), ?_, ?_, ?_, ?_, ?_⟩
  · intro x
    rw [mem_keys_filter, h.configured x]
    change (x < s.allocated ∧ x ∉ s.m_outputMessages) ∧ x ≠ m ↔
      x < s.allocated ∧ x ∉ s.m_outputMessages ++ [m]
    simp only [List.mem_append, List.mem_singleton, not_or, and_assoc, ne_eq]
  · intro entry hin
    obtain ⟨hin, hne⟩ := mem_filter_key.mp hin
    simpa [State.setMessage, State.setPeer, State.setProtocol, hne] using h.fields entry hin
  · intro x
    have hr := h.protocolRefs x
    rw [countP_filter_key _ h.keys he] at hr
    by_cases hx : x = p
    · subst hx
      simp [State.setMessage, State.setPeer, State.setProtocol, hr]
    · simpa [State.setMessage, State.setPeer, State.setProtocol, hx, Ne.symm hx] using hr
  · intro x
    have hr := h.peerRefs x
    rw [countP_filter_key _ h.keys he] at hr
    by_cases hx : x = c
    · subst hx
      simp [State.setMessage, State.setPeer, State.setProtocol, hr]
    · simpa [State.setMessage, State.setPeer, State.setProtocol, hx, Ne.symm hx] using hr
  · intro entry hin
    have hk := h.kept entry (mem_filter_key.mp hin).1
    by_cases hx : entry.2.1 = p
    · rw [hx] at hk
      simpa [State.setMessage, State.setPeer, State.setProtocol, hx] using hk
    · simpa [State.setMessage, State.setPeer, State.setProtocol, hx] using hk

theorem Owned.releasing {s : State} {m : ℕ} (h : Owned s) (hm : m ∈ s.releases) :
    ∃ p c, (m, p, c) ∈ s.configured := by
  have hidle := h.places.idle m (List.mem_append_right _ hm)
  have hfree : m ∉ s.m_outputMessages := fun hin =>
    (List.nodup_append.mp h.places.nodup).2.2 m hin m hm rfl
  obtain ⟨⟨_, p, c⟩, he, rfl⟩ := List.mem_map.mp ((h.counts.configured m).mpr ⟨hidle.1, hfree⟩)
  exact ⟨p, c, he⟩

theorem Owned.internalReleaseMessage {s : State} {m : ℕ} (h : Owned s) (hm : m ∈ s.releases) :
    Owned (MessagePool.internalReleaseMessage s m) := by
  obtain ⟨p, c, he⟩ := h.releasing hm
  have hfld := h.counts.fields _ he
  refine ⟨?_, h.counts.internalReleaseMessage he⟩
  rw [internalReleaseMessage_eq hfld.1 hfld.2]
  exact h.places.freed hm rfl rfl rfl rfl

/-! ## Every step -/

theorem Owned.setProtocol {s : State} {p : ℕ} {f : Protocol → Protocol} (h : Owned s)
    (hr : ∀ protocol, (f protocol).m_refCount = protocol.m_refCount)
    (hd : ∀ entry ∈ s.configured, entry.2.1 = p → (f (s.protocols p)).deleted = false) :
    Owned (s.setProtocol p f) := by
  have hc := h.counts
  refine ⟨⟨h.places.nodup, h.places.idle, h.places.live, h.places.placed⟩, hc.keys, hc.configured,
    hc.fields, ?_, hc.peerRefs, ?_⟩
  · intro x
    have hx := hc.protocolRefs x
    by_cases he : x = p
    · subst he
      simpa [State.setProtocol, hr] using hx
    · simpa [State.setProtocol, he] using hx
  · intro entry hin
    have hk := hc.kept entry hin
    by_cases he : entry.2.1 = p
    · have hf := hd entry hin he
      simpa [State.setProtocol, he] using hf
    · simpa [State.setProtocol, he] using hk

theorem step_owned {s u : State} {e : Event} (h : Owned s) (he : Effect s e u) : Owned u := by
  cases he with
  | @getOutputMessage p autoSend c front m hd hf =>
    obtain ⟨_, _, hrefill⟩ := refill_eq s
    have hheld : s.refill.held = s.held := by rw [hrefill]
    have hprotocols : s.refill.protocols = s.protocols := by rw [hrefill]
    rw [← hheld]
    rw [← hprotocols] at hd
    exact h.refill.configureOutputMessage hf hd
  | @copy m hm =>
    refine h.frame ((Frame.refl s).pointers _ _ _ _ _) ?_
    refine ptrs_again (mem_ptrs.mpr (.inl hm)) (by simp [mem_ptrs]) fun x hx => ?_
    simp [mem_ptrs, hx]
  | @drop m hm =>
    have hf : Frame s { s with held := s.held.erase m } := (Frame.refl s).pointers _ _ _ _ _
    apply h.dropped hf (mem_ptrs.mpr (Or.inl hm))
    intro x hx
    simp only [mem_ptrs, List.mem_erase_of_ne hx]
  | sendIgnored _ _ => exact h
  | @send m hm _ =>
    have hf := setMessage_frame s m (f := fun msg => { msg with submitted := true })
      fun _ => ⟨rfl, rfl⟩
    refine h.frame (hf.pointers _ _ _ _ _) ?_
    refine ptrs_again (mem_ptrs.mpr (.inl hm)) (mem_ptrs.mpr (.inl hm)) fun x hx => ?_
    simp [mem_ptrs, State.setMessage, hx]
  | @transmit m a v hm hv =>
    have hw := hv.moved
    have hf : Frame s { v with sending := s.sending.erase m } := hw.frame.pointers _ _ _ _ _
    apply h.dropped hf (mem_ptrs.mpr (Or.inr (Or.inl hm)))
    intro x hx
    simp only [mem_ptrs, List.mem_erase_of_ne hx, hw.held, hw.autoSend, hw.addQueue x hx,
      hw.writing x hx]
  | @autoSend m hm =>
    have hf := setMessage_frame s m (f := fun msg => { msg with submitted := true })
      fun _ => ⟨rfl, rfl⟩
    refine h.frame (hf.pointers _ _ _ _ _) ?_
    refine ptrs_again (mem_ptrs.mpr (.inl hm)) (mem_ptrs.mpr (.inl hm)) fun x hx => ?_
    simp [mem_ptrs, autoSend, State.setMessage, hx]
  | startExecutionFrame time =>
    exact h.frame ⟨rfl, rfl, rfl, rfl, fun _ => ⟨rfl, rfl⟩, rfl, fun _ => rfl⟩ fun _ => Iff.rfl
  | stop =>
    exact h.frame ⟨rfl, rfl, rfl, rfl, fun _ => ⟨rfl, rfl⟩, rfl, fun _ => rfl⟩ fun _ => Iff.rfl
  | sendAll _ => exact h.beginSendAll
  | @sendNext m a rest v hl hv =>
    have hw := hv.moved
    have hf : Frame s { v with m_autoSend := rest } := hw.frame.pointers _ _ _ _ _
    have hm : m ∈ s.m_autoSend := by simp [hl]
    apply h.dropped hf (by simp [mem_ptrs, hm])
    intro x hx
    simp only [mem_ptrs, hw.held, hw.sending, hl, List.mem_cons, hx, false_or, hw.addQueue x hx,
      hw.writing x hx]
  | sendAllEnd =>
    exact h.frame ⟨rfl, rfl, rfl, rfl, fun _ => ⟨rfl, rfl⟩, rfl, fun _ => rfl⟩ fun _ => Iff.rfl
  | @onWrite m c f error hm =>
    have hw := setWrite_frame s c f
    have hf : Frame s { s.setWrite c f with writing := s.writing.erase m } :=
      hw.pointers _ _ _ _ _
    apply h.dropped hf (by simp [mem_ptrs, hm])
    intro x hx
    simp only [mem_ptrs, State.setWrite, State.setPeer, List.mem_erase_of_ne hx]
  | peer c e => exact h.frame (setWrite_frame s c e.apply) fun _ => Iff.rfl
  | @setConnection p connection hd => exact h.setProtocol (fun _ => rfl) fun _ _ _ => hd
  | keepProtocol _ => exact h
  | @deleteProtocol p hp =>
    refine h.setProtocol (fun _ => rfl) ?_
    intro entry hin hx
    exact absurd (hx ▸ h.counts.protocolRefs_pos hin) (Int.not_lt.mpr hp)
  | keepConnection _ => exact h
  | @deleteConnection c _ =>
    refine h.frame ?_ fun _ => Iff.rfl
    refine ⟨rfl, rfl, rfl, rfl, fun _ => ⟨rfl, rfl⟩, rfl, ?_⟩
    intro x
    by_cases hx : x = c <;> simp [State.setPeer, hx]
  | internalReleaseMessage hm => exact h.internalReleaseMessage hm

theorem reachable_owned {s : State} (h : machine.Reachable s) : Owned s := by
  apply Machine.invariant ?_ ?_ h
  · rintro s ⟨time, forceClose, rfl⟩
    exact initial_owned time forceClose
  · intro s e u hs hstep
    exact step_owned hs (step_effect hstep)

structure Kept (s : State) : Prop where
  known : ∀ m, m ∈ s.m_outputMessages ∨ m ∈ ptrs s ∨ m ∈ s.releases → m < s.allocated
  one_place : ∀ m < s.allocated,
    (m ∈ s.m_outputMessages ∧ m ∉ ptrs s ∧ m ∉ s.releases) ∨
    (m ∉ s.m_outputMessages ∧ m ∈ ptrs s ∧ m ∉ s.releases) ∨
    (m ∉ s.m_outputMessages ∧ m ∉ ptrs s ∧ m ∈ s.releases)
  once : s.m_outputMessages.Nodup ∧ s.releases.Nodup
  handed_out : ∀ p autoSend u, step s (.getOutputMessage p autoSend) = some u →
    ∃ m, u.held = m :: s.held ∧ m ∉ ptrs s ∧ m ∉ s.releases ∧ m ∉ u.m_outputMessages
  configured : ∀ m, m ∈ s.configured.map Prod.fst ↔ m < s.allocated ∧ m ∉ s.m_outputMessages
  configured_once : (s.configured.map Prod.fst).Nodup
  configured_for : ∀ entry ∈ s.configured, (s.messages entry.1).m_protocol = some entry.2.1 ∧
    (s.messages entry.1).m_connection = some entry.2.2
  protocol_refs : ∀ p, (s.protocols p).m_refCount = s.configured.countP fun entry => entry.2.1 = p
  connection_refs : ∀ c, (s.peers c).m_refCount = s.configured.countP fun entry => entry.2.2 = c
  delete_protocol : ∀ p, ¬ (s.protocols p).m_refCount > 0 → ∀ entry ∈ s.configured, entry.2.1 ≠ p
  delete_connection : ∀ c, ¬ (s.peers c).m_refCount > 0 → ∀ entry ∈ s.configured, entry.2.2 ≠ c
  alive : ∀ entry ∈ s.configured, (s.protocols entry.2.1).deleted = false

theorem Places.one_place {s : State} (h : Places s) {m : ℕ} (hm : m < s.allocated) :
    (m ∈ s.m_outputMessages ∧ m ∉ ptrs s ∧ m ∉ s.releases) ∨
    (m ∉ s.m_outputMessages ∧ m ∈ ptrs s ∧ m ∉ s.releases) ∨
    (m ∉ s.m_outputMessages ∧ m ∉ ptrs s ∧ m ∈ s.releases) := by
  have hdisj := (List.nodup_append.mp h.nodup).2.2
  by_cases hp : m ∈ ptrs s
  · have hout : m ∉ s.m_outputMessages ++ s.releases := fun hin => (h.idle m hin).2 hp
    simp only [List.mem_append, not_or] at hout
    exact Or.inr (Or.inl ⟨hout.1, hp, hout.2⟩)
  · rcases h.placed m hm with hin | hin
    · rcases List.mem_append.mp hin with hin | hin
      · exact Or.inl ⟨hin, hp, fun hr => hdisj m hin m hr rfl⟩
      · exact Or.inr (Or.inr ⟨fun hf => hdisj m hf m hin rfl, hp, hin⟩)
    · exact absurd hin hp

theorem Owned.handed_out {s u : State} {p : ℕ} {autoSend : Bool} (h : Owned s)
    (hu : step s (.getOutputMessage p autoSend) = some u) :
    ∃ m, u.held = m :: s.held ∧ m ∉ ptrs s ∧ m ∉ s.releases ∧ m ∉ u.m_outputMessages := by
  have he := step_effect hu
  cases he with
  | @getOutputMessage _ _ c front m hd hf =>
    have hn := h.refill.places.nodup
    have hptrs : ptrs s.refill = ptrs s := by
      rw [State.refill]
      split <;> rfl
    have hreleases : s.refill.releases = s.releases := by
      rw [State.refill]
      split <;> rfl
    have hidle := (h.refill.places.idle m (by simp [hf])).2
    rw [hf, List.append_assoc, List.nodup_append] at hn
    refine ⟨m, rfl, hptrs ▸ hidle, ?_, ?_⟩
    · intro hr
      exact (List.nodup_cons.mp hn.2.1).1 (hreleases ▸ hr)
    · intro hin
      exact hn.2.2 m hin m List.mem_cons_self rfl

theorem Owned.kept {s : State} (h : Owned s) : Kept s where
  known := by
    rintro m (hm | hm | hm)
    · exact (h.places.idle m (List.mem_append_left _ hm)).1
    · exact h.places.live m hm
    · exact (h.places.idle m (List.mem_append_right _ hm)).1
  one_place _ hm := h.places.one_place hm
  once := ⟨(List.nodup_append.mp h.places.nodup).1, (List.nodup_append.mp h.places.nodup).2.1⟩
  handed_out _ _ _ hu := h.handed_out hu
  configured := h.counts.configured
  configured_once := h.counts.keys
  configured_for := h.counts.fields
  protocol_refs := h.counts.protocolRefs
  connection_refs := h.counts.peerRefs
  delete_protocol _ hp _ hin he := absurd (he ▸ h.counts.protocolRefs_pos hin) hp
  delete_connection _ hc _ hin he := absurd (he ▸ h.counts.peerRefs_pos hin) hc
  alive := h.counts.kept

theorem reachable_kept {s : State} (h : machine.Reachable s) : Kept s := (reachable_owned h).kept

def deliveredTrace : List Event :=
  [.setConnection 0 (some 0), .getOutputMessage 0 false, .getOutputMessage 0 false, .send 99,
    .drop 99, .transmit 99 .started, .onWrite 99 none, .internalReleaseMessage 99]

/-- A message is sent, written and taken back, while another one is still held. -/
theorem delivered_trace_kept : ∃ s, machine.run (initial 20000 false) deliveredTrace = some s ∧
    (99 ∈ s.m_outputMessages ∧ 98 ∈ ptrs s ∧ (s.protocols 0).m_refCount = 1) ∧ Kept s := by
  have hrun : ∃ s, machine.run (initial 20000 false) deliveredTrace = some s ∧
      (99 ∈ s.m_outputMessages ∧ 98 ∈ ptrs s ∧ (s.protocols 0).m_refCount = 1) :=
    Machine.exists_run (by decide +kernel)
  obtain ⟨s, hs, hp⟩ := hrun
  exact ⟨s, hs, hp, reachable_kept (Machine.run_reachable (.start ⟨_, _, rfl⟩) hs)⟩

end LoginServer.MessagePool
