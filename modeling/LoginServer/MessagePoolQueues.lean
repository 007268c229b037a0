import LoginServer.MessagePoolOrder

/-! # The order of the queues

When a write takes a message out of its turn, the pool has left the order of its own lists before:
the first loop of `sendAll` has moved a message to the wrong end of `m_autoSend`, or a message is
written past others of its connection in a queue. As long as neither happens, each queue keeps the
messages of a connection in the order of their submission, and no message is written too early. -/
namespace LoginServer.MessagePool

open Runs
open Connection (Arm)

/-! ## What the steps do to the lists -/

/-- A message that the first loop of `sendAll` does not drop. -/
def Keeps (s : State) (m : ℕ) : Prop := (s.messages m).m_frame ≥ s.m_frameTime - 10000

/-- A message older than 10 ms, which the first loop moves to the front of `m_autoSend`. -/
def Aged (s : State) (m : ℕ) : Prop := s.m_frameTime - 10 > (s.messages m).m_frame

instance (s : State) (m : ℕ) : Decidable (Keeps s m) := inferInstanceAs (Decidable (_ ≥ _))
instance (s : State) (m : ℕ) : Decidable (Aged s m) := inferInstanceAs (Decidable (_ > _))

def toFront (s : State) : List ℕ := s.m_addQueue.filter fun m => Keeps s m ∧ Aged s m
def toBack (s : State) : List ℕ := s.m_addQueue.filter fun m => Keeps s m ∧ ¬ Aged s m

theorem requeue_frames (dropTime frameTime : UInt64) (s : State) (m x : ℕ) :
    ((requeue dropTime frameTime s m).messages x).m_frame = (s.messages x).m_frame := by
  rw [requeue]
  split
  · split <;> by_cases hx : x = m <;> simp [State.setMessage, hx]
  · rw [onSendMessage_messages]

theorem foldl_requeue_autoSend (dropTime frameTime : UInt64) (l : List ℕ) (s : State) :
    (l.foldl (requeue dropTime frameTime) s).m_autoSend =
      (l.filter fun m => (s.messages m).m_frame ≥ dropTime ∧
        frameTime > (s.messages m).m_frame).reverse ++ s.m_autoSend ++
      l.filter fun m => (s.messages m).m_frame ≥ dropTime ∧
        ¬ frameTime > (s.messages m).m_frame := by
  induction l generalizing s with
  | nil => simp
  | cons m l ih =>
    rw [List.foldl_cons, ih]
    simp only [requeue_frames, List.filter_cons]
    rw [requeue]
    by_cases hkeep : (s.messages m).m_frame ≥ dropTime
    · by_cases hold : frameTime > (s.messages m).m_frame
      · simp [hkeep, hold, State.setMessage]
      · simp [hkeep, hold, State.setMessage]
    · have hauto : (onSendMessage s m .dropped).m_autoSend = s.m_autoSend := by
        rw [onSendMessage]
        split <;> rfl
      simp [hkeep, hauto]

theorem beginSendAll_queues (s : State) :
    (beginSendAll s).m_addQueue = [] ∧ (beginSendAll s).sending = s.sending ∧
      (beginSendAll s).m_autoSend = (toFront s).reverse ++ s.m_autoSend ++ toBack s := by
  obtain ⟨hsending, -, -⟩ := foldl_requeue_queues (s.m_frameTime - 10000) (s.m_frameTime - 10)
    s.m_addQueue s
  have hauto := foldl_requeue_autoSend (s.m_frameTime - 10000) (s.m_frameTime - 10) s.m_addQueue s
  obtain ⟨r, hr⟩ := clearAddQueue_eq (s.m_addQueue.foldl
    (requeue (s.m_frameTime - 10000) (s.m_frameTime - 10)) s).m_addQueue
    (s.m_addQueue.foldl (requeue (s.m_frameTime - 10000) (s.m_frameTime - 10)) s)
  rw [beginSendAll, hr]
  exact ⟨rfl, hsending, hauto⟩

theorem transmit_queues (s : State) (m : ℕ) (a : Arm) :
    (transmit s m a).sending = s.sending ∧ (transmit s m a).m_autoSend = s.m_autoSend ∧
      (transmit s m a).frameTime = s.frameTime ∧
      ((transmit s m a).m_addQueue = s.m_addQueue ∨
        (∃ c ∈ (s.messages m).m_connection, sendingOf s c = .queued) ∧
          (transmit s m a).m_addQueue = s.m_addQueue ++ [m]) := by
  have hframed : ∀ (v : State) (why : Framing), (onSendMessage v m why).sending = v.sending ∧
      (onSendMessage v m why).m_autoSend = v.m_autoSend ∧
      (onSendMessage v m why).frameTime = v.frameTime ∧
      (onSendMessage v m why).m_addQueue = v.m_addQueue := by
    intro v why
    rw [onSendMessage]
    split <;> exact ⟨rfl, rfl, rfl, rfl⟩
  rw [transmit]
  cases hc : (s.messages m).m_connection with
  | none => exact ⟨rfl, rfl, rfl, Or.inl rfl⟩
  | some c =>
    simp only [connectionSend]
    cases hsending : sendingOf s c with
    | refused =>
      obtain ⟨h1, h2, h3, h4⟩ := hframed s .refused
      exact ⟨h1, h2, h3, Or.inl h4⟩
    | written =>
      obtain ⟨h1, h2, h3, h4⟩ := hframed
        (s.setWrite c fun w => WriteSide.send w s.FORCE_CLOSE_SLOW_CONNECTION) .direct
      cases a <;> exact ⟨h1, h2, h3, Or.inl h4⟩
    | forced => exact ⟨rfl, rfl, rfl, Or.inl rfl⟩
    | queued => exact ⟨rfl, rfl, rfl, Or.inr ⟨⟨c, rfl, hsending⟩, rfl⟩⟩

/-- What a step does to the three lists in which messages wait. -/
inductive Lists (s : State) : Event → State → Prop where
  | less {e u} : u.m_addQueue.Sublist s.m_addQueue → u.m_autoSend.Sublist s.m_autoSend →
      u.sending.Sublist s.sending → (u.frameTime ≠ none → s.frameTime ≠ none) → Lists s e u
  | handed {p u m} : (u.messages m).serial = s.handed → u.m_addQueue = s.m_addQueue →
      u.m_autoSend = s.m_autoSend ++ [m] → u.sending = s.sending → u.frameTime = s.frameTime →
      Lists s (.getOutputMessage p true) u
  | send {m u} : m ∈ submits s (.send m) → (u.messages m).serial = (s.messages m).serial →
      u.m_addQueue = s.m_addQueue → u.m_autoSend = s.m_autoSend → u.sending = m :: s.sending →
      u.frameTime = s.frameTime → Lists s (.send m) u
  | autoSend {m u} : (u.messages m).serial = (s.messages m).serial →
      u.m_addQueue = s.m_addQueue ++ [m] → u.m_autoSend = s.m_autoSend → u.sending = s.sending →
      u.frameTime = s.frameTime → Lists s (.autoSend m) u
  | queue {m a u} : m ∈ s.sending → u.frameTime = none → u.m_addQueue = s.m_addQueue ++ [m] →
      u.m_autoSend = s.m_autoSend → u.sending = s.sending.erase m → Lists s (.transmit m a) u
  | requeue {m a u rest} : s.m_autoSend = m :: rest → s.frameTime ≠ none →
      u.m_addQueue = s.m_addQueue ++ [m] → u.m_autoSend = rest → u.sending = s.sending →
      Lists s (.sendNext m a) u
  | sendAll {u} : u.m_addQueue = [] →
      u.m_autoSend = (toFront s).reverse ++ s.m_autoSend ++ toBack s → u.sending = s.sending →
      Lists s .sendAll u

theorem Lists.still {s u : State} {e : Event} (ha : u.m_addQueue = s.m_addQueue)
    (hm : u.m_autoSend = s.m_autoSend) (hs : u.sending = s.sending)
    (hf : u.frameTime = s.frameTime) : Lists s e u :=
  .less (by rw [ha]) (by rw [hm]) (by rw [hs]) (by rw [hf]; exact id)

theorem step_lists {s u : State} {e : Event} (h : step s e = some u) : Lists s e u := by
  have heffect := step_effect h
  cases e with
  | getOutputMessage p autoSend =>
    cases heffect with
    | @getOutputMessage _ _ c front m _ _ =>
      obtain ⟨free, k, hr⟩ := refill_eq s
      rw [hr]
      cases autoSend with
      | true => exact .handed (configured_self _ m p c true).1 rfl rfl rfl rfl
      | false => exact .still rfl rfl rfl rfl
  | drop m =>
    cases heffect
    obtain ⟨r, hr⟩ := dropped_eq { s with held := s.held.erase m } m
    rw [hr]
    exact .still rfl rfl rfl rfl
  | send m =>
    cases heffect with
    | sendIgnored _ _ => exact .still rfl rfl rfl rfl
    | send _ hstate =>
      exact .send (by simp [submits, hstate]) ((submitted_same s m).serial m) rfl rfl rfl rfl
  | transmit m a =>
    obtain ⟨hsending, hauto, hframe, hadd⟩ := transmit_queues s m a
    simp only [step] at h
    split at h <;> cases h
    rename_i hm
    obtain ⟨r, hr⟩ := dropped_eq { transmit s m a with sending := s.sending.erase m } m
    rw [hr]
    rcases hadd with hadd | ⟨⟨c, hc, hqueued⟩, hadd⟩
    · exact .less (by rw [hadd]) (by rw [hauto]) List.erase_sublist (by simp [hframe])
    · have hnone : s.frameTime = none := hm.2.resolve_right fun hother => hother c hc hqueued
      exact .queue hm.1 (hframe.trans hnone) hadd hauto rfl
  | autoSend m =>
    cases heffect
    exact .autoSend ((submitted_same s m).serial m) rfl rfl rfl rfl
  | sendAll =>
    simp only [step] at h
    split at h <;> cases h
    obtain ⟨hadd, hsending, hauto⟩ := beginSendAll_queues s
    exact .sendAll hadd hauto hsending
  | sendNext m a =>
    obtain ⟨hsending, hauto, hframe, hadd⟩ := transmit_queues s m a
    simp only [step] at h
    split at h
    · rename_i frameTime x rest hsome hlist
      split at h <;> cases h
      rename_i hm
      obtain ⟨rfl, -⟩ := hm
      obtain ⟨r, hr⟩ := dropped_eq { transmit s x a with m_autoSend := rest } x
      rw [hr]
      rcases hadd with hadd | ⟨-, hadd⟩
      · exact .less (by rw [hadd]) (hlist ▸ List.sublist_cons_self x rest) (by rw [hsending])
          (by simp [hframe])
      · exact .requeue hlist (by simp [hsome]) hadd rfl hsending
    · cases h
  | sendAllEnd =>
    cases heffect
    exact .less (List.Sublist.refl _) (List.Sublist.refl _) (List.Sublist.refl _) (absurd rfl)
  | onWrite m error =>
    cases heffect with
    | @onWrite _ c f _ _ =>
      obtain ⟨r, hr⟩ := dropped_eq { s.setWrite c f with writing := s.writing.erase m } m
      rw [hr]
      exact .still rfl rfl rfl rfl
  | internalReleaseMessage m =>
    cases heffect
    obtain ⟨_, _, _, -, heq⟩ := internalReleaseMessage_frame s m
    rw [heq]
    exact .still rfl rfl rfl rfl
  | _ => cases heffect <;> exact .still rfl rfl rfl rfl

/-! ## The condition -/

def Sent.Before (s : Sent) (x y : ℕ) : Prop :=
  ∃ c, s.Earlier c (s.pool.messages x).serial (s.pool.messages y).serial

def Sent.Together (s : Sent) (x y : ℕ) : Prop :=
  ∃ c, (c, (s.pool.messages x).serial) ∈ s.submissions ∧
    (c, (s.pool.messages y).serial) ∈ s.submissions

theorem Sent.Before.together {s : Sent} {x y : ℕ} (h : s.Before x y) : s.Together x y := by
  obtain ⟨c, hc⟩ := h
  exact ⟨c, hc.left, hc.right⟩

/-- The calls of `send` on a connection go on in the order in which they began; a write is
started only while no message of the connection waits in the queues that `send` and the second
loop of `sendAll` write past; and in the first loop an older message was submitted before all
others of its connection that are kept, a younger one after those in `m_autoSend`. -/
def QueuesInTurn (s : Sent) : Event → Prop
  | .transmit m a => (∀ x ∈ s.pool.sending, ¬ s.Before x m) ∧
      (m ∈ passed s.pool (.transmit m a) →
        ∀ x ∈ s.pool.m_addQueue ++ s.pool.m_autoSend, ¬ s.Together x m)
  | .sendNext m a => m ∈ passed s.pool (.sendNext m a) →
      ∀ x ∈ s.pool.m_addQueue, ¬ s.Together x m
  | .sendAll =>
      (∀ y ∈ toFront s.pool, ∀ x ∈ toFront s.pool ++ s.pool.m_autoSend ++ toBack s.pool,
        ¬ s.Before x y) ∧
      ∀ y ∈ toBack s.pool, ∀ x ∈ s.pool.m_autoSend, ¬ s.Before y x
  | _ => True

def InTurn (s : Sent) (e : Event) : Prop := SubmittedAnew s e ∧ QueuesInTurn s e

theorem before_iff (s : Sent) (x y : ℕ) : s.Before x y ↔ ∃ p ∈ s.submissions,
    s.Earlier p.1 (s.pool.messages x).serial (s.pool.messages y).serial :=
  ⟨fun ⟨_, hc⟩ => ⟨_, hc.left, hc⟩, fun ⟨p, _, hp⟩ => ⟨p.1, hp⟩⟩

theorem together_iff (s : Sent) (x y : ℕ) : s.Together x y ↔
    ∃ p ∈ s.submissions, ∃ q ∈ s.submissions, p.1 = q.1 ∧
      p.2 = (s.pool.messages x).serial ∧ q.2 = (s.pool.messages y).serial := by
  constructor
  · rintro ⟨c, hx, hy⟩
    exact ⟨_, hx, _, hy, rfl, rfl, rfl⟩
  · rintro ⟨⟨c, _⟩, hx, ⟨_, _⟩, hy, rfl, rfl, rfl⟩
    exact ⟨c, hx, hy⟩

instance (s : Sent) (x y : ℕ) : Decidable (s.Before x y) :=
  decidable_of_iff _ (before_iff s x y).symm

instance (s : Sent) (x y : ℕ) : Decidable (s.Together x y) :=
  decidable_of_iff _ (together_iff s x y).symm

instance (s : Sent) (e : Event) : Decidable (QueuesInTurn s e) := by
  unfold QueuesInTurn
  split <;> infer_instance

instance (s : Sent) (e : Event) : Decidable (InTurn s e) := inferInstanceAs (Decidable (_ ∧ _))

/-! ## The order of the lists -/

/-- No message stands behind one of its connection that was submitted after it. The calls of
`send` come after both queues, and what is queued again in the second loop after the rest. -/
structure Lined (s : Sent) : Prop where
  once : ∀ c n, ¬ s.Earlier c n n
  addQueue : s.pool.m_addQueue.Pairwise fun x y => ¬ s.Before y x
  autoSend : s.pool.m_autoSend.Pairwise fun x y => ¬ s.Before y x
  sending : ∀ x ∈ s.pool.m_addQueue ++ s.pool.m_autoSend, ∀ y ∈ s.pool.sending, ¬ s.Before y x
  requeued : s.pool.frameTime ≠ none → ∀ x ∈ s.pool.m_addQueue, ∀ y ∈ s.pool.m_autoSend,
    ¬ s.Before y x

theorem mem_waiting {s : State} {x : ℕ} :
    x ∈ waiting s ↔ x ∈ s.sending ∨ x ∈ s.m_addQueue ∨ x ∈ s.m_autoSend := by
  simp [waiting, places]

theorem waiting_of_sending {s : State} {x : ℕ} (hx : x ∈ s.sending) : x ∈ waiting s :=
  mem_waiting.mpr (Or.inl hx)

theorem waiting_of_queued {s : State} {x : ℕ} (hx : x ∈ s.m_addQueue ++ s.m_autoSend) :
    x ∈ waiting s :=
  mem_waiting.mpr (Or.inr (List.mem_append.mp hx))

theorem waiting_of_addQueue {s : State} {x : ℕ} (hx : x ∈ s.m_addQueue) : x ∈ waiting s :=
  waiting_of_queued (List.mem_append_left _ hx)

theorem waiting_of_autoSend {s : State} {x : ℕ} (hx : x ∈ s.m_autoSend) : x ∈ waiting s :=
  waiting_of_queued (List.mem_append_right _ hx)

/-- In lists so ordered, no step whose turn it is passes a message over an earlier one. -/
theorem Lined.turn {s : Sent} {e : Event} {u : State} (h : Lined s) (hok : QueuesInTurn s e)
    (hs : step s.pool e = some u) : ¬ Overtakes s e := by
  rintro ⟨m, hm, x, hx, c, hc⟩
  have hbefore : s.Before x m := ⟨c, hc⟩
  rcases passed_eq hm with rfl | rfl
  · obtain ⟨hsending, hidle⟩ := hok
    rcases mem_waiting.mp hx with hx | hx | hx
    · exact hsending x hx hbefore
    · exact hidle hm x (List.mem_append_left _ hx) hbefore.together
    · exact hidle hm x (List.mem_append_right _ hx) hbefore.together
  · obtain ⟨rest, hlist⟩ : ∃ rest, s.pool.m_autoSend = m :: rest := by
      cases step_effect hs with
      | sendNext hlist _ => exact ⟨_, hlist⟩
    have hfirst := h.autoSend
    rw [hlist] at hfirst
    rcases mem_waiting.mp hx with hx | hx | hx
    · refine h.sending m (List.mem_append_right _ ?_) x hx hbefore
      rw [hlist]
      exact List.mem_cons_self
    · exact hok hm x hx hbefore.together
    · rw [hlist] at hx
      rcases List.mem_cons.mp hx with rfl | hx
      · exact h.once c _ hc
      · exact (List.pairwise_cons.mp hfirst).1 x hx hbefore

section Unsubmitted

variable {t : Sent} {m x : ℕ} (hm : ∀ c, (c, (t.pool.messages m).serial) ∉ t.submissions)
include hm

theorem not_before_left : ¬ t.Before m x := fun ⟨c, hc⟩ => hm c hc.left

theorem not_before_right : ¬ t.Before x m := fun ⟨c, hc⟩ => hm c hc.right

end Unsubmitted

namespace QueuedStep

variable {s t : Sent} {e : Event} (h : QueuedStep s t e)
include h

theorem earlier_before {c n k : ℕ} (he : t.Earlier c n k) : s.Earlier c n k ∨
    (c, n) ∈ s.submissions ∧ ∃ m ∈ submits s.pool e, (s.pool.messages m).serial = k := by
  rw [Sent.Earlier, h.submissions] at he
  cases hsub : submission s.pool e with
  | none =>
    rw [hsub] at he
    rw [Option.toList_none, List.append_nil] at he
    exact Or.inl he
  | some p =>
    obtain ⟨c', n'⟩ := p
    obtain ⟨m, -, hm, -, hserial⟩ := submission_eq hsub
    rw [hsub, Option.toList_some] at he
    obtain ⟨front, back, heq, hfront, hback⟩ := List.sublist_append_iff.mp he
    rcases List.sublist_singleton.mp hback with rfl | rfl
    · rw [List.append_nil] at heq
      rw [← heq] at hfront
      exact Or.inl hfront
    · have heq : [(c, n)] ++ [(c, k)] = front ++ [(c', n')] := heq
      obtain ⟨rfl, hlast⟩ := List.append_inj' heq rfl
      obtain ⟨-, rfl⟩ := Prod.mk.inj (List.singleton_inj.mp hlast)
      exact Or.inr ⟨List.singleton_sublist.mp hfront, m, hm, hserial⟩

theorem not_submitted {x m : ℕ} (hx : x ∈ MessagePool.waiting s.pool) (hm : m ∈ submits s.pool e) :
    (s.pool.messages m).serial ≠ (s.pool.messages x).serial := by
  intro hserial
  have htracked := h.before.tracked (s.pool.messages x).serial
  have hkey := places_keys htracked.owned (fun y (hy : y ∈ s.pool.m_addQueue) => hy) x hx
  obtain rfl := htracked.numbered.distinct m (h.held hm) x hkey hserial
  have htrue := (htracked.once.queued m hx rfl).1
  rw [h.anew m hm] at htrue
  cases htrue

theorem unsubmitted {c m : ℕ} (hm : m ∈ submits s.pool e) :
    (c, (s.pool.messages m).serial) ∉ s.submissions := by
  intro hmem
  have htrue := h.before.submitted c _ hmem m (h.held hm) rfl
  rw [h.anew m hm] at htrue
  cases htrue

theorem once (hl : Lined s) (c n : ℕ) : ¬ t.Earlier c n n := by
  intro he
  rcases h.earlier_before he with he | ⟨hmem, m, hm, rfl⟩
  · exact hl.once c n he
  · exact h.unsubmitted hm hmem

theorem before_waiting {x y : ℕ} (hx : x ∈ MessagePool.waiting s.pool)
    (hy : (t.pool.messages y).serial = (s.pool.messages y).serial) (hb : t.Before y x) :
    s.Before y x := by
  obtain ⟨c, hc⟩ := hb
  rw [h.carried.kept x hx, hy] at hc
  rcases h.earlier_before hc with hc | ⟨-, m, hm, hserial⟩
  · exact ⟨c, hc⟩
  · exact absurd hserial (h.not_submitted hx hm)

theorem before_both {x y : ℕ} (hx : x ∈ MessagePool.waiting s.pool)
    (hy : y ∈ MessagePool.waiting s.pool) (hb : t.Before y x) : s.Before y x :=
  h.before_waiting hx (h.carried.kept y hy) hb

theorem pairwise {l : List ℕ} (hw : ∀ x ∈ l, x ∈ MessagePool.waiting s.pool)
    (hl : l.Pairwise fun x y => ¬ s.Before y x) : l.Pairwise fun x y => ¬ t.Before y x :=
  hl.imp_of_mem fun hx hy hne hb => hne (h.before_both (hw _ hx) (hw _ hy) hb)

theorem pairwise_append {l : List ℕ} {m : ℕ} (hw : ∀ x ∈ l, x ∈ MessagePool.waiting s.pool)
    (hl : l.Pairwise fun x y => ¬ s.Before y x) (hm : ∀ x ∈ l, ¬ t.Before m x) :
    (l ++ [m]).Pairwise fun x y => ¬ t.Before y x := by
  refine List.pairwise_append.mpr ⟨h.pairwise hw hl, List.pairwise_singleton .., ?_⟩
  intro x hx y hy
  obtain rfl := List.mem_singleton.mp hy
  exact hm x hx

theorem lined_less (hl : Lined s) (hadd : t.pool.m_addQueue.Sublist s.pool.m_addQueue)
    (hauto : t.pool.m_autoSend.Sublist s.pool.m_autoSend)
    (hsending : t.pool.sending.Sublist s.pool.sending)
    (hframe : t.pool.frameTime ≠ none → s.pool.frameTime ≠ none) : Lined t := by
  refine ⟨h.once hl,
    h.pairwise (fun x hx => waiting_of_addQueue (hadd.subset hx)) (hl.addQueue.sublist hadd),
    h.pairwise (fun x hx => waiting_of_autoSend (hauto.subset hx)) (hl.autoSend.sublist hauto),
    fun x hx y hy hb => ?_, fun hf x hx y hy hb => ?_⟩
  · have hx := (hadd.append hauto).subset hx
    have hy := hsending.subset hy
    exact hl.sending x hx y hy (h.before_both (waiting_of_queued hx) (waiting_of_sending hy) hb)
  · have hx := hadd.subset hx
    have hy := hauto.subset hy
    exact hl.requeued (hframe hf) x hx y hy
      (h.before_both (waiting_of_addQueue hx) (waiting_of_autoSend hy) hb)

theorem lined_handed (hl : Lined s) {m : ℕ} (hserial : (t.pool.messages m).serial = s.pool.handed)
    (hadd : t.pool.m_addQueue = s.pool.m_addQueue)
    (hauto : t.pool.m_autoSend = s.pool.m_autoSend ++ [m])
    (hsending : t.pool.sending = s.pool.sending) (hframe : t.pool.frameTime = s.pool.frameTime) :
    Lined t := by
  have hnew : ∀ c, (c, (t.pool.messages m).serial) ∉ t.submissions := by
    intro c hmem
    rw [hserial] at hmem
    exact absurd (h.below hmem) (Nat.lt_irrefl _)
  refine ⟨h.once hl, ?_, ?_, ?_, ?_⟩
  · rw [hadd]
    exact h.pairwise (fun x hx => waiting_of_addQueue hx) hl.addQueue
  · rw [hauto]
    exact h.pairwise_append (fun x hx => waiting_of_autoSend hx) hl.autoSend
      fun x _ hb => not_before_left hnew hb
  · intro x hx y hy hb
    rw [hsending] at hy
    rw [hadd, hauto, ← List.append_assoc] at hx
    rcases List.mem_append.mp hx with hx | hx
    · exact hl.sending x hx y hy (h.before_both (waiting_of_queued hx) (waiting_of_sending hy) hb)
    · obtain rfl := List.mem_singleton.mp hx
      exact not_before_right hnew hb
  · intro hf x hx y hy hb
    rw [hframe] at hf
    rw [hadd] at hx
    rw [hauto] at hy
    rcases List.mem_append.mp hy with hy | hy
    · exact hl.requeued hf x hx y hy
        (h.before_both (waiting_of_addQueue hx) (waiting_of_autoSend hy) hb)
    · obtain rfl := List.mem_singleton.mp hy
      exact not_before_left hnew hb

theorem lined_send (hl : Lined s) {m : ℕ} (hm : m ∈ submits s.pool e)
    (hserial : (t.pool.messages m).serial = (s.pool.messages m).serial)
    (hadd : t.pool.m_addQueue = s.pool.m_addQueue)
    (hauto : t.pool.m_autoSend = s.pool.m_autoSend)
    (hsending : t.pool.sending = m :: s.pool.sending)
    (hframe : t.pool.frameTime = s.pool.frameTime) : Lined t := by
  refine ⟨h.once hl, ?_, ?_, ?_, ?_⟩
  · rw [hadd]
    exact h.pairwise (fun x hx => waiting_of_addQueue hx) hl.addQueue
  · rw [hauto]
    exact h.pairwise (fun x hx => waiting_of_autoSend hx) hl.autoSend
  · intro x hx y hy hb
    rw [hadd, hauto] at hx
    rw [hsending] at hy
    have hwaiting := waiting_of_queued hx
    rcases List.mem_cons.mp hy with rfl | hy
    · obtain ⟨c, hc⟩ := h.before_waiting hwaiting hserial hb
      exact h.unsubmitted hm hc.left
    · exact hl.sending x hx y hy (h.before_both hwaiting (waiting_of_sending hy) hb)
  · intro hf x hx y hy hb
    rw [hframe] at hf
    rw [hadd] at hx
    rw [hauto] at hy
    exact hl.requeued hf x hx y hy
      (h.before_both (waiting_of_addQueue hx) (waiting_of_autoSend hy) hb)

theorem lined_autoSend (hl : Lined s) {m : ℕ}
    (hnew : ∀ c, (c, (t.pool.messages m).serial) ∉ t.submissions)
    (hadd : t.pool.m_addQueue = s.pool.m_addQueue ++ [m])
    (hauto : t.pool.m_autoSend = s.pool.m_autoSend) (hsending : t.pool.sending = s.pool.sending)
    (hframe : t.pool.frameTime = s.pool.frameTime) : Lined t := by
  refine ⟨h.once hl, ?_, ?_, ?_, ?_⟩
  · rw [hadd]
    exact h.pairwise_append (fun x hx => waiting_of_addQueue hx) hl.addQueue
      fun x _ hb => not_before_left hnew hb
  · rw [hauto]
    exact h.pairwise (fun x hx => waiting_of_autoSend hx) hl.autoSend
  · intro x hx y hy hb
    rw [hsending] at hy
    rw [hadd, hauto] at hx
    simp only [List.mem_append, List.mem_singleton] at hx
    rcases hx with (hx | rfl) | hx
    · exact hl.sending x (List.mem_append_left _ hx) y hy
        (h.before_both (waiting_of_addQueue hx) (waiting_of_sending hy) hb)
    · exact not_before_right hnew hb
    · exact hl.sending x (List.mem_append_right _ hx) y hy
        (h.before_both (waiting_of_autoSend hx) (waiting_of_sending hy) hb)
  · intro hf x hx y hy hb
    rw [hframe] at hf
    rw [hauto] at hy
    rw [hadd] at hx
    rcases List.mem_append.mp hx with hx | hx
    · exact hl.requeued hf x hx y hy
        (h.before_both (waiting_of_addQueue hx) (waiting_of_autoSend hy) hb)
    · obtain rfl := List.mem_singleton.mp hx
      exact not_before_right hnew hb

/-- A call of `send` puts its message to the end of `m_addQueue`, in its turn. -/
theorem lined_queue (hl : Lined s) {m : ℕ} (hm : m ∈ s.pool.sending)
    (hturn : ∀ x ∈ s.pool.sending, ¬ s.Before x m) (hframe : t.pool.frameTime = none)
    (hadd : t.pool.m_addQueue = s.pool.m_addQueue ++ [m])
    (hauto : t.pool.m_autoSend = s.pool.m_autoSend)
    (hsending : t.pool.sending = s.pool.sending.erase m) : Lined t := by
  refine ⟨h.once hl, ?_, ?_, ?_, fun hf => absurd hframe hf⟩
  · rw [hadd]
    refine h.pairwise_append (fun x hx => waiting_of_addQueue hx) hl.addQueue fun x hx hb => ?_
    exact hl.sending x (List.mem_append_left _ hx) m hm
      (h.before_both (waiting_of_addQueue hx) (waiting_of_sending hm) hb)
  · rw [hauto]
    exact h.pairwise (fun x hx => waiting_of_autoSend hx) hl.autoSend
  · intro x hx y hy hb
    rw [hsending] at hy
    have hcall := List.mem_of_mem_erase hy
    rw [hadd, hauto] at hx
    simp only [List.mem_append, List.mem_singleton] at hx
    rcases hx with (hx | rfl) | hx
    · exact hl.sending x (List.mem_append_left _ hx) y hcall
        (h.before_both (waiting_of_addQueue hx) (waiting_of_sending hcall) hb)
    · exact hturn y hcall (h.before_both (waiting_of_sending hm) (waiting_of_sending hcall) hb)
    · exact hl.sending x (List.mem_append_right _ hx) y hcall
        (h.before_both (waiting_of_autoSend hx) (waiting_of_sending hcall) hb)

/-- The second loop takes the head of `m_autoSend` and puts it to the end of `m_addQueue`. -/
theorem lined_requeue (hl : Lined s) {m : ℕ} {rest : List ℕ}
    (hlist : s.pool.m_autoSend = m :: rest) (hframe : s.pool.frameTime ≠ none)
    (hadd : t.pool.m_addQueue = s.pool.m_addQueue ++ [m]) (hauto : t.pool.m_autoSend = rest)
    (hsending : t.pool.sending = s.pool.sending) : Lined t := by
  have hfirst := hl.autoSend
  rw [hlist] at hfirst
  have hm : m ∈ s.pool.m_autoSend := hlist ▸ List.mem_cons_self
  have hrest : ∀ {x}, x ∈ rest → x ∈ s.pool.m_autoSend := fun hx =>
    hlist ▸ List.mem_cons_of_mem m hx
  refine ⟨h.once hl, ?_, ?_, ?_, ?_⟩
  · rw [hadd]
    refine h.pairwise_append (fun x hx => waiting_of_addQueue hx) hl.addQueue fun x hx hb => ?_
    exact hl.requeued hframe x hx m hm
      (h.before_both (waiting_of_addQueue hx) (waiting_of_autoSend hm) hb)
  · rw [hauto]
    exact h.pairwise (fun x hx => waiting_of_autoSend (hrest hx)) (List.pairwise_cons.mp hfirst).2
  · intro x hx y hy hb
    rw [hsending] at hy
    have hx : x ∈ s.pool.m_addQueue ++ s.pool.m_autoSend := by
      rw [hadd, hauto] at hx
      rw [hlist]
      simpa using hx
    exact hl.sending x hx y hy (h.before_both (waiting_of_queued hx) (waiting_of_sending hy) hb)
  · intro _ x hx y hy hb
    rw [hauto] at hy
    rw [hadd] at hx
    have hwaiting := waiting_of_autoSend (hrest hy)
    rcases List.mem_append.mp hx with hx | hx
    · exact hl.requeued hframe x hx y (hrest hy)
        (h.before_both (waiting_of_addQueue hx) hwaiting hb)
    · obtain rfl := List.mem_singleton.mp hx
      exact (List.pairwise_cons.mp hfirst).1 y hy (h.before_both (waiting_of_autoSend hm) hwaiting hb)

/-- The first loop of `sendAll` puts each message to the right end of `m_autoSend`. -/
theorem lined_sendAll (hl : Lined s)
    (hfront : ∀ y ∈ toFront s.pool, ∀ x ∈ toFront s.pool ++ s.pool.m_autoSend ++ toBack s.pool,
      ¬ s.Before x y)
    (hback : ∀ y ∈ toBack s.pool, ∀ x ∈ s.pool.m_autoSend, ¬ s.Before y x)
    (hadd : t.pool.m_addQueue = [])
    (hauto : t.pool.m_autoSend =
      (toFront s.pool).reverse ++ s.pool.m_autoSend ++ toBack s.pool)
    (hsending : t.pool.sending = s.pool.sending) : Lined t := by
  have hold : ∀ x ∈ t.pool.m_autoSend, x ∈ s.pool.m_addQueue ++ s.pool.m_autoSend := by
    intro x hx
    simp only [hauto, toFront, toBack, List.mem_append, List.mem_reverse, List.mem_filter] at hx
    rw [List.mem_append]
    tauto
  refine ⟨h.once hl, by rw [hadd]; exact .nil, ?_, ?_, fun _ x hx => ?_⟩
  · refine h.pairwise (fun x hx => waiting_of_queued (hold x hx)) ?_
    rw [hauto, List.pairwise_append, List.pairwise_append, List.pairwise_reverse]
    refine ⟨⟨?_, hl.autoSend, fun x hx y hy => ?_⟩, hl.addQueue.sublist List.filter_sublist,
      fun x hx y hy => ?_⟩
    · refine List.pairwise_of_forall_mem_list fun y hy x hx => ?_
      exact hfront x hx y (List.mem_append_left _ (List.mem_append_left _ hy))
    · exact hfront x (List.mem_reverse.mp hx) y
        (List.mem_append_left _ (List.mem_append_right _ hy))
    · rcases List.mem_append.mp hx with hx | hx
      · exact hfront x (List.mem_reverse.mp hx) y (List.mem_append_right _ hy)
      · exact hback y hy x hx
  · intro x hx y hy hb
    rw [hadd, List.nil_append] at hx
    rw [hsending] at hy
    exact hl.sending x (hold x hx) y hy
      (h.before_both (waiting_of_queued (hold x hx)) (waiting_of_sending hy) hb)
  · rw [hadd] at hx
    cases hx

theorem lined (hl : Lined s) (hok : QueuesInTurn s e) : Lined t := by
  cases step_lists h.pool with
  | less hadd hauto hsending hframe => exact h.lined_less hl hadd hauto hsending hframe
  | handed hserial hadd hauto hsending hframe =>
    exact h.lined_handed hl hserial hadd hauto hsending hframe
  | send hm hserial hadd hauto hsending hframe =>
    exact h.lined_send hl hm hserial hadd hauto hsending hframe
  | @autoSend m _ hserial hadd hauto hsending hframe =>
    refine h.lined_autoSend hl (fun c hmem => ?_) hadd hauto hsending hframe
    rw [hserial, h.submissions] at hmem
    exact h.unsubmitted (m := m) rfl (by simpa [submission] using hmem)
  | queue hm hframe hadd hauto hsending =>
    exact h.lined_queue hl hm hok.1 hframe hadd hauto hsending
  | requeue hlist hframe hadd hauto hsending =>
    exact h.lined_requeue hl hlist hframe hadd hauto hsending
  | sendAll hadd hauto hsending => exact h.lined_sendAll hl hok.1 hok.2 hadd hauto hsending

end QueuedStep

theorem lined_start {s : Sent} (h : sentMachine.start s) : Lined s := by
  obtain ⟨⟨time, forceClose, hpool⟩, hsubs⟩ := h
  obtain ⟨pool, submissions⟩ := s
  cases hpool
  cases hsubs
  refine ⟨?_, .nil, .nil, nofun, nofun⟩
  intro c n he
  cases he

/-- As long as each message goes to the right end of the queues, and no write is started past
them, the messages of a connection leave in the order in which they were submitted. -/
theorem in_turn_in_order {s : Sent} (h : sentMachine.ReachableBy InTurn s) : InOrder s := by
  have hboth : Queued s ∧ Lined s := by
    refine Machine.invariant_by (I := fun s => Queued s ∧ Lined s)
      (fun s hs => ⟨queued_start hs, lined_start hs⟩) (fun s e t hs hok hstep => ?_) h
    obtain ⟨hpool, hsubs⟩ := sent_step hstep
    have hnext : QueuedStep s t e :=
      ⟨hs.1, hok.1, hs.2.turn hok.2 hpool, hpool, hsubs⟩
    exact ⟨hnext.queued, hnext.lined hs.2 hok.2⟩
  exact hboth.1.order

def slowTrace : List Event :=
  [.setConnection 0 (some 0), .getOutputMessage 0 false, .getOutputMessage 0 false,
    .getOutputMessage 0 false, .send 99, .transmit 99 .started, .send 98, .transmit 98 .started,
    .send 97, .transmit 97 .started]

/-- `sendAll` puts the older of the two messages that wait in front, one after the other, and so
turns them around. -/
def turnedTrace : List Event :=
  slowTrace ++ [.onWrite 99 none, .startExecutionFrame 20020, .sendAll, .sendNext 97 .started,
    .sendNext 98 .started, .sendAllEnd, .onWrite 97 none, .sendAll, .sendNext 98 .started]

/-- The last message submitted is written before the one before it. -/
theorem turned_around : ¬ ∀ s, sentMachine.ReachableBy SubmittedAnew s → InOrder s := by
  intro h
  have hrun : ∃ s, sentMachine.run ⟨initial 20000 false, []⟩ turnedTrace = some s ∧
      (writes s.pool = [0, 2, 1] ∧ s.submissions = [(0, 0), (0, 1), (0, 2)]) :=
    Machine.exists_run (by decide +kernel)
  obtain ⟨s, hs, hw, hsub⟩ := hrun
  have hall : sentMachine.AllSteps SubmittedAnew ⟨initial 20000 false, []⟩ turnedTrace := by
    decide +kernel
  have horder := h s (Machine.run_reachable_by (.start ⟨⟨_, _, rfl⟩, rfl⟩) hall hs)
  rw [InOrder, hw] at horder
  have hlast := (List.pairwise_cons.mp (List.pairwise_cons.mp horder).2).1 1 (by decide) 0
    (by simp [hsub]) (by simp [hsub])
  rw [Sent.Earlier, hsub] at hlast
  exact absurd hlast (by decide)

/-- A single message that waits is written in its turn. -/
theorem queued_trace_in_order : ∃ s,
    sentMachine.run ⟨initial 20000 false, []⟩ queuedTrace = some s ∧
      writes s.pool = [0, 1] ∧ InOrder s := by
  have hrun : ∃ s, sentMachine.run ⟨initial 20000 false, []⟩ queuedTrace = some s ∧
      writes s.pool = [0, 1] := Machine.exists_run (by decide +kernel)
  have hall : sentMachine.AllSteps InTurn ⟨initial 20000 false, []⟩ queuedTrace := by
    decide +kernel
  obtain ⟨s, hs, hw⟩ := hrun
  exact ⟨s, hs, hw,
    in_turn_in_order (Machine.run_reachable_by (.start ⟨⟨_, _, rfl⟩, rfl⟩) hall hs)⟩

end LoginServer.MessagePool
