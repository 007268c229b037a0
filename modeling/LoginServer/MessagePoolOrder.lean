import LoginServer.MessagePoolFraming

/-! # The order in which messages leave

The submissions are kept beside the pool, in the order of the calls of `send`. A message can wait
in a call of `send`, in `m_addQueue` and in `m_autoSend`, and nothing in the pool remembers its
turn: the first loop of `sendAll` turns the older ones around, its second loop puts a message
behind others, and `send` writes past the queues whenever no write is pending. A step that passes
no message over another one submitted before it keeps the order. -/
namespace LoginServer.MessagePool

open Runs
open Connection (Arm)

def Record.writtenSerial : Record → Option ℕ
  | .written n => some n
  | .framed _ _ => none

def writes (s : State) : List ℕ := s.history.filterMap Record.writtenSerial

def submission (s : State) : Event → Option (ℕ × ℕ)
  | .send m =>
    if (s.messages m).m_state = .STATE_ALLOCATED_NO_AUTOSEND then
      (s.messages m).m_connection.map fun c => (c, (s.messages m).serial)
    else none
  | _ => none

/-- The pool, and what was submitted through `send`, the first one first. -/
structure Sent where
  pool : State
  submissions : List (ℕ × ℕ)

def sentMachine : Machine Sent Event where
  start s := machine.start s.pool ∧ s.submissions = []
  step s e := (step s.pool e).map fun u => ⟨u, s.submissions ++ (submission s.pool e).toList⟩

/-- Of two messages of the connection the first was submitted before the second. -/
def Sent.Earlier (s : Sent) (c m n : ℕ) : Prop := [(c, m), (c, n)].Sublist s.submissions

instance (s : Sent) (c m n : ℕ) : Decidable (s.Earlier c m n) :=
  inferInstanceAs (Decidable (List.Sublist _ _))

/-- Messages submitted on one connection are passed to `async_write` in that order. -/
def InOrder (s : Sent) : Prop :=
  (writes s.pool).Pairwise fun m n =>
    ∀ c, (c, m) ∈ s.submissions → (c, n) ∈ s.submissions → s.Earlier c m n

def passed (s : State) : Event → Option ℕ
  | .transmit m .started | .sendNext m .started =>
    match (s.messages m).m_connection with
    | some c => if sendingOf s c = .written then some m else none
    | none => none
  | _ => none

def waiting (s : State) : List ℕ := places s.m_addQueue s

def SubmittedAnew (s : Sent) (e : Event) : Prop :=
  ∀ m ∈ submits s.pool e, (s.pool.messages m).submitted = false

/-- The step passes a message to `async_write` while an earlier one of its connection waits. -/
def Overtakes (s : Sent) (e : Event) : Prop :=
  ∃ m ∈ passed s.pool e, ∃ x ∈ waiting s.pool, ∃ c,
    s.Earlier c (s.pool.messages x).serial (s.pool.messages m).serial

theorem Sent.Earlier.left {s : Sent} {c m n : ℕ} (h : s.Earlier c m n) :
    (c, m) ∈ s.submissions := h.subset List.mem_cons_self

theorem Sent.Earlier.right {s : Sent} {c m n : ℕ} (h : s.Earlier c m n) :
    (c, n) ∈ s.submissions := h.subset (List.mem_cons_of_mem _ List.mem_cons_self)

instance (s : Sent) (e : Event) : Decidable (SubmittedAnew s e) :=
  inferInstanceAs (Decidable (∀ m ∈ submits s.pool e, _))

theorem writes_append {s u : State} {l : List Record} (h : u.history = s.history ++ l) :
    writes u = writes s ++ l.filterMap Record.writtenSerial := by
  rw [writes, h, List.filterMap_append]
  rfl

theorem writes_onSendMessage (s : State) (m : ℕ) (why : Framing) :
    writes (onSendMessage s m why) = writes s := by
  rw [onSendMessage]
  split
  · rfl
  · rw [writes_append rfl]
    simp [Record.writtenSerial]

theorem writes_requeue (dropTime frameTime : UInt64) (s : State) (m : ℕ) :
    writes (requeue dropTime frameTime s m) = writes s := by
  rw [requeue]
  split
  · split <;> rfl
  · exact writes_onSendMessage ..

theorem writes_beginSendAll (s : State) : writes (beginSendAll s) = writes s := by
  have hfold : ∀ (l : List ℕ) (dropTime frameTime : UInt64) (v : State),
      writes (l.foldl (requeue dropTime frameTime) v) = writes v := by
    intro l dropTime frameTime v
    induction l generalizing v with
    | nil => rfl
    | cons m l ih => rw [List.foldl_cons, ih, writes_requeue]
  rw [beginSendAll]
  obtain ⟨r, hr⟩ := clearAddQueue_eq (s.m_addQueue.foldl
    (requeue (s.m_frameTime - 10000) (s.m_frameTime - 10)) s).m_addQueue
    (s.m_addQueue.foldl (requeue (s.m_frameTime - 10000) (s.m_frameTime - 10)) s)
  rw [hr]
  exact hfold ..

theorem writes_dropped (s : State) (m : ℕ) : writes (s.dropped m) = writes s := by
  obtain ⟨r, hr⟩ := dropped_eq s m
  rw [hr]
  rfl

theorem writes_transmit (s : State) (m : ℕ) (a : Arm) :
    writes (transmit s m a) = writes s ++
      ((passed s (.transmit m a)).map fun m => (s.messages m).serial).toList := by
  rw [transmit]
  cases hc : (s.messages m).m_connection with
  | none => cases a <;> simp [passed, hc]
  | some c =>
    simp only [connectionSend]
    cases hsending : sendingOf s c with
    | refused => cases a <;> simp [passed, hc, hsending, writes_onSendMessage]
    | forced => cases a <;> simp [passed, hc, hsending] <;> rfl
    | queued => cases a <;> simp [passed, hc, hsending] <;> rfl
    | written =>
      have hframed := writes_onSendMessage
        (s.setWrite c fun w => WriteSide.send w s.FORCE_CLOSE_SLOW_CONNECTION) m .direct
      cases a with
      | started =>
        have hserial : ((onSendMessage (s.setWrite c fun w =>
            WriteSide.send w s.FORCE_CLOSE_SLOW_CONNECTION) m .direct).messages m).serial =
            (s.messages m).serial := by rw [onSendMessage_messages]; rfl
        simp only [passed, hc, hsending, if_true, Option.map_some, Option.toList_some, internalSend,
          hserial]
        rw [writes, State.record, List.filterMap_append, ← writes, hframed]
        rfl
      | waitThrows | operationThrows =>
        simp only [passed, internalSend, Option.map_none, Option.toList_none, List.append_nil]
        rw [hframed]
        rfl

theorem passed_sendNext (s : State) (m : ℕ) (a : Arm) :
    passed s (.transmit m a) = passed s (.sendNext m a) := by
  cases a <;> rfl

theorem writes_internalReleaseMessage (s : State) (m : ℕ) :
    writes (internalReleaseMessage s m) = writes s := by
  obtain ⟨_, _, _, _, heq⟩ := internalReleaseMessage_frame s m
  rw [heq]
  rfl

structure Carried (s u : State) (e : Event) : Prop where
  handed : s.handed ≤ u.handed
  numbers : ∀ m ∈ keys u, (u.messages m).serial = s.handed ∨
    m ∈ keys s ∧ (u.messages m).serial = (s.messages m).serial ∧
      ((s.messages m).submitted = true → (u.messages m).submitted = true)
  queued : ∀ x ∈ waiting u, (u.messages x).serial = s.handed ∨
    (u.messages x).serial = (s.messages x).serial ∧ (x ∈ waiting s ∨ x ∈ submits s e)
  kept : ∀ x ∈ waiting s, (u.messages x).serial = (s.messages x).serial
  taken : ∀ m ∈ passed s e, m ∈ waiting s

theorem step_writes {s u : State} {e : Event} (h : step s e = some u) :
    writes u = writes s ++ ((passed s e).map fun m => (s.messages m).serial).toList := by
  have heffect := step_effect h
  cases e with
  | transmit m a =>
    simp only [step] at h
    split at h <;> cases h
    rw [writes_dropped]
    exact writes_transmit s m a
  | sendNext m a =>
    simp only [step] at h
    split at h
    · split at h <;> cases h
      rw [writes_dropped, ← passed_sendNext]
      exact writes_transmit s m a
    · cases h
  | sendAll =>
    simp only [step] at h
    split at h <;> cases h
    rw [writes_beginSendAll]
    simp [passed]
  | getOutputMessage p autoSend =>
    cases heffect with
    | getOutputMessage =>
      obtain ⟨free, n, hr⟩ := refill_eq s
      rw [hr]
      simp [passed, writes, configureOutputMessage, State.setPeer, State.setProtocol,
        State.setMessage]
  | drop m =>
    cases heffect
    rw [writes_dropped]
    simp [passed, writes]
  | onWrite m error =>
    cases heffect
    rw [writes_dropped]
    simp [passed, writes, State.setWrite, State.setPeer]
  | internalReleaseMessage m =>
    cases heffect
    rw [writes_internalReleaseMessage]
    simp [passed]
  | _ => cases heffect <;> simp [passed, writes] <;> rfl

theorem Carried.of_same {s u : State} {e : Event} (hs : Same s u)
    (hsub : ∀ m, (s.messages m).submitted = true → (u.messages m).submitted = true)
    (hw : ∀ x ∈ waiting u, x ∈ waiting s ∨ x ∈ submits s e)
    (hp : ∀ m ∈ passed s e, m ∈ waiting s) : Carried s u e where
  handed := Nat.le_of_eq hs.handed.symm
  numbers m hm := .inr ⟨hs.keys m hm, hs.serial m, hsub m⟩
  queued x hx := .inr ⟨hs.serial x, hw x hx⟩
  kept x _ := hs.serial x
  taken := hp

theorem Carried.still {s u : State} {e : Event} (hm : u.messages = s.messages)
    (hn : u.handed = s.handed) (hc : u.configured = s.configured) (hw : waiting u = waiting s)
    (hp : passed s e = none) : Carried s u e := by
  refine .of_same (.of_eq hm hn hc) (fun _ h => by rwa [hm]) (fun x hx => .inl ?_) (by simp [hp])
  rwa [← hw]

theorem Carried.dropped {s u : State} {e : Event} (h : Carried s u e) (m : ℕ) :
    Carried s (u.dropped m) e := by
  obtain ⟨r, hr⟩ := dropped_eq u m
  rw [hr]
  exact ⟨h.handed, h.numbers, h.queued, h.kept, h.taken⟩

theorem foldl_requeue_queues (dropTime frameTime : UInt64) (l : List ℕ) (s : State) :
    let u := l.foldl (requeue dropTime frameTime) s
    u.sending = s.sending ∧ (∀ x ∈ u.m_autoSend, x ∈ l ∨ x ∈ s.m_autoSend) ∧
      ∀ m, (u.messages m).submitted = (s.messages m).submitted := by
  induction l generalizing s with
  | nil => exact ⟨rfl, fun _ h => .inr h, fun _ => rfl⟩
  | cons m l ih =>
    obtain ⟨hsending, hauto, hsub⟩ := ih (requeue dropTime frameTime s m)
    have hone : (requeue dropTime frameTime s m).sending = s.sending ∧
        (∀ x ∈ (requeue dropTime frameTime s m).m_autoSend, x = m ∨ x ∈ s.m_autoSend) ∧
        ∀ x, ((requeue dropTime frameTime s m).messages x).submitted = (s.messages x).submitted := by
      have hset := (setState_same s m .STATE_ALLOCATED).2
      rw [requeue]
      split
      · split
        · exact ⟨rfl, fun x hx => List.mem_cons.mp hx, hset⟩
        · refine ⟨rfl, fun x hx => ?_, hset⟩
          rcases List.mem_append.mp hx with hx | hx
          · exact .inr hx
          · exact .inl (List.mem_singleton.mp hx)
      · rw [onSendMessage]
        split <;> exact ⟨rfl, fun _ h => .inr h, fun _ => rfl⟩
    rw [List.foldl_cons]
    refine ⟨hsending.trans hone.1, fun x hx => ?_, fun x => (hsub x).trans (hone.2.2 x)⟩
    rcases hauto x hx with hx | hx
    · exact .inl (List.mem_cons_of_mem m hx)
    · rcases hone.2.1 x hx with rfl | hx
      · exact .inl List.mem_cons_self
      · exact .inr hx

theorem Transmitted.carried {s u v : State} {e : Event} {m p : ℕ} (ht : Transmitted s m u)
    (hp : (s.messages m).m_protocol = some p) (hm : m ∈ waiting s) (hv : Same u v)
    (hmessages : v.messages = u.messages) (hqueue : v.m_addQueue = u.m_addQueue)
    (hrest : ∀ x, x ∈ v.sending ∨ x ∈ v.m_autoSend → x ∈ waiting s)
    (htaken : ∀ x ∈ passed s e, x = m) : Carried s v e := by
  obtain ⟨hs, hmsg, hout⟩ := ht.recorded hp
  refine .of_same (hs.trans hv) (fun x h => by rwa [hmessages, hmsg]) (fun x hx => .inl ?_)
    fun x hx => by rwa [htaken x hx]
  have hqueued : x ∈ v.m_addQueue → x ∈ waiting s := by
    rw [hqueue]
    intro hx
    have hold : x ∈ s.m_addQueue → x ∈ waiting s := fun hx => by simp [waiting, places, hx]
    rcases hout with ⟨l, -, -, hq⟩ | ⟨-, hq⟩
    · exact hold (hq ▸ hx)
    · rw [hq, List.mem_append, List.mem_singleton] at hx
      rcases hx with hx | rfl
      · exact hold hx
      · exact hm
  simp only [waiting, places, List.mem_append] at hx
  rcases hx with (hx | hx) | hx
  · exact hrest x (.inl hx)
  · exact hqueued hx
  · exact hrest x (.inr hx)

theorem passed_eq {s : State} {e : Event} {m : ℕ} (h : m ∈ passed s e) :
    e = .transmit m .started ∨ e = .sendNext m .started := by
  simp only [passed] at h
  split at h
  · split at h
    · split at h <;> cases h
      exact .inl rfl
    · cases h
  · split at h
    · split at h <;> cases h
      exact .inr rfl
    · cases h
  · cases h

theorem Carried.getOutputMessage {s : State} {m : ℕ} (hm : m ∉ waiting s) (p c : ℕ)
    (autoSend : Bool) {e : Event} (he : passed s e = none) :
    Carried s (configureOutputMessage s m p c autoSend) e where
  handed := Nat.le_succ _
  numbers x hx := by
    by_cases hxm : x = m
    · subst hxm
      exact .inl (configured_self s x p c autoSend).1
    · have hx := (List.mem_cons.mp hx).resolve_left hxm
      rw [configured_other s m p c autoSend hxm]
      exact .inr ⟨hx, rfl, id⟩
  queued x hx := by
    by_cases hxm : x = m
    · subst hxm
      exact .inl (configured_self s x p c autoSend).1
    · rw [configured_other s m p c autoSend hxm]
      refine .inr ⟨rfl, .inl ?_⟩
      have hpos := List.count_pos_iff.mpr hx
      rw [waiting, count_places_configured, if_neg fun he => hxm he.2.symm, Nat.add_zero] at hpos
      exact List.count_pos_iff.mp hpos
  kept x hx := by
    have hxm : x ≠ m := fun heq => hm (heq ▸ hx)
    rw [configured_other s m p c autoSend hxm]
  taken := by simp [he]

/-- The first loop of `sendAll` moves messages from one queue to the other. -/
theorem beginSendAll_carried {n : ℕ} {s : State} (ht : Tracked n s) :
    Carried s (beginSendAll s) .sendAll := by
  obtain ⟨-, hs⟩ := ht.once.beginSendAll ht.owned ht.numbered
  obtain ⟨hsending, hauto, hsub⟩ := foldl_requeue_queues (s.m_frameTime - 10000)
    (s.m_frameTime - 10) s.m_addQueue s
  obtain ⟨r, hr⟩ := clearAddQueue_eq (s.m_addQueue.foldl
    (requeue (s.m_frameTime - 10000) (s.m_frameTime - 10)) s).m_addQueue
    (s.m_addQueue.foldl (requeue (s.m_frameTime - 10000) (s.m_frameTime - 10)) s)
  rw [beginSendAll, hr] at hs ⊢
  refine .of_same hs (fun x hx => (hsub x).trans hx) (fun x hx => .inl ?_) (by simp [passed])
  simp only [waiting, places, List.append_nil, List.mem_append, hsending] at hx
  simp only [waiting, places, List.mem_append]
  rcases hx with hx | hx
  · exact .inl (.inl hx)
  · rcases hauto x hx with hx | hx
    · exact .inl (.inr hx)
    · exact .inr hx

theorem internalReleaseMessage_carried {s : State} (ho : Owned s) {m : ℕ}
    (hm : m ∈ s.releases) :
    Carried s (internalReleaseMessage s m) (.internalReleaseMessage m) := by
  obtain ⟨p, c, he⟩ := ho.releasing hm
  have hfields := ho.counts.fields _ he
  rw [internalReleaseMessage_eq hfields.1 hfields.2]
  refine .of_same ⟨?_, rfl, ?_⟩ ?_ (fun x hx => .inl hx) (by simp [passed])
  · intro x
    by_cases hx : x = m <;>
      simp [State.setMessage, State.setPeer, State.setProtocol, Message.free, hx]
  · intro x hx
    exact (List.filter_sublist.map Prod.fst).subset hx
  · intro x hx
    by_cases hxm : x = m <;>
      simp_all [State.setMessage, State.setPeer, State.setProtocol, Message.free]

theorem step_carried {n : ℕ} {s u : State} {e : Event} (ht : Tracked n s) (h : step s e = some u) :
    Carried s u e := by
  have hkeys := places_keys ht.owned fun x (hx : x ∈ s.m_addQueue) => hx
  have hprotocol := fun m hm => ht.owned.protocol (hkeys m hm)
  have heffect := step_effect h
  cases heffect with
  | @getOutputMessage p autoSend c front m hd hf =>
    obtain ⟨free, k, hr⟩ := refill_eq s
    have ho := ht.owned.refill
    rw [hr] at hf ho
    rw [hr]
    -- what is free is in none of the lists
    have hnot : m ∉ waiting s := by
      intro hm
      have hkey := places_keys ho (fun x (hx : x ∈ s.m_addQueue) => hx) m hm
      exact ((ho.counts.configured m).mp hkey).2 (hf ▸ List.mem_append_right front (by simp))
    have hcarried := Carried.getOutputMessage
      (s := { s with m_outputMessages := front, allocated := k, held := m :: s.held }) hnot p c
      autoSend (e := .getOutputMessage p autoSend) rfl
    exact ⟨hcarried.handed, hcarried.numbers, hcarried.queued, hcarried.kept, hcarried.taken⟩
  | copy hm => exact .still rfl rfl rfl rfl rfl
  | @drop m hm =>
    have hstill : Carried s { s with held := s.held.erase m } (.drop m) :=
      .still rfl rfl rfl rfl rfl
    exact hstill.dropped m
  | sendIgnored hm hstate => exact .still rfl rfl rfl rfl rfl
  | @send m hm hstate =>
    have hs := submitted_same s m
    refine .of_same ⟨hs.serial, hs.handed, hs.keys⟩ ?_ ?_ (by simp [passed])
    · intro x hx
      by_cases hxm : x = m <;> simp [State.setMessage, hxm, hx]
    · intro x hx
      rcases List.mem_cons.mp hx with rfl | hx
      · exact .inr (by simp [submits, hstate])
      · exact .inl hx
  | @transmit m a v hm hv =>
    have hin : m ∈ waiting s := by simp [waiting, places, hm]
    obtain ⟨p, hp⟩ := hprotocol m hin
    have hcarried : Carried s { v with sending := s.sending.erase m } (.transmit m a) := by
      refine hv.carried hp hin (.of_eq rfl rfl rfl) rfl rfl ?_ ?_
      · rintro x (hx | hx)
        · have := List.mem_of_mem_erase hx
          simp [waiting, places, this]
        · have hx : x ∈ s.m_autoSend := hv.moved.autoSend ▸ hx
          simp [waiting, places, hx]
      · intro x hx
        rcases passed_eq hx with heq | heq <;> cases heq
        rfl
    exact hcarried.dropped m
  | @autoSend m hm =>
    have hs := submitted_same s m
    refine .of_same ⟨hs.serial, hs.handed, hs.keys⟩ ?_ ?_ (by simp [passed])
    · intro x hx
      by_cases hxm : x = m <;> simp [autoSend, State.setMessage, hxm, hx]
    · intro x hx
      simp only [waiting, places, autoSend, State.setMessage, List.mem_append,
        List.mem_singleton] at hx
      simp only [waiting, places, submits, List.mem_append, Option.mem_def, Option.some.injEq]
      grind
  | startExecutionFrame time => exact .still rfl rfl rfl rfl rfl
  | stop => exact .still rfl rfl rfl rfl rfl
  | sendAll hframe => exact beginSendAll_carried ht
  | @sendNext m a rest v hl hv =>
    have hin : m ∈ waiting s := by simp [waiting, places, hl]
    obtain ⟨p, hp⟩ := hprotocol m hin
    have hcarried : Carried s { v with m_autoSend := rest } (.sendNext m a) := by
      refine hv.carried hp hin (.of_eq rfl rfl rfl) rfl rfl ?_ ?_
      · rintro x (hx | hx)
        · have hx : x ∈ s.sending := hv.moved.sending ▸ hx
          simp [waiting, places, hx]
        · have hx : x ∈ rest := hx
          simp [waiting, places, hl, hx]
      · intro x hx
        rcases passed_eq hx with heq | heq <;> cases heq
        rfl
    exact hcarried.dropped m
  | sendAllEnd => exact .still rfl rfl rfl rfl rfl
  | @onWrite m c f error hm =>
    have hstill : Carried s { s.setWrite c f with writing := s.writing.erase m }
        (.onWrite m error) := .still rfl rfl rfl rfl rfl
    exact hstill.dropped m
  | peer c e => exact .still rfl rfl rfl rfl rfl
  | setConnection connection hd => exact .still rfl rfl rfl rfl rfl
  | keepProtocol hr => exact .still rfl rfl rfl rfl rfl
  | deleteProtocol hr => exact .still rfl rfl rfl rfl rfl
  | keepConnection hr => exact .still rfl rfl rfl rfl rfl
  | deleteConnection hr => exact .still rfl rfl rfl rfl rfl
  | internalReleaseMessage hm => exact internalReleaseMessage_carried ht.owned hm

theorem pair_sublist_total {α : Type} {a b : α} {l : List α} (ha : a ∈ l) (hb : b ∈ l) (hne : a ≠ b) :
    [a, b].Sublist l ∨ [b, a].Sublist l := by
  induction l with
  | nil => cases ha
  | cons x l ih =>
    rcases List.mem_cons.mp ha with rfl | hal
    · have hbl := (List.mem_cons.mp hb).resolve_left (Ne.symm hne)
      exact .inl ((List.singleton_sublist.mpr hbl).cons_cons a)
    · rcases List.mem_cons.mp hb with rfl | hbl
      · exact .inr ((List.singleton_sublist.mpr hal).cons_cons b)
      · rcases ih hal hbl with h | h
        · exact .inl (h.cons x)
        · exact .inr (h.cons x)

/-- What keeps the order: whatever waits was submitted after whatever was written. -/
structure Queued (s : Sent) : Prop where
  tracked : ∀ n, Tracked n s.pool
  numbered : ∀ c n, (c, n) ∈ s.submissions → n < s.pool.handed
  submitted : ∀ c n, (c, n) ∈ s.submissions → ∀ m ∈ keys s.pool,
    (s.pool.messages m).serial = n → (s.pool.messages m).submitted = true
  waiting : ∀ x ∈ waiting s.pool, ∀ n ∈ writes s.pool, ∀ c, (c, n) ∈ s.submissions →
    (c, (s.pool.messages x).serial) ∈ s.submissions → s.Earlier c n (s.pool.messages x).serial
  order : InOrder s

theorem not_written {s : State} {n : ℕ} (h : records s n = []) : n ∉ writes s := by
  intro hmem
  obtain ⟨r, hr, hserial⟩ := List.mem_filterMap.mp hmem
  cases r with
  | framed n why => cases hserial
  | written n =>
    cases hserial
    have hin : Record.written n ∈ records s n := mem_records.mpr ⟨hr, rfl⟩
    rw [h] at hin
    cases hin

theorem submission_eq {s : State} {e : Event} {c n : ℕ} (h : submission s e = some (c, n)) :
    ∃ m, e = .send m ∧ m ∈ submits s e ∧ (s.messages m).m_connection = some c ∧
      (s.messages m).serial = n := by
  simp only [submission] at h
  split at h
  · split at h
    · rename_i m hstate
      obtain ⟨c', hc, heq⟩ := Option.map_eq_some_iff.mp h
      obtain ⟨rfl, rfl⟩ := Prod.mk.inj heq
      exact ⟨m, rfl, by simp [submits, hstate], hc, rfl⟩
    · cases h
  · cases h

theorem sent_step {s t : Sent} {e : Event} (h : sentMachine.step s e = some t) :
    step s.pool e = some t.pool ∧
      t.submissions = s.submissions ++ (submission s.pool e).toList := by
  obtain ⟨u, hu, rfl⟩ := Option.map_eq_some_iff.mp h
  exact ⟨hu, rfl⟩

theorem submits_held {s u : State} {e : Event} (h : step s e = some u) {m : ℕ}
    (hm : m ∈ submits s e) : m ∈ s.held := by
  cases e with
  | send x =>
    simp only [submits] at hm
    split at hm <;> cases hm
    simp only [step] at h
    split at h <;> cases h
    rename_i hheld
    exact hheld.1
  | autoSend x =>
    cases hm
    simp only [step] at h
    split at h <;> cases h
    rename_i hheld
    exact hheld.1
  | _ => cases hm

theorem submits_flagged {s u : State} {e : Event} (h : step s e = some u) {m : ℕ}
    (hm : m ∈ submits s e) : (u.messages m).submitted = true := by
  cases e with
  | send x =>
    simp only [submits] at hm
    split at hm <;> cases hm
    rename_i hstate
    simp only [step] at h
    split at h <;> cases h
    simp [beginSend, hstate, State.setMessage]
  | autoSend x =>
    cases hm
    simp only [step] at h
    split at h <;> cases h
    simp [autoSend, State.setMessage]
  | _ => cases hm

theorem submission_of_passed {s : State} {e : Event} {m : ℕ} (hm : m ∈ passed s e) :
    submission s e = none ∧ submits s e = none := by
  rcases passed_eq hm with rfl | rfl <;> exact ⟨rfl, rfl⟩

/-- A step of the pool with the submissions, and what is known before it. -/
structure QueuedStep (s t : Sent) (e : Event) : Prop where
  before : Queued s
  anew : SubmittedAnew s e
  turn : ¬ Overtakes s e
  pool : step s.pool e = some t.pool
  submissions : t.submissions = s.submissions ++ (submission s.pool e).toList

namespace QueuedStep

variable {s t : Sent} {e : Event} (h : QueuedStep s t e)
include h

theorem held {m : ℕ} (hm : m ∈ submits s.pool e) : m ∈ keys s.pool :=
  (h.before.tracked 0).owned.mem_keys (mem_ptrs.mpr (.inl (submits_held h.pool hm)))

theorem carried : Carried s.pool t.pool e := step_carried (h.before.tracked 0) h.pool

theorem tracked (n : ℕ) : Tracked n t.pool := by
  have heffect := step_effect h.pool
  obtain ⟨hnum, honce⟩ := step_tracked (h.before.tracked n) (fun m hm _ => h.anew m hm) heffect
  exact ⟨step_owned (h.before.tracked n).owned heffect, hnum, honce⟩

theorem submitted_before {c n : ℕ} (hmem : (c, n) ∈ t.submissions) : (c, n) ∈ s.submissions ∨
    ∃ m ∈ submits s.pool e, (s.pool.messages m).serial = n ∧
      t.submissions = s.submissions ++ [(c, n)] := by
  rw [h.submissions, List.mem_append, Option.mem_toList] at hmem
  rcases hmem with hmem | hmem
  · exact .inl hmem
  · obtain ⟨m, -, hm, -, hserial⟩ := submission_eq hmem
    refine .inr ⟨m, hm, hserial, ?_⟩
    rw [h.submissions, hmem]
    rfl

theorem below {c n : ℕ} (hmem : (c, n) ∈ t.submissions) : n < s.pool.handed := by
  rcases h.submitted_before hmem with hold | ⟨m, hm, rfl, -⟩
  · exact h.before.numbered c n hold
  · exact (h.before.tracked 0).numbered.below m (h.held hm)

theorem written_before {c n : ℕ} (hn : n ∈ writes s.pool) (hmem : (c, n) ∈ t.submissions) :
    (c, n) ∈ s.submissions := by
  rcases h.submitted_before hmem with hold | ⟨m, hm, rfl, -⟩
  · exact hold
  · have hnil := (h.before.tracked (s.pool.messages m).serial).once.unsubmitted m (h.held hm) rfl
      (h.anew m hm)
    exact absurd hn (not_written hnil)

theorem submitted {c n : ℕ} (hmem : (c, n) ∈ t.submissions) {m : ℕ} (hm : m ∈ keys t.pool)
    (hserial : (t.pool.messages m).serial = n) : (t.pool.messages m).submitted = true := by
  rcases h.carried.numbers m hm with hfresh | ⟨hkey, hsame, hflag⟩
  · have := h.below hmem
    omega
  · rcases h.submitted_before hmem with hold | ⟨x, hx, hxn, -⟩
    · exact hflag (h.before.submitted c n hold m hkey (hsame ▸ hserial))
    · have heq : m = x := (h.before.tracked 0).numbered.distinct m hkey x (h.held hx) (by omega)
      rw [heq]
      exact submits_flagged h.pool hx

/-- A message that waited already keeps its turn after what was written already. -/
theorem earlier_old {x c n : ℕ} (hx : x ∈ waiting s.pool ∨ x ∈ submits s.pool e)
    (hn : n ∈ writes s.pool) (hcn : (c, n) ∈ t.submissions)
    (hcx : (c, (s.pool.messages x).serial) ∈ t.submissions) :
    t.Earlier c n (s.pool.messages x).serial := by
  have hcn := h.written_before hn hcn
  have htracked := h.before.tracked (s.pool.messages x).serial
  rcases hx with hx | hx
  · have hkey := places_keys htracked.owned (fun y (hy : y ∈ s.pool.m_addQueue) => hy) x hx
    rcases h.submitted_before hcx with hold | ⟨m, hm, hserial, -⟩
    · rw [Sent.Earlier, h.submissions]
      exact (h.before.waiting x hx n hn c hcn hold).trans (List.sublist_append_left ..)
    · have heq : x = m := htracked.numbered.distinct x hkey m (h.held hm) hserial.symm
      have htrue := (htracked.once.queued x hx rfl).1
      rw [heq, h.anew m hm] at htrue
      cases htrue
  · rcases h.submitted_before hcx with hold | ⟨m, -, -, hsubmissions⟩
    · have htrue := h.before.submitted c _ hold x (h.held hx) rfl
      rw [h.anew x hx] at htrue
      cases htrue
    · rw [Sent.Earlier, hsubmissions]
      exact (List.singleton_sublist.mpr hcn).append (List.Sublist.refl _)

theorem earlier_new {x c m : ℕ} (hm : m ∈ passed s.pool e) (hx : x ∈ waiting t.pool)
    (hserial : (t.pool.messages x).serial = (s.pool.messages x).serial)
    (hold : x ∈ waiting s.pool) (hcm : (c, (s.pool.messages m).serial) ∈ t.submissions)
    (hcx : (c, (s.pool.messages x).serial) ∈ t.submissions) :
    t.Earlier c (s.pool.messages m).serial (s.pool.messages x).serial := by
  have hsubs : t.submissions = s.submissions := by
    rw [h.submissions, (submission_of_passed hm).1]
    exact List.append_nil _
  have hwritten : (s.pool.messages m).serial ∈ writes t.pool := by
    rw [step_writes h.pool, hm]
    simp
  have hne : (s.pool.messages m).serial ≠ (s.pool.messages x).serial := by
    intro heq
    have hnil := ((h.tracked _).once.queued x hx hserial).2.2
    rw [heq] at hwritten
    exact not_written hnil hwritten
  rw [hsubs] at hcm hcx
  rw [Sent.Earlier, hsubs]
  rcases pair_sublist_total hcm hcx fun heq => hne (Prod.mk.inj heq).2 with hfirst | hlast
  · exact hfirst
  · exact absurd ⟨m, hm, x, hold, c, hlast⟩ h.turn

theorem earlier {x c n : ℕ} (hx : x ∈ waiting t.pool) (hn : n ∈ writes t.pool)
    (hcn : (c, n) ∈ t.submissions) (hcx : (c, (t.pool.messages x).serial) ∈ t.submissions) :
    t.Earlier c n (t.pool.messages x).serial := by
  rcases h.carried.queued x hx with hfresh | ⟨hserial, hold⟩
  · have := h.below hcx
    omega
  · have hserial' := hserial
    rw [hserial] at hcx ⊢
    rw [step_writes h.pool, List.mem_append] at hn
    rcases hn with hn | hn
    · exact h.earlier_old hold hn hcn hcx
    · obtain ⟨m, hm, rfl⟩ := Option.map_eq_some_iff.mp (Option.mem_toList.mp hn)
      have hwaiting : x ∈ MessagePool.waiting s.pool := by
        refine hold.resolve_right fun hsub => ?_
        rw [(submission_of_passed hm).2] at hsub
        cases hsub
      exact h.earlier_new hm hx hserial' hwaiting hcn hcx

theorem inOrder : InOrder t := by
  have hold : (writes s.pool).Pairwise fun m n =>
      ∀ c, (c, m) ∈ t.submissions → (c, n) ∈ t.submissions → t.Earlier c m n := by
    refine h.before.order.imp_of_mem fun {m n} hm hn horder c hcm hcn => ?_
    rw [Sent.Earlier, h.submissions]
    exact (horder c (h.written_before hm hcm) (h.written_before hn hcn)).trans
      (List.sublist_append_left ..)
  rw [InOrder, step_writes h.pool, List.pairwise_append]
  refine ⟨hold, ?_, ?_⟩
  · cases passed s.pool e with
    | none => exact .nil
    | some m => exact List.pairwise_singleton ..
  · intro n hn k hk c hcn hck
    obtain ⟨m, hm, rfl⟩ := Option.map_eq_some_iff.mp (Option.mem_toList.mp hk)
    exact h.earlier_old (.inl (h.carried.taken m hm)) hn hcn hck

theorem queued : Queued t where
  tracked := h.tracked
  numbered _ _ hmem := Nat.lt_of_lt_of_le (h.below hmem) h.carried.handed
  submitted _ _ hmem _ hm hserial := h.submitted hmem hm hserial
  waiting _ hx _ hn _ hcn hcx := h.earlier hx hn hcn hcx
  order := h.inOrder

end QueuedStep

theorem queued_start {s : Sent} (h : sentMachine.start s) : Queued s := by
  obtain ⟨⟨time, forceClose, hpool⟩, hsubs⟩ := h
  obtain ⟨pool, submissions⟩ := s
  cases hpool
  cases hsubs
  refine ⟨fun n => ⟨initial_owned time forceClose, initial_numbered time forceClose,
    initial_once time forceClose n⟩, ?_, ?_, ?_, ?_⟩
  · simp
  · simp
  · simp [waiting, places]
  · exact .nil

end LoginServer.MessagePool
