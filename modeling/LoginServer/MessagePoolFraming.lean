import LoginServer.MessagePoolOwners

/-! # Framing and writing of the pool's messages

A message that was handed out as the `n`-th has at most one entry in the lists that may still
send it, and no record before it leaves them. Whoever takes it out frames it, writes it framed,
or queues it again. -/
namespace LoginServer.MessagePool

open Runs
open Connection (Arm)

def Record.serial : Record → ℕ
  | .framed n _ => n
  | .written n => n

def records (s : State) (n : ℕ) : List Record := s.history.filter fun r => r.serial = n

def outcomes (n : ℕ) : List (List Record) :=
  [[], [.framed n .direct], [.framed n .direct, .written n], [.framed n .refused],
    [.framed n .dropped]]

def submits (s : State) : Event → Option ℕ
  | .send m => if (s.messages m).m_state = .STATE_ALLOCATED_NO_AUTOSEND then some m else none
  | .autoSend m => some m
  | _ => none

/-- The step does not submit the message handed out as the `n`-th once more. -/
def SubmittedOnce (n : ℕ) (s : State) (e : Event) : Prop :=
  ∀ m ∈ submits s e, (s.messages m).serial = n → (s.messages m).submitted = false

instance (n : ℕ) (s : State) (e : Event) : Decidable (SubmittedOnce n s e) :=
  inferInstanceAs (Decidable (∀ _ ∈ _, _))

def keys (s : State) : List ℕ := s.configured.map Prod.fst

/-- Two messages in use were not handed out at the same time. -/
structure Numbered (s : State) : Prop where
  below : ∀ m ∈ keys s, (s.messages m).serial < s.handed
  distinct : ∀ m ∈ keys s, ∀ x ∈ keys s, (s.messages m).serial = (s.messages x).serial → m = x

/-- Where a message may still be sent from, with `q` for the queue of those to be sent later. -/
def places (q : List ℕ) (s : State) : List ℕ := s.sending ++ q ++ s.m_autoSend

structure Once (n : ℕ) (q : List ℕ) (s : State) : Prop where
  queued : ∀ m ∈ places q s, (s.messages m).serial = n →
    (s.messages m).submitted = true ∧ (places q s).count m ≤ 1 ∧ records s n = []
  unsubmitted : ∀ m ∈ keys s, (s.messages m).serial = n → (s.messages m).submitted = false →
    records s n = []
  outcome : records s n ∈ outcomes n
  fresh : s.handed ≤ n → records s n = []

theorem initial_once (time : UInt64) (forceClose : Bool) (n : ℕ) :
    Once n [] (initial time forceClose) := by
  constructor <;> simp [initial, places, keys, records, outcomes]

theorem initial_numbered (time : UInt64) (forceClose : Bool) :
    Numbered (initial time forceClose) := by
  constructor <;> simp [initial, keys]

theorem Owned.mem_keys {s : State} {m : ℕ} (h : Owned s) (hm : m ∈ ptrs s) : m ∈ keys s := by
  apply (h.counts.configured m).mpr
  refine ⟨h.places.live m hm, ?_⟩
  intro hin
  exact (h.places.idle m (List.mem_append_left _ hin)).2 hm

structure Same (s u : State) : Prop where
  serial : ∀ m, (u.messages m).serial = (s.messages m).serial
  handed : u.handed = s.handed
  keys : ∀ m ∈ keys u, m ∈ MessagePool.keys s

theorem Same.of_eq {s u : State} (hm : u.messages = s.messages) (hh : u.handed = s.handed)
    (hc : u.configured = s.configured) : Same s u where
  serial _ := by rw [hm]
  handed := hh
  keys m hk := by
    rw [MessagePool.keys, ← hc]
    exact hk

theorem Same.refl (s : State) : Same s s := .of_eq rfl rfl rfl

theorem Same.trans {s u v : State} (h : Same s u) (k : Same u v) : Same s v where
  serial m := (k.serial m).trans (h.serial m)
  handed := k.handed.trans h.handed
  keys m hm := h.keys m (k.keys m hm)

theorem Numbered.same {s u : State} (h : Numbered s) (hs : Same s u) : Numbered u where
  below m hm := by
    rw [hs.serial m, hs.handed]
    exact h.below m (hs.keys m hm)
  distinct m hm x hx he := by
    rw [hs.serial m, hs.serial x] at he
    exact h.distinct m (hs.keys m hm) x (hs.keys x hx) he

theorem Once.same {n : ℕ} {q r : List ℕ} {s u : State} (h : Once n q s) (hs : Same s u)
    (hsub : ∀ m, (u.messages m).submitted = (s.messages m).submitted)
    (hh : u.history = s.history)
    (hc : ∀ m, (places r u).count m ≤ (places q s).count m) : Once n r u := by
  have hrec : records u n = records s n := by rw [records, records, hh]
  refine ⟨?_, ?_, ?_, ?_⟩
  · intro m hm hn
    rw [hs.serial m] at hn
    have hpos := List.count_pos_iff.mpr hm
    have hin : m ∈ places q s := List.count_pos_iff.mp (Nat.lt_of_lt_of_le hpos (hc m))
    obtain ⟨h1, h2, h3⟩ := h.queued m hin hn
    rw [hsub m, hrec]
    exact ⟨h1, Nat.le_trans (hc m) h2, h3⟩
  · intro m hm hn hm'
    rw [hs.serial m] at hn
    rw [hsub m] at hm'
    rw [hrec]
    exact h.unsubmitted m (hs.keys m hm) hn hm'
  · rw [hrec]
    exact h.outcome
  · rw [hrec, hs.handed]
    exact h.fresh

theorem outcomes_serial {n : ℕ} {l : List Record} (hl : l ∈ outcomes n) : ∀ r ∈ l, r.serial = n := by
  simp only [outcomes, List.mem_cons, List.not_mem_nil, or_false] at hl
  rcases hl with rfl | rfl | rfl | rfl | rfl <;> simp [Record.serial]

theorem records_append {s u : State} {l : List Record} {k : ℕ} (hh : u.history = s.history ++ l)
    (hl : ∀ r ∈ l, r.serial = k) (n : ℕ) :
    records u n = if k = n then records s n ++ l else records s n := by
  rw [records, records, hh, List.filter_append]
  split
  · rename_i hk
    have hall : l.filter (fun r => r.serial = n) = l := by
      rw [List.filter_eq_self]
      intro r hr
      simpa using (hl r hr).trans hk
    rw [hall]
  · rename_i hk
    have hnone : l.filter (fun r => r.serial = n) = [] := by
      rw [List.filter_eq_nil_iff]
      intro r hr
      simpa [hl r hr] using hk
    rw [hnone, List.append_nil]

theorem Once.settled {n : ℕ} {q r : List ℕ} {s u : State} {m : ℕ} {l : List Record}
    (h : Once n q s) (hnum : Numbered s) (hs : Same s u)
    (hsub : ∀ m, (u.messages m).submitted = (s.messages m).submitted)
    (hh : u.history = s.history ++ l) (ho : l ∈ outcomes (s.messages m).serial)
    (hm : m ∈ places q s) (hkeys : ∀ x ∈ places q s, x ∈ keys s)
    (hc : ∀ x, (places r u).count x ≤ ((places q s).erase m).count x) : Once n r u := by
  have hle : ∀ x, (places r u).count x ≤ (places q s).count x := fun x =>
    Nat.le_trans (hc x) (List.erase_sublist.count_le x)
  have hin : ∀ x ∈ places r u, x ∈ places q s := fun x hx =>
    List.count_pos_iff.mp (Nat.lt_of_lt_of_le (List.count_pos_iff.mpr hx) (hle x))
  have hrec := records_append hh (outcomes_serial ho) n
  by_cases hn : (s.messages m).serial = n
  · obtain ⟨hsubm, hone, hnil⟩ := h.queued m hm hn
    rw [if_pos hn, hnil, List.nil_append] at hrec
    -- the only message of this number is `m`, which is gone from the lists
    have honly : ∀ x ∈ keys s, (s.messages x).serial = n → x = m := fun x hx hxn =>
      hnum.distinct x hx m (hkeys m hm) (hxn.trans hn.symm)
    have hgone : m ∉ places r u := by
      intro hmr
      have hpos := List.count_pos_iff.mpr hmr
      have hcm := hc m
      rw [List.count_erase_self] at hcm
      omega
    refine ⟨?_, ?_, ?_, ?_⟩
    · intro x hx hxn
      rw [hs.serial x] at hxn
      exact absurd (honly x (hkeys x (hin x hx)) hxn ▸ hx) hgone
    · intro x hx hxn hxs
      rw [hs.serial x] at hxn
      rw [hsub x, honly x (hs.keys x hx) hxn, hsubm] at hxs
      cases hxs
    · rw [hrec, ← hn]
      exact ho
    · rw [hs.handed]
      intro hle
      have hlt := hnum.below m (hkeys m hm)
      omega
  · rw [if_neg hn] at hrec
    refine ⟨?_, ?_, ?_, ?_⟩
    · intro x hx hxn
      rw [hs.serial x] at hxn
      obtain ⟨h1, h2, h3⟩ := h.queued x (hin x hx) hxn
      rw [hsub x, hrec]
      exact ⟨h1, Nat.le_trans (hle x) h2, h3⟩
    · intro x hx hxn hxs
      rw [hs.serial x] at hxn
      rw [hsub x] at hxs
      rw [hrec]
      exact h.unsubmitted x (hs.keys x hx) hxn hxs
    · rw [hrec]
      exact h.outcome
    · rw [hrec, hs.handed]
      exact h.fresh

/-! ## What the steps record -/

theorem onSendMessage_record {s : State} {m p : ℕ} (hp : (s.messages m).m_protocol = some p)
    (why : Framing) : onSendMessage s m why = s.record (.framed (s.messages m).serial why) := by
  rw [onSendMessage, hp]

theorem Transmitted.recorded {s u : State} {m p : ℕ} (h : Transmitted s m u)
    (hp : (s.messages m).m_protocol = some p) :
    Same s u ∧ u.messages = s.messages ∧
    ((∃ l ∈ outcomes (s.messages m).serial, u.history = s.history ++ l ∧
        u.m_addQueue = s.m_addQueue) ∨
      u.history = s.history ∧ u.m_addQueue = s.m_addQueue ++ [m]) := by
  have hw : ∀ c f, (((s.setWrite c f).messages) m).m_protocol = some p := fun _ _ => hp
  cases h with
  | unconnected _ => exact ⟨.refl s, rfl, Or.inl ⟨[], by simp [outcomes], by simp, rfl⟩⟩
  | refused =>
    rw [onSendMessage_record hp]
    exact ⟨.of_eq rfl rfl rfl, rfl,
      Or.inl ⟨[.framed _ .refused], by simp [outcomes], rfl, rfl⟩⟩
  | framed c f =>
    rw [onSendMessage_record (hw c f)]
    exact ⟨.of_eq rfl rfl rfl, rfl,
      Or.inl ⟨[.framed _ .direct], by simp [outcomes, State.setWrite, State.setPeer], rfl, rfl⟩⟩
  | written c f =>
    rw [onSendMessage_record (hw c f)]
    exact ⟨.of_eq rfl rfl rfl, rfl,
      Or.inl ⟨[.framed (s.messages m).serial .direct, .written (s.messages m).serial],
        by simp [outcomes], by simp [State.record, State.setWrite, State.setPeer], rfl⟩⟩
  | forced c f =>
    exact ⟨.of_eq rfl rfl rfl, rfl,
      Or.inl ⟨[], by simp [outcomes], (List.append_nil _).symm, rfl⟩⟩
  | queued => exact ⟨.of_eq rfl rfl rfl, rfl, Or.inr ⟨rfl, rfl⟩⟩

theorem Owned.protocol {s : State} {m : ℕ} (h : Owned s) (hm : m ∈ keys s) :
    ∃ p, (s.messages m).m_protocol = some p := by
  obtain ⟨entry, he, rfl⟩ := List.mem_map.mp hm
  exact ⟨entry.2.1, (h.counts.fields entry he).1⟩

theorem places_keys {s : State} {q : List ℕ} (h : Owned s) (hq : ∀ m ∈ q, m ∈ s.m_addQueue) :
    ∀ m ∈ places q s, m ∈ keys s := by
  intro m hm
  have hqm := hq m
  apply h.mem_keys
  simp only [places, List.mem_append] at hm
  rw [mem_ptrs]
  tauto

/-! ## `sendAll` -/

theorem setState_same (s : State) (m : ℕ) (state : OutputMessageState) :
    Same s (s.setMessage m fun msg => { msg with m_state := state }) ∧
    ∀ x, ((s.setMessage m fun msg => { msg with m_state := state }).messages x).submitted =
      (s.messages x).submitted := by
  constructor
  · refine ⟨?_, rfl, fun _ hx => hx⟩
    intro x
    by_cases hx : x = m <;> simp [State.setMessage, hx]
  · intro x
    by_cases hx : x = m <;> simp [State.setMessage, hx]

theorem requeue_same (dropTime frameTime : UInt64) (s : State) (m : ℕ) :
    Same s (requeue dropTime frameTime s m) := by
  have hs := (setState_same s m .STATE_ALLOCATED).1
  rw [requeue]
  split
  · split
    · exact ⟨hs.serial, hs.handed, hs.keys⟩
    · exact ⟨hs.serial, hs.handed, hs.keys⟩
  · rw [onSendMessage]
    split
    · exact .refl s
    · exact .of_eq rfl rfl rfl

theorem Once.requeue {n m : ℕ} {todo : List ℕ} {s : State} (dropTime frameTime : UInt64)
    (h : Once n (m :: todo) s) (ho : Owned s) (hnum : Numbered s)
    (hq : ∀ x ∈ m :: todo, x ∈ s.m_addQueue) :
    Once n todo (requeue dropTime frameTime s m) := by
  have hkeys := places_keys ho hq
  obtain ⟨hs, hsub⟩ := setState_same s m .STATE_ALLOCATED
  have hm : m ∈ places (m :: todo) s := by simp [places]
  rw [MessagePool.requeue]
  split
  · split
    · refine h.same ⟨hs.serial, hs.handed, hs.keys⟩ hsub rfl ?_
      intro x
      simp only [places, State.setMessage, List.count_append, List.count_cons]
      omega
    · refine h.same ⟨hs.serial, hs.handed, hs.keys⟩ hsub rfl ?_
      intro x
      simp only [places, State.setMessage, List.count_append, List.count_cons, List.count_nil]
      omega
  · obtain ⟨p, hp⟩ := ho.protocol (hkeys m hm)
    rw [onSendMessage_record hp]
    refine h.settled hnum (.of_eq rfl rfl rfl) (fun _ => rfl) rfl ?_ hm hkeys ?_
    · simp [outcomes]
    · intro x
      rw [List.count_erase]
      simp only [places, State.record, List.count_append, List.count_cons, beq_iff_eq]
      omega

theorem Once.foldl {n : ℕ} {l : List ℕ} {s : State} (dropTime frameTime : UInt64)
    (h : Once n l s) (ho : Owned s) (hnum : Numbered s) (hl : ∀ m ∈ l, m ∈ s.m_addQueue) :
    Once n [] (l.foldl (MessagePool.requeue dropTime frameTime) s) ∧
      Same s (l.foldl (MessagePool.requeue dropTime frameTime) s) := by
  induction l generalizing s with
  | nil => exact ⟨h, .refl s⟩
  | cons m rest ih =>
    have hsame := requeue_same dropTime frameTime s m
    have hm := hl m List.mem_cons_self
    have ho' : Owned (MessagePool.requeue dropTime frameTime s m) :=
      ho.frame (requeue_frame dropTime frameTime s m) (requeue_ptrs dropTime frameTime hm)
    have hrest : ∀ x ∈ rest, x ∈ (MessagePool.requeue dropTime frameTime s m).m_addQueue := by
      intro x hx
      rw [requeue_addQueue]
      exact hl x (List.mem_cons_of_mem m hx)
    obtain ⟨hi, hs⟩ := ih (h.requeue dropTime frameTime ho hnum hl) ho' (hnum.same hsame) hrest
    exact ⟨hi, hsame.trans hs⟩

theorem Once.beginSendAll {n : ℕ} {s : State} (h : Once n s.m_addQueue s) (ho : Owned s)
    (hnum : Numbered s) :
    Once n (MessagePool.beginSendAll s).m_addQueue (MessagePool.beginSendAll s) ∧
      Same s (MessagePool.beginSendAll s) := by
  obtain ⟨hi, hs⟩ := h.foldl (s.m_frameTime - 10000) (s.m_frameTime - 10) ho hnum fun _ hm => hm
  rw [MessagePool.beginSendAll]
  generalize s.m_addQueue.foldl (MessagePool.requeue (s.m_frameTime - 10000) (s.m_frameTime - 10))
    s = v at hi hs ⊢
  obtain ⟨r, hr⟩ := clearAddQueue_eq v.m_addQueue v
  rw [hr]
  constructor
  · exact hi.same (.of_eq rfl rfl rfl) (fun _ => rfl) rfl fun _ => Nat.le_refl _
  · exact ⟨hs.serial, hs.handed, hs.keys⟩

/-! ## Every step -/

theorem Once.transmitted {n m p : ℕ} {s u v : State} (h : Once n s.m_addQueue s)
    (hnum : Numbered s) (hm : m ∈ places s.m_addQueue s)
    (hkeys : ∀ x ∈ places s.m_addQueue s, x ∈ keys s) (ht : Transmitted s m u)
    (hp : (s.messages m).m_protocol = some p) (hv : Same u v) (hmessages : v.messages = u.messages)
    (hhistory : v.history = u.history) (hqueue : v.m_addQueue = u.m_addQueue)
    (hc : ∀ x, (v.sending ++ v.m_autoSend).count x + (if m = x then 1 else 0) ≤
      (s.sending ++ s.m_autoSend).count x) : Once n v.m_addQueue v := by
  obtain ⟨hs, hmsg, hout⟩ := ht.recorded hp
  have hsub : ∀ x, (v.messages x).submitted = (s.messages x).submitted := by
    intro x
    rw [hmessages, hmsg]
  rcases hout with ⟨l, hl, hh, hq⟩ | ⟨hh, hq⟩
  · refine h.settled hnum (hs.trans hv) hsub (hhistory.trans hh) hl hm hkeys ?_
    intro x
    have hx := hc x
    rw [List.count_erase, hqueue, hq]
    simp only [places, List.count_append, beq_iff_eq] at hx ⊢
    split <;> split at hx <;> omega
  · refine h.same (hs.trans hv) hsub (hhistory.trans hh) ?_
    intro x
    have hx := hc x
    rw [hqueue, hq]
    simp only [places, List.count_append, List.count_cons, List.count_nil, beq_iff_eq] at hx ⊢
    split <;> split at hx <;> omega

theorem Once.submitted {n m : ℕ} {s u : State} (h : Once n s.m_addQueue s)
    (hsub : (s.messages m).serial = n → (s.messages m).submitted = false) (hm : m ∈ keys s)
    (hs : Same s u)
    (hmessages : u.messages = (s.setMessage m fun msg => { msg with submitted := true }).messages)
    (hhistory : u.history = s.history)
    (hc : ∀ x, (places u.m_addQueue u).count x =
      (places s.m_addQueue s).count x + if m = x then 1 else 0) : Once n u.m_addQueue u := by
  have hrec : records u n = records s n := by rw [records, records, hhistory]
  have hother : ∀ x, x ≠ m → (u.messages x).submitted = (s.messages x).submitted := by
    intro x hx
    simp [hmessages, State.setMessage, hx]
  have hself : (u.messages m).submitted = true := by simp [hmessages, State.setMessage]
  refine ⟨?_, ?_, ?_, ?_⟩
  · intro x hx hxn
    rw [hs.serial x] at hxn
    by_cases hxm : x = m
    · subst hxm
      have hnot : x ∉ places s.m_addQueue s := by
        intro hin
        have htrue := (h.queued x hin hxn).1
        rw [hsub hxn] at htrue
        cases htrue
      rw [hc x, List.count_eq_zero.mpr hnot, if_pos rfl, hrec]
      exact ⟨hself, Nat.le_refl 1, h.unsubmitted x hm hxn (hsub hxn)⟩
    · have hcx := hc x
      rw [if_neg (Ne.symm hxm), Nat.add_zero] at hcx
      have hin : x ∈ places s.m_addQueue s :=
        List.count_pos_iff.mp (hcx ▸ List.count_pos_iff.mpr hx)
      rw [hother x hxm, hcx, hrec]
      exact h.queued x hin hxn
  · intro x hx hxn hxs
    rw [hs.serial x] at hxn
    by_cases hxm : x = m
    · rw [hxm, hself] at hxs
      cases hxs
    · rw [hother x hxm] at hxs
      rw [hrec]
      exact h.unsubmitted x (hs.keys x hx) hxn hxs
  · rw [hrec]
    exact h.outcome
  · rw [hrec, hs.handed]
    exact h.fresh

theorem configured_self (s : State) (m p c : ℕ) (autoSend : Bool) :
    ((configureOutputMessage s m p c autoSend).messages m).serial = s.handed ∧
      ((configureOutputMessage s m p c autoSend).messages m).submitted = autoSend := by
  simp [configureOutputMessage, State.setMessage, State.setProtocol, State.setPeer]

theorem configured_other (s : State) (m p c : ℕ) (autoSend : Bool) {x : ℕ} (hx : x ≠ m) :
    (configureOutputMessage s m p c autoSend).messages x = s.messages x := by
  simp [configureOutputMessage, State.setMessage, State.setProtocol, State.setPeer, hx]

theorem Numbered.configureOutputMessage {s : State} (h : Numbered s) (m p c : ℕ)
    (autoSend : Bool) : Numbered (configureOutputMessage s m p c autoSend) := by
  have hself := (configured_self s m p c autoSend).1
  have hother := fun x (hx : x ≠ m) => configured_other s m p c autoSend hx
  have hhanded : (MessagePool.configureOutputMessage s m p c autoSend).handed = s.handed + 1 := rfl
  have hkeys : keys (MessagePool.configureOutputMessage s m p c autoSend) = m :: keys s := rfl
  generalize MessagePool.configureOutputMessage s m p c autoSend = u at hself hother hhanded hkeys ⊢
  have hold : ∀ x ∈ keys u, x ≠ m → x ∈ keys s := by
    intro x hx hxm
    rw [hkeys] at hx
    exact (List.mem_cons.mp hx).resolve_left hxm
  have hlt : ∀ x ∈ keys u, x ≠ m → (u.messages x).serial < s.handed := by
    intro x hx hxm
    rw [hother x hxm]
    exact h.below x (hold x hx hxm)
  constructor
  · intro x hx
    rw [hhanded]
    by_cases hxm : x = m
    · rw [hxm, hself]
      exact Nat.lt_succ_self _
    · exact Nat.lt_succ_of_lt (hlt x hx hxm)
  · intro x hx y hy he
    by_cases hxm : x = m
    · by_cases hym : y = m
      · exact hxm.trans hym.symm
      · have hy' := hlt y hy hym
        rw [← he, hxm, hself] at hy'
        exact absurd hy' (Nat.lt_irrefl _)
    · by_cases hym : y = m
      · have hx' := hlt x hx hxm
        rw [he, hym, hself] at hx'
        exact absurd hx' (Nat.lt_irrefl _)
      · rw [hother x hxm, hother y hym] at he
        exact h.distinct x (hold x hx hxm) y (hold y hy hym) he

theorem count_places_configured (s : State) (m p c : ℕ) (autoSend : Bool) (x : ℕ) :
    let u := configureOutputMessage s m p c autoSend
    (places u.m_addQueue u).count x =
      (places s.m_addQueue s).count x + if autoSend = true ∧ m = x then 1 else 0 := by
  cases autoSend with
  | false => simp [places, configureOutputMessage, State.setMessage, State.setProtocol,
      State.setPeer]
  | true =>
    simp only [places, configureOutputMessage, State.setMessage, State.setProtocol,
      State.setPeer, if_true, List.count_append, List.count_cons, List.count_nil, beq_iff_eq,
      true_and]
    omega

theorem Once.configureOutputMessage {n m : ℕ} {s : State} (h : Once n s.m_addQueue s)
    (hnot : m ∉ places s.m_addQueue s) (p c : ℕ) (autoSend : Bool) :
    let u := configureOutputMessage s m p c autoSend
    Once n u.m_addQueue u := by
  have hself := configured_self s m p c autoSend
  have hother := fun x (hx : x ≠ m) => configured_other s m p c autoSend hx
  have hcount := count_places_configured s m p c autoSend
  have hhanded : (MessagePool.configureOutputMessage s m p c autoSend).handed = s.handed + 1 := rfl
  have hkeys : keys (MessagePool.configureOutputMessage s m p c autoSend) = m :: keys s := rfl
  have hrec : records (MessagePool.configureOutputMessage s m p c autoSend) n = records s n := rfl
  intro u
  refine ⟨?_, ?_, ?_, ?_⟩
  · intro x hx hxn
    have hpos := List.count_pos_iff.mpr hx
    rw [hcount x] at hpos
    by_cases hxm : x = m
    · subst hxm
      rw [List.count_eq_zero.mpr hnot] at hpos
      have hauto : autoSend = true := by
        by_contra hne
        simp [hne] at hpos
      rw [hself.1] at hxn
      rw [hself.2, hcount x, hrec, List.count_eq_zero.mpr hnot]
      exact ⟨hauto, by simp [hauto], h.fresh (Nat.le_of_eq hxn)⟩
    · rw [if_neg fun he => hxm he.2.symm, Nat.add_zero] at hpos
      rw [hother x hxm] at hxn
      rw [hother x hxm, hcount x, if_neg fun he => hxm he.2.symm, hrec]
      exact h.queued x (List.count_pos_iff.mp hpos) hxn
  · intro x hx hxn hxs
    rw [hrec]
    by_cases hxm : x = m
    · rw [hxm, hself.1] at hxn
      exact h.fresh (Nat.le_of_eq hxn)
    · rw [hother x hxm] at hxn hxs
      rw [hkeys] at hx
      exact h.unsubmitted x ((List.mem_cons.mp hx).resolve_left hxm) hxn hxs
  · rw [hrec]
    exact h.outcome
  · intro hle
    rw [hhanded] at hle
    rw [hrec]
    exact h.fresh (Nat.le_of_succ_le hle)

/-- What holds of every state reached, for the message handed out as the `n`-th. -/
structure Tracked (n : ℕ) (s : State) : Prop where
  owned : Owned s
  numbered : Numbered s
  once : Once n s.m_addQueue s

theorem Tracked.quiet {n : ℕ} {s u : State} (h : Tracked n s) (hs : Same s u)
    (hsub : ∀ m, (u.messages m).submitted = (s.messages m).submitted)
    (hh : u.history = s.history)
    (hc : ∀ m, (places u.m_addQueue u).count m ≤ (places s.m_addQueue s).count m) :
    Numbered u ∧ Once n u.m_addQueue u :=
  ⟨h.numbered.same hs, h.once.same hs hsub hh hc⟩

theorem Tracked.still {n : ℕ} {s u : State} (h : Tracked n s) (hm : u.messages = s.messages)
    (hn : u.handed = s.handed) (hc : u.configured = s.configured) (hh : u.history = s.history)
    (hp : places u.m_addQueue u = places s.m_addQueue s) :
    Numbered u ∧ Once n u.m_addQueue u :=
  h.quiet (.of_eq hm hn hc) (fun _ => by rw [hm]) hh fun _ => Nat.le_of_eq (by rw [hp])

theorem Tracked.transmitted {n m : ℕ} {s u v : State} (h : Tracked n s) (ht : Transmitted s m u)
    (hm : m ∈ places s.m_addQueue s) (hv : Same u v) (hmessages : v.messages = u.messages)
    (hhistory : v.history = u.history) (hqueue : v.m_addQueue = u.m_addQueue)
    (hc : ∀ x, (v.sending ++ v.m_autoSend).count x + (if m = x then 1 else 0) ≤
      (s.sending ++ s.m_autoSend).count x) : Numbered v ∧ Once n v.m_addQueue v := by
  have hkeys := places_keys h.owned fun x (hx : x ∈ s.m_addQueue) => hx
  obtain ⟨p, hp⟩ := h.owned.protocol (hkeys m hm)
  exact ⟨h.numbered.same ((ht.recorded hp).1.trans hv),
    h.once.transmitted h.numbered hm hkeys ht hp hv hmessages hhistory hqueue hc⟩

theorem submitted_same (s : State) (m : ℕ) :
    Same s (s.setMessage m fun msg => { msg with submitted := true }) := by
  refine ⟨?_, rfl, fun _ hx => hx⟩
  intro x
  by_cases hx : x = m <;> simp [State.setMessage, hx]

theorem step_tracked {n : ℕ} {s u : State} {e : Event} (h : Tracked n s)
    (hok : SubmittedOnce n s e) (he : Effect s e u) : Numbered u ∧ Once n u.m_addQueue u := by
  cases he with
  | @getOutputMessage p autoSend c front m _ hf =>
    obtain ⟨free, k, hr⟩ := refill_eq s
    have ho := h.owned.refill
    rw [hr] at hf ho
    rw [hr]
    let v := { s with m_outputMessages := front, allocated := k, held := m :: s.held }
    obtain ⟨hnum, honce⟩ : Numbered v ∧ Once n v.m_addQueue v := h.still rfl rfl rfl rfl rfl
    -- what is free is in none of the lists
    have hnot : m ∉ places s.m_addQueue s := by
      intro hm
      have hkey := places_keys ho (fun x (hx : x ∈ s.m_addQueue) => hx) m hm
      exact ((ho.counts.configured m).mp hkey).2 (hf ▸ List.mem_append_right front (by simp))
    exact ⟨hnum.configureOutputMessage m p c autoSend,
      honce.configureOutputMessage hnot p c autoSend⟩
  | copy _ =>
    exact h.still rfl rfl rfl rfl rfl
  | @drop m _ =>
    obtain ⟨r, hr⟩ := dropped_eq { s with held := s.held.erase m } m
    rw [hr]
    exact h.still rfl rfl rfl rfl rfl
  | sendIgnored _ _ => exact ⟨h.numbered, h.once⟩
  | @send m hm hstate =>
    have hs := submitted_same s m
    have hkey := h.owned.mem_keys (mem_ptrs.mpr (Or.inl hm))
    have hnew : (s.messages m).serial = n → (s.messages m).submitted = false :=
      hok m (by simp [submits, hstate])
    refine ⟨h.numbered.same ⟨hs.serial, hs.handed, hs.keys⟩,
      h.once.submitted hnew hkey ⟨hs.serial, hs.handed, hs.keys⟩ rfl rfl ?_⟩
    intro x
    simp only [places, State.setMessage, List.count_append, List.count_cons, beq_iff_eq]
    omega
  | @transmit m a v hm hv =>
    obtain ⟨r, hr⟩ := dropped_eq { v with sending := s.sending.erase m } m
    have hw := hv.moved
    rw [hr]
    refine h.transmitted hv (by simp [places, hm]) (.of_eq rfl rfl rfl) rfl rfl rfl ?_
    intro x
    have hpos := List.count_pos_iff.mpr hm
    rw [List.count_append, List.count_append, List.count_erase, hw.autoSend]
    by_cases hx : x = m
    · subst hx
      simp only [beq_self_eq_true, if_true]
      omega
    · simp [Ne.symm hx]
  | @autoSend m hm =>
    have hs := submitted_same s m
    have hkey := h.owned.mem_keys (mem_ptrs.mpr (Or.inl hm))
    have hnew : (s.messages m).serial = n → (s.messages m).submitted = false :=
      hok m (by simp [submits])
    refine ⟨h.numbered.same ⟨hs.serial, hs.handed, hs.keys⟩,
      h.once.submitted hnew hkey ⟨hs.serial, hs.handed, hs.keys⟩ rfl rfl ?_⟩
    intro x
    simp only [places, autoSend, State.setMessage, List.count_append, List.count_cons,
      List.count_nil, beq_iff_eq]
    omega
  | startExecutionFrame time =>
    exact h.still rfl rfl rfl rfl rfl
  | stop =>
    exact h.still rfl rfl rfl rfl rfl
  | sendAll _ =>
    obtain ⟨hi, hs⟩ := h.once.beginSendAll h.owned h.numbered
    exact ⟨h.numbered.same hs, hi⟩
  | @sendNext m a rest v hl hv =>
    obtain ⟨r, hr⟩ := dropped_eq { v with m_autoSend := rest } m
    have hw := hv.moved
    rw [hr]
    refine h.transmitted hv (by simp [places, hl]) (.of_eq rfl rfl rfl) rfl rfl rfl ?_
    intro x
    rw [List.count_append, List.count_append, hw.sending, hl, List.count_cons]
    simp only [beq_iff_eq]
    omega
  | sendAllEnd =>
    exact h.still rfl rfl rfl rfl rfl
  | @onWrite m c f error _ =>
    obtain ⟨r, hr⟩ := dropped_eq { s.setWrite c f with writing := s.writing.erase m } m
    rw [hr]
    exact h.still rfl rfl rfl rfl rfl
  | peer c e =>
    exact h.still rfl rfl rfl rfl rfl
  | setConnection connection _ =>
    exact h.still rfl rfl rfl rfl rfl
  | keepProtocol _ => exact ⟨h.numbered, h.once⟩
  | deleteProtocol _ =>
    exact h.still rfl rfl rfl rfl rfl
  | keepConnection _ => exact ⟨h.numbered, h.once⟩
  | deleteConnection _ =>
    exact h.still rfl rfl rfl rfl rfl
  | @internalReleaseMessage m hm =>
    obtain ⟨p, c, he⟩ := h.owned.releasing hm
    have hfld := h.owned.counts.fields _ he
    rw [internalReleaseMessage_eq hfld.1 hfld.2]
    refine h.quiet ⟨?_, rfl, ?_⟩ ?_ rfl fun _ => Nat.le_refl _
    · intro x
      by_cases hx : x = m <;>
        simp [State.setMessage, State.setPeer, State.setProtocol, Message.free, hx]
    · intro x hx
      exact (List.filter_sublist.map Prod.fst).subset hx
    · intro x
      by_cases hx : x = m <;>
        simp [State.setMessage, State.setPeer, State.setProtocol, Message.free, hx]

theorem reachable_tracked {n : ℕ} {s : State} (h : machine.ReachableBy (SubmittedOnce n) s) :
    Tracked n s := by
  apply Machine.invariant_by ?_ ?_ h
  · rintro s ⟨time, forceClose, rfl⟩
    exact ⟨initial_owned time forceClose, initial_numbered time forceClose,
      initial_once time forceClose n⟩
  · intro s e u hs hok hstep
    have he := step_effect hstep
    obtain ⟨hnum, honce⟩ := step_tracked hs hok he
    exact ⟨step_owned hs.owned he, hnum, honce⟩

def Record.isFraming : Record → Bool
  | .framed _ _ => true
  | .written _ => false

structure FramedOnce (n : ℕ) (s : State) : Prop where
  framed_once : ((records s n).filter Record.isFraming).length ≤ 1
  written_framed : ∀ before after, s.history = before ++ .written n :: after →
    (before.filter fun r => r.serial = n) = [.framed n .direct] ∧
      (after.filter fun r => r.serial = n) = []
  written_once : s.history.count (.written n) ≤ 1
  unsent : ∀ why, why ≠ .direct → .framed n why ∈ s.history → .written n ∉ s.history

theorem mem_records {s : State} {n : ℕ} {r : Record} :
    r ∈ records s n ↔ r ∈ s.history ∧ r.serial = n := by
  simp [records]

theorem FramedOnce.of_outcome {n : ℕ} {s : State} (h : records s n ∈ outcomes n) :
    FramedOnce n s := by
  have hout : records s n = [] ∨ records s n = [.framed n .direct] ∨
      records s n = [.framed n .direct, .written n] ∨ records s n = [.framed n .refused] ∨
      records s n = [.framed n .dropped] := by
    simpa [outcomes] using h
  refine ⟨?_, ?_, ?_, ?_⟩
  · rcases hout with h | h | h | h | h
    · simp [h]
    all_goals
      rw [h]
      exact Nat.le_refl 1
  · intro before after he
    have hsplit : records s n = (before.filter fun r => r.serial = n) ++
        .written n :: after.filter fun r => r.serial = n := by
      simp [records, he, Record.serial]
    generalize (before.filter fun r => r.serial = n) = a at hsplit ⊢
    generalize (after.filter fun r => r.serial = n) = b at hsplit ⊢
    rw [hsplit] at hout
    -- only the third of the outcomes has a record of a write, and that is its last one
    rcases a with _ | ⟨r, _ | ⟨r', rest⟩⟩
    · simp at hout
    · simpa using hout
    · simp at hout
  · have hcount : s.history.count (.written n) = (records s n).count (.written n) := by
      rw [records, List.count_filter (by simp [Record.serial])]
    rw [hcount]
    rcases hout with h | h | h | h | h <;> simp [h]
  · intro why hne hin hw
    have hin' : .framed n why ∈ records s n := mem_records.mpr ⟨hin, rfl⟩
    have hw' : .written n ∈ records s n := mem_records.mpr ⟨hw, rfl⟩
    rcases hout with h | h | h | h | h <;> simp [h] at hin' hw'
    exact hne hin'

/-- A message submitted once is framed once before it is written, is written at most once, and is
not written when it was framed for another reason. -/
theorem submitted_once_framed_once {n : ℕ} {s : State}
    (h : machine.ReachableBy (SubmittedOnce n) s) : FramedOnce n s :=
  .of_outcome (reachable_tracked h).once.outcome

def queuedTrace : List Event :=
  [.setConnection 0 (some 0), .getOutputMessage 0 false, .getOutputMessage 0 false,
    .send 99, .transmit 99 .started, .send 98, .transmit 98 .started, .sendAll, .sendAllEnd,
    .onWrite 99 none, .startExecutionFrame 20020, .sendAll, .sendNext 98 .started]

/-- The second of two messages waits in both queues before it is written. -/
theorem queued_trace_framed_once : ∃ s, machine.run (initial 20000 false) queuedTrace = some s ∧
    s.history = [.framed 0 .direct, .written 0, .framed 1 .direct, .written 1] ∧
    FramedOnce 1 s := by
  have hrun : ∃ s, machine.run (initial 20000 false) queuedTrace = some s ∧
      s.history = [.framed 0 .direct, .written 0, .framed 1 .direct, .written 1] :=
    Machine.exists_run (by decide +kernel)
  have hall : machine.AllSteps (SubmittedOnce 1) (initial 20000 false) queuedTrace := by
    decide +kernel
  obtain ⟨s, hs, hh⟩ := hrun
  exact ⟨s, hs, hh,
    submitted_once_framed_once (Machine.run_reachable_by (.start ⟨_, _, rfl⟩) hall hs)⟩

end LoginServer.MessagePool
