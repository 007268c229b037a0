import LoginServer.Library.Runs
import Mathlib.Algebra.BigOperators.Group.Finset.Basic
import Mathlib.Algebra.Order.BigOperators.Group.Finset
import Mathlib.Data.Fintype.Card
import Mathlib.Data.Fintype.EquivFin
import Mathlib.Data.List.Basic
import Mathlib.Logic.Function.Basic

/-! # Threads that take mutexes

What a thread has still to do is a list of instructions: it locks, unlocks, or takes an action
that changes the shared state and says what comes next. Where every action keeps to an order of
the mutexes, no threads wait for each other in a circle. -/
namespace LoginServer.Locks

open Runs

variable {T L A σ ι : Type*}

inductive Instr (L A : Type*) where
  | lock (l : L)
  | unlock (l : L)
  | act (a : A)
  deriving DecidableEq, Repr

/-- `held` lists a recursive mutex as often as it is locked. -/
structure Config (T L A σ : Type*) where
  shared : σ
  held : T → List L
  code : T → List (Instr L A)

/-- An action is answered with the choice its environment makes, or has no next state. -/
structure Program (L A σ ι : Type*) where
  recursive : L → Bool
  exec : ι → σ → A → Option (σ × List (Instr L A))

variable (P : Program L A σ ι)

/-- Nothing keeps the thread from locking the mutex. -/
def Free (c : Config T L A σ) (t : T) (l : L) : Prop :=
  ∀ u, l ∈ c.held u → u = t ∧ P.recursive l = true

instance [Fintype T] [DecidableEq T] [DecidableEq L] (c : Config T L A σ) (t : T) (l : L) :
    Decidable (Free P c t l) :=
  inferInstanceAs (Decidable (∀ _, _))

/-- The thread waits for a mutex that the other one holds; a mutex that is not recursive can make
a thread wait for itself. -/
def Waits (c : Config T L A σ) (t u : T) : Prop :=
  ∃ l rest, c.code t = .lock l :: rest ∧ l ∈ c.held u ∧ (u = t → P.recursive l = false)

section Proceed

variable [DecidableEq T]

def Config.proceed (c : Config T L A σ) (t : T) (s : σ) (h : List L) (code : List (Instr L A)) :
    Config T L A σ where
  shared := s
  held := Function.update c.held t h
  code := Function.update c.code t code

@[simp] theorem proceed_shared (c : Config T L A σ) (t : T) (s : σ) (h : List L)
    (code : List (Instr L A)) : (c.proceed t s h code).shared = s := rfl

@[simp] theorem proceed_held (c : Config T L A σ) (t : T) (s : σ) (h : List L)
    (code : List (Instr L A)) : (c.proceed t s h code).held = Function.update c.held t h := rfl

@[simp] theorem proceed_code (c : Config T L A σ) (t : T) (s : σ) (h : List L)
    (code : List (Instr L A)) : (c.proceed t s h code).code = Function.update c.code t code := rfl

end Proceed

section Step

variable [Fintype T] [DecidableEq T] [DecidableEq L]

def step (c : Config T L A σ) : T × ι → Option (Config T L A σ)
  | (t, i) =>
    match c.code t with
    | [] => none
    | .lock l :: rest =>
      if Free P c t l then some (c.proceed t c.shared (l :: c.held t) rest) else none
    | .unlock l :: rest => some (c.proceed t c.shared ((c.held t).erase l) rest)
    | .act a :: rest =>
      (P.exec i c.shared a).map fun r => c.proceed t r.1 (c.held t) (r.2 ++ rest)

def machine (start : Config T L A σ → Prop) : Machine (Config T L A σ) (T × ι) where
  start := start
  step := step P

theorem step_shared {c d : Config T L A σ} {t : T} {i : ι} (hd : step P c (t, i) = some d) :
    d.shared = c.shared ∨
      ∃ a rest r, c.code t = .act a :: rest ∧ P.exec i c.shared a = some r ∧ d.shared = r.1 := by
  rw [step] at hd
  split at hd
  · cases hd
  · split at hd <;> cases hd
    exact Or.inl rfl
  · cases hd
    exact Or.inl rfl
  · rename_i a rest hcode
    obtain ⟨r, hr, rfl⟩ := Option.map_eq_some_iff.mp hd
    exact Or.inr ⟨a, rest, r, hcode, hr, rfl⟩

theorem step_code {c d : Config T L A σ} {t : T} {i : ι} (hd : step P c (t, i) = some d) :
    (∃ l rest, (c.code t = .lock l :: rest ∨ c.code t = .unlock l :: rest) ∧
      d.shared = c.shared ∧ d.code = Function.update c.code t rest) ∨
    ∃ a rest r, c.code t = .act a :: rest ∧ P.exec i c.shared a = some r ∧
      d = c.proceed t r.1 (c.held t) (r.2 ++ rest) := by
  rw [step] at hd
  split at hd
  · cases hd
  · rename_i l rest hcode
    split at hd <;> cases hd
    exact Or.inl ⟨l, rest, Or.inl hcode, rfl, rfl⟩
  · rename_i l rest hcode
    cases hd
    exact Or.inl ⟨l, rest, Or.inr hcode, rfl, rfl⟩
  · rename_i a rest hcode
    obtain ⟨r, hr, rfl⟩ := Option.map_eq_some_iff.mp hd
    exact Or.inr ⟨a, rest, r, hcode, hr, rfl⟩

/-- What holds of the code of every thread goes on to hold where no instruction destroys it. -/
theorem step_each {Q : T → List (Instr L A) → Prop} {c d : Config T L A σ} {t : T} {i : ι}
    (h : ∀ u, Q u (c.code u))
    (hl : ∀ l rest, Q t (.lock l :: rest) ∨ Q t (.unlock l :: rest) → Q t rest)
    (ha : ∀ a rest r, c.code t = .act a :: rest → P.exec i c.shared a = some r →
      Q t (.act a :: rest) → Q t (r.2 ++ rest))
    (hd : step P c (t, i) = some d) (u : T) : Q u (d.code u) := by
  have ht := h t
  rcases step_code P hd with ⟨l, rest, hcode, _, hd⟩ | ⟨a, rest, r, hcode, hr, rfl⟩
  · rw [hd]
    by_cases hu : u = t
    · subst hu
      rw [Function.update_self]
      apply hl l rest
      rcases hcode with hcode | hcode
      · exact Or.inl (hcode ▸ ht)
      · exact Or.inr (hcode ▸ ht)
    · rw [Function.update_of_ne hu]
      exact h u
  · rw [proceed_code]
    by_cases hu : u = t
    · subst hu
      rw [Function.update_self]
      exact ha a rest r hcode hr (hcode ▸ ht)
    · rw [Function.update_of_ne hu]
      exact h u

end Step

/-! ## The order -/

/-- What an action needs of the mutexes its thread holds, and what it leaves of them once all it
starts is done. -/
structure Discipline (L A : Type*) where
  rank : L → ℕ
  pre : List L → A → Prop
  post : List L → A → List L

variable (D : Discipline L A)

def MayLock (h : List L) (l : L) : Prop :=
  l ∈ h ∧ P.recursive l = true ∨ ∀ k ∈ h, D.rank k < D.rank l

theorem exclusive_proceed [DecidableEq T] {c : Config T L A σ} {t : T} {s : σ} {h : List L}
    {code : List (Instr L A)} (hc : ∀ t u l, l ∈ c.held t → l ∈ c.held u → t = u)
    (hn : ∀ l ∈ h, l ∈ c.held t ∨ ∀ u, l ∈ c.held u → u = t) :
    ∀ u v l, l ∈ (c.proceed t s h code).held u → l ∈ (c.proceed t s h code).held v → u = v := by
  have hown : ∀ u l, u ≠ t → l ∈ h → l ∉ c.held u := by
    intro u l hu hl hin
    rcases hn l hl with ht | ht
    · exact hu (hc u t l hin ht)
    · exact hu (ht u hin)
  intro u v l hu hv
  rw [proceed_held] at hu hv
  by_cases hut : u = t <;> by_cases hvt : v = t
  · exact hut.trans hvt.symm
  · subst hut
    rw [Function.update_self] at hu
    rw [Function.update_of_ne hvt] at hv
    exact absurd hv (hown v l hvt hu)
  · subst hvt
    rw [Function.update_self] at hv
    rw [Function.update_of_ne hut] at hu
    exact absurd hu (hown u l hut hv)
  · rw [Function.update_of_ne hut] at hu
    rw [Function.update_of_ne hvt] at hv
    exact hc u v l hu hv

section Order

variable [DecidableEq L]

/-- The instructions keep to the order from one list of held mutexes to another. -/
def Ordered : List L → List (Instr L A) → List L → Prop
  | h, [], k => h = k
  | h, .lock l :: rest, k => MayLock P D h l ∧ Ordered (l :: h) rest k
  | h, .unlock l :: rest, k => l ∈ h ∧ Ordered (h.erase l) rest k
  | h, .act a :: rest, k => D.pre h a ∧ Ordered (D.post h a) rest k

theorem ordered_append {h k m : List L} {code rest : List (Instr L A)}
    (hc : Ordered P D h code k) (hr : Ordered P D k rest m) : Ordered P D h (code ++ rest) m := by
  induction code generalizing h with
  | nil => exact (show h = k from hc) ▸ hr
  | cons i code ih =>
    cases i with
    | lock l => exact ⟨hc.1, ih hc.2⟩
    | unlock l => exact ⟨hc.1, ih hc.2⟩
    | act a => exact ⟨hc.1, ih hc.2⟩

theorem ordered_locked {h : List L} {l : L} {code : List (Instr L A)} (hl : MayLock P D h l)
    (hc : Ordered P D (l :: h) code (l :: h)) :
    Ordered P D h (.lock l :: code ++ [.unlock l]) h := by
  refine ⟨hl, ordered_append P D hc ⟨List.mem_cons_self, ?_⟩⟩
  exact List.erase_cons_head l h

def Sound (i : ι) (s : σ) (a : A) : Prop :=
  ∀ h r, D.pre h a → P.exec i s a = some r → Ordered P D h r.2 (D.post h a)

/-- No mutex has two owners, and every thread keeps to the order until it holds nothing. -/
structure Orderly (c : Config T L A σ) : Prop where
  exclusive : ∀ t u l, l ∈ c.held t → l ∈ c.held u → t = u
  ordered : ∀ t, Ordered P D (c.held t) (c.code t) []

variable {P D}

theorem ordered_proceed [DecidableEq T] {c : Config T L A σ} {t : T} {s : σ} {h : List L}
    {code : List (Instr L A)} (hc : ∀ u, Ordered P D (c.held u) (c.code u) [])
    (hn : Ordered P D h code []) (u : T) :
    Ordered P D ((c.proceed t s h code).held u) ((c.proceed t s h code).code u) [] := by
  by_cases hu : u = t
  · subst hu
    simpa using hn
  · simpa [hu] using hc u

theorem step_orderly [Fintype T] [DecidableEq T] {c d : Config T L A σ} {t : T} {i : ι}
    (h : Orderly P D c)
    (hs : ∀ a rest, c.code t = .act a :: rest → Sound P D i c.shared a)
    (hd : step P c (t, i) = some d) : Orderly P D d := by
  have ht := h.ordered t
  rw [step] at hd
  split at hd
  · cases hd
  · rename_i l rest hcode
    rw [hcode] at ht
    split at hd
    · rename_i hfree
      cases hd
      refine ⟨exclusive_proceed h.exclusive ?_, ordered_proceed h.ordered ht.2⟩
      intro k hk
      rcases List.mem_cons.mp hk with rfl | hk
      · exact Or.inr fun u hu => (hfree u hu).1
      · exact Or.inl hk
    · cases hd
  · rename_i l rest hcode
    rw [hcode] at ht
    cases hd
    exact ⟨exclusive_proceed h.exclusive fun k hk => Or.inl (List.mem_of_mem_erase hk),
      ordered_proceed h.ordered ht.2⟩
  · rename_i a rest hcode
    rw [hcode] at ht
    obtain ⟨r, hr, rfl⟩ := Option.map_eq_some_iff.mp hd
    exact ⟨exclusive_proceed h.exclusive fun k hk => Or.inl hk,
      ordered_proceed h.ordered (ordered_append P D (hs a rest hcode _ r ht.1 hr) ht.2)⟩

theorem waits_rank {c : Config T L A σ} (h : Orderly P D c) {t u : T} (hw : Waits P c t u) :
    ∃ l ∈ c.held u, ∀ k ∈ c.held t, D.rank k < D.rank l := by
  obtain ⟨l, rest, hcode, hl, hself⟩ := hw
  have ht := h.ordered t
  rw [hcode] at ht
  refine ⟨l, hl, ?_⟩
  rcases ht.1 with ⟨hin, hrec⟩ | hlt
  · rw [hself (h.exclusive u t l hl hin)] at hrec
    cases hrec
  · exact hlt

theorem waits_chain {c : Config T L A σ} (h : Orderly P D c) {t u : T}
    (hw : Relation.TransGen (Waits P c) t u) :
    ∃ l ∈ c.held u, ∀ k ∈ c.held t, D.rank k < D.rank l := by
  induction hw with
  | single hw => exact waits_rank h hw
  | tail _ hw ih =>
    obtain ⟨l, hl, hlt⟩ := ih
    obtain ⟨m, hm, hlt'⟩ := waits_rank h hw
    exact ⟨m, hm, fun k hk => Nat.lt_trans (hlt k hk) (hlt' l hl)⟩

theorem no_cycle {c : Config T L A σ} (h : Orderly P D c) (t : T) :
    ¬ Relation.TransGen (Waits P c) t t := by
  intro hw
  obtain ⟨l, hl, hlt⟩ := waits_chain h hw
  exact Nat.lt_irrefl _ (hlt l hl)

end Order

/-! ## What is guarded -/

section Guards

variable [DecidableEq L] (guard : A → Option L) (post : List L → A → List L)

/-- The instructions take every action under its mutex, from one list of held mutexes to another. -/
def Covered : List L → List (Instr L A) → List L → Prop
  | h, [], k => h = k
  | h, .lock l :: rest, k => Covered (l :: h) rest k
  | h, .unlock l :: rest, k => Covered (h.erase l) rest k
  | h, .act a :: rest, k => (∀ l ∈ guard a, l ∈ h) ∧ Covered (post h a) rest k

theorem covered_append {h k m : List L} {code rest : List (Instr L A)}
    (hc : Covered guard post h code k) (hr : Covered guard post k rest m) :
    Covered guard post h (code ++ rest) m := by
  induction code generalizing h with
  | nil => exact (show h = k from hc) ▸ hr
  | cons i code ih =>
    cases i with
    | lock l => exact ih hc
    | unlock l => exact ih hc
    | act a => exact ⟨hc.1, ih hc.2⟩

variable {P guard post}

/-- What an action starts is covered, so every step leaves all that the threads have to do so. -/
theorem step_covered [Fintype T] [DecidableEq T] {c d : Config T L A σ} {t : T} {i : ι}
    (h : ∀ u, Covered guard post (c.held u) (c.code u) [])
    (hs : ∀ a rest r, c.code t = .act a :: rest → (∀ l ∈ guard a, l ∈ c.held t) →
      P.exec i c.shared a = some r → Covered guard post (c.held t) r.2 (post (c.held t) a))
    (hd : step P c (t, i) = some d) (u : T) : Covered guard post (d.held u) (d.code u) [] := by
  have ht := h t
  have hproceed : ∀ {s k code}, Covered guard post k code [] →
      Covered guard post ((c.proceed t s k code).held u) ((c.proceed t s k code).code u) [] := by
    intro s k code hk
    by_cases hu : u = t
    · subst hu
      simpa using hk
    · simpa [hu] using h u
  rw [step] at hd
  split at hd
  · cases hd
  · rename_i l rest hcode
    rw [hcode] at ht
    split at hd <;> cases hd
    exact hproceed ht
  · rename_i l rest hcode
    rw [hcode] at ht
    cases hd
    exact hproceed ht
  · rename_i a rest hcode
    rw [hcode] at ht
    obtain ⟨r, hr, rfl⟩ := Option.map_eq_some_iff.mp hd
    exact hproceed (covered_append guard post (hs a rest r hcode ht.1 hr) ht.2)

/-- While a thread holds a mutex, no other thread takes an action that the mutex guards, so a view
of the shared state that only such actions change stays as it is. -/
theorem step_view [Fintype T] [DecidableEq T] {τ : Type*} {c d : Config T L A σ} {t u : T} {i : ι}
    {l : L} {view : σ → τ} (hx : ∀ t u l, l ∈ c.held t → l ∈ c.held u → t = u)
    (h : ∀ u, Covered guard post (c.held u) (c.code u) [])
    (hv : ∀ a r, guard a ≠ some l → P.exec i c.shared a = some r → view r.1 = view c.shared)
    (hl : l ∈ c.held t) (hne : u ≠ t) (hd : step P c (u, i) = some d) :
    view d.shared = view c.shared := by
  rcases step_shared P hd with hs | ⟨a, rest, r, hcode, hr, hs⟩
  · rw [hs]
  · rw [hs]
    apply hv a r ?_ hr
    intro hg
    have hu := h u
    rw [hcode] at hu
    exact hne (hx u t l (hu.1 l hg) hl)

theorem step_held_other [Fintype T] [DecidableEq T] {c d : Config T L A σ} {t u : T} {i : ι}
    (hne : u ≠ t) (hd : step P c (u, i) = some d) : d.held t = c.held t := by
  rw [step] at hd
  split at hd
  · cases hd
  · split at hd <;> cases hd
    exact Function.update_of_ne hne.symm _ _
  · cases hd
    exact Function.update_of_ne hne.symm _ _
  · obtain ⟨r, _, rfl⟩ := Option.map_eq_some_iff.mp hd
    exact Function.update_of_ne hne.symm _ _

end Guards

/-! ## What the threads have still to do -/

def load (w : A → ℕ) : List (Instr L A) → ℕ
  | [] => 0
  | .lock _ :: rest => load w rest
  | .unlock _ :: rest => load w rest
  | .act a :: rest => w a + load w rest

@[simp] theorem load_append (w : A → ℕ) (code rest : List (Instr L A)) :
    load w (code ++ rest) = load w code + load w rest := by
  induction code with
  | nil => simp [load]
  | cons i code ih =>
    cases i with
    | lock l => exact ih
    | unlock l => exact ih
    | act a => simp [load, ih, Nat.add_assoc]

theorem load_eq_zero {w : A → ℕ} {code : List (Instr L A)} :
    load w code = 0 ↔ ∀ a, .act a ∈ code → w a = 0 := by
  induction code with
  | nil => simp [load]
  | cons i code ih =>
    cases i with
    | lock l => simpa [load] using ih
    | unlock l => simpa [load] using ih
    | act a => simp [load, ih]

theorem load_mono {v w : A → ℕ} (h : ∀ a, v a ≤ w a) (code : List (Instr L A)) :
    load v code ≤ load w code := by
  induction code with
  | nil => exact Nat.le_refl _
  | cons i code ih =>
    cases i with
    | lock l => exact ih
    | unlock l => exact ih
    | act a => exact Nat.add_le_add (h a) ih

theorem step_loads [Fintype T] [DecidableEq T] [DecidableEq L] {P : Program L A σ ι}
    {c d : Config T L A σ} {t : T} {i : ι} (hd : step P c (t, i) = some d) :
    (d.shared = c.shared ∧ ∀ (w : A → ℕ) u, load w (d.code u) = load w (c.code u)) ∨
    ∃ a rest r, c.code t = .act a :: rest ∧ P.exec i c.shared a = some r ∧ d.shared = r.1 ∧
      d.code t = r.2 ++ rest ∧ ∀ u, u ≠ t → d.code u = c.code u := by
  rcases step_code P hd with ⟨l, rest, hcode, hs, hd⟩ | ⟨a, rest, r, hcode, hr, rfl⟩
  · refine Or.inl ⟨hs, fun w u => ?_⟩
    rw [hd]
    by_cases hu : u = t
    · subst hu
      rw [Function.update_self]
      rcases hcode with hcode | hcode <;> rw [hcode] <;> rfl
    · rw [Function.update_of_ne hu]
  · refine Or.inr ⟨a, rest, r, hcode, hr, rfl, ?_, fun u hu => ?_⟩
    · simp
    · simp [hu]

/-- A weight of the shared state and of what all threads have still to do. -/
def weight [Fintype T] (v : σ → ℕ) (w : A → ℕ) (c : Config T L A σ) : ℕ :=
  v c.shared + ∑ t, load w (c.code t)

theorem weight_proceed [Fintype T] [DecidableEq T] (v : σ → ℕ) (w : A → ℕ)
    (c : Config T L A σ) (t : T) (s : σ) (h : List L) (code : List (Instr L A)) :
    weight v w (c.proceed t s h code) + v c.shared + load w (c.code t) =
      weight v w c + v s + load w code := by
  have hrest : ∑ u ∈ Finset.univ.erase t, load w (Function.update c.code t code u) =
      ∑ u ∈ Finset.univ.erase t, load w (c.code u) := by
    apply Finset.sum_congr rfl
    intro u hu
    rw [Function.update_of_ne (Finset.ne_of_mem_erase hu)]
  have hnew := Finset.add_sum_erase Finset.univ (fun u => load w (Function.update c.code t code u))
    (Finset.mem_univ t)
  have hold := Finset.add_sum_erase Finset.univ (fun u => load w (c.code u)) (Finset.mem_univ t)
  rw [Function.update_self] at hnew
  simp only [weight, proceed_shared, proceed_code]
  omega

theorem step_weight [Fintype T] [DecidableEq T] [DecidableEq L] {P : Program L A σ ι}
    {v : σ → ℕ} {w : A → ℕ} {c d : Config T L A σ} {t : T} {i : ι}
    (hs : ∀ a rest r, c.code t = .act a :: rest → P.exec i c.shared a = some r →
      v r.1 + load w r.2 ≤ v c.shared + w a)
    (hd : step P c (t, i) = some d) : weight v w d ≤ weight v w c := by
  rw [step] at hd
  split at hd
  · cases hd
  · rename_i l rest hcode
    split at hd
    · cases hd
      have hw := weight_proceed v w c t c.shared (l :: c.held t) rest
      simp only [hcode, load] at hw
      omega
    · cases hd
  · rename_i l rest hcode
    cases hd
    have hw := weight_proceed v w c t c.shared ((c.held t).erase l) rest
    simp only [hcode, load] at hw
    omega
  · rename_i a rest hcode
    obtain ⟨r, hr, rfl⟩ := Option.map_eq_some_iff.mp hd
    have hle := hs a rest r hcode hr
    have hw := weight_proceed v w c t r.1 (c.held t) (r.2 ++ rest)
    simp only [hcode, load, load_append] at hw
    omega

def cost (spent : A → ℕ) (c : Config T L A σ) (e : T × ι) (_ : Config T L A σ) : ℕ :=
  match c.code e.1 with
  | .act a :: _ => spent a
  | _ => 0

theorem step_spends [Fintype T] [DecidableEq T] [DecidableEq L] {P : Program L A σ ι}
    {v : σ → ℕ} {w spent : A → ℕ} {c d : Config T L A σ} {t : T} {i : ι}
    (hs : ∀ a rest r, c.code t = .act a :: rest → P.exec i c.shared a = some r →
      spent a + (v r.1 + load w r.2) ≤ v c.shared + w a)
    (hd : step P c (t, i) = some d) : cost spent c (t, i) d + weight v w d ≤ weight v w c := by
  cases hcode : c.code t with
  | nil =>
    rw [step, hcode] at hd
    cases hd
  | cons instr rest =>
    cases instr with
    | lock l =>
      rw [cost, hcode, Nat.zero_add]
      exact step_weight (fun a rest' r h => by rw [hcode] at h; cases h) hd
    | unlock l =>
      rw [cost, hcode, Nat.zero_add]
      exact step_weight (fun a rest' r h => by rw [hcode] at h; cases h) hd
    | act a =>
      rw [step, hcode] at hd
      obtain ⟨r, hr, rfl⟩ := Option.map_eq_some_iff.mp hd
      have hle := hs a rest r hcode hr
      have hw := weight_proceed v w c t r.1 (c.held t) (r.2 ++ rest)
      simp only [hcode, load, load_append] at hw
      simp only [cost, hcode]
      omega

theorem le_weight [Fintype T] [DecidableEq T] (v : σ → ℕ) (w : A → ℕ) {c : Config T L A σ}
    {t : T} {a : A} {rest : List (Instr L A)} (hcode : c.code t = .act a :: rest) :
    v c.shared + w a ≤ weight v w c := by
  have hsum := Finset.add_sum_erase Finset.univ (fun u => load w (c.code u)) (Finset.mem_univ t)
  simp only [hcode, load] at hsum
  rw [weight]
  omega

theorem load_le_weight [Fintype T] [DecidableEq T] (v : σ → ℕ) (w : A → ℕ) (c : Config T L A σ)
    (t : T) : v c.shared + load w (c.code t) ≤ weight v w c := by
  have hsum := Finset.add_sum_erase Finset.univ (fun u => load w (c.code u)) (Finset.mem_univ t)
  rw [weight]
  omega

theorem weight_eq_zero [Fintype T] {v : σ → ℕ} {w : A → ℕ} {c : Config T L A σ} :
    weight v w c = 0 ↔ v c.shared = 0 ∧ ∀ t, load w (c.code t) = 0 := by
  simp [weight, Finset.sum_eq_zero_iff]

theorem load_add (v w : A → ℕ) (code : List (Instr L A)) :
    load (fun a => v a + w a) code = load v code + load w code := by
  induction code with
  | nil => rfl
  | cons i code ih =>
    cases i with
    | lock l => exact ih
    | unlock l => exact ih
    | act a =>
      simp only [load, ih]
      omega

theorem weight_add [Fintype T] (v v' : σ → ℕ) (w w' : A → ℕ) (c : Config T L A σ) :
    weight (fun s => v s + v' s) (fun a => w a + w' a) c = weight v w c + weight v' w' c := by
  simp only [weight, load_add, Finset.sum_add_distrib]
  omega

/-! ## What is done inside a mutex -/

section Inside

variable [DecidableEq L] (l : L) (back w : A → ℕ)

/-- How often the instructions give a mutex back, less how often they take it. -/
def net : List (Instr L A) → ℤ
  | [] => 0
  | .lock k :: rest => net rest - if k = l then 1 else 0
  | .unlock k :: rest => net rest + if k = l then 1 else 0
  | .act a :: rest => net rest + back a

/-- Whatever is left of the instructions gives the mutex back as often as it takes it, or more. -/
def Settles : List (Instr L A) → Prop
  | [] => True
  | i :: rest => 0 ≤ net l back (i :: rest) ∧ Settles rest

/-- As long as there is something left that weighs, the mutex is still to be given back. -/
def Inside : List (Instr L A) → Prop
  | [] => True
  | i :: rest => (load w (i :: rest) = 0 ∨ 1 ≤ net l back (i :: rest)) ∧ Inside rest

variable {l back w}

theorem net_append (code rest : List (Instr L A)) :
    net l back (code ++ rest) = net l back code + net l back rest := by
  induction code with
  | nil => simp [net]
  | cons i code ih => cases i <;> simp only [List.cons_append, net, ih] <;> omega

theorem Inside.one_le_net {code : List (Instr L A)} (h : Inside l back w code)
    (hw : load w code ≠ 0) : 1 ≤ net l back code := by
  cases code with
  | nil => exact absurd rfl hw
  | cons i code => exact h.1.resolve_left hw

theorem inside_append {code rest : List (Instr L A)} (hs : Settles l back code)
    (h : load w code = 0 ∨ 1 ≤ net l back rest) (hr : Inside l back w rest) :
    Inside l back w (code ++ rest) := by
  induction code with
  | nil => exact hr
  | cons i code ih =>
    have hload : load w (i :: (code ++ rest)) = load w (i :: code) + load w rest :=
      load_append w (i :: code) rest
    have hnet : net l back (i :: (code ++ rest)) =
        net l back (i :: code) + net l back rest :=
      net_append (i :: code) rest
    have hpos := hs.1
    have hcode : load w code ≤ load w (i :: code) := by
      cases i <;> simp [load]
    refine ⟨?_, ih hs.2 (h.imp_left fun h => by omega)⟩
    change load w (i :: (code ++ rest)) = 0 ∨ 1 ≤ net l back (i :: (code ++ rest))
    by_cases hw : load w rest = 0
    · rcases h with h | h
      · exact Or.inl (by omega)
      · exact Or.inr (by omega)
    · have hrest := hr.one_le_net hw
      exact Or.inr (by omega)

variable {P : Program L A σ ι} {D : Discipline L A}

theorem ordered_net (hb : ∀ h a, D.pre h a → (D.post h a).count l + back a = h.count l)
    {h k : List L} {code : List (Instr L A)} (hc : Ordered P D h code k) :
    (h.count l : ℤ) = net l back code + k.count l := by
  induction code generalizing h with
  | nil =>
    obtain rfl : h = k := hc
    exact (Int.zero_add _).symm
  | cons i code ih =>
    cases i with
    | lock m =>
      have hrest := ih hc.2
      rw [List.count_cons] at hrest
      simp only [net]
      by_cases hm : m = l
      · simp only [hm, beq_self_eq_true, if_true] at hrest ⊢
        omega
      · simp only [beq_iff_eq, hm, if_false] at hrest ⊢
        omega
    | unlock m =>
      have hrest := ih hc.2
      have hcount : (h.erase m).count l = h.count l - if m == l then 1 else 0 := List.count_erase
      have hin : 0 < h.count m := List.count_pos_iff.mpr hc.1
      simp only [net]
      by_cases hm : m = l
      · subst hm
        simp only [if_true, beq_self_eq_true] at hcount ⊢
        omega
      · simp only [beq_iff_eq, hm, if_false] at hcount ⊢
        omega
    | act a =>
      have hrest := ih hc.2
      have hback := hb h a hc.1
      simp only [net]
      omega

theorem ordered_settles (hb : ∀ h a, D.pre h a → (D.post h a).count l + back a = h.count l)
    {h k : List L} {code : List (Instr L A)} (hk : k.count l = 0) (hc : Ordered P D h code k) :
    Settles l back code := by
  induction code generalizing h with
  | nil => trivial
  | cons i code ih =>
    have hnet := ordered_net hb hc
    refine ⟨by omega, ?_⟩
    cases i with
    | lock m => exact ih hc.2
    | unlock m => exact ih hc.2
    | act a => exact ih hc.2

end Inside

/-! ## Threads that go on -/

section Progress

variable [Fintype T] [DecidableEq T] [DecidableEq L] [Inhabited ι] {P : Program L A σ ι}
  {c : Config T L A σ}

theorem step_or_waits {t : T} (hne : c.code t ≠ [])
    (ha : ∀ a rest, c.code t = .act a :: rest → ∃ i, (P.exec i c.shared a).isSome = true) :
    (∃ i, (step P c (t, i)).isSome = true) ∨ ∃ u, Waits P c t u := by
  cases hcode : c.code t with
  | nil => exact absurd hcode hne
  | cons instr rest =>
    cases instr with
    | lock l =>
      by_cases hfree : Free P c t l
      · exact Or.inl ⟨default, by simp [step, hcode, hfree]⟩
      · right
        simp only [Free, not_forall, not_and, Bool.not_eq_true] at hfree
        obtain ⟨u, hu, hself⟩ := hfree
        exact ⟨u, l, rest, hcode, hu, hself⟩
    | unlock l => exact Or.inl ⟨default, by simp [step, hcode]⟩
    | act a =>
      obtain ⟨i, hi⟩ := ha a rest hcode
      exact Or.inl ⟨i, by simpa [step, hcode] using hi⟩

/-- Where no threads wait in a circle, every thread goes on, or waits in the end for one that
does. -/
theorem waits_for_step (hne : ∀ t, c.code t ≠ [])
    (ha : ∀ t a rest, c.code t = .act a :: rest → ∃ i, (P.exec i c.shared a).isSome = true)
    (hc : ∀ t, ¬ Relation.TransGen (Waits P c) t t) (t : T) :
    ∃ u, Relation.ReflTransGen (Waits P c) t u ∧ ∃ i, (step P c (u, i)).isSome = true := by
  have hirrefl : Std.Irrefl fun u t => Relation.TransGen (Waits P c) t u := ⟨hc⟩
  have htrans : IsTrans T fun u t => Relation.TransGen (Waits P c) t u :=
    ⟨fun _ _ _ h k => k.trans h⟩
  have hwf : WellFounded fun u t => Relation.TransGen (Waits P c) t u :=
    Finite.wellFounded_of_trans_of_irrefl _
  induction t using hwf.induction with
  | _ t ih =>
    rcases step_or_waits (hne t) (ha t) with hstep | ⟨u, hu⟩
    · exact ⟨t, .refl, hstep⟩
    · obtain ⟨v, hv, hstep⟩ := ih u (.single hu)
      exact ⟨v, .head hu hv, hstep⟩

end Progress

end LoginServer.Locks
