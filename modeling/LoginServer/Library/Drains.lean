import Mathlib.Data.List.Basic

/-! # Draining a queue behind its own mutex

A monitor is a queue and a state behind one mutex that is not recursive. What runs while a thread
holds the mutex may itself call a function of the monitor, and that function locks the mutex
first. A drain that keeps the mutex ends with the queue empty exactly where every round returns
without such a call. -/
namespace LoginServer.Drains

/-- What a thread runs: it ends, throws, works on the rest of the program, or calls a function of
the monitor. In a state `s`, `act f next` leaves `f s` and goes on with `next s`. -/
inductive Script (σ κ : Type*) where
  | done
  | throw (caught : Bool)
  | act (f : σ → σ) (next : σ → Script σ κ)
  | call (c : κ) (next : Script σ κ)

structure Monitor (ν τ σ : Type*) where
  locked : Bool
  state : ν
  queue : List τ
  rest : σ
  deriving DecidableEq, Repr

/-- Why a run does not return: the thread locks a mutex it holds, an exception leaves the run, or
the run is longer than it is followed. -/
inductive Halt where
  | ownMutex | thrown | fuel
  deriving DecidableEq, Repr

variable {σ κ ν τ : Type*}

def Script.seq : Script σ κ → Script σ κ → Script σ κ
  | .done, q => q
  | .throw caught, _ => .throw caught
  | .act f next, q => .act f fun s => (next s).seq q
  | .call c next, q => .call c (next.seq q)

/-- The script with a handler around it. -/
def Script.guarded : Script σ κ → Script σ κ
  | .throw true => .done
  | .throw false => .throw false
  | .done => .done
  | .act f next => .act f fun s => (next s).guarded
  | .call c next => .call c next.guarded

/-- Where the script ends from `s`, if it returns and has called nothing. -/
def Script.returns : Script σ κ → σ → Option σ
  | .done, s => some s
  | .throw _, _ => none
  | .act f next, s => (next s).returns (f s)
  | .call _ _, _ => none

/-- Where the rounds over a queue end, if each returns and has called nothing. -/
def rounds (round : τ → Script σ κ) (queue : List τ) (s : σ) : Option σ :=
  queue.foldlM (fun s t => (round t).returns s) s

section Run

variable (serve : κ → Monitor ν τ σ → Except Halt (Monitor ν τ σ))

/-- A call from outside the critical sections: the mutex is locked, the call served, the mutex
unlocked. -/
def enter (c : κ) (m : Monitor ν τ σ) : Except Halt (Monitor ν τ σ) :=
  if m.locked then .error .ownMutex
  else (serve c { m with locked := true }).map fun m => { m with locked := false }

def run : Script σ κ → Monitor ν τ σ → Except Halt (Monitor ν τ σ)
  | .done, m => .ok m
  | .throw _, _ => .error .thrown
  | .act f next, m => run (next m.rest) { m with rest := f m.rest }
  | .call c next, m => (enter serve c m).bind (run next)

/-- Takes the first of the queue and runs its round, until the queue is empty. -/
def drain (round : τ → Script σ κ) : ℕ → Monitor ν τ σ → Except Halt (Monitor ν τ σ)
  | 0, _ => .error .fuel
  | fuel + 1, m =>
    match m.queue with
    | [] => .ok m
    | t :: queue => (run serve (round t) { m with queue }).bind (drain round fuel)

end Run

theorem returns_seq (p q : Script σ κ) (s : σ) :
    (p.seq q).returns s = (p.returns s).bind q.returns := by
  induction p generalizing s with
  | done => simp [Script.seq, Script.returns]
  | throw caught => simp [Script.seq, Script.returns]
  | act f next ih => simpa only [Script.seq, Script.returns] using ih s (f s)
  | call c next ih => simp [Script.seq, Script.returns]

theorem rounds_append (round : τ → Script σ κ) (before after : List τ) (s : σ) :
    rounds round (before ++ after) s =
      (rounds round before s).bind (rounds round after) := by
  simp only [rounds, List.foldlM_append]
  rfl

section Locked

variable {serve : κ → Monitor ν τ σ → Except Halt (Monitor ν τ σ)}

theorem run_of_returns {p : Script σ κ} {m : Monitor ν τ σ} {u : σ}
    (h : p.returns m.rest = some u) : run serve p m = .ok { m with rest := u } := by
  induction p generalizing m with
  | done =>
    have hu : m.rest = u := by simpa [Script.returns] using h
    simp [run, ← hu]
  | throw caught => simp [Script.returns] at h
  | act f next ih =>
    simp only [run]
    exact ih m.rest (m := { m with rest := f m.rest }) h
  | call c next ih => simp [Script.returns] at h

theorem run_of_not_returns {p : Script σ κ} {m : Monitor ν τ σ} (hm : m.locked = true)
    (h : p.returns m.rest = none) :
    run serve p m = .error .ownMutex ∨ run serve p m = .error .thrown := by
  induction p generalizing m with
  | done => simp [Script.returns] at h
  | throw caught => exact Or.inr (by simp [run])
  | act f next ih =>
    simp only [run]
    exact ih m.rest (m := { m with rest := f m.rest }) hm h
  | call c next ih =>
    left
    simp only [run, enter, if_pos hm, Except.bind]

variable {round : τ → Script σ κ}

/-- A drain whose rounds all return needs one look more than the queue is long. -/
theorem drain_of_rounds {fuel : ℕ} {m : Monitor ν τ σ} {u : σ}
    (h : rounds round m.queue m.rest = some u) :
    drain serve round fuel m =
      if m.queue.length < fuel then .ok { m with queue := [], rest := u } else .error .fuel := by
  induction fuel generalizing m with
  | zero => simp [drain]
  | succ fuel ih =>
    obtain ⟨locked, state, queue, rest⟩ := m
    cases queue with
    | nil =>
      have hu : rest = u := by simpa [rounds] using h
      simp [drain, hu]
    | cons t queue =>
      obtain ⟨v, hv, hrest⟩ : ∃ v, (round t).returns rest = some v ∧
          rounds round queue v = some u := by
        simpa [rounds, Option.bind_eq_some_iff] using h
      have hrun : run serve (round t) ⟨locked, state, queue, rest⟩ =
          .ok ⟨locked, state, queue, v⟩ := run_of_returns hv
      have hnext := ih (m := ⟨locked, state, queue, v⟩) hrest
      simp only [drain, hrun, Except.bind]
      simpa using hnext

/-- A drain one of whose rounds does not return has no end. -/
theorem drain_of_not_rounds {m : Monitor ν τ σ} (hm : m.locked = true)
    (h : rounds round m.queue m.rest = none) (fuel : ℕ) :
    ∃ halt, drain serve round fuel m = .error halt := by
  induction fuel generalizing m with
  | zero => exact ⟨_, rfl⟩
  | succ fuel ih =>
    obtain ⟨locked, state, queue, rest⟩ := m
    cases queue with
    | nil => simp [rounds] at h
    | cons t queue =>
      cases hr : (round t).returns rest with
      | none =>
        have hrun : run serve (round t) ⟨locked, state, queue, rest⟩ = .error .ownMutex ∨
            run serve (round t) ⟨locked, state, queue, rest⟩ = .error .thrown :=
          run_of_not_returns hm hr
        rcases hrun with hrun | hrun
        · exact ⟨.ownMutex, by simp only [drain, hrun, Except.bind]⟩
        · exact ⟨.thrown, by simp only [drain, hrun, Except.bind]⟩
      | some v =>
        have hrest : rounds round queue v = none := by
          simpa [rounds, hr] using h
        have hrun : run serve (round t) ⟨locked, state, queue, rest⟩ =
            .ok ⟨locked, state, queue, v⟩ := run_of_returns hr
        obtain ⟨halt, hhalt⟩ := ih (m := ⟨locked, state, queue, v⟩) hm hrest
        refine ⟨halt, ?_⟩
        simp only [drain, hrun, Except.bind]
        exact hhalt

end Locked

/-- However far it is followed, the run does not lock a mutex it holds; and it ends with the queue
empty. -/
def EndsEmpty (f : ℕ → Except Halt (Monitor ν τ σ)) : Prop :=
  (∀ fuel, f fuel ≠ .error .ownMutex) ∧ ∃ fuel m, f fuel = .ok m ∧ m.queue = []

section Enter

variable {serve : κ → Monitor ν τ σ → Except Halt (Monitor ν τ σ)} {round : τ → Script σ κ}
  {m : Monitor ν τ σ}

/-- Locks the mutex, sets the state, runs the loop and unlocks. -/
def lockedLoop (loop : ℕ → Monitor ν τ σ → Except Halt (Monitor ν τ σ)) (state : ν)
    (m : Monitor ν τ σ) (fuel : ℕ) : Except Halt (Monitor ν τ σ) :=
  enter (fun _ m => loop fuel { m with state }) () m

theorem lockedDrain_of_rounds {state : ν} {u : σ} (hm : m.locked = false)
    (h : rounds round m.queue m.rest = some u) (fuel : ℕ) :
    lockedLoop (drain serve round) state m fuel =
      if m.queue.length < fuel then .ok ⟨false, state, [], u⟩ else .error .fuel := by
  have hdrain : drain serve round fuel ⟨true, state, m.queue, m.rest⟩ =
      if m.queue.length < fuel then .ok ⟨true, state, [], u⟩ else .error .fuel :=
    drain_of_rounds h
  by_cases hfuel : m.queue.length < fuel
  · simp [lockedLoop, enter, hm, hdrain, hfuel, Except.map]
  · simp [lockedLoop, enter, hm, hdrain, hfuel, Except.map]

theorem lockedDrain_of_not_rounds {state : ν} (hm : m.locked = false)
    (h : rounds round m.queue m.rest = none) (fuel : ℕ) :
    ∃ halt, lockedLoop (drain serve round) state m fuel = .error halt := by
  obtain ⟨halt, hhalt⟩ : ∃ halt,
      drain serve round fuel ⟨true, state, m.queue, m.rest⟩ = .error halt :=
    drain_of_not_rounds (m := ⟨true, state, m.queue, m.rest⟩) rfl h fuel
  refine ⟨halt, ?_⟩
  simp [lockedLoop, enter, hm, hhalt, Except.map]

theorem lockedDrain_endsEmpty_iff {state : ν} (hm : m.locked = false) :
    EndsEmpty (lockedLoop (drain serve round) state m) ↔
      (rounds round m.queue m.rest).isSome := by
  constructor
  · rintro ⟨-, fuel, u, hu, -⟩
    rw [Option.isSome_iff_ne_none]
    intro hnone
    obtain ⟨halt, hhalt⟩ := lockedDrain_of_not_rounds hm hnone fuel
    rw [hhalt] at hu
    exact absurd hu (by simp)
  · intro h
    obtain ⟨u, hu⟩ := Option.isSome_iff_exists.mp h
    constructor
    · intro fuel
      rw [lockedDrain_of_rounds hm hu]
      split <;> simp
    · refine ⟨m.queue.length + 1, ⟨false, state, [], u⟩, ?_, by simp⟩
      rw [lockedDrain_of_rounds hm hu]
      simp

theorem lockedDrain_ended {state : ν} {fuel : ℕ} {u : Monitor ν τ σ}
    (h : lockedLoop (drain serve round) state m fuel = .ok u) :
    u.locked = false ∧ u.state = state ∧ u.queue = [] := by
  cases hm : m.locked with
  | true => simp [lockedLoop, enter, hm] at h
  | false =>
    cases hr : rounds round m.queue m.rest with
    | none =>
      obtain ⟨halt, hhalt⟩ := lockedDrain_of_not_rounds hm hr fuel
      cases hhalt.symm.trans h
    | some v =>
      rw [lockedDrain_of_rounds hm hr] at h
      split at h
      · obtain rfl := Except.ok.inj h
        simp
      · cases h

end Enter

section Keeps

variable {serve : κ → Monitor ν τ σ → Except Halt (Monitor ν τ σ)} {I : ν → List τ → Prop}

theorem run_keeps (hserve : ∀ {c m u}, serve c m = .ok u → I m.state m.queue → I u.state u.queue)
    {p : Script σ κ} {m u : Monitor ν τ σ} (h : run serve p m = .ok u)
    (hi : I m.state m.queue) : I u.state u.queue := by
  induction p generalizing m with
  | done =>
    obtain rfl : m = u := by simpa [run] using h
    exact hi
  | throw caught => simp [run] at h
  | act f next ih => exact ih m.rest h hi
  | call c next ih =>
    simp only [run, enter] at h
    split at h
    · simp [Except.bind] at h
    · cases hc : serve c { m with locked := true } with
      | error halt => simp [hc, Except.map, Except.bind] at h
      | ok v =>
        have hv : I v.state v.queue := hserve hc hi
        rw [hc] at h
        exact ih h hv

end Keeps

end LoginServer.Drains
