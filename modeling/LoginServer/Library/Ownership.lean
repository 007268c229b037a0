import Mathlib.Data.List.Basic
import Mathlib.Data.List.Nodup
import Mathlib.Logic.ExistsUnique
import Mathlib.Logic.Function.Basic

/-! # Items that move from a queue through a holder to their end

Any number of holders take items from one queue, one item each, and finish them. Whatever was
accepted is then in one place: in the queue, with one holder, or finished. Items that are made
with the next number of a counter are told apart by their numbers. -/
namespace LoginServer.Ownership

structure Pool (H T : Type*) where
  queue : List T
  holds : H → Option T
  finished : List T
  accepted : List T

variable {H T : Type*}

namespace Pool

/-- All that may happen to the items. -/
inductive Moved [DecidableEq H] : Pool H T → Pool H T → Prop where
  | same {p} : Moved p p
  | accept {p t} : t ∉ p.accepted →
      Moved p { p with queue := p.queue ++ [t], accepted := p.accepted ++ [t] }
  | take {p h t rest} : p.queue = t :: rest → p.holds h = none →
      Moved p { p with queue := rest, holds := Function.update p.holds h (some t) }
  | finish {p h t} : p.holds h = some t →
      Moved p { p with holds := Function.update p.holds h none, finished := p.finished ++ [t] }

/-- Items are accepted once, and each is in a place of its own. -/
structure Owned (p : Pool H T) : Prop where
  queued : p.queue.Nodup
  finished : p.finished.Nodup
  apart : ∀ t ∈ p.queue, t ∉ p.finished
  held : ∀ h t, p.holds h = some t → t ∉ p.queue ∧ t ∉ p.finished
  holder : ∀ h k t, p.holds h = some t → p.holds k = some t → h = k
  accounted : ∀ t, t ∈ p.accepted ↔ t ∈ p.queue ∨ t ∈ p.finished ∨ ∃ h, p.holds h = some t

/-- Every accepted item is in the queue, has one holder, or has been finished once. -/
def Once (p : Pool H T) : Prop :=
  p.queue.Nodup ∧ p.finished.Nodup ∧ ∀ t ∈ p.accepted,
    t ∈ p.queue ∧ (∀ h, p.holds h ≠ some t) ∧ t ∉ p.finished ∨
    t ∉ p.queue ∧ (∃! h, p.holds h = some t) ∧ t ∉ p.finished ∨
    t ∉ p.queue ∧ (∀ h, p.holds h ≠ some t) ∧ t ∈ p.finished

theorem Owned.once {p : Pool H T} (ho : p.Owned) : p.Once := by
  refine ⟨ho.queued, ho.finished, fun t ht => ?_⟩
  rcases (ho.accounted t).mp ht with hq | hf | ⟨h, hh⟩
  · exact .inl ⟨hq, fun h hh => (ho.held h t hh).1 hq, ho.apart t hq⟩
  · exact .inr (.inr ⟨fun hq => ho.apart t hq hf, fun h hh => (ho.held h t hh).2 hf, hf⟩)
  · have hout := ho.held h t hh
    exact .inr (.inl ⟨hout.1, ⟨h, hh, fun k hk => ho.holder k h t hk hh⟩, hout.2⟩)

theorem owned_empty {p : Pool H T} (hq : p.queue = []) (hf : p.finished = [])
    (ha : p.accepted = []) (hh : ∀ h, p.holds h = none) : p.Owned := by
  constructor <;> simp [hq, hf, ha, hh]

theorem Owned.accept {p : Pool H T} (ho : p.Owned) {t : T} (ht : t ∉ p.accepted) :
    Owned { p with queue := p.queue ++ [t], accepted := p.accepted ++ [t] } := by
  rw [ho.accounted, not_or, not_or] at ht
  obtain ⟨hq, hf, hh⟩ := ht
  refine ⟨?_, ho.finished, ?_, ?_, ho.holder, ?_⟩
  · exact ho.queued.append (List.nodup_singleton t) (by simpa using hq)
  · intro x hx
    rcases List.mem_append.mp hx with hx | hx
    · exact ho.apart x hx
    · rwa [List.mem_singleton.mp hx]
  · intro h x hx
    obtain ⟨hxq, hxf⟩ := ho.held h x hx
    refine ⟨fun hmem => ?_, hxf⟩
    rcases List.mem_append.mp hmem with hmem | hmem
    · exact hxq hmem
    · exact hh ⟨h, List.mem_singleton.mp hmem ▸ hx⟩
  · intro x
    simp only [List.mem_append, List.mem_singleton, ho.accounted x]
    tauto

variable [DecidableEq H]

theorem Owned.take {p : Pool H T} (ho : p.Owned) {h : H} {t : T} {rest : List T}
    (hq : p.queue = t :: rest) (hn : p.holds h = none) :
    Owned { p with queue := rest, holds := Function.update p.holds h (some t) } := by
  have hnodup := ho.queued
  rw [hq, List.nodup_cons] at hnodup
  have hin : t ∈ p.queue := by simp [hq]
  have hrest : ∀ x ∈ rest, x ∈ p.queue := fun x hx => by simp [hq, hx]
  have hown : ∀ k x, Function.update p.holds h (some t) k = some x →
      k = h ∧ x = t ∨ k ≠ h ∧ p.holds k = some x := by
    intro k x hx
    by_cases hk : k = h
    · subst hk
      rw [Function.update_self] at hx
      exact .inl ⟨rfl, (Option.some.inj hx).symm⟩
    · rw [Function.update_of_ne hk] at hx
      exact .inr ⟨hk, hx⟩
  refine ⟨hnodup.2, ho.finished, fun x hx => ho.apart x (hrest x hx), ?_, ?_, ?_⟩
  · intro k x hx
    rcases hown k x hx with ⟨-, rfl⟩ | ⟨-, hx⟩
    · exact ⟨hnodup.1, ho.apart x hin⟩
    · exact ⟨fun hmem => (ho.held k x hx).1 (hrest x hmem), (ho.held k x hx).2⟩
  · intro k l x hk hl
    rcases hown k x hk with ⟨hkh, hx⟩ | ⟨-, hkx⟩
    · rcases hown l x hl with ⟨hlh, -⟩ | ⟨-, hlx⟩
      · rw [hkh, hlh]
      · exact absurd hin (hx ▸ (ho.held l x hlx).1)
    · rcases hown l x hl with ⟨-, hx⟩ | ⟨-, hlx⟩
      · exact absurd hin (hx ▸ (ho.held k x hkx).1)
      · exact ho.holder k l x hkx hlx
  · intro x
    rw [ho.accounted x, hq, List.mem_cons]
    constructor
    · rintro ((rfl | hx) | hx | ⟨k, hk⟩)
      · exact .inr (.inr ⟨h, Function.update_self ..⟩)
      · exact .inl hx
      · exact .inr (.inl hx)
      · have hne : k ≠ h := by
          rintro rfl
          rw [hn] at hk
          cases hk
        exact .inr (.inr ⟨k, (Function.update_of_ne hne ..).trans hk⟩)
    · rintro (hx | hx | ⟨k, hk⟩)
      · exact .inl (.inr hx)
      · exact .inr (.inl hx)
      · rcases hown k x hk with ⟨-, rfl⟩ | ⟨-, hk⟩
        · exact .inl (.inl rfl)
        · exact .inr (.inr ⟨k, hk⟩)

theorem Owned.finish {p : Pool H T} (ho : p.Owned) {h : H} {t : T} (ht : p.holds h = some t) :
    Owned { p with holds := Function.update p.holds h none, finished := p.finished ++ [t] } := by
  have hown : ∀ k x, Function.update p.holds h none k = some x → k ≠ h ∧ p.holds k = some x := by
    intro k x hx
    by_cases hk : k = h
    · subst hk
      rw [Function.update_self] at hx
      cases hx
    · rw [Function.update_of_ne hk] at hx
      exact ⟨hk, hx⟩
  obtain ⟨htq, htf⟩ := ho.held h t ht
  refine ⟨ho.queued, ?_, ?_, ?_, ?_, ?_⟩
  · exact ho.finished.append (List.nodup_singleton t) (by simpa using htf)
  · intro x hx hmem
    rcases List.mem_append.mp hmem with hmem | hmem
    · exact ho.apart x hx hmem
    · exact htq (List.mem_singleton.mp hmem ▸ hx)
  · intro k x hk
    obtain ⟨hne, hx⟩ := hown k x hk
    refine ⟨(ho.held k x hx).1, fun hmem => ?_⟩
    rcases List.mem_append.mp hmem with hmem | hmem
    · exact (ho.held k x hx).2 hmem
    · rw [List.mem_singleton.mp hmem] at hx
      exact hne (ho.holder k h t hx ht)
  · intro k l x hk hl
    exact ho.holder k l x (hown k x hk).2 (hown l x hl).2
  · intro x
    rw [ho.accounted x, List.mem_append, List.mem_singleton]
    constructor
    · rintro (hx | hx | ⟨k, hk⟩)
      · exact .inl hx
      · exact .inr (.inl (.inl hx))
      · by_cases hkh : k = h
        · subst hkh
          rw [ht] at hk
          exact .inr (.inl (.inr (Option.some.inj hk).symm))
        · exact .inr (.inr ⟨k, (Function.update_of_ne hkh ..).trans hk⟩)
    · rintro (hx | (hx | rfl) | ⟨k, hk⟩)
      · exact .inl hx
      · exact .inr (.inl hx)
      · exact .inr (.inr ⟨h, ht⟩)
      · exact .inr (.inr ⟨k, (hown k x hk).2⟩)

theorem Moved.owned {p q : Pool H T} (h : Moved p q) (ho : p.Owned) : q.Owned := by
  cases h with
  | same => exact ho
  | accept ht => exact ho.accept ht
  | take hq hn => exact ho.take hq hn
  | finish ht => exact ho.finish ht

end Pool

section Numbers

variable {held held' : H → Option T} {number : T → ℕ} {next : ℕ} {h : H}

theorem apart_next (hlt : ∀ j t, held j = some t → number t < next)
    (hapart : ∀ j k t v, held j = some t → held k = some v → number t = number v → j = k)
    (hnew : ∀ j t, held' j = some t → j = h ∧ number t = next ∨ j ≠ h ∧ held j = some t)
    (j k : H) (t v : T) (hj : held' j = some t) (hk : held' k = some v)
    (he : number t = number v) : j = k := by
  rcases hnew j t hj with ⟨hjh, ht⟩ | ⟨_, hj⟩
  · rcases hnew k v hk with ⟨hkh, _⟩ | ⟨_, hk⟩
    · exact hjh.trans hkh.symm
    · have := hlt k v hk
      omega
  · rcases hnew k v hk with ⟨_, hv⟩ | ⟨_, hk⟩
    · have := hlt j t hj
      omega
    · exact hapart j k t v hj hk he

end Numbers

end LoginServer.Ownership
