import LoginServer.Library.Bytes

/-! # Formats

A format carries its encoder, its decoder and the two laws between them: what is decoded was
encoded, and what is encoded is decoded with the rest left over. Formats compose, so a record
of a protocol gets both laws from its description. -/
namespace LoginServer.Formats

open Bytes

structure Format (α : Type) where
  encode : α → List UInt8
  decode : List UInt8 → Option (α × List UInt8)
  Valid : α → Prop
  sound : ∀ l a r, decode l = some (a, r) → Valid a ∧ l = encode a ++ r
  complete : ∀ a r, Valid a → decode (encode a ++ r) = some (a, r)

variable {α β : Type}

/-- Decoding to the end answers exactly the values whose encoding was given. -/
theorem Format.decode_iff (f : Format α) (l : List UInt8) (a : α) :
    f.decode l = some (a, []) ↔ f.Valid a ∧ l = f.encode a := by
  constructor
  · intro h
    obtain ⟨hv, hl⟩ := f.sound l a [] h
    exact ⟨hv, by rwa [List.append_nil] at hl⟩
  · rintro ⟨hv, rfl⟩
    have h := f.complete a [] hv
    rwa [List.append_nil] at h

def takeBytes (n : ℕ) (l : List UInt8) : Option (List UInt8 × List UInt8) :=
  if n ≤ l.length then some (l.take n, l.drop n) else none

theorem takeBytes_append {n : ℕ} {a : List UInt8} (r : List UInt8) (h : a.length = n) :
    takeBytes n (a ++ r) = some (a, r) := by
  rw [takeBytes, if_pos (by rw [List.length_append]; omega), List.take_left' h, List.drop_left' h]

theorem takeBytes_some {n : ℕ} {l a r : List UInt8} (h : takeBytes n l = some (a, r)) :
    a.length = n ∧ l = a ++ r := by
  rw [takeBytes] at h
  split at h
  · rename_i hn
    cases h
    exact ⟨List.length_take_of_le hn, (List.take_append_drop n l).symm⟩
  · cases h

def uint (w : ℕ) : Format ℕ where
  encode := leBytes w
  decode l := (takeBytes w l).map fun p => (ofLe p.1, p.2)
  Valid v := v < 256 ^ w
  sound := by
    intro l v r h
    obtain ⟨⟨a, q⟩, ha, hp⟩ := Option.map_eq_some_iff.mp h
    obtain ⟨rfl, rfl⟩ := Prod.mk.inj hp
    obtain ⟨hlen, rfl⟩ := takeBytes_some ha
    subst hlen
    exact ⟨ofLe_lt a, by rw [leBytes_ofLe]⟩
  complete := by
    intro v r hv
    rw [takeBytes_append r (length_leBytes w v), Option.map_some, ofLe_leBytes,
      Nat.mod_eq_of_lt hv]

def seq (f : Format α) (g : Format β) : Format (α × β) where
  encode p := f.encode p.1 ++ g.encode p.2
  decode l := (f.decode l).bind fun p => (g.decode p.2).map fun q => ((p.1, q.1), q.2)
  Valid p := f.Valid p.1 ∧ g.Valid p.2
  sound := by
    rintro l ⟨a, b⟩ r h
    obtain ⟨⟨a', l'⟩, ha, h⟩ := Option.bind_eq_some_iff.mp h
    obtain ⟨⟨b', r'⟩, hb, hp⟩ := Option.map_eq_some_iff.mp h
    cases hp
    obtain ⟨hva, rfl⟩ := f.sound _ _ _ ha
    obtain ⟨hvb, rfl⟩ := g.sound _ _ _ hb
    exact ⟨⟨hva, hvb⟩, by rw [List.append_assoc]⟩
  complete := by
    rintro ⟨a, b⟩ r ⟨ha, hb⟩
    simp only [List.append_assoc, f.complete a _ ha, Option.bind_some, g.complete b r hb,
      Option.map_some]

def tagged (tag : UInt8) (f : Format α) : Format α where
  encode a := tag :: f.encode a
  decode
    | [] => none
    | b :: l => if b = tag then f.decode l else none
  Valid := f.Valid
  sound := by
    rintro (_ | ⟨b, l⟩) a r h
    · cases h
    · change (if b = tag then f.decode l else none) = some (a, r) at h
      split at h
      · rename_i hb
        obtain ⟨hv, hl⟩ := f.sound l a r h
        exact ⟨hv, by rw [hb, hl, List.cons_append]⟩
      · cases h
  complete := by
    intro a r ha
    simp only [List.cons_append, if_true, f.complete a r ha]

def choice (s t : UInt8) (hst : s ≠ t) (f : Format α) (g : Format β) : Format (α ⊕ β) where
  encode
    | .inl a => s :: f.encode a
    | .inr b => t :: g.encode b
  decode
    | [] => none
    | c :: l =>
      if c = s then (f.decode l).map fun p => (.inl p.1, p.2)
      else if c = t then (g.decode l).map fun p => (.inr p.1, p.2)
      else none
  Valid
    | .inl a => f.Valid a
    | .inr b => g.Valid b
  sound := by
    rintro (_ | ⟨c, l⟩) v r h
    · cases h
    · dsimp only at h
      split at h
      · rename_i hc
        obtain ⟨⟨a, r'⟩, ha, hp⟩ := Option.map_eq_some_iff.mp h
        cases hp
        obtain ⟨hv, rfl⟩ := f.sound _ _ _ ha
        exact ⟨hv, by rw [hc, List.cons_append]⟩
      · split at h
        · rename_i hc
          obtain ⟨⟨b, r'⟩, hb, hp⟩ := Option.map_eq_some_iff.mp h
          cases hp
          obtain ⟨hv, rfl⟩ := g.sound _ _ _ hb
          exact ⟨hv, by rw [hc, List.cons_append]⟩
        · cases h
  complete := by
    rintro (a | b) r hv
    · simp only [List.cons_append, if_true, f.complete a r hv, Option.map_some]
    · simp only [List.cons_append, hst.symm, if_false, if_true, g.complete b r hv,
        Option.map_some]

def decodeTimes (f : Format α) : ℕ → List UInt8 → Option (List α × List UInt8)
  | 0, l => some ([], l)
  | n + 1, l => (f.decode l).bind fun p => (decodeTimes f n p.2).map fun q => (p.1 :: q.1, q.2)

theorem decodeTimes_some {f : Format α} {n : ℕ} {l r : List UInt8} {as : List α}
    (h : decodeTimes f n l = some (as, r)) :
    as.length = n ∧ (∀ a ∈ as, f.Valid a) ∧ l = as.flatMap f.encode ++ r := by
  induction n generalizing l as with
  | zero =>
    cases h
    exact ⟨rfl, by simp, rfl⟩
  | succ n ih =>
    obtain ⟨⟨a, l'⟩, ha, h⟩ := Option.bind_eq_some_iff.mp h
    obtain ⟨⟨as', r'⟩, has, hp⟩ := Option.map_eq_some_iff.mp h
    cases hp
    obtain ⟨hv, rfl⟩ := f.sound _ _ _ ha
    obtain ⟨hlen, hall, rfl⟩ := ih has
    refine ⟨by rw [List.length_cons, hlen], ?_, by rw [List.flatMap_cons, List.append_assoc]⟩
    exact List.forall_mem_cons.mpr ⟨hv, hall⟩

theorem decodeTimes_flatMap {f : Format α} {as : List α} (h : ∀ a ∈ as, f.Valid a)
    (r : List UInt8) : decodeTimes f as.length (as.flatMap f.encode ++ r) = some (as, r) := by
  induction as with
  | nil => rfl
  | cons a as ih =>
    obtain ⟨ha, has⟩ := List.forall_mem_cons.mp h
    rw [List.length_cons, decodeTimes, List.flatMap_cons, List.append_assoc, f.complete a _ ha,
      Option.bind_some, ih has, Option.map_some]

def counted (w : ℕ) (f : Format α) : Format (List α) where
  encode as := leBytes w as.length ++ as.flatMap f.encode
  decode l := ((uint w).decode l).bind fun p => decodeTimes f p.1 p.2
  Valid as := as.length < 256 ^ w ∧ ∀ a ∈ as, f.Valid a
  sound := by
    intro l as r h
    obtain ⟨⟨n, l'⟩, hn, hd⟩ := Option.bind_eq_some_iff.mp h
    obtain ⟨hlt, rfl⟩ := (uint w).sound _ _ _ hn
    obtain ⟨rfl, hall, rfl⟩ := decodeTimes_some hd
    exact ⟨⟨hlt, hall⟩, by rw [List.append_assoc]; rfl⟩
  complete := by
    rintro as r ⟨hlt, hall⟩
    rw [List.append_assoc]
    have hn := (uint w).complete as.length (as.flatMap f.encode ++ r) hlt
    exact (congrArg (Option.bind · _) hn).trans (decodeTimes_flatMap hall r)

def byte : Format UInt8 where
  encode b := [b]
  decode
    | [] => none
    | b :: l => some (b, l)
  Valid _ := True
  sound := by
    rintro (_ | ⟨b, l⟩) a r h
    · cases h
    · cases h
      exact ⟨trivial, rfl⟩
  complete _ _ _ := rfl

def lengthPrefixed (w : ℕ) : Format (List UInt8) := counted w byte

theorem lengthPrefixed_encode (w : ℕ) (s : List UInt8) :
    (lengthPrefixed w).encode s = leBytes w s.length ++ s := by
  simp [lengthPrefixed, counted, byte]

theorem lengthPrefixed_valid (w : ℕ) (s : List UInt8) :
    (lengthPrefixed w).Valid s ↔ s.length < 256 ^ w := by
  simp [lengthPrefixed, counted, byte]

end LoginServer.Formats
