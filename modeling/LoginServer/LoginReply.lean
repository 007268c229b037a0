import LoginServer.Delegate
import LoginServer.Framing

/-! # What the client reads

A reply is an error text, or a message of the day with entries and premium days. The writes of
`delegate` are those of its reply, and a client with the same key reads that reply from the bytes
on the wire just when all of it fits. -/
namespace LoginServer.LoginReply

open Bytes Formats Message Accounts CharacterList Io

/-- The text of an error, or the character list. -/
abbrev Reply := List UInt8 ⊕ Response

def replyFormat : Format Reply :=
  choice 0x0A 0x14 (by decide) (lengthPrefixed 2)
    (seq (lengthPrefixed 2) (tagged 0x64 (seq (counted 1 entryFormat) (uint 2))))

def entryWrites (e : Entry) : List Call :=
  [.putString e.1 true, .putString e.2.1 true, .put 4 e.2.2.1, .put 2 e.2.2.2]

/-- The writes of a reply. The number of entries goes into one byte. -/
def writes : Reply → List Call
  | .inl message => [.put 1 0x0A, .putString message true]
  | .inr (motd, entries, premium) =>
    .put 1 0x14 :: .putString motd true :: .put 1 0x64 ::
      (.put 1 (entries.length % 256) :: entries.flatMap entryWrites ++ [.put 2 premium])

def casterEntry (rand24b : ℕ) (name : List UInt8) (c : Caster) : Entry :=
  (name, ascii (toString c.level) ++ if c.locked then ascii "*" else [],
    c.server.address.toNat, port16 c.server rand24b)

def casterEntries (rand24b : ℕ → ℕ) : Option Casters → List Entry
  | some tmp => tmp.toList.zipIdx.map fun p => casterEntry (rand24b p.2) p.1.1 p.1.2
  | none => []

/-- What `delegate` means to say. -/
def replyOf (env : Env) : Verdict → Reply
  | .ipBanished => .inl (cString (ascii "Your IP is banished!"))
  | .invalid => .inl (cString (ascii "Invalid account name or password."))
  | .banished message => .inl (cString message)
  | .noCharacters => .inl (cString (noCharactersMessage env.g_config))
  | .characterList account casters =>
    .inr (motd env.g_config,
      if account.number = 10 then casterEntries env.rand24b casters
      else account.charList.toList.zipIdx.map fun p =>
        entryOf env.g_config (env.rand24b p.2) p.1.2,
      premium env.g_config account)

theorem flatMap_writes {α : Type} (f : α → Entry) (l : List α) :
    (l.map f).flatMap entryWrites = l.flatMap fun a => entryWrites (f a) := by
  rw [List.flatMap_map]

theorem packet_writes (env : Env) (verdict : Verdict) :
    packet env verdict = writes (replyOf env verdict) := by
  cases verdict with
  | characterList account casters =>
    simp only [packet, responseCalls, entryCalls, replyOf, writes]
    by_cases h10 : account.number = 10
    · rw [if_pos h10, if_pos h10]
      cases casters with
      | none => rfl
      | some tmp =>
        simp only [casterEntries, flatMap_writes, List.length_map, List.length_zipIdx,
          Std.TreeMap.length_toList]
        rfl
    · rw [if_neg h10, if_neg h10]
      simp only [flatMap_writes, List.length_map, List.length_zipIdx, Std.TreeMap.length_toList]
      rfl
  | _ => rfl

def names : Reply → List (List UInt8)
  | .inl message => [message]
  | .inr (_, entries, _) => entries.flatMap fun e => [e.1, e.2.1]

def texts : Reply → List (List UInt8)
  | .inl message => names (.inl message)
  | .inr (motd, entries, premium) => motd :: names (.inr (motd, entries, premium))

def count : Reply → ℕ
  | .inl _ => 0
  | .inr (_, entries, _) => entries.length

/-- The numbers of a reply are those of their fields, and the message of the day fits into the
array `motd`. -/
def Proper : Reply → Prop
  | .inl _ => True
  | .inr (motd, entries, premium) => motd.length < 1300 ∧
    (∀ e ∈ entries, e.2.2.1 < 4294967296 ∧ e.2.2.2 < 65536) ∧ premium < 65536

theorem premium_lt (g_config : Config) (account : Account) : premium g_config account < 65536 := by
  have hdays := account.premiumDays.toNat_lt
  unfold premium GRATIS_PREMIUM
  split <;> omega

theorem replyOf_proper {env : Env} (hmotd : (motd env.g_config).length < 1300)
    (verdict : Verdict) : Proper (replyOf env verdict) := by
  cases verdict with
  | characterList account casters =>
    refine ⟨hmotd, ?_, premium_lt _ _⟩
    intro e he
    split at he
    · cases casters with
      | none => exact absurd he List.not_mem_nil
      | some tmp =>
        obtain ⟨p, _, rfl⟩ := List.mem_map.mp he
        exact ⟨p.1.2.server.address.toNat_lt, port16_lt _ _⟩
    · obtain ⟨p, _, rfl⟩ := List.mem_map.mp he
      exact ⟨p.1.2.server.address.toNat_lt, port16_lt _ _⟩
  | _ => trivial

theorem replyFormat_valid {r : Reply} (h : Proper r) :
    replyFormat.Valid r ↔ (∀ t ∈ texts r, t.length < 65536) ∧ count r < 256 := by
  cases r with
  | inl message =>
    change (lengthPrefixed 2).Valid message ↔ _
    simp [lengthPrefixed_valid, texts, names, count]
  | inr response =>
    obtain ⟨motd, entries, premium⟩ := response
    obtain ⟨_, hentries, hpremium⟩ := h
    have hentry : ∀ e ∈ entries, entryFormat.Valid e ↔
        e.1.length < 65536 ∧ e.2.1.length < 65536 := by
      intro e he
      have hnumbers := hentries e he
      change (lengthPrefixed 2).Valid e.1 ∧ (lengthPrefixed 2).Valid e.2.1 ∧
        e.2.2.1 < 256 ^ 4 ∧ e.2.2.2 < 256 ^ 2 ↔ _
      simp [lengthPrefixed_valid, hnumbers]
    change (lengthPrefixed 2).Valid motd ∧ (entries.length < 256 ^ 1 ∧
      ∀ e ∈ entries, entryFormat.Valid e) ∧ premium < 256 ^ 2 ↔ _
    rw [lengthPrefixed_valid]
    simp only [texts, names, count, List.mem_cons, List.mem_flatMap, List.not_mem_nil, or_false]
    constructor
    · rintro ⟨hmotd, ⟨hcount, hall⟩, _⟩
      refine ⟨?_, hcount⟩
      rintro t (rfl | ⟨e, he, rfl | rfl⟩)
      · exact hmotd
      · exact ((hentry e he).mp (hall e he)).1
      · exact ((hentry e he).mp (hall e he)).2
    · rintro ⟨htexts, hcount⟩
      refine ⟨htexts motd (Or.inl rfl), ⟨hcount, ?_⟩, hpremium⟩
      intro e he
      exact (hentry e he).mpr ⟨htexts _ (Or.inr ⟨e, he, Or.inl rfl⟩),
        htexts _ (Or.inr ⟨e, he, Or.inr rfl⟩)⟩

theorem encode_string {value : List UInt8} (h : value.length < 65536) :
    (Call.putString value true).encode = leBytes 2 value.length ++ value := by
  have hmod : value.length % 4294967296 = value.length := Nat.mod_eq_of_lt (by omega)
  rw [Call.encode, hmod, List.take_length]

theorem writes_encode {r : Reply} (h : ∀ t ∈ texts r, t.length < 65536) :
    (writes r).flatMap Call.encode = replyFormat.encode r := by
  cases r with
  | inl message =>
    have hmessage := encode_string (h message (List.mem_singleton_self _))
    simp only [writes, List.flatMap_cons, List.flatMap_nil, hmessage, List.append_nil, replyFormat,
      choice, lengthPrefixed_encode]
    rfl
  | inr response =>
    obtain ⟨motd, entries, premium⟩ := response
    have hmotd := encode_string (h motd List.mem_cons_self)
    have hentries : (entries.flatMap entryWrites).flatMap Call.encode =
        entries.flatMap entryFormat.encode := by
      rw [List.flatMap_assoc]
      apply List.flatMap_congr
      intro e he
      have hmem : ∀ t ∈ [e.1, e.2.1], t.length < 65536 := fun t ht =>
        h t (List.mem_cons_of_mem _ (List.mem_flatMap.mpr ⟨e, he, ht⟩))
      simp only [entryWrites, List.flatMap_cons, List.flatMap_nil, List.append_nil,
        encode_string (hmem e.1 List.mem_cons_self),
        encode_string (hmem e.2.1 (List.mem_cons_of_mem _ (List.mem_singleton_self _)))]
      simp only [Call.encode, entryFormat, seq, lengthPrefixed_encode, uint]
    have hcount : leBytes 1 (entries.length % 256) = leBytes 1 entries.length :=
      leBytes_mod 1 entries.length
    simp only [writes, List.flatMap_cons, List.flatMap_append, List.flatMap_nil, hmotd,
      List.cons_append, hentries]
    simp only [Call.encode, hcount, replyFormat, choice, tagged, seq, counted,
      lengthPrefixed_encode, uint, List.append_nil, List.append_assoc]
    rfl

theorem mem_writes {r : Reply} {c : Call} (hc : c ∈ writes r) :
    (∃ w v, 0 < w ∧ c = .put w v) ∨ ∃ t ∈ texts r, c = .putString t true := by
  cases r with
  | inl message =>
    simp only [writes, List.mem_cons, List.not_mem_nil, or_false] at hc
    rcases hc with rfl | rfl
    · exact Or.inl ⟨1, _, Nat.one_pos, rfl⟩
    · exact Or.inr ⟨message, List.mem_singleton_self _, rfl⟩
  | inr response =>
    obtain ⟨motd, entries, premium⟩ := response
    simp only [writes, List.mem_cons, List.mem_append, List.mem_flatMap, List.not_mem_nil,
      or_false] at hc
    rcases hc with rfl | rfl | rfl | (rfl | ⟨e, he, hc⟩) | rfl
    · exact Or.inl ⟨1, _, Nat.one_pos, rfl⟩
    · exact Or.inr ⟨motd, List.mem_cons_self, rfl⟩
    · exact Or.inl ⟨1, _, Nat.one_pos, rfl⟩
    · exact Or.inl ⟨1, _, Nat.one_pos, rfl⟩
    · have hmem : ∀ t ∈ [e.1, e.2.1], t ∈ texts (.inr (motd, entries, premium)) := fun t ht =>
        List.mem_cons_of_mem _ (List.mem_flatMap.mpr ⟨e, he, ht⟩)
      simp only [entryWrites, List.mem_cons, List.not_mem_nil, or_false] at hc
      rcases hc with rfl | rfl | rfl | rfl
      · exact Or.inr ⟨_, hmem _ List.mem_cons_self, rfl⟩
      · exact Or.inr ⟨_, hmem _ (List.mem_cons_of_mem _ (List.mem_singleton_self _)), rfl⟩
      · exact Or.inl ⟨4, _, by decide, rfl⟩
      · exact Or.inl ⟨2, _, by decide, rfl⟩
    · exact Or.inl ⟨2, _, Nat.two_pos, rfl⟩

theorem putString_mem_writes {r : Reply} {t : List UInt8} (ht : t ∈ texts r) :
    .putString t true ∈ writes r := by
  cases r with
  | inl message =>
    rw [List.mem_singleton.mp ht]
    exact List.mem_cons_of_mem _ (List.mem_singleton_self _)
  | inr response =>
    obtain ⟨motd, entries, premium⟩ := response
    simp only [texts, names, List.mem_cons, List.mem_flatMap, List.not_mem_nil, or_false] at ht
    simp only [writes, List.mem_cons, List.mem_append, List.mem_flatMap]
    rcases ht with rfl | ⟨e, he, rfl | rfl⟩
    · exact Or.inr (Or.inl rfl)
    · exact Or.inr (Or.inr (Or.inr (Or.inl (Or.inr ⟨e, he, by simp [entryWrites]⟩))))
    · exact Or.inr (Or.inr (Or.inr (Or.inl (Or.inr ⟨e, he, by simp [entryWrites]⟩))))

theorem writes_regular {r : Reply} (h : ∀ t ∈ texts r, t.length < 65536) :
    ∀ c ∈ writes r, c.Regular := by
  intro c hc
  rcases mem_writes hc with ⟨w, v, hw, rfl⟩ | ⟨t, ht, rfl⟩
  · exact hw
  · exact ⟨h t ht, rfl⟩

theorem names_subset_texts (r : Reply) : ∀ t ∈ names r, t ∈ texts r := by
  intro t ht
  cases r with
  | inl message => exact ht
  | inr response => exact List.mem_cons_of_mem _ ht

theorem texts_short {r : Reply} (h : Proper r) :
    (∀ t ∈ texts r, t.length ≤ 8192) ↔ ∀ t ∈ names r, t.length ≤ 8192 := by
  cases r with
  | inl message => exact Iff.rfl
  | inr response =>
    have hmotd := h.1
    rw [texts, List.forall_mem_cons]
    exact and_iff_right (by omega)

theorem writes_short {r : Reply} (h : Proper r) :
    (∀ c ∈ writes r, c.Short) ↔ ∀ t ∈ names r, t.length ≤ 8192 := by
  constructor
  · intro hshort t ht
    exact (hshort _ (putString_mem_writes (names_subset_texts r t ht))).1
  · intro hnames c hc
    rcases mem_writes hc with ⟨w, v, _, rfl⟩ | ⟨t, ht, rfl⟩
    · trivial
    · exact ⟨(texts_short h).mpr hnames t ht, rfl⟩

/-- The bytes of a reply are read back as it just when no string is refused, the entries can be
counted and everything fits. -/
theorem writes_decode_iff {r : Reply} (h : Proper r) :
    replyFormat.decode (written (writes r)) = some (r, []) ↔
      (∀ t ∈ names r, t.length ≤ 8192) ∧ count r ≤ 255 ∧
        (replyFormat.encode r).length ≤ bodyLimit := by
  rw [Format.decode_iff, replyFormat_valid h]
  constructor
  · rintro ⟨⟨htexts, hcount⟩, hwritten⟩
    rw [← writes_encode htexts, written_whole_iff (writes_regular htexts), writes_short h,
      writes_encode htexts] at hwritten
    exact ⟨hwritten.1, by omega, hwritten.2⟩
  · rintro ⟨hshort, hcount, hfit⟩
    have htexts : ∀ t ∈ texts r, t.length < 65536 := fun t ht => by
      have hle := (texts_short h).mpr hshort t ht
      omega
    refine ⟨⟨htexts, by omega⟩, ?_⟩
    rw [← writes_encode htexts, written_whole_iff (writes_regular htexts), writes_short h,
      writes_encode htexts]
    exact ⟨hshort, hfit⟩

/-! ## The wire -/

def headed (wire : List UInt8) : NetworkMessage := ⟨0, 0, Memory.write (fun _ => 0) 0 (wire.take 2)⟩

def behind (wire : List UInt8) : Memory := Memory.write (fun _ => 0) 0 (wire.drop 2)

theorem headed_read (wire : List UInt8) (h : 2 ≤ wire.length) :
    (headed wire).m_buffer.read 0 2 = wire.take 2 := by
  have hread := Memory.read_write (fun _ => 0) 0 (wire.take 2)
  rwa [List.length_take_of_le h] at hread

theorem behind_read (wire : List UInt8) :
    (behind wire).read 0 (wire.length - 2) = wire.drop 2 := by
  have hread := Memory.read_write (fun _ => 0) 0 (wire.drop 2)
  rwa [List.length_drop] at hread

theorem length_frameOf (c : List UInt8) : (frameOf c).length = c.length + 6 := by
  simp only [frameOf, List.length_append, length_leBytes]
  omega

theorem received_unique {key : Key} {wire a b : List UInt8} (hwire : 2 ≤ wire.length)
    (ha : Received key a wire) (hb : Received key b wire) : a = b := by
  obtain ⟨u, hu, hsize, _, hread⟩ := ha _ _ (headed_read wire hwire) (behind_read wire)
  obtain ⟨v, hv, hsize', _, hread'⟩ := hb _ _ (headed_read wire hwire) (behind_read wire)
  cases hu.symm.trans hv
  rw [← hread, ← hread', ← hsize, ← hsize']

theorem laterMessage_misaligned (key : Key) {n : ℕ} {b : Memory} (hn : 2 < n)
    (hlt : n < NETWORK_MAX_SIZE - 14) (h6 : 6 ≤ n) (h8 : (n - 6) % 8 ≠ 0) :
    ∃ enabled u, laterMessage (encrypting key) ⟨n, 2, b⟩ = some ((enabled, false), u) := by
  have hmod : ((n : ℤ) - 6).tmod 8 ≠ 0 := by
    rw [show ((n : ℕ) : ℤ) - 6 = ((n - 6 : ℕ) : ℤ) by omega,
      Int.tmod_eq_emod_of_nonneg (by omega)]
    omega
  have hrecv : ∀ p, onRecvMessage (encrypting key) ⟨n, p, b⟩ = some (false, ⟨n, p, b⟩) := by
    intro p
    have hdecrypt : onRecvMessage (encrypting key) = XTEA_decrypt key := rfl
    rw [hdecrypt, XTEA_decrypt, Faults.bind_get_run, if_pos hmod, Faults.pure_run]
  have hcheck := checkChecksum_run (b := b) hn hlt
  rw [laterMessage]
  split at hcheck
  · exact ⟨true, _, by rw [Faults.bind_of_run hcheck, Faults.bind_of_run (hrecv _),
      Faults.pure_run]⟩
  · exact ⟨false, _, by rw [Faults.bind_of_run hcheck, Faults.bind_of_run (hrecv _),
      Faults.pure_run]⟩

theorem misaligned_not_received {key : Key} {body c : List UInt8} (h8 : c.length % 8 ≠ 0)
    (hmax : c.length ≤ 16363) : ¬ Received key body (frameOf c) := by
  intro hreceived
  have hlen := length_frameOf c
  have hcontent : (leBytes 4 (adler c).toNat ++ c).length = c.length + 4 := by
    rw [List.length_append, length_leBytes, Nat.add_comm]
  let f : Frame :=
    ⟨leBytes 4 (adler c).toNat ++ c, by omega, by rw [hcontent]; simp only [NETWORK_MAX_SIZE]; omega⟩
  have hsize : f.size = c.length + 6 := by
    rw [f.size_eq, hcontent]
  have htake : (frameOf c).take 2 = leBytes 2 f.content.length := by
    rw [frameOf, List.take_left' (length_leBytes 2 _), hcontent]
  have hdrop : (frameOf c).drop 2 = f.content := List.drop_left' (length_leBytes 2 _)
  have hheader := headed_read (frameOf c) (by omega)
  have hread := behind_read (frameOf c)
  obtain ⟨u, hu, _⟩ := hreceived _ _ hheader hread
  rw [show (frameOf c).length - 2 = f.content.length by rw [hlen, hcontent]; omega] at hread
  obtain ⟨enabled, v, hv⟩ := laterMessage_misaligned key f.size_pos f.size_lt (by omega)
    (b := (f.loaded (headed (frameOf c)).m_buffer).m_buffer)
    (by rw [hsize, Nat.add_sub_cancel]; exact h8)
  have hlater : laterMessage (encrypting key) (f.loaded (headed (frameOf c)).m_buffer) =
      some ((enabled, false), v) := hv
  rw [f.receive_loaded _ _ _ (hheader.trans htake) (hread.trans hdrop), hlater] at hu
  cases hu

/-- A client with this key, whatever its buffer held, finds this reply in the bytes and nothing
behind it. -/
def ClientReads (key : Key) (reply : Reply) (wire : List UInt8) : Prop :=
  ∃ body, Received key body wire ∧ replyFormat.decode body = some (reply, [])

/-- The writes are sent, and the client reads this from what reaches it. -/
def Reaches (key : Key) (stale : Memory) (calls : List Call) (reply : Reply) : Prop :=
  ∃ u, sendCalls key calls (configured stale) = some ((), u) ∧
    ClientReads key reply (u.m_buffer.read u.m_outputBufferStart u.m_size)

/-- All of the reply fits: its strings into `putString`, its entries into their count, and its
bytes into a message that can still be padded. -/
structure Sendable (r : Reply) : Prop where
  names : ∀ t ∈ names r, t.length ≤ 8192
  count : count r ≤ 255
  size : (replyFormat.encode r).length ≤ 16358

theorem reaches_writes_iff (key : Key) (stale : Memory) {r : Reply} (h : Proper r) :
    Reaches key stale (writes r) r ↔ Sendable r := by
  obtain ⟨u, c, hu, hwire, hshort, hlong⟩ := sendCalls_run key stale (writes r)
  have hlimit : bodyLimit = 16361 := rfl
  constructor
  · rintro ⟨v, hv, body, hreceived, hdecode⟩
    cases hu.symm.trans hv
    rw [hwire] at hreceived
    by_cases hle : (written (writes r)).length ≤ 16358
    · rw [hshort hle] at hreceived
      have hbody : body = written (writes r) :=
        received_unique (by rw [length_frameOf]; omega) hreceived (frameOf_received key hle)
      rw [hbody] at hdecode
      obtain ⟨hnames, hcount, hfit⟩ := (writes_decode_iff h).mp hdecode
      have hencode := ((Format.decode_iff _ _ _).mp hdecode).2
      exact ⟨hnames, hcount, hencode ▸ hle⟩
    · have hclen := hlong (by omega)
      have hmax := written_le stale (writes r)
      exact absurd hreceived (misaligned_not_received (by omega) (by omega))
  · rintro ⟨hnames, hcount, hsize⟩
    have hdecode := (writes_decode_iff h).mpr ⟨hnames, hcount, by omega⟩
    have hencode := ((Format.decode_iff _ _ _).mp hdecode).2
    have hle : (written (writes r)).length ≤ 16358 := hencode ▸ hsize
    refine ⟨u, hu, _, ?_, hdecode⟩
    rw [hwire, hshort hle]
    exact frameOf_received key hle

/-- Whatever `delegate` decided, a client with the key of the login reads exactly that from the
bytes on the wire just when all of it fits; what an earlier use left in the message's buffer, or
an earlier packet in the client's, plays no part. -/
theorem client_reads_verdict_iff (env : Env) (hmotd : (motd env.g_config).length < 1300)
    (verdict : Verdict) (key : Key) (stale : Memory) :
    Reaches key stale (packet env verdict) (replyOf env verdict) ↔
      Sendable (replyOf env verdict) := by
  rw [packet_writes]
  exact reaches_writes_iff key stale (replyOf_proper hmotd verdict)

theorem equal_self (s : List UInt8) : decide (s = s) = true := decide_eq_true rfl

def emptyEnv : Env where
  g_config := defaultConfig
  worlds := ∅
  digests := ⟨id, id, id, id⟩
  collation := ⟨fun a b => a = b, equal_self⟩
  now := 0
  time := 0
  outputMessage := true
  rand24b _ := 0

theorem one_character_read :
    Reaches (fun _ => 0) (fun _ => 0)
      (packet emptyEnv (.characterList (accountOf [ascii "Knight"]) none))
      (replyOf emptyEnv (.characterList (accountOf [ascii "Knight"]) none)) :=
  (client_reads_verdict_iff emptyEnv (by decide +kernel) _ _ _).mpr
    ⟨by decide +kernel, by decide +kernel, by decide +kernel⟩

end LoginServer.LoginReply
