import LoginServer.ServicePort
import LoginServer.Receive
import LoginServer.Dsn
import Mathlib.Data.List.Destutter
import Mathlib.Data.UInt
import Std.Data.TreeMap

/-! # The services and their ports

`ServiceManager::add` puts a service on a port, and makes and opens the port for its first one; the
protocol of a connection is then looked for among the services of the port. `otlogin` ends with
adding the login protocol on the address and the port of one setting. -/
namespace LoginServer.Services

open Bytes Decimals Search Sql
open Server (IPAddress)

/-- `Service<ProtocolType>`: what a first packet is matched with, and whether it wants its port for
itself. -/
structure Service where
  protocol : Message.Service
  isSingleSocket : Bool
  deriving DecidableEq

def ProtocolLogin : Service := ⟨Message.ProtocolLogin, false⟩

/-- The services of a port; its acceptors are left to `open`. -/
structure ServicePort where
  m_services : List Service
  m_serverPort : UInt16

def ServicePort.add (s : ServicePort) (newService : Service) : Bool × ServicePort :=
  if s.m_services.any Service.isSingleSocket then (false, s)
  else (true, { s with m_services := s.m_services ++ [newService] })

def ServicePort.isSingleSocket (s : ServicePort) : Bool :=
  match s.m_services with
  | [] => false
  | front :: _ => front.isSingleSocket

/-- `opened` lists the calls of `ServicePort::open`, the last one first. -/
structure ServiceManager where
  m_acceptors : Std.TreeMap UInt16 ServicePort
  opened : List (UInt16 × List IPAddress)

def ServiceManager.empty : ServiceManager := ⟨∅, []⟩

/-- The service is put on the port that is there, or on one that is made and opened for it. -/
def ServiceManager.add (m : ServiceManager) (newService : Service) (port : UInt16)
    (ips : List IPAddress) : Bool × ServiceManager :=
  if port = 0 then (false, m)
  else match m.m_acceptors[port]? with
    | none =>
      let (ret, servicePort) := ServicePort.add ⟨[], port⟩ newService
      (ret, ⟨m.m_acceptors.insert port servicePort, (port, ips) :: m.opened⟩)
    | some servicePort =>
      if servicePort.isSingleSocket ∨ newService.isSingleSocket then (false, m)
      else
        let (ret, servicePort) := servicePort.add newService
        (ret, { m with m_acceptors := m.m_acceptors.insert port servicePort })

def ServiceManager.isRunning (m : ServiceManager) : Bool := !m.m_acceptors.isEmpty

/-- `unique` takes out a port that stands behind itself. -/
def ServiceManager.getPorts (m : ServiceManager) : List UInt16 :=
  m.m_acceptors.keys.destutter (· ≠ ·)

/-! ## Who shares a port -/

structure Registration where
  service : Service
  port : UInt16
  ips : List IPAddress

def servicesAt (l : List Registration) (port : UInt16) : List Service :=
  (l.filter fun r => r.port = port).map Registration.service

/-- A service shares its port only with services that share theirs. -/
def Admits (l : List Registration) (r : Registration) : Prop :=
  r.port ≠ 0 ∧ ∀ s ∈ servicesAt l r.port, s.isSingleSocket = false ∧
    r.service.isSingleSocket = false

instance (l : List Registration) (r : Registration) : Decidable (Admits l r) :=
  inferInstanceAs (Decidable (_ ∧ _))

def admitted (calls : List Registration) : List Registration :=
  calls.foldl (fun l r => if Admits l r then l ++ [r] else l) []

def addAll (m : ServiceManager) : List Registration → List Bool × ServiceManager
  | [] => ([], m)
  | r :: calls =>
    let (ret, m) := m.add r.service r.port r.ips
    let (rets, m) := addAll m calls
    (ret :: rets, m)

/-- A service that needs its port for itself is alone there. -/
def Exclusive (services : List Service) : Prop :=
  ∀ s ∈ services, s.isSingleSocket = true → services = [s]

/-- The map holds the ports that something is registered for, with the services in their order. -/
structure Holds (m : ServiceManager) (l : List Registration) : Prop where
  services : ∀ port, (m.m_acceptors[port]?).map ServicePort.m_services =
    if servicesAt l port = [] then none else some (servicesAt l port)
  exclusive : ∀ port, Exclusive (servicesAt l port)
  nonzero : servicesAt l 0 = []
  opened : ∀ port, m.opened.filter (·.1 = port) =
    ((l.find? fun r => r.port = port).map fun r => (port, r.ips)).toList

theorem servicesAt_append (l : List Registration) (r : Registration) (port : UInt16) :
    servicesAt (l ++ [r]) port =
      if r.port = port then servicesAt l port ++ [r.service] else servicesAt l port := by
  rw [servicesAt, List.filter_append, List.map_append]
  by_cases h : r.port = port
  · rw [if_pos h, List.filter_cons_of_pos (by simpa using h)]
    rfl
  · rw [if_neg h, List.filter_cons_of_neg (by simpa using h)]
    exact List.append_nil _

theorem Exclusive.isSingleSocket {services : List Service} (h : Exclusive services)
    (port : UInt16) : ServicePort.isSingleSocket ⟨services, port⟩ =
      services.any Service.isSingleSocket := by
  cases services with
  | nil => rfl
  | cons front rest =>
    change front.isSingleSocket = (front.isSingleSocket || rest.any Service.isSingleSocket)
    cases hfront : front.isSingleSocket with
    | true => rfl
    | false =>
      have hrest : rest.any Service.isSingleSocket = false := by
        rw [List.any_eq_false]
        intro s hs hsingle
        have hone := h s (List.mem_cons_of_mem _ hs) hsingle
        rw [(List.cons.inj hone).1, hsingle] at hfront
        cases hfront
      rw [hrest]
      rfl

theorem find?_eq_none_iff (l : List Registration) (port : UInt16) :
    (l.find? fun r => r.port = port) = none ↔ servicesAt l port = [] := by
  rw [servicesAt, List.map_eq_nil_iff, List.filter_eq_nil_iff, List.find?_eq_none]

theorem not_admits_zero (l : List Registration) {r : Registration} (h : r.port = 0) :
    ¬ Admits l r := fun ha => ha.1 h

/-- What `add` answers, what it does to the services of the ports, and when it opens one. -/
theorem add_spec {m : ServiceManager} {l : List Registration} (h : Holds m l)
    (r : Registration) : (m.add r.service r.port r.ips).1 = decide (Admits l r) ∧
      (∀ port, ((m.add r.service r.port r.ips).2.m_acceptors[port]?).map ServicePort.m_services =
        if Admits l r ∧ port = r.port then some (servicesAt l port ++ [r.service])
        else (m.m_acceptors[port]?).map ServicePort.m_services) ∧
      (m.add r.service r.port r.ips).2.opened =
        if Admits l r ∧ servicesAt l r.port = [] then (r.port, r.ips) :: m.opened
        else m.opened := by
  have hservices := h.services r.port
  have hother : ∀ (s : ServicePort) (port : UInt16),
      (((m.m_acceptors.insert r.port s)[port]?).map ServicePort.m_services) =
        if port = r.port then some s.m_services
        else (m.m_acceptors[port]?).map ServicePort.m_services := by
    intro s port
    rw [Std.TreeMap.getElem?_insert]
    by_cases hp : port = r.port
    · simp [hp]
    · have hne : ¬ r.port = port := fun he => hp he.symm
      simp [hp, hne]
  by_cases hzero : r.port = 0
  · have hno := not_admits_zero l hzero
    rw [ServiceManager.add, if_pos hzero]
    exact ⟨(decide_eq_false hno).symm, fun port => (if_neg fun hc => hno hc.1).symm,
      (if_neg fun hc => hno hc.1).symm⟩
  · rw [ServiceManager.add, if_neg hzero]
    cases hport : m.m_acceptors[r.port]? with
    | none =>
      rw [hport, Option.map_none] at hservices
      have hnil : servicesAt l r.port = [] := by
        by_contra hne
        rw [if_neg hne] at hservices
        cases hservices
      have hadmits : Admits l r := ⟨hzero, by rw [hnil]; exact fun s hs => absurd hs List.not_mem_nil⟩
      refine ⟨(decide_eq_true hadmits).symm, fun port => ?_, (if_pos ⟨hadmits, hnil⟩).symm⟩
      refine (hother ⟨[] ++ [r.service], r.port⟩ port).trans ?_
      by_cases hp : port = r.port
      · rw [if_pos hp, if_pos ⟨hadmits, hp⟩, hp, hnil]
      · rw [if_neg hp, if_neg fun hc => hp hc.2]
    | some servicePort =>
      rw [hport, Option.map_some] at hservices
      have hlist : servicePort.m_services = servicesAt l r.port := by
        split at hservices
        · cases hservices
        · exact Option.some.inj hservices
      have hne : servicesAt l r.port ≠ [] := by
        intro hnil
        rw [if_pos hnil] at hservices
        cases hservices
      have hany : servicePort.isSingleSocket = (servicesAt l r.port).any Service.isSingleSocket := by
        rw [← (h.exclusive r.port).isSingleSocket servicePort.m_serverPort, ← hlist]
      dsimp only
      by_cases hsingle : servicePort.isSingleSocket = true ∨ r.service.isSingleSocket = true
      · have hno : ¬ Admits l r := by
          rintro ⟨_, hall⟩
          rcases hsingle with hsingle | hsingle
          · rw [hany, List.any_eq_true] at hsingle
            obtain ⟨s, hs, hs'⟩ := hsingle
            rw [(hall s hs).1] at hs'
            cases hs'
          · obtain ⟨s, hs⟩ := List.exists_mem_of_ne_nil _ hne
            rw [(hall s hs).2] at hsingle
            cases hsingle
        rw [if_pos hsingle]
        exact ⟨(decide_eq_false hno).symm, fun port => (if_neg fun hc => hno hc.1).symm,
          (if_neg fun hc => hno hc.1).symm⟩
      · obtain ⟨hport', hservice⟩ := not_or.mp hsingle
        rw [hany, Bool.not_eq_true] at hport'
        have hadmits : Admits l r := by
          refine ⟨hzero, fun s hs => ⟨?_, by simpa using hservice⟩⟩
          simpa using List.any_eq_false.mp hport' s hs
        have hadd : servicePort.add r.service =
            (true, { servicePort with m_services := servicePort.m_services ++ [r.service] }) := by
          rw [ServicePort.add, hlist, hport']
          rfl
        rw [if_neg hsingle, hadd]
        refine ⟨(decide_eq_true hadmits).symm, fun port => ?_, (if_neg fun hc => hne hc.2).symm⟩
        refine (hother _ port).trans ?_
        by_cases hp : port = r.port
        · rw [if_pos hp, if_pos ⟨hadmits, hp⟩, hp, hlist]
        · rw [if_neg hp, if_neg fun hc => hp hc.2]

theorem opened_append {opened opened' : List (UInt16 × List IPAddress)} {l : List Registration}
    {r : Registration} {port : UInt16} (h : opened.filter (·.1 = port) =
      ((l.find? fun r => r.port = port).map fun r => (port, r.ips)).toList) (ha : Admits l r)
    (hopened : opened' = if Admits l r ∧ servicesAt l r.port = [] then (r.port, r.ips) :: opened
      else opened) : opened'.filter (·.1 = port) =
      (((l ++ [r]).find? fun r => r.port = port).map fun r => (port, r.ips)).toList := by
  rw [List.find?_append, hopened]
  by_cases hp : r.port = port
  · subst hp
    by_cases hnil : servicesAt l r.port = []
    · have hfind := (find?_eq_none_iff l r.port).mpr hnil
      rw [hfind, Option.map_none, Option.toList_none] at h
      rw [if_pos ⟨ha, hnil⟩, List.filter_cons_of_pos (by simp), h, hfind]
      simp
    · have hfind : (l.find? fun s => s.port = r.port) ≠ none := fun hc =>
        hnil ((find?_eq_none_iff l r.port).mp hc)
      obtain ⟨s, hs⟩ := Option.ne_none_iff_exists'.mp hfind
      rw [if_neg fun hc => hnil hc.2, h, hs]
      rfl
  · have hlast : ([r].find? fun s => s.port = port) = none := by simp [hp]
    rw [hlast, Option.or_none, ← h]
    split
    · rw [List.filter_cons_of_neg (by simpa using hp)]
    · rfl

theorem add_holds {m : ServiceManager} {l : List Registration} (h : Holds m l)
    (r : Registration) : Holds (m.add r.service r.port r.ips).2
      (if Admits l r then l ++ [r] else l) := by
  obtain ⟨_, hports, hopened⟩ := add_spec h r
  by_cases ha : Admits l r
  · rw [if_pos ha]
    refine ⟨fun port => ?_, fun port => ?_, ?_, fun port => ?_⟩
    · rw [hports port, servicesAt_append]
      by_cases hp : r.port = port
      · rw [if_pos ⟨ha, hp.symm⟩, if_pos hp, if_neg (by simp)]
      · rw [if_neg fun hc => hp hc.2.symm, if_neg hp]
        exact h.services port
    · rw [servicesAt_append]
      split
      · rename_i hp
        intro s hs hsingle
        subst hp
        rcases List.mem_append.mp hs with hs | hs
        · rw [(ha.2 s hs).1] at hsingle
          cases hsingle
        · obtain rfl := List.mem_singleton.mp hs
          cases hold : servicesAt l r.port with
          | nil => rfl
          | cons front rest =>
            have hshared := (ha.2 front (hold ▸ List.mem_cons_self)).2
            rw [hshared] at hsingle
            cases hsingle
      · exact h.exclusive port
    · rw [servicesAt_append, if_neg ha.1]
      exact h.nonzero
    · exact opened_append (h.opened port) ha hopened
  · rw [if_neg ha]
    refine ⟨fun port => ?_, h.exclusive, h.nonzero, fun port => ?_⟩
    · rw [hports port, if_neg fun hc => ha hc.1]
      exact h.services port
    · rw [hopened, if_neg fun hc => ha hc.1]
      exact h.opened port

theorem admitted_append (calls : List Registration) (r : Registration) :
    admitted (calls ++ [r]) =
      if Admits (admitted calls) r then admitted calls ++ [r] else admitted calls := by
  rw [admitted, List.foldl_append]
  rfl

theorem empty_holds : Holds .empty [] := by
  refine ⟨fun port => ?_, fun port s hs => absurd hs List.not_mem_nil, rfl, fun port => rfl⟩
  exact congrArg (Option.map ServicePort.m_services) Std.TreeMap.getElem?_emptyc

theorem addAll_append (m : ServiceManager) (calls : List Registration) (r : Registration) :
    addAll m (calls ++ [r]) =
      let (rets, u) := addAll m calls
      let (ret, v) := u.add r.service r.port r.ips
      (rets ++ [ret], v) := by
  induction calls generalizing m with
  | nil => rfl
  | cons c calls ih =>
    simp only [List.cons_append, addAll, ih]

theorem addAll_holds (calls : List Registration) :
    Holds (addAll .empty calls).2 (admitted calls) := by
  induction calls using List.reverseRecOn with
  | nil => exact empty_holds
  | append_singleton calls r ih =>
    rw [addAll_append, admitted_append]
    exact add_holds ih r

theorem getPorts_eq (m : ServiceManager) :
    m.getPorts = m.m_acceptors.keys ∧ m.getPorts.Pairwise (· < ·) := by
  have hordered : m.m_acceptors.keys.Pairwise (· < ·) := by
    refine (Std.TreeMap.ordered_keys (t := m.m_acceptors)).imp fun {a b} h => ?_
    exact Std.compare_eq_lt.mp h
  have hchain : m.m_acceptors.keys.IsChain (· ≠ ·) :=
    (hordered.imp fun {a b} h => UInt16.ne_of_lt h).isChain
  have hkeys := List.destutter_of_isChain (R := (· ≠ ·)) _ hchain
  refine ⟨hkeys, ?_⟩
  rw [ServiceManager.getPorts, hkeys]
  exact hordered

/-- Whatever is registered in whatever order, and for ports that are taken or not: `add` answers
for each service whether it may be there with those that are; the ports that run are those that
something was let in for, each once and in ascending order, with these services in their order;
a service that needs a port for itself has one; and a port is opened once, on the addresses of
the first service that was let in. -/
theorem services_registered (calls : List Registration) (r : Registration) :
    let m := (addAll .empty calls).2
    (addAll .empty (calls ++ [r])).1 =
        (addAll .empty calls).1 ++ [decide (Admits (admitted calls) r)] ∧
      (∀ port, (m.m_acceptors[port]?).map ServicePort.m_services =
        if servicesAt (admitted calls) port = [] then none
        else some (servicesAt (admitted calls) port)) ∧
      (∀ port, Exclusive (servicesAt (admitted calls) port)) ∧
      (∀ port, m.opened.filter (·.1 = port) =
        (((admitted calls).find? fun r => r.port = port).map fun r => (port, r.ips)).toList) ∧
      m.getPorts.Pairwise (· < ·) ∧
      ∀ port, port ∈ m.getPorts ↔ servicesAt (admitted calls) port ≠ [] := by
  intro m
  have hholds : Holds m (admitted calls) := addAll_holds calls
  obtain ⟨hadd, _⟩ := add_spec hholds r
  obtain ⟨hkeys, hsorted⟩ := getPorts_eq m
  refine ⟨?_, hholds.services, hholds.exclusive, hholds.opened, hsorted, fun port => ?_⟩
  · rw [addAll_append]
    exact congrArg ((addAll .empty calls).1 ++ [·]) hadd
  · have hport := hholds.services port
    rw [hkeys, Std.TreeMap.mem_keys, Std.TreeMap.mem_iff_isSome_getElem?]
    cases hget : m.m_acceptors[port]? with
    | none =>
      rw [hget, Option.map_none] at hport
      split at hport
      · rename_i hnil
        simp [hnil]
      · cases hport
    | some servicePort =>
      rw [hget, Option.map_some] at hport
      split at hport
      · cases hport
      · rename_i hne
        simp [hne]

/-! ## The address to listen on -/

/-- `bindHost` and `bindPort`. -/
def bindAddress (listenAddr : List UInt8) : List UInt8 × UInt16 :=
  match findLast 0x3A listenAddr with
  | some colonPos =>
    (listenAddr.take colonPos, UInt16.ofInt (atoi (listenAddr.drop (colonPos + 1))).toInt)
  | none => (ascii "0.0.0.0", 7171)

/-- The end of `otlogin`; nothing when the address is not one, since the start ends there. What `add`
returns is not looked at. -/
def otlogin (make_address : List UInt8 → Option IPAddress) (listenAddr : List UInt8) :
    Option ServiceManager :=
  let (bindHost, bindPort) := bindAddress listenAddr
  match make_address bindHost with
  | none => none
  | some bindAddr => some (ServiceManager.empty.add ProtocolLogin bindPort [bindAddr]).2

theorem atoi_text {n : ℕ} (hn : n < 2 ^ 31) : (atoi (text n)).toInt = n := by
  have hdigits : ∀ c ∈ text n, isDigit c = true := by
    intro c hc
    obtain ⟨hlow, hhigh⟩ := text_digits n c hc
    rw [isDigit, decide_eq_true_eq, UInt8.le_iff_toNat_le, UInt8.le_iff_toNat_le]
    exact ⟨hlow, hhigh⟩
  have hstring : cString (text n) = text n := by
    rw [cString_eq_self_iff]
    intro hzero
    exact (isDigit_ordinary (hdigits 0 hzero)).1 rfl
  have hdecimal : decimal (text n) = n := by
    rw [decimal, List.takeWhile_eq_self_iff.mpr hdigits]
    exact value_text n
  cases htext : text n with
  | nil => exact absurd htext (text_ne_nil n)
  | cons c digits =>
    have hdigit := hdigits c (htext ▸ List.mem_cons_self)
    obtain ⟨_, hspace, hsign, hminus⟩ := isDigit_ordinary hdigit
    have hplus : c ≠ 0x2B := fun hc => hsign (by rw [isSign, hc]; rfl)
    rw [htext] at hstring hdecimal
    rw [atoi, hstring, List.dropWhile_cons_of_neg hspace]
    split
    · rename_i he
      exact absurd (List.cons.inj he).1 hminus
    · rename_i he
      exact absurd (List.cons.inj he).1 hplus
    · rw [hdecimal, if_neg (by omega), if_neg (by omega)]
      exact Int32.toInt_ofInt_of_le (by omega) (by omega)

theorem colon_text (n : ℕ) : 0x3A ∉ text n := by
  intro hc
  have hcode := text_digits n _ hc
  exact absurd hcode (by decide)

theorem bindAddress_append (host : List UInt8) {n : ℕ} (hn : n < 2 ^ 31) :
    bindAddress (host ++ 0x3A :: text n) = (host, UInt16.ofNat n) := by
  rw [bindAddress, findLast_append (colon_text n)]
  dsimp only
  rw [List.take_left, ← List.drop_drop, List.drop_left, List.drop_one, List.tail_cons, atoi_text hn,
    UInt16.ofInt]
  congr 1
  rw [← UInt16.toNat_inj, UInt16.toNat_ofNat', UInt16.toNat_ofNat']
  omega

theorem add_empty (port : UInt16) (ips : List IPAddress) :
    (ServiceManager.empty.add ProtocolLogin port ips).2 =
      if port = 0 then .empty else
        ⟨(∅ : Std.TreeMap UInt16 ServicePort).insert port ⟨[ProtocolLogin], port⟩, [(port, ips)]⟩ := by
  rw [ServiceManager.add]
  by_cases hport : port = 0
  · rw [if_pos hport, if_pos hport]
  · have hnone : ServiceManager.empty.m_acceptors[port]? = none := Std.TreeMap.getElem?_emptyc
    rw [if_neg hport, if_neg hport, hnone]
    rfl

theorem add_empty_running {port : UInt16} (hport : port ≠ 0) (ips : List IPAddress) :
    let m := (ServiceManager.empty.add ProtocolLogin port ips).2
    m.isRunning = true ∧ m.getPorts = [port] ∧ m.opened = [(port, ips)] ∧
      ∀ other, (m.m_acceptors[other]?).map (fun s => s.m_services.map Service.protocol) =
        if other = port then some [Message.ProtocolLogin] else none := by
  intro m
  have hm : m = ⟨(∅ : Std.TreeMap UInt16 ServicePort).insert port ⟨[ProtocolLogin], port⟩,
      [(port, ips)]⟩ := by
    have hadd := add_empty port ips
    rwa [if_neg hport] at hadd
  have hget : ∀ other, m.m_acceptors[other]? =
      if port = other then some ⟨[ProtocolLogin], port⟩ else none := by
    intro other
    rw [hm, Std.TreeMap.getElem?_insert, Std.TreeMap.getElem?_emptyc]
    simp
  refine ⟨?_, ?_, by rw [hm], fun other => ?_⟩
  · rw [ServiceManager.isRunning, hm, Std.TreeMap.isEmpty_insert]
    rfl
  · obtain ⟨hkeys, hsorted⟩ := getPorts_eq m
    have hmem : ∀ other, other ∈ m.getPorts ↔ other = port := by
      intro other
      rw [hkeys, Std.TreeMap.mem_keys, Std.TreeMap.mem_iff_isSome_getElem?, hget]
      by_cases h : port = other
      · simp [h]
      · simp [h, Ne.symm h]
    -- A list in strict order whose only member is the port.
    cases hports : m.getPorts with
    | nil => exact absurd ((hmem port).mpr rfl) (by rw [hports]; exact List.not_mem_nil)
    | cons first rest =>
      have hfirst := (hmem first).mp (hports ▸ List.mem_cons_self)
      rw [hports] at hsorted
      cases rest with
      | nil => rw [hfirst]
      | cons second rest =>
        have hsecond := (hmem second).mp
          (hports ▸ List.mem_cons_of_mem _ List.mem_cons_self)
        have hlt := List.rel_of_pairwise_cons hsorted List.mem_cons_self
        rw [hfirst, hsecond] at hlt
        exact absurd hlt (UInt16.lt_irrefl port)
  · rw [hget]
    by_cases h : port = other
    · rw [if_pos h, if_pos h.symm]
      rfl
    · rw [if_neg h, if_neg (Ne.symm h)]
      rfl

theorem add_empty_zero (ips : List IPAddress) :
    (ServiceManager.empty.add ProtocolLogin 0 ips).2.isRunning = false := by
  rw [add_empty, if_pos rfl]
  rfl

/-- A written port number is opened modulo 65536, on the address in front of the last colon, with
the login protocol alone registered for it; with a multiple of 65536 the server starts without a
service; without a colon it listens where the default says. -/
theorem listen_address_served (make_address : List UInt8 → Option IPAddress) (host : List UInt8)
    (n : ℕ) (hn : n < 2 ^ 31) (plain : List UInt8) (hplain : 0x3A ∉ plain) :
    (match otlogin make_address (host ++ 0x3A :: text n) with
      | none => make_address host = none
      | some m => ∃ ip, make_address host = some ip ∧
        (m.isRunning = true ↔ n % 65536 ≠ 0) ∧
        (m.isRunning = true → m.getPorts = [UInt16.ofNat n] ∧ m.opened = [(UInt16.ofNat n, [ip])] ∧
          ∀ port, (m.m_acceptors[port]?).map (fun s => s.m_services.map Service.protocol) =
            if port = UInt16.ofNat n then some [Message.ProtocolLogin] else none)) ∧
      otlogin make_address plain = otlogin make_address (ascii "0.0.0.0:7171") := by
  constructor
  · rw [otlogin, bindAddress_append host hn]
    dsimp only
    cases hip : make_address host with
    | none => rfl
    | some ip =>
      have hzero : UInt16.ofNat n = 0 ↔ n % 65536 = 0 := by
        rw [← UInt16.toNat_inj, UInt16.toNat_ofNat']
        rfl
      refine ⟨ip, rfl, ?_⟩
      by_cases hport : UInt16.ofNat n = 0
      · rw [hport, add_empty_zero]
        have hn := hzero.mp hport
        simp [hn]
      · obtain ⟨hrunning, hserved⟩ := add_empty_running hport [ip]
        exact ⟨⟨fun _ hn => hport (hzero.mpr hn), fun _ => hrunning⟩, fun _ => hserved⟩
  · have hplain : bindAddress plain = (ascii "0.0.0.0", 7171) := by
      rw [bindAddress, findLast_eq_none hplain]
    have hwritten : ascii "0.0.0.0:7171" = ascii "0.0.0.0" ++ 0x3A :: text 7171 := by decide
    have hdefault := bindAddress_append (ascii "0.0.0.0") (n := 7171) (by decide)
    rw [otlogin, otlogin, hplain, hwritten, hdefault]
    rfl

def loopback (host : List UInt8) : Option IPAddress :=
  if host = ascii "127.0.0.1" then some (.v4 0x7F000001) else none

theorem port_72707_wraps :
    (otlogin loopback (ascii "127.0.0.1" ++ 0x3A :: text 72707)).map ServiceManager.getPorts =
      some [7171] := by
  have hserved := (listen_address_served loopback (ascii "127.0.0.1") 72707 (by decide) []
    List.not_mem_nil).1
  cases hm : otlogin loopback (ascii "127.0.0.1" ++ 0x3A :: text 72707) with
  | none =>
    rw [hm] at hserved
    exact absurd hserved (by decide)
  | some m =>
    rw [hm] at hserved
    obtain ⟨_, _, hrunning, hports⟩ := hserved
    rw [Option.map_some, (hports (hrunning.mpr (by decide))).1]
    rfl

end LoginServer.Services
