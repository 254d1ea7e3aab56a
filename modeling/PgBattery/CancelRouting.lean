import PgBattery.Framing
import PgBattery.Failover
import PgBattery.TransitionSystem

/-! Where a client's cancel requests go: the gateway's table from the key a client was given at
startup to the backend that runs its session, and the steps of the sessions that write it. -/
namespace PgBattery
namespace CancelRouting
open Postcard Framing StateMachine Failover TransitionSystem List

structure BackendKey where
  pid : ℤ
  secret : Bytes
  deriving DecidableEq

structure CancelRoute where
  addr : SocketAddr
  key : BackendKey
  deriving DecidableEq

abbrev BackendKeys := BackendKey → Option CancelRoute

def registerBackendKey (t : BackendKeys) (key : BackendKey) (route : CancelRoute) : BackendKeys :=
  Function.update t key (some route)

def unregisterBackendKey (t : BackendKeys) (key : BackendKey) : BackendKeys :=
  Function.update t key none

def i32FromBeBytes (bytes : Bytes) : ℤ :=
  if fromBeBytes bytes < 2147483648 then fromBeBytes bytes else fromBeBytes bytes-4294967296

def i32ToBeBytes (n : ℤ) : Bytes := toBeBytes 4 (n%4294967296).toNat

/-- A process id and a secret that is not empty, from the given place on. -/
def keyAt (n : ℕ) (msg : Bytes) : Option BackendKey :=
  if msg.length ≤ n+4 then none
  else some ⟨i32FromBeBytes ((msg.drop n).take 4),msg.drop (n+4)⟩

/-- The key of a BackendKeyData message: after its type and length. -/
def issuedKey (msg : Bytes) : Option BackendKey := keyAt 5 msg

/-- The key of a CancelRequest: after its length and code. -/
def cancelRequestKey (msg : Bytes) : Option BackendKey := keyAt 8 msg

def cancelRequestCode : Bytes := [4,210,22,46]

def buildCancelRequest (key : BackendKey) : Bytes :=
  toBeBytes 4 (min (12+key.secret.length) 4294967295)++cancelRequestCode++i32ToBeBytes key.pid++key.secret

/-- Route the client's cancels to the backend that sent its key: at startup the key is the client's
own, after a migration the client's key is re-pointed. -/
def handleBackendKeyDataMessage (clientKey : Option BackendKey) (backendAddr : Option SocketAddr)
    (t : BackendKeys) (msg : Bytes) (forwarded : Bool) : Option BackendKey × BackendKeys :=
  match issuedKey msg with
  | none => (clientKey,t)
  | some issued =>
    let clientKey := if forwarded then some issued else clientKey
    match clientKey,backendAddr with
    | some client,some addr => (clientKey,registerBackendKey t client ⟨addr,issued⟩)
    | _,_ => (clientKey,t)

def unknownSocketAddr : SocketAddr := .v4 (Vector.replicate 4 0) 0

/-- Where a cancel request is forwarded, and the bytes that are sent there; `none` drops it. -/
def forwardCancelRequest (t : BackendKeys) (msg : Bytes) : Except Failover.Error (Option (SocketAddr × Bytes)) :=
  match cancelRequestKey msg with
  | none => .error (.protocol "Cancel request too short")
  | some key => match t key with
    | none => .ok none
    | some route =>
      if route.addr = unknownSocketAddr then .error .noLeader
      else .ok (some (route.addr,buildCancelRequest route.key))

theorem i32FromBeBytes_toBeBytes {n : ℤ} (hl : -2147483648 ≤ n) (hh : n < 2147483648) :
    i32FromBeBytes (i32ToBeBytes n) = n := by
  have hv : fromBeBytes (i32ToBeBytes n) = (n%4294967296).toNat := by
    rw [i32ToBeBytes,fromBeBytes_toBeBytes]
    omega
  rw [i32FromBeBytes,hv]
  split_ifs <;> omega

theorem cancelRequestKey_build {key : BackendKey} (hl : -2147483648 ≤ key.pid)
    (hh : key.pid < 2147483648) (hs : key.secret ≠ []) :
    cancelRequestKey (buildCancelRequest key) = some key := by
  have hle : 0 < key.secret.length := length_pos_of_ne_nil hs
  have hp : ((buildCancelRequest key).drop 8).take 4 = i32ToBeBytes key.pid := by
    simp [buildCancelRequest,cancelRequestCode,i32ToBeBytes,drop_append,take_append]
  have hse : (buildCancelRequest key).drop 12 = key.secret := by
    simp [buildCancelRequest,cancelRequestCode,i32ToBeBytes,drop_append]
  have ht : ¬(buildCancelRequest key).length ≤ 8+4 := by
    simp only [buildCancelRequest,cancelRequestCode,i32ToBeBytes,length_append,length_toBeBytes,
      length_cons,length_nil]
    omega
  rw [cancelRequestKey,keyAt,if_neg ht,hp,hse,i32FromBeBytes_toBeBytes hl hh]

structure Connection where
  addr : SocketAddr
  key : Option BackendKey := none
  deriving DecidableEq

/-- Where a session's handler is: in the proxy loop, without a backend and waiting for a route,
connecting to its route, restoring itself on a new backend, telling the client why it ends. -/
inductive Phase
  | proxying
  | recovering
  | connecting (target : SocketAddr)
  | restoring
  | telling
  | ended
  deriving DecidableEq

/-- `connection` is the backend connection the session uses. -/
structure Session where
  backendKey : Option BackendKey := none
  backendAddr : Option SocketAddr
  phase : Phase := .proxying
  connection : Option Connection
  deriving DecidableEq

def Session.startedAt (addr : SocketAddr) : Session :=
  {backendAddr := some addr, connection := some ⟨addr,none⟩}

/-- `issued` are the keys that backends have sent so far. -/
structure Gateway where
  sessions : List Session := []
  backendKeys : BackendKeys := fun _ => none
  issued : List BackendKey := []

/-- What becomes of a session whose backend is gone: it cannot be moved, it has no route yet (or an
upgrade freeze holds it), or it moves to its route at once. -/
inductive Fate
  | severs
  | waits
  | moves (target : SocketAddr)
  deriving DecidableEq

inductive Event
  | start (addr : SocketAddr)
  | key (i : ℕ) (msg : Bytes)
  | lost (i : ℕ) (fate : Fate)
  | leave (i : ℕ) (target : SocketAddr)
  | connect (i : ℕ)
  | refused (i : ℕ)
  | restored (i : ℕ)
  | abandon (i : ℕ)
  | sever (i : ℕ)
  | finish (i : ℕ)

def Gateway.put (g : Gateway) (i : ℕ) (s : Session) (t : BackendKeys) : Gateway :=
  {g with sessions := g.sessions.set i s, backendKeys := t}

/-- Withdraw the client's cancel route; the client keeps its key. -/
def Session.unregisterBackendKey (s : Session) (t : BackendKeys) : BackendKeys :=
  match s.backendKey with
  | some key => CancelRouting.unregisterBackendKey t key
  | none => t

def Gateway.depart (g : Gateway) (i : ℕ) (s : Session) (target : SocketAddr) : Gateway :=
  g.put i {s with phase := .connecting target, connection := none}
    (s.unregisterBackendKey g.backendKeys)

/-- A backend sends its key once, before its first ReadyForQuery, and no two send the same. -/
def Gateway.readKey (g : Gateway) (i : ℕ) (s : Session) (msg : Bytes) : Option Gateway :=
  match s.connection,issuedKey msg with
  | some c,some issued =>
    if c.key = none ∧ issued ∉ g.issued ∧ (s.phase = .proxying ∨ s.phase = .restoring) then
      let (clientKey,t) := handleBackendKeyDataMessage s.backendKey s.backendAddr g.backendKeys msg
        (s.phase = .proxying)
      some {g.put i {s with backendKey := clientKey, connection := some {c with key := some issued}} t with
        issued := issued::g.issued}
    else none
  | _,_ => none

/-- No connection can be made to the address that stands for an unknown one. -/
def step (g : Gateway) : Event → Option Gateway
  | .start addr =>
    if addr = unknownSocketAddr then none
    else some {g with sessions := g.sessions++[.startedAt addr]}
  | .key i msg => g.sessions[i]?.bind fun s => g.readKey i s msg
  | .lost i fate => g.sessions[i]?.bind fun s =>
    if s.phase = .proxying then match fate with
      | .severs => some (g.put i {s with phase := .telling, connection := none} g.backendKeys)
      | .waits => some (g.put i {s with phase := .recovering, connection := none} g.backendKeys)
      | .moves target => some (g.depart i s target)
    else none
  | .leave i target => g.sessions[i]?.bind fun s =>
    if s.phase = .proxying ∨ s.phase = .recovering then some (g.depart i s target) else none
  | .connect i => g.sessions[i]?.bind fun s => match s.phase with
    | .connecting target =>
      if target = unknownSocketAddr then none
      else some (g.put i
        {s with phase := .restoring, backendAddr := some target, connection := some ⟨target,none⟩}
        g.backendKeys)
    | .proxying | .recovering | .restoring | .telling | .ended => none
  | .refused i => g.sessions[i]?.bind fun s => match s.phase with
    | .connecting _ => some (g.put i {s with phase := .recovering} g.backendKeys)
    | .proxying | .recovering | .restoring | .telling | .ended => none
  | .restored i => g.sessions[i]?.bind fun s =>
    if s.phase = .restoring then some (g.put i {s with phase := .proxying} g.backendKeys) else none
  | .abandon i => g.sessions[i]?.bind fun s =>
    if s.phase = .restoring then
      some (g.put i {s with phase := .recovering, connection := none} g.backendKeys)
    else none
  | .sever i => g.sessions[i]?.bind fun s =>
    if s.phase = .telling ∨ s.phase = .ended then none
    else some (g.put i {s with phase := .telling} g.backendKeys)
  | .finish i => g.sessions[i]?.bind fun s =>
    if s.phase = .ended then none
    else some (g.put i {s with phase := .ended, connection := none}
      (s.unregisterBackendKey g.backendKeys))

def Session.Routes (s : Session) (key : BackendKey) (route : CancelRoute) : Prop :=
  s.backendKey = some key ∧ s.connection = some ⟨route.addr,some route.key⟩

/-- A cancel request that is forwarded carries the startup key of a session, and goes to the backend
connection that session uses, with the key that backend issued. -/
def Routed (g : Gateway) : Prop :=
  ∀ msg addr sent, forwardCancelRequest g.backendKeys msg = .ok (some (addr,sent)) →
    ∃ key route, cancelRequestKey msg = some key ∧ route.addr = addr ∧
      sent = buildCancelRequest route.key ∧ ∃ s ∈ g.sessions, s.Routes key route

def Session.keyed (s : Session) : Bool :=
  s.backendKey.isSome && s.connection.any fun c => c.key.isSome

/-- A session that is routed loses its backend only where it can move at once, and no attempt to
restore it fails once the new backend's key was read. -/
def Meets (g : Gateway) : Event → Prop
  | .lost i .severs | .lost i .waits => ∀ s ∈ g.sessions[i]?, s.phase = .proxying → s.keyed = false
  | .abandon i => ∀ s ∈ g.sessions[i]?, s.phase = .restoring → s.keyed = false
  | .start _ | .key .. | .lost _ (.moves _) | .leave .. | .connect _ | .refused _ | .restored _
  | .sever _ | .finish _ => True

def BackendKey.Valid (key : BackendKey) : Prop :=
  -2147483648 ≤ key.pid ∧ key.pid < 2147483648 ∧ key.secret ≠ []

theorem fromBeBytes_lt (bytes : Bytes) : fromBeBytes bytes < 256^bytes.length := by
  induction bytes using List.reverseRecOn with
  | nil => decide
  | append_singleton bytes b ih =>
    have hs : fromBeBytes (bytes++[b]) = fromBeBytes bytes*256+b.val := by
      simp [fromBeBytes,foldl_append]
    have hb := b.isLt
    rw [hs,length_append,length_singleton,pow_succ]
    omega

theorem issuedKey_valid {msg : Bytes} {key : BackendKey} (h : issuedKey msg = some key) : key.Valid := by
  rw [issuedKey,keyAt] at h
  split_ifs at h with hl
  cases h
  have hlt := fromBeBytes_lt ((msg.drop 5).take 4)
  have ht : ((msg.drop 5).take 4).length = 4 := by
    rw [length_take,length_drop]
    omega
  rw [ht] at hlt
  refine ⟨?_,?_,?_⟩
  · simp only [i32FromBeBytes]
    split_ifs <;> omega
  · simp only [i32FromBeBytes]
    split_ifs <;> omega
  · rw [ne_eq,drop_eq_nil_iff]
    exact hl

/-- The table leads from the startup key of each session to the connection it uses, and from no other
key anywhere. -/
structure Inv (g : Gateway) : Prop where
  issued : ∀ {s : Session} {key}, s ∈ g.sessions → s.backendKey = some key → key ∈ g.issued
  valid : ∀ key ∈ g.issued, key.Valid
  distinct : ∀ {i j : ℕ} {s t : Session} {key}, g.sessions[i]? = some s → g.sessions[j]? = some t →
    s.backendKey = some key → t.backendKey = some key → i = j
  routed : ∀ key route, g.backendKeys key = some route ↔ ∃ s ∈ g.sessions, s.Routes key route
  addr : ∀ {s : Session} {c}, s ∈ g.sessions → s.connection = some c →
    s.backendAddr = some c.addr ∧ c.addr ≠ unknownSocketAddr
  left : ∀ {s : Session} {target}, s ∈ g.sessions → s.phase = .connecting target → s.connection = none

section Put
variable {g : Gateway} {i : ℕ} {s s' : Session} {t : BackendKeys} {ks : List BackendKey}

theorem getElem?_put (hs : g.sessions[i]? = some s) {j : ℕ} {x : Session}
    (hx : (g.sessions.set i s')[j]? = some x) :
    j = i ∧ x = s' ∨ j ≠ i ∧ g.sessions[j]? = some x := by
  by_cases hj : j = i
  · rw [hj,List.getElem?_set_self (List.getElem?_eq_some_iff.1 hs).1] at hx
    cases hx
    exact .inl ⟨hj,rfl⟩
  · rw [List.getElem?_set_ne (Ne.symm hj)] at hx
    exact .inr ⟨hj,hx⟩

theorem Inv.put (h : Inv g) (hs : g.sessions[i]? = some s) (hsu : g.issued ⊆ ks)
    (hv : ∀ key ∈ ks, key.Valid)
    (hke : s'.backendKey = s.backendKey ∨ ∃ key ∈ ks, s'.backendKey = some key ∧ key ∉ g.issued)
    (ha : ∀ c, s'.connection = some c → s'.backendAddr = some c.addr ∧ c.addr ≠ unknownSocketAddr)
    (hl : ∀ target, s'.phase = .connecting target → s'.connection = none)
    (how : ∀ key route, s.backendKey = some key ∨ s'.backendKey = some key →
      (t key = some route ↔ s'.Routes key route))
    (ho : ∀ key, s.backendKey ≠ some key → s'.backendKey ≠ some key → t key = g.backendKeys key) :
    Inv {g.put i s' t with issued := ks} := by
  have hlt : i < g.sessions.length := (List.getElem?_eq_some_iff.1 hs).1
  have hm : s ∈ g.sessions := mem_of_getElem? hs
  -- no other session holds a key of this one, before or after
  have hu : ∀ {j x key}, j ≠ i → g.sessions[j]? = some x → x.backendKey = some key →
      s.backendKey ≠ some key ∧ s'.backendKey ≠ some key := by
    intro j x key hj hx hxk
    have hsk : s.backendKey ≠ some key := fun hsk => hj (h.distinct hx hs hxk hsk)
    refine ⟨hsk,fun hs' => ?_⟩
    rcases hke with he | ⟨k,_,hk,hf⟩
    · exact hsk (he ▸ hs')
    · rw [hk] at hs'
      cases hs'
      exact hf (h.issued (mem_of_getElem? hx) hxk)
  refine ⟨?_,hv,?_,?_,?_,?_⟩
  · intro x key hx hxk
    rcases mem_or_eq_of_mem_set hx with hx | rfl
    · exact hsu (h.issued hx hxk)
    · rcases hke with he | ⟨k,hk,hk',_⟩
      · exact hsu (h.issued hm (he ▸ hxk))
      · rw [hk'] at hxk
        cases hxk
        exact hk
  · intro j j' x y key hx hy hxk hyk
    obtain ⟨rfl,rfl⟩ | ⟨hj,hx₀⟩ := getElem?_put hs hx
    · obtain ⟨hj',-⟩ | ⟨hj',hy₀⟩ := getElem?_put hs hy
      · exact hj'.symm
      · exact absurd hxk (hu hj' hy₀ hyk).2
    · obtain ⟨-,rfl⟩ | ⟨hj',hy₀⟩ := getElem?_put hs hy
      · exact absurd hyk (hu hj hx₀ hxk).2
      · exact h.distinct hx₀ hy₀ hxk hyk
  · intro key route
    by_cases hk : s.backendKey = some key ∨ s'.backendKey = some key
    · refine (how key route hk).trans ⟨fun hr => ⟨s',mem_set hlt s',hr⟩,?_⟩
      rintro ⟨x,hx,hr⟩
      obtain ⟨j,hx⟩ := mem_iff_getElem?.1 hx
      obtain ⟨rfl,rfl⟩ | ⟨hj,hx⟩ := getElem?_put hs hx
      · exact hr
      · obtain ⟨h₁,h₂⟩ := hu hj hx hr.1
        exact absurd hk (by simp [h₁,h₂])
    · rw [not_or] at hk
      show t key = some route ↔ _
      rw [ho key hk.1 hk.2,h.routed key route]
      constructor
      · rintro ⟨x,hx,hr⟩
        obtain ⟨j,hx⟩ := mem_iff_getElem?.1 hx
        have hj : j ≠ i := by
          rintro rfl
          rw [hs] at hx
          cases hx
          exact hk.1 hr.1
        refine ⟨x,mem_iff_getElem?.2 ⟨j,?_⟩,hr⟩
        rw [← hx]
        exact List.getElem?_set_ne (Ne.symm hj)
      · rintro ⟨x,hx,hr⟩
        rcases mem_or_eq_of_mem_set hx with hx | rfl
        · exact ⟨x,hx,hr⟩
        · exact absurd hr.1 hk.2
  · intro x c hx hc
    rcases mem_or_eq_of_mem_set hx with hx | rfl
    · exact h.addr hx hc
    · exact ha c hc
  · intro x target hx ht
    rcases mem_or_eq_of_mem_set hx with hx | rfl
    · exact h.left hx ht
    · exact hl target ht

theorem Inv.keep (h : Inv g) (hs : g.sessions[i]? = some s) (hke : s'.backendKey = s.backendKey)
    (ha : ∀ c, s'.connection = some c → s'.backendAddr = some c.addr ∧ c.addr ≠ unknownSocketAddr)
    (hl : ∀ target, s'.phase = .connecting target → s'.connection = none)
    (hro : ∀ key route, s'.Routes key route ↔ s.Routes key route) :
    Inv (g.put i s' g.backendKeys) := by
  refine h.put hs (List.Subset.refl _) h.valid (.inl hke) ha hl ?_ fun _ _ _ => rfl
  intro key route hk
  have hsk : s.backendKey = some key := hk.elim id fun hk => hke ▸ hk
  rw [h.routed,hro]
  constructor
  · rintro ⟨x,hx,hr⟩
    obtain ⟨j,hx⟩ := mem_iff_getElem?.1 hx
    obtain rfl := h.distinct hx hs hr.1 hsk
    rw [hs] at hx
    cases hx
    exact hr
  · exact fun hr => ⟨s,mem_of_getElem? hs,hr⟩

theorem Inv.withdraw (h : Inv g) (hs : g.sessions[i]? = some s) (phase : Phase) :
    Inv (g.put i {s with phase := phase, connection := none} (s.unregisterBackendKey g.backendKeys)) := by
  refine h.put hs (List.Subset.refl _) h.valid (.inl rfl) (fun _ hc => nomatch hc) (fun _ _ => rfl) ?_ ?_
  · intro key route hk
    have hsk : s.backendKey = some key := hk.elim id id
    simp [hsk,unregisterBackendKey,Session.Routes]
  · intro key hk _
    cases hsk : s.backendKey with
    | none => rfl
    | some k =>
      have hne : key ≠ k := by
        rintro rfl
        exact hk hsk
      exact Function.update_of_ne hne _ _

def Session.keyAfter (s : Session) (issued : BackendKey) : Option BackendKey :=
  if s.phase = .proxying then some issued else s.backendKey

def Session.tableAfter (s : Session) (addr : SocketAddr) (issued : BackendKey) (t : BackendKeys) :
    BackendKeys :=
  match s.keyAfter issued with
  | some client => registerBackendKey t client ⟨addr,issued⟩
  | none => t

theorem readKey_eq_some {msg : Bytes} {g' : Gateway} (h : g.readKey i s msg = some g')
    (ha : ∀ c, s.connection = some c → s.backendAddr = some c.addr) :
    ∃ c issued, s.connection = some c ∧ c.key = none ∧ issuedKey msg = some issued ∧
      issued ∉ g.issued ∧ g' = {g.put i {s with
          backendKey := s.keyAfter issued
          connection := some {c with key := some issued}}
        (s.tableAfter c.addr issued g.backendKeys) with issued := issued::g.issued} := by
  unfold Gateway.readKey at h
  split at h
  · next c issued hc hm =>
    split_ifs at h with hco
    refine ⟨c,issued,hc,hco.1,hm,hco.2.1,?_⟩
    simp only [handleBackendKeyDataMessage,hm,ha c hc,decide_eq_true_eq] at h
    simp only [Session.tableAfter,Session.keyAfter,ha c hc]
    generalize (if s.phase = .proxying then some issued else s.backendKey) = client at h ⊢
    cases client <;> exact (Option.some.inj h).symm
  · cases h

theorem Inv.readKey (h : Inv g) (hs : g.sessions[i]? = some s) {msg : Bytes} {g' : Gateway}
    (hr : g.readKey i s msg = some g') : Inv g' := by
  have hme := mem_of_getElem? hs
  obtain ⟨c,issued,hc,hn,hm,hf,rfl⟩ := readKey_eq_some hr fun c hc => (h.addr hme hc).1
  have hcl : s.keyAfter issued = s.backendKey ∨ s.keyAfter issued = some issued := by
    unfold Session.keyAfter
    split_ifs
    · exact .inr rfl
    · exact .inl rfl
  refine h.put hs (subset_cons_self ..) ?_ ?_ ?_ ?_ ?_ ?_
  · intro key hk
    rcases mem_cons.1 hk with rfl | hk
    · exact issuedKey_valid hm
    · exact h.valid key hk
  · rcases hcl with he | he
    · exact .inl he
    · exact .inr ⟨issued,mem_cons_self,he,hf⟩
  · intro c' hc'
    cases hc'
    have had := h.addr hme hc
    exact had
  · intro target ht
    rw [h.left hme ht] at hc
    cases hc
  · intro key route hk
    by_cases hke : s.keyAfter issued = some key
    · simp only [Session.tableAfter,hke,registerBackendKey,Function.update_self,Session.Routes,true_and]
      cases route
      simp
    · -- the session's earlier key is replaced; it was routed nowhere
      have hsk : s.backendKey = some key := hk.resolve_right hke
      have ha : s.keyAfter issued = some issued :=
        hcl.resolve_left fun he => hke (he.trans hsk)
      have hne : key ≠ issued := by
        rintro rfl
        exact hke ha
      have hnw : s.tableAfter c.addr issued g.backendKeys key = g.backendKeys key := by
        simp only [Session.tableAfter,ha,registerBackendKey]
        exact Function.update_of_ne hne _ _
      rw [hnw]
      refine iff_of_false (fun hr => ?_) fun hr => hke hr.1
      obtain ⟨x,hx,hxk,hxc⟩ := (h.routed key route).1 hr
      obtain ⟨j,hx⟩ := mem_iff_getElem?.1 hx
      obtain rfl := h.distinct hx hs hxk hsk
      rw [hs] at hx
      cases hx
      rw [hc] at hxc
      cases hxc
      cases hn
  · intro key _ hk
    cases ha : s.keyAfter issued with
    | none => simp only [Session.tableAfter,ha]
    | some client =>
      have hne : key ≠ client := by
        rintro rfl
        exact hk ha
      simp only [Session.tableAfter,ha,registerBackendKey]
      exact Function.update_of_ne hne _ _

end Put

section Run
variable {g g' : Gateway} {e : Event}

theorem Inv.start (h : Inv g) {addr : SocketAddr} (ha : addr ≠ unknownSocketAddr) :
    Inv {g with sessions := g.sessions++[.startedAt addr]} := by
  have hg : ∀ {i : ℕ} {s : Session} {key}, (g.sessions++[.startedAt addr])[i]? = some s →
      s.backendKey = some key → g.sessions[i]? = some s := by
    intro i s key hs hk
    by_cases hi : i < g.sessions.length
    · rwa [List.getElem?_append_left hi] at hs
    · rw [List.getElem?_append_right (not_lt.1 hi)] at hs
      have hm := mem_of_getElem? hs
      rw [mem_singleton.1 hm] at hk
      cases hk
  refine ⟨?_,h.valid,fun hs ht hk hk' => h.distinct (hg hs hk) (hg ht hk') hk hk',?_,?_,?_⟩
  · intro s key hs hk
    rcases mem_append.1 hs with hs | hs
    · exact h.issued hs hk
    · cases mem_singleton.1 hs
      cases hk
  · intro key route
    rw [h.routed key route]
    constructor
    · rintro ⟨s,hs,hr⟩
      exact ⟨s,mem_append_left _ hs,hr⟩
    · rintro ⟨s,hs,hr⟩
      rcases mem_append.1 hs with hs | hs
      · exact ⟨s,hs,hr⟩
      · cases mem_singleton.1 hs
        cases hr.1
  · intro s c hs hc
    rcases mem_append.1 hs with hs | hs
    · exact h.addr hs hc
    · cases mem_singleton.1 hs
      cases hc
      exact ⟨rfl,ha⟩
  · intro s target hs ht
    rcases mem_append.1 hs with hs | hs
    · exact h.left hs ht
    · cases mem_singleton.1 hs
      cases ht

theorem not_routes_of_keyed {s : Session} (h : s.keyed = false) (key : BackendKey) (route : CancelRoute) :
    ¬s.Routes key route := by
  rintro ⟨hk,hc⟩
  simp [Session.keyed,hk,hc] at h

theorem Inv.drop (h : Inv g) {i : ℕ} {s : Session} (hs : g.sessions[i]? = some s)
    (hk : s.keyed = false) (phase : Phase) :
    Inv (g.put i {s with phase := phase, connection := none} g.backendKeys) :=
  h.keep hs rfl (fun _ hc => nomatch hc) (fun _ _ => rfl) fun key route =>
    iff_of_false (fun hr => nomatch hr.2) (not_routes_of_keyed hk key route)

theorem Inv.enter (h : Inv g) {i : ℕ} {s : Session} (hs : g.sessions[i]? = some s) {phase : Phase}
    (hp : ∀ target, phase ≠ .connecting target) :
    Inv (g.put i {s with phase := phase} g.backendKeys) := by
  have ha := @Inv.addr g h s
  exact h.keep hs rfl (fun c hc => ha (mem_of_getElem? hs) hc)
    (fun target ht => absurd ht (hp target)) fun _ _ => Iff.rfl

theorem Inv.connect (h : Inv g) {i : ℕ} {s : Session} (hs : g.sessions[i]? = some s)
    (hl : s.connection = none) {target : SocketAddr} (hk : target ≠ unknownSocketAddr) :
    Inv (g.put i
      {s with phase := .restoring, backendAddr := some target, connection := some ⟨target,none⟩}
      g.backendKeys) := by
  refine h.keep hs rfl ?_ (fun target ht => nomatch ht) fun key route => iff_of_false ?_ ?_
  · intro c hc
    cases hc
    exact ⟨rfl,hk⟩
  · exact fun hr => nomatch hr.2
  · intro hr
    rw [Session.Routes,hl] at hr
    cases hr.2

theorem inv_step (h : Inv g) (hm : Meets g e) (hs : step g e = some g') : Inv g' := by
  cases e
  case start addr =>
    simp only [step] at hs
    split_ifs at hs with ha
    cases hs
    exact h.start ha
  all_goals obtain ⟨s,hi,hr⟩ := Option.bind_eq_some_iff.1 hs
  case key => exact h.readKey hi hr
  case connect =>
    split at hr <;> try cases hr
    next target hp =>
    split_ifs at hr with hk
    cases hr
    exact h.connect hi (h.left (mem_of_getElem? hi) hp) hk
  case refused =>
    split at hr <;> cases hr
    exact h.enter hi (by simp)
  case lost fate =>
    split_ifs at hr with hp
    cases fate <;> cases hr
    · exact h.drop hi (hm s hi hp) _
    · exact h.drop hi (hm s hi hp) _
    · exact h.withdraw hi _
  all_goals
    split_ifs at hr with hp
    cases hr
  · exact h.withdraw hi _
  · exact h.enter hi (by simp)
  · exact h.drop hi (hm s hi hp) _
  · exact h.enter hi (by simp)
  · exact h.withdraw hi _

theorem inv_init : Inv {} where
  issued hs := nomatch hs
  valid _ hk := nomatch hk
  distinct hs := nomatch hs
  routed _ _ := iff_of_false (fun h => nomatch h) fun h => by simp at h
  addr hs := nomatch hs
  left hs := nomatch hs

theorem forwardCancelRequest_eq_some {t : BackendKeys} {msg sent : Bytes} {addr : SocketAddr} :
    forwardCancelRequest t msg = .ok (some (addr,sent)) ↔ addr ≠ unknownSocketAddr ∧
      ∃ key route, cancelRequestKey msg = some key ∧ t key = some route ∧ route.addr = addr ∧
        sent = buildCancelRequest route.key := by
  unfold forwardCancelRequest
  cases cancelRequestKey msg with
  | none => simp
  | some key =>
    cases ht : t key with
    | none => simp [ht]
    | some route =>
      by_cases hu : route.addr = unknownSocketAddr
      · simp only [ht,hu,if_true,reduceCtorEq,false_iff]
        rintro ⟨hne,k,r,hk,hr,rfl,-⟩
        cases hk
        rw [ht] at hr
        cases hr
        exact hne hu
      · simp only [ht,hu,if_false,Except.ok.injEq,Option.some.injEq,Prod.mk.injEq]
        constructor
        · rintro ⟨rfl,rfl⟩
          exact ⟨hu,key,route,rfl,ht,rfl,rfl⟩
        · rintro ⟨-,k,r,rfl,hr,rfl,rfl⟩
          rw [ht] at hr
          cases hr
          exact ⟨rfl,rfl⟩

theorem routed_of_inv (h : Inv g) : Routed g := by
  intro msg addr sent hf
  obtain ⟨-,key,route,hk,ht,ha,hs⟩ := forwardCancelRequest_eq_some.1 hf
  exact ⟨key,route,hk,ha,hs,(h.routed key route).1 ht⟩

/-- A routed session that drops its connection and keeps its entry misroutes its client's cancels. -/
theorem unkeyed_of_routed (h : Inv g) {i : ℕ} {s : Session} (hs : g.sessions[i]? = some s) (phase : Phase)
    (hr : Routed (g.put i {s with phase := phase, connection := none} g.backendKeys)) :
    s.keyed = false := by
  by_contra hke
  rw [Bool.not_eq_false,Session.keyed,Bool.and_eq_true,Option.isSome_iff_exists,Option.any_eq_true] at hke
  obtain ⟨⟨key,hk⟩,c,hc,hck⟩ := hke
  obtain ⟨issued,hi⟩ := Option.isSome_iff_exists.1 hck
  have hm := mem_of_getElem? hs
  obtain ⟨hl,hh,hse⟩ := h.valid key (h.issued hm hk)
  have hro : s.Routes key ⟨c.addr,issued⟩ := ⟨hk,by rw [hc,← hi]⟩
  have ht := (h.routed key _).2 ⟨s,hm,hro⟩
  have hf : forwardCancelRequest g.backendKeys (buildCancelRequest key) =
      .ok (some (c.addr,buildCancelRequest issued)) :=
    forwardCancelRequest_eq_some.2 ⟨(h.addr hm hc).2,key,_,
      cancelRequestKey_build hl hh hse,ht,rfl,rfl⟩
  obtain ⟨key',route,hk',-,-,x,hx,hxr⟩ := hr _ _ _ hf
  rw [cancelRequestKey_build hl hh hse] at hk'
  cases hk'
  obtain ⟨j,hx⟩ := mem_iff_getElem?.1 hx
  obtain ⟨-,rfl⟩ | ⟨hj,hx⟩ := getElem?_put hs hx
  · cases hxr.2
  · exact hj (h.distinct hx hs hxr.1 hk)

theorem meets_of_routed (h : Inv g) (hr : ∀ g', step g e = some g' → Routed g') : Meets g e := by
  cases e with
  | lost i fate =>
    cases fate with
    | moves target => trivial
    | severs =>
      intro s hs hp
      exact unkeyed_of_routed h hs .telling (hr _ (by simp [step,Option.mem_def.1 hs,hp]))
    | waits =>
      intro s hs hp
      exact unkeyed_of_routed h hs .recovering (hr _ (by simp [step,Option.mem_def.1 hs,hp]))
  | abandon i =>
    intro s hs hp
    exact unkeyed_of_routed h hs .recovering (hr _ (by simp [step,Option.mem_def.1 hs,hp]))
  | _ => trivial

/-- In every interleaving, cancels are routed in each state that is reached exactly when each step
meets the condition. -/
theorem cancels_routed_iff (es : List Event) :
    Guarded step (fun g e => ∀ g', step g e = some g' → Routed g') {} es ↔ Guarded step Meets {} es := by
  constructor
  · exact Guarded.imp (fun g e g' h hr hs => inv_step h (meets_of_routed h hr) hs)
      (fun g e h hr => meets_of_routed h hr) inv_init
  · exact Guarded.imp (fun g e g' h hm hs => inv_step h hm hs)
      (fun g e h hm g' hs => routed_of_inv (inv_step h hm hs)) inv_init

def sampleKey : BackendKey := ⟨7,[1,2,3,4]⟩

def keyData (key : BackendKey) : Bytes := 75::toBeBytes 4 12++i32ToBeBytes key.pid++key.secret

def node (n : ℕ) : SocketAddr := .v4 (Vector.replicate 4 10) (Fin.ofNat _ (5432+n))

/-- The primary of a session is lost before there is a new one; and an attempt to restore a session
fails after the new backend has sent its key. -/
def sampleStale : List (List Event) :=
  [[.start (node 0),.key 0 (keyData sampleKey),.lost 0 .waits],
    [.start (node 0),.key 0 (keyData sampleKey),.lost 0 (.moves (node 1)),.connect 0,
      .key 0 (keyData ⟨9,[5,6,7,8]⟩),.abandon 0]]

theorem cancel_to_lost_backend : sampleStale.Forall fun es => ∃ g, run step {} es = some g ∧ ¬Routed g := by
  have ha : (sampleStale.all fun es => (run step {} es).any fun g =>
      (g.backendKeys sampleKey).any (fun route => route.addr ≠ unknownSocketAddr) &&
        g.sessions.all fun s => s.connection = none) := by
    decide +kernel
  rw [forall_iff_forall_mem]
  intro es hes
  obtain ⟨g,hg,hch⟩ := (Option.any_eq_true _ _).1 (all_eq_true.1 ha es hes)
  rw [Bool.and_eq_true,Option.any_eq_true] at hch
  obtain ⟨⟨route,ht,hk⟩,hn⟩ := hch
  refine ⟨g,hg,fun hr => ?_⟩
  have hf := (@forwardCancelRequest_eq_some g.backendKeys (buildCancelRequest sampleKey)
    (buildCancelRequest route.key) route.addr).2 ⟨of_decide_eq_true hk,sampleKey,route,
      cancelRequestKey_build (by decide) (by decide) (by decide),ht,rfl,rfl⟩
  obtain ⟨_,_,_,_,_,s,hs,hro⟩ := hr _ _ _ hf
  have hc := of_decide_eq_true (all_eq_true.1 hn s hs)
  rw [hro.2] at hc
  cases hc

end Run

end CancelRouting
end PgBattery
