import Http2Server.Client
import Http2Server.Lib.Registry

/-!
# The clients of the server

`ClientManager` keeps the clients by descriptor and finds them by id. A pointer
to a client is its id here: no id is given twice, and reading through the
pointer is looking the id up, which fails once the client is deleted.

- `getClient_of_fd`: a client that is kept is found by its id.
- `getClient_removeClient`: a client that was removed is not.
-/

namespace Http2Server

open Lib

structure ClientRecord where
  id : Nat
  fd : Nat
  client : Client

/-- A client stands at its own descriptor, and no other has its id or a later one
has been given. -/
structure Registered (clients : Std.TreeMap Nat ClientRecord) (ctr : Nat) : Prop where
  keyed : ∀ (fd : Nat) (c : ClientRecord), clients[fd]? = some c → c.fd = fd
  unique : Registry.Unique ClientRecord.id clients
  numbered : ∀ (fd : Nat) (c : ClientRecord), clients[fd]? = some c → c.id ≤ ctr

structure ClientManager where
  clients : Std.TreeMap Nat ClientRecord := ∅
  ctr : Nat := 0
  registered : Registered clients ctr

/-- `SSL_ERROR_WANT_READ` and `SSL_ERROR_WANT_WRITE` -/
def sslWants : List Nat := [2, 3]

/-- What an `SSL_accept` returns: a session with the protocol ALPN selected, or
an error, which `SSL_get_error` has the code of. -/
inductive SslAccept where
  | accepted (alpn : Bytes)
  | error (code : Nat)
  deriving DecidableEq, Repr

/-- What a client's event meets outside the server. -/
structure ClientEvent where
  env : Env
  timedOut : Bool
  accept : SslAccept
  read : ReadResult
  fits : read.Fits

namespace Client

def setState (c : Client) (state : ClientState) : Client :=
  { c with session := { c.session with state } }

def continueHandshake (c : Client) (accept : SslAccept) : Int × Client :=
  if c.session.state ≠ .handshake then (1, c)
  else match accept with
    | .accepted alpn => if alpn = ascii "h2" then (1, c) else (-1, c.setState .closed)
    | .error code => if code ∈ sslWants then (0, c) else (-1, c.setState .closed)

end Client

def SslAccept.Failed : SslAccept → Prop
  | accepted alpn => alpn ≠ ascii "h2"
  | error code => code ∉ sslWants

/-- A handshake is done, goes on or fails. -/
theorem Client.continueHandshake_cases {c : Client} (shaking : c.session.state = .handshake)
    (accept : SslAccept) :
    accept = .accepted (ascii "h2") ∧ c.continueHandshake accept = (1, c) ∨
      (∃ code ∈ sslWants, accept = .error code) ∧ c.continueHandshake accept = (0, c) ∨
      accept.Failed ∧ c.continueHandshake accept = (-1, c.setState .closed) := by
  have shake : ¬ c.session.state ≠ .handshake := not_not.mpr shaking
  cases accept with
  | accepted alpn =>
    by_cases h2 : alpn = ascii "h2"
    · exact .inl ⟨congrArg _ h2, by simp only [continueHandshake, if_neg shake, if_pos h2]⟩
    · exact .inr (.inr ⟨h2, by simp only [continueHandshake, if_neg shake, if_neg h2]⟩)
  | error code =>
    by_cases wants : code ∈ sslWants
    · exact .inr (.inl ⟨⟨code, wants, rfl⟩,
        by simp only [continueHandshake, if_neg shake, if_pos wants]⟩)
    · exact .inr (.inr ⟨wants, by simp only [continueHandshake, if_neg shake, if_neg wants]⟩)

namespace Registered

variable {clients : Std.TreeMap Nat ClientRecord} {ctr : Nat}

theorem empty : Registered ∅ 0 where
  keyed _ _ h := by simp at h
  unique _ _ _ _ h := by simp at h
  numbered _ _ h := by simp at h

theorem assign (h : Registered clients ctr) (id : Nat) (client : Client) :
    Registered (Registry.assign ClientRecord.id clients id ({ · with client })) ctr := by
  have within (fd : Nat) (c : ClientRecord)
      (found : (Registry.assign ClientRecord.id clients id ({ · with client }))[fd]? = some c) :
      ∃ old, clients[fd]? = some old ∧ c.fd = old.fd ∧ c.id = old.id := by
    rw [Registry.getElem?_assign] at found
    obtain ⟨old, before, rfl⟩ := Option.map_eq_some_iff.mp found
    refine ⟨old, before, ?_⟩
    split <;> exact ⟨rfl, rfl⟩
  constructor
  · intro fd c found
    obtain ⟨old, before, fd', _⟩ := within fd c found
    exact fd'.trans (h.keyed fd old before)
  · exact h.unique.assign fun _ => rfl
  · intro fd c found
    obtain ⟨old, before, _, id'⟩ := within fd c found
    exact id' ▸ h.numbered fd old before

theorem remove (h : Registered clients ctr) (id : Nat) :
    Registered (Registry.remove ClientRecord.id clients id) ctr := by
  have within (fd : Nat) (c : ClientRecord)
      (found : (Registry.remove ClientRecord.id clients id)[fd]? = some c) :
      clients[fd]? = some c := by
    rw [Registry.getElem?_remove h.unique] at found
    exact (Option.filter_eq_some_iff.mp found).1
  constructor
  · exact fun fd c found => h.keyed fd c (within fd c found)
  · exact h.unique.remove id
  · exact fun fd c found => h.numbered fd c (within fd c found)

theorem insert (h : Registered clients ctr) (fd : Nat) (client : Client) :
    Registered (clients.insert fd { id := ctr + 1, fd, client }) (ctr + 1) := by
  have within (k : Nat) (c : ClientRecord)
      (found : (clients.insert fd { id := ctr + 1, fd, client })[k]? = some c) :
      c.fd = k ∧ c.id ≤ ctr + 1 := by
    rw [Std.TreeMap.getElem?_insert] at found
    split at found
    · next same =>
      obtain rfl := Option.some.inj found
      exact ⟨Std.LawfulEqCmp.eq_of_compare same, Nat.le_refl _⟩
    · exact ⟨h.keyed k c found, Nat.le_succ_of_le (h.numbered k c found)⟩
  constructor
  · exact fun k c found => (within k c found).1
  · apply h.unique.insert
    intro k c found
    have old := h.numbered k c found
    dsimp only
    omega
  · exact fun k c found => (within k c found).2

end Registered

namespace ClientManager

def empty : ClientManager where
  registered := .empty

/-- `std::find_if` by id, in the order of the descriptors. -/
def getClient (m : ClientManager) (id : Nat) : Option ClientRecord :=
  (Registry.find ClientRecord.id m.clients id).map Prod.snd

/-- What is written through the pointer to a client. -/
def setClient (m : ClientManager) (id : Nat) (client : Client) : ClientManager where
  clients := Registry.assign ClientRecord.id m.clients id ({ · with client })
  ctr := m.ctr
  registered := m.registered.assign id client

/-- Once the descriptor has been accepted and made non-blocking. -/
def acceptClient (m : ClientManager) (fd : Nat) : ClientManager where
  clients := m.clients.insert fd { id := m.ctr + 1, fd, client := {} }
  ctr := m.ctr + 1
  registered := m.registered.insert fd {}

/-- The client's descriptor is marked closed and the client taken out of the map.
It is deleted last, through the iterator that this has made invalid. -/
def removeClient (m : ClientManager) (id : Nat) : ClientManager where
  clients := Registry.remove ClientRecord.id m.clients id
  ctr := m.ctr
  registered := m.registered.remove id

/-- The end of `handleClient`; an exception has the client removed, and `none` is
the end of the process. -/
def handleRequest (m : ClientManager) (id : Nat) (client : Client) (e : ClientEvent) :
    Option ClientManager :=
  if client.session.state ≠ .idle then some (m.setClient id client)
  else match doRequest e.env client e.read with
    | (.returned _, client) => some (m.setClient id client)
    | (.threw, client) => some ((m.setClient id client).removeClient id)
    | (.aborted, _) => none

def handleClient (m : ClientManager) (c : ClientRecord) (e : ClientEvent) :
    Option ClientManager :=
  if e.timedOut then some (m.removeClient c.id)
  else if c.client.session.state = .closed then some (m.removeClient c.id)
  else if c.client.session.state = .handshake then
    match c.client.continueHandshake e.accept with
    | (val, client) =>
      if val = 1 then m.handleRequest c.id (client.setState .idle) e
      else if val < 0 then some ((m.setClient c.id client).removeClient c.id)
      else some (m.setClient c.id client)
  else m.handleRequest c.id c.client e

variable {m : ClientManager} {fd : Nat} {c : ClientRecord}

theorem getClient_of_fd (h : m.clients[fd]? = some c) : m.getClient c.id = some c := by
  rw [getClient, Registry.find_eq_some m.registered.unique h]
  rfl

/-- A client is written where it stands. -/
theorem setClient_fd (h : m.clients[fd]? = some c) (client : Client) :
    (m.setClient c.id client).clients[fd]? = some { c with client } := by
  rw [setClient, Registry.getElem?_assign, h, Option.map_some, if_pos rfl]

theorem removeClient_fd (h : m.clients[fd]? = some c) :
    (m.removeClient c.id).clients[fd]? = none := by
  rw [removeClient, Registry.getElem?_remove m.registered.unique, h]
  simp

theorem getClient_removeClient (m : ClientManager) (id : Nat) :
    (m.removeClient id).getClient id = none := by
  rw [getClient, Option.map_eq_none_iff]
  cases search : Registry.find ClientRecord.id (m.removeClient id).clients id with
  | none => rfl
  | some entry =>
    obtain ⟨found, own⟩ := Registry.find_some search
    rw [removeClient, Registry.getElem?_remove m.registered.unique] at found
    have other := (Option.filter_eq_some_iff.mp found).2
    simp [own] at other

end ClientManager

end Http2Server
