import Http2Server.ClientStates
import Http2Server.Lib.Multiplex

/-!
# A client by itself

`Client.visit` is `handleClient` with nothing but the client: what becomes of it in an
event. `handleClient_visit` says that `handleClient` does that to its client and nothing
to the others; `table` is the manager seen as the clients by their ids.
-/

namespace Http2Server

open Lib FrameHandler

namespace Client

/-- The client after a request, if it is kept; the outer `none` is the end of the process. -/
def request (c : Client) (e : ClientEvent) : Option (Option Client) :=
  if c.session.state ≠ .idle then some (some c)
  else match doRequest e.env c e.read with
    | (.returned _, c) => some (some c)
    | (.threw, _) => some none
    | (.aborted, _) => none

def visit (c : Client) (e : ClientEvent) : Option (Option Client) :=
  if e.timedOut then some none
  else if c.session.state = .closed then some none
  else if c.session.state = .handshake then
    match c.continueHandshake e.accept with
    | (val, c) =>
      if val = 1 then (c.setState .idle).request e
      else if val < 0 then some none
      else some (some c)
  else c.request e

end Client

namespace ClientManager

/-- What a visit to a client comes to for all of them. -/
inductive Visited (m : ClientManager) (id : Nat) :
    Option (Option Client) → Option ClientManager → Prop
  | ended : Visited m id none none
  | removed {m' : ClientManager} (gone : Without m id m') : Visited m id (some none) (some m')
  | kept (client : Client) : Visited m id (some (some client)) (some (m.setClient id client))

variable (m : ClientManager) (e : ClientEvent)

theorem handleRequest_request (id : Nat) (client : Client) :
    Visited m id (client.request e) (m.handleRequest id client e) := by
  unfold handleRequest Client.request
  by_cases busy : client.session.state ≠ .idle
  · rw [if_pos busy, if_pos busy]
    exact .kept client
  · rw [if_neg busy, if_neg busy]
    rcases doRequest e.env client e.read with ⟨_ | _ | _, client'⟩
    · exact .kept client'
    · exact .removed (without_written m id client')
    · exact .ended

/-- **One client.** `handleClient` is a visit to its client. -/
theorem handleClient_visit (c : ClientRecord) :
    Visited m c.id (c.client.visit e) (m.handleClient c e) := by
  unfold handleClient Client.visit
  by_cases late : e.timedOut = true
  · rw [if_pos late, if_pos late]
    exact .removed (without_removeClient m c.id)
  rw [if_neg late, if_neg late]
  by_cases closed : c.client.session.state = .closed
  · rw [if_pos closed, if_pos closed]
    exact .removed (without_removeClient m c.id)
  rw [if_neg closed, if_neg closed]
  by_cases shaking : c.client.session.state = .handshake
  · rw [if_pos shaking, if_pos shaking]
    rcases c.client.continueHandshake e.accept with ⟨val, client⟩
    dsimp only
    by_cases done : val = 1
    · rw [if_pos done, if_pos done]
      exact handleRequest_request m e c.id _
    rw [if_neg done, if_neg done]
    by_cases failed : val < 0
    · rw [if_pos failed, if_pos failed]
      exact .removed (without_written m c.id client)
    · rw [if_neg failed, if_neg failed]
      exact .kept client
  · rw [if_neg shaking, if_neg shaking]
    exact handleRequest_request m e c.id _

/-! ## The clients by their ids -/

def table (m : ClientManager) (id : Nat) : Option Client := (m.getClient id).map (·.client)

variable {m}

theorem getClient_eq_some_iff {id : Nat} {c : ClientRecord} :
    m.getClient id = some c ↔ c.id = id ∧ m.clients[c.fd]? = some c := by
  constructor
  · intro found
    obtain ⟨⟨fd, c'⟩, search, rfl⟩ := Option.map_eq_some_iff.mp found
    obtain ⟨stands, own⟩ := Registry.find_some search
    exact ⟨own, (m.registered.keyed fd c' stands).symm ▸ stands⟩
  · rintro ⟨rfl, stands⟩
    exact getClient_of_fd stands

theorem table_eq_some_iff {id : Nat} {client : Client} :
    m.table id = some client ↔ ∃ fd : Nat, m.clients[fd]? = some ⟨id, fd, client⟩ := by
  rw [table, Option.map_eq_some_iff]
  constructor
  · rintro ⟨⟨_, fd, _⟩, found, rfl⟩
    obtain ⟨rfl, stands⟩ := getClient_eq_some_iff.mp found
    exact ⟨fd, stands⟩
  · rintro ⟨fd, stands⟩
    exact ⟨⟨id, fd, client⟩, getClient_eq_some_iff.mpr ⟨rfl, stands⟩, rfl⟩

theorem table_of_fd {fd : Nat} {c : ClientRecord} (h : m.clients[fd]? = some c) :
    m.table c.id = some c.client := by
  obtain rfl := m.registered.keyed fd c h
  exact table_eq_some_iff.mpr ⟨c.fd, h⟩

/-- Tables with the same entries are the same. -/
theorem table_ext {t : Nat → Option Client}
    (h : ∀ id client, m.table id = some client ↔ t id = some client) : m.table = t := by
  funext id
  exact Option.ext fun client => h id client

theorem table_empty : ClientManager.empty.table = fun _ => none := by
  apply table_ext
  intro id client
  simp [table_eq_some_iff, ClientManager.empty]

/-- A new client stands under a new id, if its descriptor was free. -/
theorem table_acceptClient {fd : Nat} (free : m.clients[fd]? = none) :
    (m.acceptClient fd).table = Function.update m.table (m.ctr + 1) (some {}) := by
  apply table_ext
  intro id client
  have entry (k : Nat) : (m.acceptClient fd).clients[k]? =
      if k = fd then some ⟨m.ctr + 1, fd, {}⟩ else m.clients[k]? := by
    rw [acceptClient, Std.TreeMap.getElem?_insert]
    by_cases own : k = fd
    · simp [own]
    · rw [if_neg own, if_neg (by simpa [Nat.compare_eq_eq] using Ne.symm own)]
  rw [table_eq_some_iff]
  by_cases new : id = m.ctr + 1
  · subst new
    rw [Function.update_self, Option.some.injEq]
    constructor
    · rintro ⟨k, found⟩
      rw [entry] at found
      split at found
      · exact congrArg ClientRecord.client (Option.some.inj found)
      · have := m.registered.numbered k _ found
        dsimp only at this
        omega
    · rintro rfl
      exact ⟨fd, by rw [entry, if_pos rfl]⟩
  · rw [Function.update_of_ne new, table_eq_some_iff]
    apply exists_congr
    intro k
    rw [entry]
    split
    · next own =>
      subst own
      simp only [Option.some.injEq, ClientRecord.mk.injEq, free, reduceCtorEq, iff_false]
      exact fun same => new same.1.symm
    · exact Iff.rfl

theorem table_setClient {id : Nat} {old : Client} (there : m.table id = some old)
    (client : Client) :
    (m.setClient id client).table = Function.update m.table id (some client) := by
  apply table_ext
  intro k d
  rw [table_eq_some_iff]
  by_cases own : k = id
  · subst own
    rw [Function.update_self, Option.some.injEq]
    constructor
    · rintro ⟨fd, found⟩
      rw [setClient, Registry.getElem?_assign] at found
      obtain ⟨c, _, same⟩ := Option.map_eq_some_iff.mp found
      split at same
      · exact congrArg ClientRecord.client same
      · next other => exact absurd (congrArg ClientRecord.id same) other
    · rintro rfl
      obtain ⟨fd, stands⟩ := table_eq_some_iff.mp there
      refine ⟨fd, ?_⟩
      rw [setClient, Registry.getElem?_assign, stands, Option.map_some, if_pos rfl]
  · rw [Function.update_of_ne own, table_eq_some_iff]
    apply exists_congr
    intro fd
    rw [setClient, Registry.getElem?_assign, Option.map_eq_some_iff]
    constructor
    · rintro ⟨c, stands, same⟩
      split at same
      · next mine => exact absurd ((congrArg ClientRecord.id same).symm.trans mine) own
      · rw [stands, same]
    · intro stands
      exact ⟨_, stands, if_neg own⟩

theorem table_without {id : Nat} {m' : ClientManager} (gone : Without m id m') :
    m'.table = Function.update m.table id none := by
  apply table_ext
  intro k d
  rw [table_eq_some_iff]
  by_cases own : k = id
  · subst own
    rw [Function.update_self]
    refine iff_of_false ?_ (by simp)
    rintro ⟨fd, found⟩
    rw [gone.2] at found
    simpa using (Option.filter_eq_some_iff.mp found).2
  · rw [Function.update_of_ne own, table_eq_some_iff]
    apply exists_congr
    intro fd
    rw [gone.2, Option.filter_eq_some_iff]
    exact ⟨And.left, fun stands => ⟨stands, by simpa using own⟩⟩

theorem ctr_visited {id : Nat} {r : Option (Option Client)} {m' : ClientManager}
    (h : Visited m id r (some m')) : m'.ctr = m.ctr := by
  cases h with
  | removed gone => exact gone.1
  | kept client => rfl

/-- The table after a visit. -/
theorem table_visited {id : Nat} {r : Option (Option Client)} {m' : ClientManager} {old : Client}
    (there : m.table id = some old) (h : Visited m id r (some m')) :
    m'.table = Function.update m.table id r.join := by
  cases h with
  | removed gone => exact table_without gone
  | kept client => exact table_setClient there client

end ClientManager

end Http2Server
