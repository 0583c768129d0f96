import IsmsPortal.Foundation.Interaction
import IsmsPortal.Foundation.JsString
import IsmsPortal.Foundation.StableSort
import IsmsPortal.Foundation.Throughout

/-! # Login at the directory

A user is looked up at the connectors in turn, the encrypted ones first. Each connector is asked
under its own account for the entries of the login; where there is exactly one, the password of the
user is tried on it. What the servers answer is arbitrary, and so is which clients cannot be
created: the identity is that of an entry that accepted the password, a password that is refused
ends the login, unless the client for the next host cannot be created, and every client is closed.
-/

namespace Directory.Login

open Foundation Calls

/-! ## Connectors -/

/-- The start and end of a filter are parentheses, and no byte of zero is in it. -/
def validFilter (filter : String) : Bool :=
  filter.toList.head? = some '(' ∧ filter.toList.getLast? = some ')' ∧
    Char.ofNat 0 ∉ filter.toList

/-- `[a-z]` where cases are folded: two characters beyond ASCII fold to letters. -/
def isLetter (c : Char) : Bool := c.isAlpha || c.toNat = 0x17F || c.toNat = 0x212A

/-- `/^[a-z][a-z0-9-]{0,79}$/iu` -/
def validAttribute (name : String) : Bool :=
  match name.toList with
  | [] => false
  | c :: rest => isLetter c && rest.length ≤ 79 &&
      rest.all fun d => isLetter d || d.isDigit || d = '-'

structure Connection where
  id : String
  ldaps : Bool
  hasCaCertificate : Bool
  primaryHost : String
  secondaryHost : Option String
  bindDn : String
  /-- The decrypted secret, none where it cannot be decrypted. -/
  bindSecret : Option String
  retries : Nat
  baseDn : String
  userBaseDn : Option String
  groupBaseDn : Option String
  userFilter : String
  groupFilter : String
  loginAttribute : String
  usernameAttribute : String
  emailAttribute : String
  groupAttribute : String
  nestedGroups : Bool
deriving DecidableEq

namespace Connection

variable (connection : Connection)

/-- `[primaryHost, secondaryHost].filter(Boolean)` -/
def hosts : List String :=
  [connection.primaryHost, connection.secondaryHost.getD ""].filter (· ≠ "")

/-- A client needs a certificate to check an encrypted connection. -/
def usable : Bool := !connection.ldaps || connection.hasCaCertificate

def base (baseDn : Option String) : String :=
  if baseDn.getD "" ≠ "" then baseDn.getD "" else connection.baseDn

def valid : Bool :=
  validFilter connection.userFilter &&
    [connection.loginAttribute, connection.usernameAttribute, connection.emailAttribute,
      connection.groupAttribute].all validAttribute

end Connection

/-- The comparison of `right.protocol === "LDAPS"` and `left.protocol === "LDAPS"` as numbers is not
above zero. -/
def Precedes (left right : Connection) : Prop := right.ldaps.toNat ≤ left.ldaps.toNat

instance : DecidableRel Precedes := fun left right =>
  inferInstanceAs (Decidable (right.ldaps.toNat ≤ left.ldaps.toNat))

def preferredConnections (connections : List Connection) : List Connection :=
  connections.insertionSort Precedes

/-! ## Calls -/

/-- A client of a host, with the number it was created under. -/
structure Client where
  connection : Connection
  host : String
  number : Nat
deriving DecidableEq

/-- An entry: its name, and its attributes as texts, empty where there are none. -/
structure Entry where
  dn : String
  text : String → String

/-- What is called at a server. A bind under the account of the connector is told apart from one
with the password of the user. -/
inductive Op
  | create (connection : Connection) (host : String)
  | bind (client : Client) (dn secret : String)
  | userBind (client : Client) (dn password : String)
  | search (client : Client) (base filter : String) (sizeLimit : Option Nat)
  | unbind (client : Client)

/-- A client is created, unless its host makes no address; a bind succeeds or throws, and a search
finds entries or throws. -/
abbrev Answer : Op → Type
  | .create _ _ => Option Nat
  | .bind _ _ _ => Bool
  | .userBind _ _ _ => Bool
  | .search _ _ _ _ => Option (List Entry)
  | .unbind _ => Unit

abbrev Program := Calls Op Answer

abbrev Call := Event Op Answer

abbrev Trace := List Call

/-- `this.client(connection, host)`, none where it throws. -/
def newClient (connection : Connection) (host : String) : Program (Option Client) := do
  let number ← perform (Op.create connection host)
  return number.map fun number => ⟨connection, host, number⟩

/-- A secret that cannot be decrypted is an error before the call. -/
def bindService (client : Client) : Program Bool :=
  match client.connection.bindSecret with
  | some secret => perform (Op.bind client client.connection.bindDn secret)
  | none => return false

/-- How the attempts at a host end: with a client that is bound, with errors that are kept, or with
one that is thrown. -/
inductive Attempts
  | bound (client : Client)
  | failed
  | thrown

def Attempts.client : Attempts → Option Client
  | bound client => some client
  | failed | thrown => none

/-- The attempts at one host that are left. A client is created outside the `try`. -/
def bindAttempts (connection : Connection) (host : String) : Nat → Program Attempts
  | 0 => return .failed
  | attempts + 1 => do
      match ← newClient connection host with
      | none => return .thrown
      | some client => do
          if ← bindService client then return .bound client
          perform (Op.unbind client)
          bindAttempts connection host attempts

/-- None where it throws. -/
def bindHosts (connection : Connection) : List String → Program (Option Client)
  | [] => return none
  | host :: hosts => do
      match ← bindAttempts connection host (connection.retries + 1) with
      | .bound client => return some client
      | .failed => bindHosts connection hosts
      | .thrown => return none

/-- None where it throws. -/
def bindWithFallback (connection : Connection) : Program (Option Client) :=
  if connection.usable then bindHosts connection connection.hosts else return none

/-- A host accepts the password, all of them refuse it, which is thrown as invalid credentials, or
another error is thrown. -/
inductive Verdict
  | accepted
  | refused
  | thrown
deriving DecidableEq

/-- The hosts that are left. A client is created outside the `try` here too. -/
def userBindHosts (connection : Connection) (dn password : String) : List String → Program Verdict
  | [] => return .refused
  | host :: hosts => do
      match ← newClient connection host with
      | none => return .thrown
      | some client => do
          let bound ← perform (Op.userBind client dn password)
          perform (Op.unbind client)
          if bound then return .accepted else userBindHosts connection dn password hosts

def userBindWithFallback (connection : Connection) (dn password : String) : Program Verdict :=
  userBindHosts connection dn password connection.hosts

structure Identity where
  username : String
  displayName : String
  groups : List String
  connectionId : String
deriving DecidableEq

/-- How the turn of a connector ends: the next one follows, also after an error, or the login
ends. -/
inductive Outcome
  | next
  | refused
  | found (identity : Identity)
deriving DecidableEq

section Login

variable (casing : JsString.Casing) (escape : String → String)

namespace Connection

variable (connection : Connection)

def loginFilter (login : String) : String :=
  "(&" ++ connection.userFilter ++ "(|(" ++ escape connection.loginAttribute ++ "=" ++
    escape login ++ ")(" ++ escape connection.emailAttribute ++ "=" ++ escape login ++ ")))"

def membershipFilter (dn : String) : String :=
  "(&" ++ connection.groupFilter ++
    (if connection.nestedGroups then "(member:1.2.840.113556.1.4.1941:=" else "(member=") ++
    escape dn ++ "))"

def searchOfLogin (client : Client) (login : String) : Op :=
  .search client (connection.base connection.userBaseDn) (connection.loginFilter escape login)
    (some 2)

def searchOfGroups (client : Client) (dn : String) : Op :=
  .search client (connection.base connection.groupBaseDn) (connection.membershipFilter escape dn)
    none

end Connection

def mailOf (connection : Connection) (user : Entry) : String :=
  casing.normalize (user.text connection.emailAttribute)

/-- The first occurrence of each, as a set iterates over them. -/
def groupNames (connection : Connection) (entries : List Entry) : List String :=
  (((entries.map fun entry => JsString.trim (entry.text connection.groupAttribute)).filter
    (· ≠ "")).reverse.dedup).reverse

def identityOf (connection : Connection) (user : Entry) (groups : List Entry) : Identity where
  username := mailOf casing connection user
  displayName := JsString.trim (if user.text "displayName" ≠ "" then user.text "displayName"
    else mailOf casing connection user)
  groups := groupNames connection groups
  connectionId := connection.id

/-- What is done with the groups of a user whose password was accepted. -/
def outcomeOf (connection : Connection) (user : Entry) : Option (List Entry) → Outcome
  | none => .next
  | some entries => .found (identityOf casing connection user entries)

/-- The only entry of a login, if its address is one. -/
def candidate (connection : Connection) : Option (List Entry) → Option Entry
  | some [user] => if (mailOf casing connection user).toList.contains '@' then some user else none
  | _ => none

def readGroups (connection : Connection) (client : Client) (user : Entry) : Program Outcome := do
  let groups ← perform (connection.searchOfGroups escape client user.dn)
  return outcomeOf casing connection user groups

def authenticateEntry (connection : Connection) (client : Client) (password : String)
    (user : Entry) : Program Outcome := do
  match ← userBindWithFallback connection user.dn password with
  | .accepted => readGroups casing escape connection client user
  | .refused => return .refused
  | .thrown => return .next

/-- The part of a turn for which a client is bound. -/
def searchUser (connection : Connection) (client : Client) (login password : String) :
    Program Outcome := do
  let answer ← perform (connection.searchOfLogin escape client login)
  match candidate casing connection answer with
  | none => return .next
  | some user => authenticateEntry casing escape connection client password user

def tryConnection (connection : Connection) (login password : String) : Program Outcome :=
  if connection.valid then do
    match ← bindWithFallback connection with
    | none => return .next
    | some client => do
        let outcome ← searchUser casing escape connection client login password
        perform (Op.unbind client)
        return outcome
  else return .next

def tryConnections (login password : String) : List Connection → Program (Option Identity)
  | [] => return none
  | connection :: connections => do
      match ← tryConnection casing escape connection login password with
      | .next => tryConnections login password connections
      | .refused => return none
      | .found identity => return some identity

def validLogin (login password : String) : Bool :=
  login ≠ "" ∧ '\\' ∉ login.toList ∧ Char.ofNat 0 ∉ login.toList ∧ password ≠ ""

/-- None where it throws that the credentials are invalid. -/
def authenticateUser (connections : List Connection) (loginValue password : String) :
    Program (Option Identity) :=
  if validLogin (JsString.trim loginValue) password then
    tryConnections casing escape (JsString.trim loginValue) password
      (preferredConnections connections)
  else return none

end Login

/-! ## What is called -/

def Op.connection : Op → Connection
  | .create connection _ => connection
  | .bind client _ _ => client.connection
  | .userBind client _ _ => client.connection
  | .search client _ _ _ => client.connection
  | .unbind client => client.connection

/-- Where the password of the user goes to. -/
def Op.typed : Op → Option (Client × String × String)
  | .userBind client dn password => some (client, dn, password)
  | _ => none

def Op.creates : (op : Op) → Answer op → Option Client
  | .create connection host, number => number.map fun number => ⟨connection, host, number⟩
  | .bind _ _ _, _ => none
  | .userBind _ _ _, _ => none
  | .search _ _ _ _, _ => none
  | .unbind _, _ => none

def Op.closes : Op → Option Client
  | .unbind client => some client
  | _ => none

def created (call : Call) : Option Client := call.op.creates call.answer

def closed (call : Call) : Option Client := call.op.closes

/-- Each client is closed as often as it was created, apart from those that are left. -/
def Closes (trace : Trace) (left : List Client) : Prop :=
  ∀ client, (trace.filterMap created).count client =
    (trace.filterMap closed).count client + left.count client

theorem closes_nil : Closes [] [] := fun _ => rfl

theorem Closes.append {first second : Trace} {left right : List Client} (hfirst : Closes first left)
    (hsecond : Closes second right) : Closes (first ++ second) (left ++ right) := by
  intro client
  have h₁ := hfirst client
  have h₂ := hsecond client
  simp only [List.filterMap_append, List.count_append]
  omega

theorem closes_created (connection : Connection) (host : String) (number : Nat) :
    Closes [⟨Op.create connection host, some number⟩] [⟨connection, host, number⟩] :=
  fun _ => (Nat.zero_add _).symm

theorem closes_uncreated (connection : Connection) (host : String) :
    Closes [⟨Op.create connection host, none⟩] [] := fun _ => rfl

theorem closes_bind (client : Client) (dn secret : String) (bound : Bool) :
    Closes [⟨Op.bind client dn secret, bound⟩] [] := fun _ => rfl

theorem closes_userBind (client : Client) (dn password : String) (bound : Bool) :
    Closes [⟨Op.userBind client dn password, bound⟩] [] := fun _ => rfl

theorem closes_search (client : Client) (base filter : String) (limit : Option Nat)
    (entries : Option (List Entry)) :
    Closes [⟨Op.search client base filter limit, entries⟩] [] := fun _ => rfl

theorem Closes.unbind {trace : Trace} {client : Client} (h : Closes trace [client])
    (answer : Unit) : Closes (trace ++ [⟨Op.unbind client, answer⟩]) [] := by
  intro other
  have := h other
  simp only [List.filterMap_append, List.count_append]
  simp only [created, closed, Op.creates, Op.closes, List.filterMap_cons, List.filterMap_nil,
    List.count_nil]
  omega

/-! ## The account of the connector -/

/-- Calls of a connector that look for a client under its own account. -/
structure Bound (connection : Connection) (trace : Trace) (client : Option Client) : Prop where
  own : ∀ call ∈ trace, call.op.connection = connection ∧ call.op.typed = none
  closes : Closes trace client.toList
  accepted : ∀ bound, client = some bound → bound.connection = connection ∧
    ∃ secret, connection.bindSecret = some secret ∧
      (⟨.bind bound connection.bindDn secret, true⟩ : Call) ∈ trace

theorem bound_nil (connection : Connection) : Bound connection [] none where
  own _ h := absurd h List.not_mem_nil
  closes := closes_nil
  accepted _ h := absurd h nofun

theorem Bound.append {connection : Connection} {first second : Trace} {client : Option Client}
    (hfirst : Bound connection first none) (hsecond : Bound connection second client) :
    Bound connection (first ++ second) client where
  own call hcall := (List.mem_append.mp hcall).elim (hfirst.own call) (hsecond.own call)
  closes := hfirst.closes.append hsecond.closes
  accepted bound hbound := by
    obtain ⟨hown, secret, hsecret, hcall⟩ := hsecond.accepted bound hbound
    exact ⟨hown, secret, hsecret, List.mem_append_right _ hcall⟩

section Specs

variable {casing : JsString.Casing} {escape : String → String}
  {connection : Connection} {trace : Trace}

theorem runs_newClient {host : String} {client : Option Client}
    (hrun : Runs (newClient connection host) trace client) :
    ∃ number : Option Nat, client = number.map (fun number => ⟨connection, host, number⟩) ∧
      trace = [⟨.create connection host, number⟩] := by
  obtain ⟨number, rest, rfl, hrest⟩ := runs_perform_bind_iff.mp hrun
  obtain ⟨rfl, rfl⟩ := runs_pure_iff.mp hrest
  exact ⟨number, rfl, rfl⟩

theorem runs_bindService {client : Client} {bound : Bool}
    (hrun : Runs (bindService client) trace bound) :
    (∃ secret, client.connection.bindSecret = some secret ∧
      trace = [⟨.bind client client.connection.bindDn secret, bound⟩]) ∨
    (trace = [] ∧ bound = false) := by
  unfold bindService at hrun
  split at hrun
  next secret hsecret => exact .inl ⟨secret, hsecret, runs_perform_iff.mp hrun⟩
  next => exact .inr (runs_pure_iff.mp hrun)

theorem bound_uncreated (connection : Connection) (host : String) :
    Bound connection [⟨.create connection host, none⟩] none where
  own call hcall := by
    rw [List.mem_singleton.mp hcall]
    exact ⟨rfl, rfl⟩
  closes := closes_uncreated connection host
  accepted _ h := absurd h nofun

theorem bound_bindAttempts {host : String} {attempts : Nat} {result : Attempts}
    (hrun : Runs (bindAttempts connection host attempts) trace result) :
    Bound connection trace result.client := by
  induction attempts generalizing trace with
  | zero =>
      obtain ⟨rfl, rfl⟩ := runs_pure_iff.mp hrun
      exact bound_nil connection
  | succ attempts ih =>
      obtain ⟨_, after, new, rfl, hnew, hafter⟩ := runs_bind_iff.mp hrun
      obtain ⟨number | number, rfl, rfl⟩ := runs_newClient hnew
      · obtain ⟨rfl, rfl⟩ := runs_pure_iff.mp hafter
        exact bound_uncreated connection host
      obtain ⟨tried, rest, bound, rfl, htried, hrest⟩ := runs_bind_iff.mp hafter
      have hattempt : Closes ([⟨.create connection host, some number⟩] ++ tried)
          [⟨connection, host, number⟩] := by
        refine (closes_created connection host number).append ?_
        obtain ⟨secret, _, rfl⟩ | ⟨rfl, _⟩ := runs_bindService htried
        · exact closes_bind _ _ _ _
        · exact closes_nil
      have hown : ∀ call ∈ ([⟨.create connection host, some number⟩] ++ tried : Trace),
          call.op.connection = connection ∧ call.op.typed = none := by
        obtain ⟨secret, _, rfl⟩ | ⟨rfl, _⟩ := runs_bindService htried <;>
          simp [Op.connection, Op.typed]
      cases bound with
      | true =>
          obtain ⟨rfl, rfl⟩ := runs_pure_iff.mp hrest
          obtain ⟨secret, hsecret, rfl⟩ | ⟨_, hfalse⟩ := runs_bindService htried
          · refine ⟨by simpa using hown, by simpa [Attempts.client] using hattempt, ?_⟩
            rintro _ ⟨⟩
            exact ⟨rfl, secret, hsecret, by simp⟩
          · cases hfalse
      | false =>
          obtain ⟨answer, later, rfl, hlater⟩ := runs_perform_bind_iff.mp hrest
          have hfailed : Bound connection ([⟨.create connection host, some number⟩] ++ tried ++
              [⟨.unbind ⟨connection, host, number⟩, answer⟩]) none := by
            refine ⟨?_, hattempt.unbind answer, fun _ h => absurd h nofun⟩
            intro call hcall
            obtain hcall | hcall := List.mem_append.mp hcall
            · exact hown call hcall
            · rw [List.mem_singleton.mp hcall]
              exact ⟨rfl, rfl⟩
          simpa using hfailed.append (ih hlater)

theorem bound_bindHosts {hosts : List String} {client : Option Client}
    (hrun : Runs (bindHosts connection hosts) trace client) : Bound connection trace client := by
  induction hosts generalizing trace with
  | nil =>
      obtain ⟨rfl, rfl⟩ := runs_pure_iff.mp hrun
      exact bound_nil connection
  | cons host hosts ih =>
      obtain ⟨first, rest, middle, rfl, hfirst, hrun⟩ := runs_bind_iff.mp hrun
      have hbound := bound_bindAttempts hfirst
      cases middle with
      | bound new =>
          obtain ⟨rfl, rfl⟩ := runs_pure_iff.mp hrun
          rwa [List.append_nil]
      | failed => exact hbound.append (ih hrun)
      | thrown =>
          obtain ⟨rfl, rfl⟩ := runs_pure_iff.mp hrun
          rwa [List.append_nil]

/-- A connector is asked when a client of it is created, or cannot be. -/
def Asked (connection : Connection) (trace : Trace) : Prop :=
  ∃ host number, (⟨.create connection host, number⟩ : Call) ∈ trace

theorem Asked.append_left {first : Trace} (h : Asked connection first) (second : Trace) :
    Asked connection (first ++ second) :=
  let ⟨host, number, hcall⟩ := h
  ⟨host, number, List.mem_append_left _ hcall⟩

theorem asked_bindHosts {hosts : List String} {client : Option Client}
    (hrun : Runs (bindHosts connection hosts) trace client) (hhosts : hosts ≠ []) :
    Asked connection trace := by
  obtain ⟨host, rest, rfl⟩ := List.exists_cons_of_ne_nil hhosts
  obtain ⟨first, second, middle, rfl, hfirst, _⟩ := runs_bind_iff.mp hrun
  obtain ⟨new, after, created, rfl, hnew, _⟩ := runs_bind_iff.mp hfirst
  obtain ⟨number, rfl, rfl⟩ := runs_newClient hnew
  exact ⟨host, number, by simp⟩

theorem bound_bindWithFallback {client : Option Client}
    (hrun : Runs (bindWithFallback connection) trace client) :
    Bound connection trace client ∧
      (connection.usable → connection.hosts ≠ [] → Asked connection trace) := by
  unfold bindWithFallback at hrun
  split at hrun
  next => exact ⟨bound_bindHosts hrun, fun _ hhosts => asked_bindHosts hrun hhosts⟩
  next hunusable =>
    obtain ⟨rfl, rfl⟩ := runs_pure_iff.mp hrun
    exact ⟨bound_nil connection, fun husable => absurd husable hunusable⟩

/-! ## The password of the user -/

/-- What a verdict of some hosts is about: a host accepts the password for the name, or the client
for a host cannot be created. -/
def Ends (connection : Connection) (dn password : String) (hosts : List String) (trace : Trace) :
    Verdict → Prop
  | .accepted => ∃ server : Client, server.connection = connection ∧ server.host ∈ hosts ∧
      (⟨.userBind server dn password, true⟩ : Call) ∈ trace
  | .refused => True
  | .thrown => ∃ host ∈ hosts, (⟨.create connection host, none⟩ : Call) ∈ trace

theorem Ends.mono {connection : Connection} {dn password : String} {hosts more : List String}
    {trace longer : Trace} {verdict : Verdict} (h : Ends connection dn password hosts trace verdict)
    (hhosts : hosts ⊆ more) (htrace : trace ⊆ longer) :
    Ends connection dn password more longer verdict := by
  cases verdict with
  | accepted =>
      obtain ⟨server, hown, hhost, hcall⟩ := h
      exact ⟨server, hown, hhosts hhost, htrace hcall⟩
  | refused => trivial
  | thrown =>
      obtain ⟨host, hhost, hcall⟩ := h
      exact ⟨host, hhosts hhost, htrace hcall⟩

/-- Calls that try a password for a name at some hosts of a connector. -/
structure Tried (connection : Connection) (dn password : String) (hosts : List String)
    (trace : Trace) (verdict : Verdict) : Prop where
  own : ∀ call ∈ trace, call.op.connection = connection
  closes : Closes trace []
  typed : ∀ call ∈ trace, ∀ server name given, call.op.typed = some (server, name, given) →
    name = dn ∧ given = password ∧ server.host ∈ hosts
  ends : Ends connection dn password hosts trace verdict
  /-- What decides comes after every refusal. -/
  refused : Throughout (fun _ call after => ∀ server name given,
    call = ⟨.userBind server name given, false⟩ →
      Ends connection dn password hosts after verdict) trace

theorem tried_nil (connection : Connection) (dn password : String) (hosts : List String) :
    Tried connection dn password hosts [] .refused where
  own _ h := absurd h List.not_mem_nil
  closes := closes_nil
  typed _ h := absurd h List.not_mem_nil
  ends := trivial
  refused := throughout_nil

theorem tried_uncreated (connection : Connection) (dn password host : String)
    (hosts : List String) : Tried connection dn password (host :: hosts)
      [⟨.create connection host, none⟩] .thrown where
  own call hcall := by
    rw [List.mem_singleton.mp hcall]
    rfl
  closes := closes_uncreated connection host
  typed call hcall server name given htyped := by
    rw [List.mem_singleton.mp hcall] at htyped
    cases htyped
  ends := ⟨host, List.mem_cons_self, List.mem_singleton_self _⟩
  refused := throughout_cons (fun _ _ _ heq => nomatch heq) throughout_nil

/-- The calls at one host. -/
def attempt (client : Client) (dn password : String) (bound : Bool) (answer : Unit) : Trace :=
  [⟨.create client.connection client.host, some client.number⟩,
    ⟨.userBind client dn password, bound⟩, ⟨.unbind client, answer⟩]

theorem closes_attempt (client : Client) (dn password : String) (bound : Bool) (answer : Unit) :
    Closes (attempt client dn password bound answer) [] :=
  Closes.unbind ((closes_created client.connection client.host client.number).append
    (closes_userBind client dn password bound)) answer

theorem tried_accepted (client : Client) (hosts : List String) (dn password : String)
    (answer : Unit) : Tried client.connection dn password (client.host :: hosts)
      (attempt client dn password true answer) .accepted where
  own := by simp [attempt, Op.connection]
  closes := closes_attempt client dn password true answer
  typed := by simp [attempt, Op.typed]
  ends := ⟨client, rfl, List.mem_cons_self, by simp [attempt]⟩
  refused := by
    refine throughout_of_forall_mem fun call hcall _ _ server name given heq => ?_
    subst heq
    simp [attempt] at hcall

/-- A host refuses the password, and the others are tried. -/
theorem Tried.cons (client : Client) {dn password : String} {hosts : List String} {trace : Trace}
    {verdict : Verdict} (h : Tried client.connection dn password hosts trace verdict)
    (answer : Unit) : Tried client.connection dn password (client.host :: hosts)
      (attempt client dn password false answer ++ trace) verdict where
  own := by simpa [attempt, Op.connection] using h.own
  closes := (closes_attempt client dn password false answer).append h.closes
  typed call hcall server name given htyped := by
    obtain hcall | hcall := List.mem_append.mp hcall
    · simp only [attempt, List.mem_cons, List.not_mem_nil, or_false] at hcall
      obtain rfl | rfl | rfl := hcall
      · cases htyped
      · cases htyped
        exact ⟨rfl, rfl, List.mem_cons_self⟩
      · cases htyped
    · obtain ⟨hname, hgiven, hhost⟩ := h.typed call hcall server name given htyped
      exact ⟨hname, hgiven, List.mem_cons_of_mem _ hhost⟩
  ends := h.ends.mono (List.subset_cons_self _ _) (List.subset_append_right _ _)
  refused := by
    refine throughout_append ?_ (h.refused.mono fun _ _ _ _ hcall server name given heq =>
      (hcall server name given heq).mono (List.subset_cons_self _ _) (List.Subset.refl _))
    intro before call after _ server name given _
    exact h.ends.mono (List.subset_cons_self _ _) (List.subset_append_right _ _)

theorem tried_userBindHosts {dn password : String} {hosts : List String} {verdict : Verdict}
    (hrun : Runs (userBindHosts connection dn password hosts) trace verdict) :
    Tried connection dn password hosts trace verdict := by
  induction hosts generalizing trace with
  | nil =>
      obtain ⟨rfl, rfl⟩ := runs_pure_iff.mp hrun
      exact tried_nil connection dn password []
  | cons host hosts ih =>
      obtain ⟨_, after, client, rfl, hnew, hafter⟩ := runs_bind_iff.mp hrun
      obtain ⟨number | number, rfl, rfl⟩ := runs_newClient hnew
      · obtain ⟨rfl, rfl⟩ := runs_pure_iff.mp hafter
        exact tried_uncreated connection dn password host hosts
      obtain ⟨bound, rest, rfl, hrest⟩ := runs_perform_bind_iff.mp hafter
      obtain ⟨answer, later, rfl, hlater⟩ := runs_perform_bind_iff.mp hrest
      cases bound with
      | true =>
          obtain ⟨rfl, rfl⟩ := runs_pure_iff.mp hlater
          exact tried_accepted ⟨connection, host, number⟩ hosts dn password answer
      | false => exact Tried.cons ⟨connection, host, number⟩ (ih hlater) answer

/-! ## The turn of a connector -/

/-- What an identity rests on: a client of the connector under its own account, the only entry of
the login there, a host that accepted the password for it, and its groups. -/
structure Verified (casing : JsString.Casing) (escape : String → String) (connection : Connection)
    (login password : String) (trace : Trace) (identity : Identity)
    (client server : Client) (user : Entry) : Prop where
  client_own : client.connection = connection
  server_own : server.connection = connection
  host : server.host ∈ connection.hosts
  service : ∃ secret, connection.bindSecret = some secret ∧
    (⟨.bind client connection.bindDn secret, true⟩ : Call) ∈ trace
  entry : ∃ entries, (⟨connection.searchOfLogin escape client login, entries⟩ : Call) ∈ trace ∧
    candidate casing connection entries = some user
  accepted : (⟨.userBind server user.dn password, true⟩ : Call) ∈ trace
  groups : ∃ groups, (⟨connection.searchOfGroups escape client user.dn, some groups⟩ : Call) ∈ trace
    ∧ identity = identityOf casing connection user groups

/-- A call with a password: it is the one of the user, for the only entry of the login, and after a
refusal a host of the connector accepts it, the client for a host cannot be created, or nothing but
the refusal follows. -/
def TypedAt (casing : JsString.Casing) (escape : String → String) (login password : String)
    (refusal : Connection → Trace → Prop) (before : Trace) (call : Call) (after : Trace) : Prop :=
  ∀ server dn given bound, call = ⟨.userBind server dn given, bound⟩ →
    given = password ∧ server.host ∈ server.connection.hosts ∧
    (∃ client entries user, client.connection = server.connection ∧
      (⟨server.connection.searchOfLogin escape client login, entries⟩ : Call) ∈ before ∧
      candidate casing server.connection entries = some user ∧ dn = user.dn) ∧
    (bound = false → (∃ later : Client, later.connection = server.connection ∧
      (⟨.userBind later dn password, true⟩ : Call) ∈ after) ∨
      (∃ host ∈ server.connection.hosts,
        (⟨.create server.connection host, none⟩ : Call) ∈ after) ∨
      refusal server.connection after)

structure Turn (casing : JsString.Casing) (escape : String → String) (connection : Connection)
    (login password : String) (trace : Trace) (outcome : Outcome) : Prop where
  own : ∀ call ∈ trace, call.op.connection = connection
  closes : Closes trace []
  asked : connection.valid → connection.usable → connection.hosts ≠ [] → Asked connection trace
  typed : Throughout (TypedAt casing escape login password fun _ _ => outcome = .refused) trace
  verified : ∀ identity, outcome = .found identity → ∃ client server user,
    Verified casing escape connection login password trace identity client server user

variable {login password : String}

theorem TypedAt.around {refusal wider : Connection → Trace → Prop} {before after : Trace}
    {call : Call} (h : TypedAt casing escape login password refusal before call after)
    (first second : Trace)
    (hrefusal : refusal call.op.connection after → wider call.op.connection (after ++ second)) :
    TypedAt casing escape login password wider (first ++ before) call (after ++ second) := by
  rintro server dn given bound rfl
  obtain ⟨hgiven, hhost, ⟨client, entries, user, hown, hcall, huser⟩, hrefused⟩ :=
    h server dn given bound rfl
  refine ⟨hgiven, hhost, ⟨client, entries, user, hown, List.mem_append_right _ hcall, huser⟩, ?_⟩
  intro hbound
  obtain ⟨later, hlater, haccepted⟩ | ⟨host, hhost, huncreated⟩ | hrefused := hrefused hbound
  · exact .inl ⟨later, hlater, List.mem_append_left _ haccepted⟩
  · exact .inr (.inl ⟨host, hhost, List.mem_append_left _ huncreated⟩)
  · exact .inr (.inr (hrefusal hrefused))

theorem typedAt_of_untyped {refusal : Connection → Trace → Prop} {before after : Trace}
    {call : Call} (h : call.op.typed = none) :
    TypedAt casing escape login password refusal before call after := by
  rintro server dn given bound rfl
  cases h

theorem Verified.around {identity : Identity} {client server : Client} {user : Entry}
    (h : Verified casing escape connection login password trace identity client server user)
    (first second : Trace) :
    Verified casing escape connection login password (first ++ (trace ++ second)) identity
      client server user where
  client_own := h.client_own
  server_own := h.server_own
  host := h.host
  service := by
    obtain ⟨secret, hsecret, hcall⟩ := h.service
    exact ⟨secret, hsecret, List.mem_append_right _ (List.mem_append_left _ hcall)⟩
  entry := by
    obtain ⟨entries, hcall, huser⟩ := h.entry
    exact ⟨entries, List.mem_append_right _ (List.mem_append_left _ hcall), huser⟩
  accepted := List.mem_append_right _ (List.mem_append_left _ h.accepted)
  groups := by
    obtain ⟨groups, hcall, hidentity⟩ := h.groups
    exact ⟨groups, List.mem_append_right _ (List.mem_append_left _ hcall), hidentity⟩

/-- What is called with a client that is bound. -/
structure Searched (casing : JsString.Casing) (escape : String → String) (connection : Connection)
    (client : Client) (login password : String) (trace : Trace) (outcome : Outcome) : Prop where
  own : ∀ call ∈ trace, call.op.connection = connection
  closes : Closes trace []
  typed : Throughout (TypedAt casing escape login password fun _ _ => outcome = .refused) trace
  verified : ∀ identity, outcome = .found identity → ∀ before : Trace,
    (∃ secret, connection.bindSecret = some secret ∧
      (⟨.bind client connection.bindDn secret, true⟩ : Call) ∈ before) →
    ∃ server user, Verified casing escape connection login password (before ++ trace) identity
      client server user

/-- The passwords that are tried for the entry that was found. -/
theorem Tried.typed_at {tries : Trace} {user : Entry} {client : Client} {verdict : Verdict}
    {entries : Option (List Entry)} {outcome : Outcome}
    (h : Tried connection user.dn password connection.hosts tries verdict)
    (hclient : client.connection = connection)
    (huser : candidate casing connection entries = some user)
    (houtcome : verdict = .refused → outcome = .refused) :
    Throughout (fun before => TypedAt casing escape login password (fun _ _ => outcome = .refused)
      (⟨connection.searchOfLogin escape client login, entries⟩ :: before)) tries := by
  rintro before call after rfl server dn given bound rfl
  have hmem : (⟨.userBind server dn given, bound⟩ : Call) ∈
      before ++ ⟨.userBind server dn given, bound⟩ :: after :=
    List.mem_append_right _ List.mem_cons_self
  obtain ⟨rfl, rfl, hhost⟩ := h.typed _ hmem server dn given rfl
  have hserver : server.connection = connection := h.own _ hmem
  subst hserver
  refine ⟨rfl, hhost, ⟨client, entries, user, hclient, List.mem_cons_self, huser, rfl⟩, ?_⟩
  rintro rfl
  have hends := h.refused before _ after rfl server _ _ rfl
  cases verdict with
  | accepted =>
      obtain ⟨later, hown, -, hcall⟩ := hends
      exact .inl ⟨later, hown, hcall⟩
  | refused => exact .inr (.inr (houtcome rfl))
  | thrown => exact .inr (.inl hends)

theorem searched_searchUser {client : Client} {outcome : Outcome}
    (hclient : client.connection = connection)
    (hrun : Runs (searchUser casing escape connection client login password) trace outcome) :
    Searched casing escape connection client login password trace outcome := by
  obtain ⟨entries, rest, rfl, hrest⟩ := runs_perform_bind_iff.mp hrun
  have hsearch : Closes [⟨connection.searchOfLogin escape client login, entries⟩] [] :=
    closes_search _ _ _ _ _
  cases huser : candidate casing connection entries with
  | none =>
      rw [huser] at hrest
      obtain ⟨rfl, rfl⟩ := runs_pure_iff.mp hrest
      refine ⟨?_, hsearch, ?_, fun _ h => nomatch h⟩
      · simp [Connection.searchOfLogin, Op.connection, hclient]
      · exact throughout_cons (typedAt_of_untyped rfl) throughout_nil
  | some user =>
      rw [huser] at hrest
      obtain ⟨tries, later, verdict, rfl, htries, hlater⟩ := runs_bind_iff.mp hrest
      have htried := tried_userBindHosts htries
      -- Without an accepted password the turn ends here, as the verdict says.
      have hstop : ∀ outcome, (verdict = .refused → outcome = .refused) →
          (∀ identity, outcome ≠ .found identity) →
          Searched casing escape connection client login password
            (⟨connection.searchOfLogin escape client login, entries⟩ :: tries) outcome := by
        intro outcome houtcome hnone
        refine ⟨?_, hsearch.append htried.closes, ?_, fun identity h => absurd h (hnone identity)⟩
        · simpa [Connection.searchOfLogin, Op.connection, hclient] using htried.own
        · exact throughout_cons (typedAt_of_untyped rfl) (htried.typed_at hclient huser houtcome)
      cases verdict with
      | refused =>
          obtain ⟨rfl, rfl⟩ := runs_pure_iff.mp hlater
          rw [List.append_nil]
          exact hstop .refused (fun _ => rfl) fun _ => nofun
      | thrown =>
          obtain ⟨rfl, rfl⟩ := runs_pure_iff.mp hlater
          rw [List.append_nil]
          exact hstop .next (fun h => nomatch h) fun _ => nofun
      | accepted =>
          obtain ⟨groups, last, rfl, hlast⟩ := runs_perform_bind_iff.mp hlater
          obtain ⟨rfl, rfl⟩ := runs_pure_iff.mp hlast
          refine ⟨?_, ?_, ?_, ?_⟩
          · intro call hcall
            obtain rfl | hcall := List.mem_cons.mp hcall
            · exact hclient
            obtain hcall | hcall := List.mem_append.mp hcall
            · exact htried.own call hcall
            · rw [List.mem_singleton.mp hcall]
              exact hclient
          · exact hsearch.append (htried.closes.append (closes_search _ _ _ _ _))
          · refine throughout_cons (typedAt_of_untyped rfl) (throughout_append ?_ ?_)
            · have htyped : Throughout (fun before => TypedAt casing escape login password
                  (fun _ _ => outcomeOf casing connection user groups = .refused)
                  (⟨connection.searchOfLogin escape client login, entries⟩ :: before)) tries :=
                htried.typed_at hclient huser fun h => nomatch h
              exact htyped.mono fun before call after _ h => h.around [] _ id
            · exact throughout_cons (typedAt_of_untyped rfl) throughout_nil
          · intro identity hfound before ⟨secret, hsecret, hservice⟩
            obtain ⟨server, hserver, hhost, haccepted⟩ := htried.ends
            refine ⟨server, user, hclient, hserver, hhost,
              ⟨secret, hsecret, List.mem_append_left _ hservice⟩, ⟨entries, by simp, huser⟩, ?_, ?_⟩
            · simp [haccepted]
            · cases groups with
              | none => cases hfound
              | some groups =>
                  cases hfound
                  exact ⟨groups, by simp, rfl⟩

theorem turn_tryConnection {outcome : Outcome}
    (hrun : Runs (tryConnection casing escape connection login password) trace outcome) :
    Turn casing escape connection login password trace outcome := by
  unfold tryConnection at hrun
  split at hrun
  next hvalid =>
    obtain ⟨lookup, rest, client, rfl, hlookup, hrest⟩ := runs_bind_iff.mp hrun
    obtain ⟨hbound, hasked⟩ := bound_bindWithFallback hlookup
    have huntyped : ∀ {refusal : Connection → Trace → Prop} {after : Trace},
        Throughout (fun before call later => TypedAt casing escape login password refusal before call
          (later ++ after)) lookup :=
      throughout_of_forall_mem fun call hcall _ _ => typedAt_of_untyped (hbound.own call hcall).2
    cases client with
    | none =>
        obtain ⟨rfl, rfl⟩ := runs_pure_iff.mp hrest
        rw [List.append_nil]
        refine ⟨fun call hcall => (hbound.own call hcall).1, hbound.closes, fun _ => hasked, ?_,
          fun _ h => nomatch h⟩
        simpa using (huntyped : ∀ {refusal}, Throughout (fun before call later =>
          TypedAt casing escape login password refusal before call (later ++ [])) lookup)
    | some client =>
        obtain ⟨hclient, hservice⟩ := hbound.accepted client rfl
        obtain ⟨calls, last, middle, rfl, hcalls, hlast⟩ := runs_bind_iff.mp hrest
        obtain ⟨answer, none, rfl, hnone⟩ := runs_perform_bind_iff.mp hlast
        obtain ⟨rfl, rfl⟩ := runs_pure_iff.mp hnone
        have hsearched := searched_searchUser hclient hcalls
        refine ⟨?_, ?_, fun _ husable hhosts => (hasked husable hhosts).append_left _, ?_, ?_⟩
        · intro call hcall
          obtain hcall | hcall := List.mem_append.mp hcall
          · exact (hbound.own call hcall).1
          obtain hcall | hcall := List.mem_append.mp hcall
          · exact hsearched.own call hcall
          · rw [List.mem_singleton.mp hcall]
            exact hclient
        · rw [← List.append_assoc]
          exact Closes.unbind (by simpa using hbound.closes.append hsearched.closes) answer
        · refine throughout_append huntyped (throughout_append ?_ ?_)
          · exact hsearched.typed.mono fun before call after _ h => h.around lookup _ id
          · exact throughout_cons (typedAt_of_untyped rfl) throughout_nil
        · intro identity hfound
          obtain ⟨server, user, hverified⟩ := hsearched.verified identity hfound lookup hservice
          refine ⟨client, server, user, ?_⟩
          simpa using hverified.around [] [⟨.unbind client, answer⟩]
  next hinvalid =>
    obtain ⟨rfl, rfl⟩ := runs_pure_iff.mp hrun
    exact ⟨fun _ h => absurd h List.not_mem_nil, closes_nil, fun h => absurd h hinvalid,
      throughout_nil, fun _ h => nomatch h⟩

/-! ## All connectors -/

/-- An unencrypted connector is called only after each encrypted one that can be asked. -/
def EncryptedFirst (connections : List Connection) (before : Trace) (call : Call) : Prop :=
  call.op.connection ∈ connections ∧ (call.op.connection.ldaps = false → ∀ other ∈ connections,
    other.ldaps = true → other.valid → other.usable → other.hosts ≠ [] → Asked other before)

/-- Nobody is let in, and only the connector is called after the refusal. -/
def Ended (result : Option Identity) (connection : Connection) (after : Trace) : Prop :=
  result = none ∧ ∀ call ∈ after, call.op.connection = connection

structure LoginRun (casing : JsString.Casing) (escape : String → String)
    (connections : List Connection) (login password : String) (trace : Trace)
    (result : Option Identity) : Prop where
  closes : Closes trace []
  typed : Throughout (TypedAt casing escape login password (Ended result)) trace
  encrypted : Throughout (fun before call _ => EncryptedFirst connections before call) trace
  verified : ∀ identity, result = some identity → ∃ connection ∈ connections, ∃ client server user,
    Verified casing escape connection login password trace identity client server user

theorem loginRun_nil (connections : List Connection) :
    LoginRun casing escape connections login password [] none where
  closes := closes_nil
  typed := throughout_nil
  encrypted := throughout_nil
  verified _ h := nomatch h

variable {connections : List Connection} {outcome : Outcome} {result : Option Identity}

/-- The turn of the first connector ends the login. -/
theorem Turn.loginRun_last (hturn : Turn casing escape connection login password trace outcome)
    (horder : ∀ other ∈ connections, other.ldaps = true → connection.ldaps = true)
    (hrefused : outcome = .refused → result = none)
    (hfound : ∀ identity, result = some identity → outcome = .found identity) :
    LoginRun casing escape (connection :: connections) login password trace result where
  closes := hturn.closes
  typed := hturn.typed.mono fun before call after htrace h => by
    have hmem : ∀ other ∈ call :: after, other.op.connection = connection := fun other hother =>
      hturn.own other (htrace ▸ List.mem_append_right _ hother)
    have hended : outcome = .refused → Ended result call.op.connection (after ++ []) := by
      intro houtcome
      refine ⟨hrefused houtcome, fun other hother => ?_⟩
      rw [List.append_nil] at hother
      rw [hmem other (List.mem_cons_of_mem _ hother), hmem call List.mem_cons_self]
    simpa using h.around [] [] hended
  encrypted := throughout_of_forall_mem fun call hcall _ _ => by
    have hown := hturn.own call hcall
    refine ⟨hown ▸ List.mem_cons_self, fun hplain other hother hldaps => ?_⟩
    rw [hown] at hplain
    obtain rfl | hother := List.mem_cons.mp hother
    · exact absurd hldaps (by simp [hplain])
    · exact absurd (horder other hother hldaps) (by simp [hplain])
  verified identity hidentity := ⟨connection, List.mem_cons_self,
    hturn.verified identity (hfound identity hidentity)⟩

/-- The next connectors follow. -/
theorem Turn.loginRun_next {rest : Trace}
    (hturn : Turn casing escape connection login password trace .next)
    (horder : ∀ other ∈ connections, other.ldaps = true → connection.ldaps = true)
    (hrest : LoginRun casing escape connections login password rest result) :
    LoginRun casing escape (connection :: connections) login password (trace ++ rest) result where
  closes := hturn.closes.append hrest.closes
  typed := throughout_append
    (hturn.typed.mono fun _ _ _ _ h => h.around [] rest fun houtcome => nomatch houtcome)
    (hrest.typed.mono fun before call after _ h => by simpa using h.around trace [] (by simp))
  encrypted := by
    refine throughout_append ?_ (hrest.encrypted.mono fun before call after _ h => ?_)
    · have hlast : LoginRun casing escape (connection :: connections) login password trace none :=
        hturn.loginRun_last horder (fun _ => rfl) fun _ h => nomatch h
      exact hlast.encrypted
    · refine ⟨List.mem_cons_of_mem _ h.1, fun hplain other hother hldaps hvalid husable hhosts => ?_⟩
      obtain rfl | hother := List.mem_cons.mp hother
      · exact (hturn.asked hvalid husable hhosts).append_left _
      · obtain ⟨host, number, hcall⟩ := h.2 hplain other hother hldaps hvalid husable hhosts
        exact ⟨host, number, List.mem_append_right _ hcall⟩
  verified identity hidentity := by
    obtain ⟨found, hmem, client, server, user, hverified⟩ := hrest.verified identity hidentity
    refine ⟨found, List.mem_cons_of_mem _ hmem, client, server, user, ?_⟩
    simpa using hverified.around trace []

/-- The order of the connectors counts for the calls only. -/
theorem LoginRun.of_mem_iff {others : List Connection}
    (h : LoginRun casing escape connections login password trace result)
    (hmem : ∀ connection, connection ∈ connections ↔ connection ∈ others) :
    LoginRun casing escape others login password trace result where
  closes := h.closes
  typed := h.typed
  encrypted := h.encrypted.mono fun _ _ _ _ hcall =>
    ⟨(hmem _).mp hcall.1, fun hplain other hother => hcall.2 hplain other ((hmem other).mpr hother)⟩
  verified identity hidentity := by
    obtain ⟨connection, hconnection, hverified⟩ := h.verified identity hidentity
    exact ⟨connection, (hmem connection).mp hconnection, hverified⟩

theorem loginRun_tryConnections
    (horder : connections.Pairwise fun earlier later => later.ldaps = true → earlier.ldaps = true)
    (hrun : Runs (tryConnections casing escape login password connections) trace result) :
    LoginRun casing escape connections login password trace result := by
  induction connections generalizing trace with
  | nil =>
      obtain ⟨rfl, rfl⟩ := runs_pure_iff.mp hrun
      exact loginRun_nil []
  | cons connection connections ih =>
      obtain ⟨hfirst, hlater⟩ := List.pairwise_cons.mp horder
      obtain ⟨first, rest, outcome, rfl, hturn, hrest⟩ := runs_bind_iff.mp hrun
      have hturn := turn_tryConnection hturn
      cases outcome with
      | next => exact hturn.loginRun_next hfirst (ih hlater hrest)
      | refused =>
          obtain ⟨rfl, rfl⟩ := runs_pure_iff.mp hrest
          rw [List.append_nil]
          exact hturn.loginRun_last hfirst (fun _ => rfl) fun _ h => nomatch h
      | found identity =>
          obtain ⟨rfl, rfl⟩ := runs_pure_iff.mp hrest
          rw [List.append_nil]
          refine hturn.loginRun_last hfirst (fun h => nomatch h) ?_
          rintro _ ⟨⟩
          rfl

end Specs

instance : Std.Total Precedes where
  total left right := Nat.le_total right.ldaps.toNat left.ldaps.toNat

instance : IsTrans Connection Precedes where
  trans _ _ _ hfirst hsecond := Nat.le_trans hsecond hfirst

theorem preferredConnections_pairwise (connections : List Connection) :
    (preferredConnections connections).Pairwise fun earlier later =>
      later.ldaps = true → earlier.ldaps = true := by
  have hsorted : (preferredConnections connections).Pairwise Precedes :=
    List.pairwise_insertionSort Precedes connections
  refine hsorted.imp fun {earlier later} hle hlater => ?_
  unfold Precedes at hle
  cases hearlier : earlier.ldaps <;> simp_all

/-- Whatever the servers answer, an identity is that of the only entry of the login at a connector,
after one of its hosts accepted the password for it. The password goes nowhere else, a refusal ends
the login unless another host of the connector accepts or the client for one cannot be created,
unencrypted connectors come after the encrypted ones, and each client that was created is closed. -/
theorem directory_login_runs {casing : JsString.Casing} {escape : String → String}
    {connections : List Connection} {loginValue password : String} {trace : Trace}
    {result : Option Identity}
    (hrun : Runs (authenticateUser casing escape connections loginValue password) trace result) :
    LoginRun casing escape connections (JsString.trim loginValue) password trace result := by
  unfold authenticateUser at hrun
  split at hrun
  next =>
    have hsorted := loginRun_tryConnections (preferredConnections_pairwise connections) hrun
    exact hsorted.of_mem_iff fun connection => List.mem_insertionSort _
  next =>
    obtain ⟨rfl, rfl⟩ := runs_pure_iff.mp hrun
    exact loginRun_nil connections

/-! The encrypted connector comes first, and its second host accepts the password. Where a second
host is the address of a controller, no client can be created for it: the password that the first
one refuses is given to the next connector. -/

def plainConnection : Connection where
  id := "1"
  ldaps := false
  hasCaCertificate := false
  primaryHost := "dc0"
  secondaryHost := none
  bindDn := "cn=portal"
  bindSecret := some "portal"
  retries := 0
  baseDn := "dc=example"
  userBaseDn := none
  groupBaseDn := none
  userFilter := "(objectClass=user)"
  groupFilter := "(objectClass=group)"
  loginAttribute := "uid"
  usernameAttribute := "mail"
  emailAttribute := "mail"
  groupAttribute := "cn"
  nestedGroups := false

def encryptedConnection : Connection :=
  { plainConnection with
    id := "2", ldaps := true, hasCaCertificate := true, primaryHost := "dc1",
    secondaryHost := some "dc2" }

def acceptedAtSecondary (past : Trace) : (op : Op) → Answer op
  | .create _ _ => some past.length
  | .bind _ _ _ => true
  | .userBind client _ _ => client.host = "dc2"
  | .search _ _ _ (some _) =>
      some [⟨"cn=alice", fun name => if name = "mail" then "Alice@example.com " else ""⟩]
  | .search _ _ _ none => some [⟨"cn=auditors", fun _ => "auditors"⟩]
  | .unbind _ => ()

def addressedConnection : Connection :=
  { plainConnection with id := "0", primaryHost := "dc4", secondaryHost := some "2001:db8::4" }

def uncreatedSecondary (past : Trace) : (op : Op) → Answer op
  | .create _ host => if host = "2001:db8::4" then none else some past.length
  | .bind _ _ _ => true
  | .userBind client _ _ => client.host = "dc0"
  | .search client base filter limit =>
      acceptedAtSecondary past (.search client base filter limit)
  | .unbind _ => ()

def aliceIdentity (id : String) : Identity :=
  ⟨"alice@example.com", "alice@example.com", ["auditors"], id⟩

/-- The hosts to which a password was given. -/
def givenTo (trace : Trace) : List String :=
  trace.filterMap fun call => call.op.typed.map fun typed => typed.1.host

set_option maxRecDepth 4000 in
theorem directory_login_runs_secondary :
    (∃ trace, givenTo trace = ["dc1", "dc2"] ∧
      LoginRun JsString.asciiCasing id [plainConnection, encryptedConnection]
        (JsString.trim "alice ") "password" trace (some (aliceIdentity "2"))) ∧
    ∃ trace, givenTo trace = ["dc4", "dc0"] ∧
      LoginRun JsString.asciiCasing id [addressedConnection, plainConnection]
        (JsString.trim "alice ") "password" trace (some (aliceIdentity "1")) := by
  have hrun : ∀ environment connections,
      LoginRun JsString.asciiCasing id connections (JsString.trim "alice ") "password"
        (runIn environment [] (authenticateUser JsString.asciiCasing id connections "alice "
          "password")).1
        (runIn environment [] (authenticateUser JsString.asciiCasing id connections "alice "
          "password")).2 := by
    intro environment connections
    obtain ⟨trace, htrace, hruns⟩ := runs_runIn environment
      (authenticateUser JsString.asciiCasing id connections "alice " "password") []
    rw [htrace]
    exact directory_login_runs hruns
  have hsecondary := hrun acceptedAtSecondary [plainConnection, encryptedConnection]
  have hnext := hrun uncreatedSecondary [addressedConnection, plainConnection]
  have hidentity : (runIn acceptedAtSecondary [] (authenticateUser JsString.asciiCasing id
      [plainConnection, encryptedConnection] "alice " "password")).2 =
        some (aliceIdentity "2") := by
    decide
  have hother : (runIn uncreatedSecondary [] (authenticateUser JsString.asciiCasing id
      [addressedConnection, plainConnection] "alice " "password")).2 =
        some (aliceIdentity "1") := by
    decide
  rw [hidentity] at hsecondary
  rw [hother] at hnext
  exact ⟨⟨_, by decide, hsecondary⟩, _, by decide, hnext⟩

end Directory.Login
