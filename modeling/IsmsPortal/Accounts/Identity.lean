import IsmsPortal.Accounts.Enrichment
import IsmsPortal.Foundation.Checks
import IsmsPortal.Foundation.Json
import IsmsPortal.Foundation.JsString

/-! # Where the groups of a request come from

The middleware gives every request an identity: a fixed one for probes and anonymous
routes, the account of an administrator's session, or a user of the proxy or of the
directory, who is enriched with the markers of matching grants. The groups of such a user
come from outside (the header of the proxy, the directory, the stored session) and are
checked by name together with the markers.
-/

namespace IsmsPortal

open Foundation

/-- The value of a header, which is a list when the header was sent more than once. -/
inductive HeaderValue
  | text (value : String)
  | list (values : List String)
deriving DecidableEq

structure PortalRequest where
  method : String
  /-- The path of the URL. -/
  route : String
  /-- The query has `refresh=1`. -/
  refresh : Bool
  remoteAddress : String
  cookie : String
  authMail : Option HeaderValue
  authGroups : Option HeaderValue
  authName : Option HeaderValue
  authExpires : Option HeaderValue

/-- A row of `DirectoryUserSession`. -/
structure DirectoryUserSession where
  tokenHash : String
  username : String
  displayName : String
  groups : Json
  expiresAt : Int

/-- The environment, and what the middleware asks of other systems. -/
structure IdentitySettings extends SsoSettings where
  /-- `TRUSTED_PROXY_CIDRS`. -/
  trustedProxyCidrs : String
  cidrContains : String → String → Bool
  /-- `new Date(text)`. -/
  parseDate : String → Option Int
  hashToken : String → String
  /-- The profile of a user in the directory; an error when no connection answers. -/
  resolveUserByMail : String → Except String (Option DirectoryProfile)

structure IdentityTables extends AdminTables where
  sessions : List AdminSession
  directorySessions : List DirectoryUserSession

/-- The tables, with the rows that the database returns for an identity. -/
structure IdentityDatabase (text : TextRules) extends IdentityTables where
  account : RequestIdentity → Option AdminAccountRow
  group : RequestIdentity → Option AdminGroupRow
  answers : ∀ identity, toAdminTables.Answers text identity (account identity) (group identity)

/-- Where the identity of a request comes from. -/
inductive Origin
  | probe
  | anonymous
  | adminSession (account : AdminAccountRow)
  | external (identity : RequestIdentity)

/-! ## Headers of the proxy -/

/-- `text.split(separators)`. -/
def splitText (separators : List Char) (text : String) : List String :=
  (text.toList.splitOnP (· ∈ separators)).map String.ofList

def hasControlCharacters (text : String) : Bool :=
  text.toList.any fun c => c.toNat ≤ 31 || c.toNat = 127

/-- `String(value)`. -/
def HeaderValue.joined : HeaderValue → String
  | .text value => value
  | .list values => ",".intercalate values

def HeaderValue.isText : HeaderValue → Bool
  | .text _ => true
  | .list _ => false

section Provider

variable (settings : IdentitySettings) (clock : Int) (request : PortalRequest)

/-- The names of the header, without blanks and without repetitions in another case. -/
def normalizedGroups (header : String) : List String :=
  let names := ((splitText [';', ','] header).map JsString.trim).filter (· ≠ "")
  let lower := settings.text.toLowerCase
  (names.zipIdx.filter fun item =>
    names.findIdx (fun candidate => lower candidate = lower item.1) = item.2).map Prod.fst

/-- `TrustedProxyIdentityProvider.supports`. -/
def supports : Bool :=
  request.authMail.any HeaderValue.isText || request.authGroups.any HeaderValue.isText

/-- The checks of the names that the proxy sends. -/
def wellFormedNames (username displayName header : String) (groups : List String) : Bool :=
  username ≠ "" && JsString.length username ≤ 255 && username.toList.contains '@' &&
    displayName ≠ "" && JsString.length displayName ≤ 255 &&
    !hasControlCharacters displayName && JsString.length header ≤ 8192 &&
    groups.length ≤ 512 &&
    groups.all fun group => JsString.length group ≤ 255 && !hasControlCharacters group

/-- `TrustedProxyIdentityProvider.resolve`. -/
def resolve : Except String RequestIdentity := do
  let cidrs := ((splitText [','] settings.trustedProxyCidrs).map JsString.trim).filter (· ≠ "")
  unless cidrs.any (settings.cidrContains · request.remoteAddress) do
    throw "Untrusted identity proxy"
  let some (.text mail) := request.authMail | throw "Unauthorized"
  unless request.authGroups.all HeaderValue.isText do throw "Unauthorized"
  let header := (request.authGroups.map HeaderValue.joined).getD ""
  let username := settings.text.toLowerCase (JsString.trim mail)
  let displayName := JsString.trim (orText (request.authName.map HeaderValue.joined) username)
  let groups := normalizedGroups settings header
  unless wellFormedNames username displayName header groups do throw "Unauthorized"
  if let some (.text expires) := request.authExpires then
    unless expires = "" do
      let some time := settings.parseDate expires | throw "Invalid SSO session expiry"
      unless clock < time do throw "SSO session expired"
  return ⟨username, displayName, groups, .trustedProxy, none⟩

end Provider

/-! ## Sessions -/

section Sessions

variable (settings : IdentitySettings) (tables : IdentityTables) (request : PortalRequest)

/-- The value of a cookie, when it is not empty. -/
def PortalRequest.cookieValue (name : String) : Option String :=
  let parts := (splitText [';'] request.cookie).map fun part =>
    splitText ['='] (JsString.trim part)
  ((parts.find? (·.head? = some name)).bind (·[1]?)).filter (· ≠ "")

/-- The account of the administrator's session of a request, as `adminSessionIdentity`
finds it. -/
def adminSessionAccount : Option AdminAccountRow := do
  let token ← request.cookieValue "isms_admin_session"
  let session ← tables.sessions.find? (·.tokenHash = settings.hashToken token)
  let account ← tables.accounts.find? (·.id = session.adminAccountId)
  if tables.clock < session.expiresAt ∧ account.current tables.clock = true then some account
  else none

/-- The marker of an administrator's session. -/
def sessionMarker : AdminRole → String
  | .moderator => "ISMS-MODERATOR-MANAGE"
  | .admin => "ISMS-LOCAL-ADMINS"

/-- The identity that `adminSessionIdentity` returns. -/
def adminIdentity (account : AdminAccountRow) : RequestIdentity where
  username := account.username
  displayName := account.displayName
  groups := [sessionMarker account.role]
  source := .localAdmin
  profilePhoto := account.profilePhoto

def storedGroups : Json → List String
  | .arr items => items.filterMap fun item =>
      match item with
      | .str name => some name
      | _ => none
  | _ => []

/-- The user of a session of the directory, whose groups are looked up again on demand. -/
def directoryIdentity (session : DirectoryUserSession) (refresh : Bool) : RequestIdentity :=
  let answer := if refresh then settings.resolveUserByMail session.username else .error ""
  let profile := answer.toOption.join
  { username := orText (profile.map DirectoryProfile.username) session.username
    displayName := orText (profile.map DirectoryProfile.displayName) session.displayName
    groups := match answer with
      | .ok (some profile) => profile.groups
      | .ok none => []
      | .error _ => storedGroups session.groups
    source := .directorySession
    profilePhoto := none }

/-- `sessionIdentity`, before the enrichment. -/
def sessionOrigin (refresh : Bool) : Option Origin :=
  match adminSessionAccount settings tables request with
  | some account => some (.adminSession account)
  | none => do
      let token ← request.cookieValue "isms_directory_session"
      let session ← tables.directorySessions.find? (·.tokenHash = settings.hashToken token)
      if tables.clock < session.expiresAt then
        some (.external (directoryIdentity settings session refresh))
      else none

end Sessions

/-! ## The middleware -/

/-- The path of an external share link. -/
def isShareRoute (route : String) : Bool :=
  let start := "/public/share/".toList
  let token := route.toList.drop start.length
  start.isPrefixOf route.toList && 32 ≤ token.length && token.length ≤ 64 &&
    token.all fun c => c.isAlphanum || c = '_' || c = '-'

section Middleware

variable (settings : IdentitySettings) (tables : IdentityTables) (request : PortalRequest)

def PortalRequest.isProbe : Bool :=
  request.route ∈ ["/health/live", "/health/ready", "/metrics"] ||
    (request.route = "/branding" && request.method = "GET")

def PortalRequest.isAnonymous : Bool :=
  request.route ∈ ["/auth/login", "/auth/directory-login", "/auth/config"] ||
    (request.method = "GET" && isShareRoute request.route)

def PortalRequest.isAdmin : Bool :=
  request.route = "/admin" || "/admin/".toList.isPrefixOf request.route.toList

/-- The origin of an identity that is no session of an administrator on an administration
route. -/
def userOrigin : Except String Origin :=
  if supports request then do
    let identity ← resolve settings tables.clock request
    return .external identity
  else
    match sessionOrigin settings tables request
        (request.route = "/me" && request.refresh) with
    | some origin => .ok origin
    | none => .error "Unauthorized"

/-- The first part of `IdentityMiddleware.use`: where the identity comes from. -/
def originOf : Except String Origin :=
  if request.isProbe then .ok .probe
  else if request.isAnonymous then .ok .anonymous
  else if request.isAdmin then
    match adminSessionAccount settings tables request with
    | some account => .ok (.adminSession account)
    | none => userOrigin settings tables request
  else userOrigin settings tables request

def systemIdentity : RequestIdentity := ⟨"system", "System probe", [], .system, none⟩

def anonymousIdentity : RequestIdentity := ⟨"anonymous", "Anonymous", [], .anonymous, none⟩

/-- `IdentityMiddleware.use`: the identity of an accepted request. -/
def use (db : IdentityDatabase settings.text) : Except String RequestIdentity := do
  match ← originOf settings db.toIdentityTables request with
  | .probe => return systemIdentity
  | .anonymous => return anonymousIdentity
  | .adminSession account => return adminIdentity account
  | .external identity =>
      let resolved := settings.resolved identity
      enrichSsoIdentity settings.toSsoSettings db.toAdminTables (db.account resolved)
        (db.group resolved) identity

end Middleware

/-! ## Markers and what backs them -/

/-- The names that the privilege checks look for. -/
def markerNames : List String :=
  ["ISMS-LOCAL-ADMINS", "ISMS-MODERATOR-MANAGE", "ISMS-MODERATOR-PUBLISH",
    "ISMS-MODERATOR-ARCHIVE"]

/-- The groups that a request brings from outside. -/
def Origin.outsideGroups (settings : IdentitySettings) : Origin → List String
  | .external identity => (settings.resolved identity).groups
  | _ => []

/-- A currently valid session of an administrator, or a currently valid account or group
of administrators that matches the identity, confers the marker. -/
def Backed (settings : IdentitySettings) (tables : IdentityTables) (marker : String) :
    Origin → Prop
  | .probe | .anonymous => False
  | .adminSession account =>
      (∃ session ∈ tables.sessions, session.adminAccountId = account.id ∧
        tables.clock < session.expiresAt) ∧
        account ∈ tables.accounts ∧ account.current tables.clock = true ∧
        marker = sessionMarker account.role
  | .external identity =>
      ∃ grant ∈ tables.grants settings.text (settings.resolved identity),
        marker ∈ conferredMarkers [grant]

section Backing

variable {settings : IdentitySettings} {tables : IdentityTables} {request : PortalRequest}

theorem mem_markers {administrator manages publishes deletes : Bool} {marker : String} :
    marker ∈ markers administrator manages publishes deletes ↔
      administrator = true ∧ marker = "ISMS-LOCAL-ADMINS" ∨
      manages = true ∧ marker = "ISMS-MODERATOR-MANAGE" ∨
      publishes = true ∧ marker = "ISMS-MODERATOR-PUBLISH" ∨
      deletes = true ∧ marker = "ISMS-MODERATOR-ARCHIVE" := by
  cases administrator <;> cases manages <;> cases publishes <;> cases deletes <;>
    simp [markers]

/-- One of the found rows has the property. -/
theorem exists_of_any_or {account group : Option AdminGrant} {property : AdminGrant → Bool}
    (hany : (account.any property || group.any property) = true) :
    ∃ grant ∈ account.toList ++ group.toList, property grant = true := by
  rcases Bool.or_eq_true_iff.mp hany with haccount | hgroup
  · cases account with
    | none => cases haccount
    | some grant => exact ⟨grant, by simp, haccount⟩
  · cases group with
    | none => cases hgroup
    | some grant => exact ⟨grant, by simp, hgroup⟩

theorem not_administers_of_moderator {grant : AdminGrant} {permission : Bool}
    (hpermission : (decide (grant.role = .moderator) && permission) = true) :
    grant.administers = false := by
  have hrole : grant.role = .moderator := by
    simpa using (Bool.and_eq_true_iff.mp hpermission).1
  simp [AdminGrant.administers, hrole]

/-- A marker that is added is conferred by one of the rows that were found. -/
theorem conferred_of_mem_addedMarkers {account group : Option AdminGrant} {marker : String}
    (hmarker : marker ∈ addedMarkers account group) :
    ∃ grant ∈ account.toList ++ group.toList, marker ∈ conferredMarkers [grant] := by
  unfold addedMarkers at hmarker
  simp only [← Bool.and_or_distrib_left, mem_markers, Bool.and_eq_true] at hmarker
  rcases hmarker with ⟨hany, rfl⟩ | ⟨⟨-, hany⟩, rfl⟩ | ⟨⟨-, hany⟩, rfl⟩ | ⟨⟨-, hany⟩, rfl⟩
  · obtain ⟨grant, hgrant, hadministers⟩ := exists_of_any_or hany
    exact ⟨grant, hgrant, by simp [conferredMarkers, mem_markers, hadministers]⟩
  · obtain ⟨grant, hgrant, hmanages⟩ := exists_of_any_or hany
    have hnot := not_administers_of_moderator hmanages
    exact ⟨grant, hgrant, by simp [conferredMarkers, mem_markers, hmanages, hnot]⟩
  · obtain ⟨grant, hgrant, hpublishes⟩ := exists_of_any_or hany
    have hnot := not_administers_of_moderator hpublishes
    exact ⟨grant, hgrant, by simp [conferredMarkers, mem_markers, hpublishes, hnot]⟩
  · obtain ⟨grant, hgrant, hdeletes⟩ := exists_of_any_or hany
    have hnot := not_administers_of_moderator hdeletes
    exact ⟨grant, hgrant, by simp [conferredMarkers, mem_markers, hdeletes, hnot]⟩

/-- The groups of an enriched identity. -/
theorem mem_withGrants_groups {identity : RequestIdentity} {account : Option AdminAccountRow}
    {group : Option AdminGroupRow} {preference : Option AdminPreference} {name : String} :
    name ∈ (identity.withGrants account group preference).groups ↔
      name ∈ identity.groups ∨
        name ∈ addedMarkers (account.map AdminAccountRow.toAdminGrant)
          (group.map AdminGroupRow.toAdminGrant) := by
  unfold RequestIdentity.withGrants
  split
  next hnone =>
    -- nothing was found: the identity is returned as it is
    obtain ⟨haccount, hgroup⟩ := Bool.and_eq_true_iff.mp hnone
    rw [Option.isNone_iff_eq_none] at haccount hgroup
    simp [haccount, hgroup, addedMarkers, markers]
  next => rw [List.mem_eraseDups, List.mem_append]

/-- The session behind the identity of an administrator. -/
theorem adminSessionAccount_valid {account : AdminAccountRow}
    (haccount : adminSessionAccount settings tables request = some account) :
    (∃ session ∈ tables.sessions, session.adminAccountId = account.id ∧
      tables.clock < session.expiresAt) ∧
      account ∈ tables.accounts ∧ account.current tables.clock = true := by
  unfold adminSessionAccount at haccount
  simp only [Option.bind_eq_bind, Option.bind_eq_some_iff] at haccount
  obtain ⟨token, -, session, hsession, found, hfound, haccount⟩ := haccount
  split at haccount
  next hvalid =>
    cases haccount
    have hid : account.id = session.adminAccountId := by simpa using List.find?_some hfound
    exact ⟨⟨session, List.mem_of_find?_eq_some hsession, hid.symm, hvalid.1⟩,
      List.mem_of_find?_eq_some hfound, hvalid.2⟩
  next => cases haccount

/-- The origin of an accepted request is an administrator only by a session. -/
theorem originOf_adminSession {account : AdminAccountRow}
    (horigin : originOf settings tables request = .ok (.adminSession account)) :
    adminSessionAccount settings tables request = some account := by
  -- without headers of the proxy the session is looked up on every route
  have huser : userOrigin settings tables request = .ok (.adminSession account) →
      adminSessionAccount settings tables request = some account := by
    intro huser
    unfold userOrigin at huser
    split at huser
    next =>
      obtain ⟨identity, -, hidentity⟩ := Checks.accepts_bind.mp huser
      cases hidentity
    next =>
      split at huser
      next origin hsession =>
        cases huser
        unfold sessionOrigin at hsession
        split at hsession
        next found hfound =>
          cases hsession
          exact hfound
        next =>
          simp only [Option.bind_eq_bind, Option.bind_eq_some_iff] at hsession
          obtain ⟨token, -, session, -, hsession⟩ := hsession
          split at hsession <;> cases hsession
      next => cases huser
  unfold originOf at horigin
  split at horigin
  next => cases horigin
  next =>
    split at horigin
    next => cases horigin
    next =>
      split at horigin
      next =>
        split at horigin
        next found hfound =>
          cases horigin
          exact hfound
        next => exact huser horigin
      next => exact huser horigin

end Backing

/-- **Marker groups.** The markers in the groups of an accepted request are all backed
exactly when those among the groups from outside are. -/
theorem marker_groups_backed_iff {settings : IdentitySettings}
    {db : IdentityDatabase settings.text} {request : PortalRequest} {identity : RequestIdentity}
    (haccepted : use settings request db = .ok identity) :
    ∃ origin, originOf settings db.toIdentityTables request = .ok origin ∧
      ((∀ marker ∈ markerNames, marker ∈ identity.groups →
          Backed settings db.toIdentityTables marker origin) ↔
        ∀ marker ∈ markerNames, marker ∈ origin.outsideGroups settings →
          Backed settings db.toIdentityTables marker origin) := by
  obtain ⟨origin, horigin, hidentity⟩ := Checks.accepts_bind.mp haccepted
  refine ⟨origin, horigin, ?_⟩
  cases origin with
  | probe =>
      cases hidentity
      simp [systemIdentity, Origin.outsideGroups]
  | anonymous =>
      cases hidentity
      simp [anonymousIdentity, Origin.outsideGroups]
  | adminSession account =>
      cases hidentity
      obtain ⟨hsession, haccount, hcurrent⟩ :=
        adminSessionAccount_valid (originOf_adminSession horigin)
      constructor
      · intro _ marker _ hmarker
        cases hmarker
      · intro _ marker _ hmarker
        exact ⟨hsession, haccount, hcurrent, List.mem_singleton.mp hmarker⟩
  | external external =>
      rw [enrichSsoIdentity_ok settings.toSsoSettings hidentity]
      obtain ⟨haccount, hgroup⟩ := db.answers (settings.resolved external)
      constructor
      · intro hall marker hname houtside
        exact hall marker hname (mem_withGrants_groups.mpr (.inl houtside))
      · intro houtside marker hname hmarker
        rcases mem_withGrants_groups.mp hmarker with hbrought | hadded
        · exact houtside marker hname hbrought
        · -- what was added is conferred by a row that the database returned
          obtain ⟨grant, hgrant, hconferred⟩ := conferred_of_mem_addedMarkers hadded
          refine ⟨grant, ?_, hconferred⟩
          rcases List.mem_append.mp hgrant with hof | hof
          · exact List.mem_append_left _
              (Query.IsPick.mem (Query.isPick_map.mpr ⟨_, haccount, rfl⟩) hof)
          · exact List.mem_append_right _
              (Query.IsPick.mem (Query.isPick_map.mpr ⟨_, hgroup, rfl⟩) hof)

/-! ## Sample -/

/-- A proxy in one network, and no directory. -/
def proxySettings : IdentitySettings where
  __ := quietSettings
  trustedProxyCidrs := "10.0.0.0/8"
  cidrContains cidr address := cidr = "10.0.0.0/8" && "10.".toList.isPrefixOf address.toList
  parseDate _ := none
  hashToken := id
  resolveUserByMail _ := .ok none

/-- The database returns the first matching row. -/
def firstRows (groups : List AdminGroupRow) : IdentityDatabase proxySettings.text where
  clock := 0
  accounts := []
  groups := groups
  preferences _ := none
  sessions := []
  directorySessions := []
  account identity := (AdminTables.matchingAccounts proxySettings.text
    ⟨0, [], groups, fun _ => none⟩ identity).head?
  group identity := (AdminTables.matchingGroups proxySettings.text
    ⟨0, [], groups, fun _ => none⟩ identity).head?
  answers _ := ⟨Query.isPick_head? _, Query.isPick_head? _⟩

/-- A request of Alice through the proxy. -/
def proxyRequest (groups : String) : PortalRequest where
  method := "GET"
  route := "/admin/documents"
  refresh := false
  remoteAddress := "10.0.0.7"
  cookie := ""
  authMail := some (.text "alice@example.com")
  authGroups := some (.text groups)
  authName := none
  authExpires := none

def proxyIdentity (groups : List String) : RequestIdentity :=
  ⟨"alice@example.com", "alice@example.com", groups, .trustedProxy, none⟩

/-- A member of a group of administrators. -/
theorem marker_groups_backed_iff_member :
    ∃ origin, originOf proxySettings (firstRows [adminGroup "Admins" .admin]).toIdentityTables
        (proxyRequest "Staff; admins") = .ok origin ∧
      (use proxySettings (proxyRequest "Staff; admins")
        (firstRows [adminGroup "Admins" .admin])).toOption =
        some (proxyIdentity ["Staff", "admins", "ISMS-LOCAL-ADMINS"]) ∧
      ((∀ marker ∈ markerNames, marker ∈ ["Staff", "admins", "ISMS-LOCAL-ADMINS"] →
          Backed proxySettings (firstRows [adminGroup "Admins" .admin]).toIdentityTables marker
            origin) ↔
        ∀ marker ∈ markerNames, marker ∈ origin.outsideGroups proxySettings →
          Backed proxySettings (firstRows [adminGroup "Admins" .admin]).toIdentityTables marker
            origin) := by
  have hrun : (use proxySettings (proxyRequest "Staff; admins")
      (firstRows [adminGroup "Admins" .admin])).toOption =
      some (proxyIdentity ["Staff", "admins", "ISMS-LOCAL-ADMINS"]) := by
    decide
  obtain ⟨origin, horigin, hiff⟩ := marker_groups_backed_iff (Checks.toOption_eq_some.mp hrun)
  exact ⟨origin, horigin, hrun, hiff⟩

/-- The header names a marker: the user is an administrator, without any grant. -/
theorem header_claims_marker :
    ∃ origin identity,
      originOf proxySettings (firstRows []).toIdentityTables
        (proxyRequest "ISMS-LOCAL-ADMINS") = .ok origin ∧
      use proxySettings (proxyRequest "ISMS-LOCAL-ADMINS") (firstRows []) = .ok identity ∧
      "ISMS-LOCAL-ADMINS" ∈ markerNames ∧ "ISMS-LOCAL-ADMINS" ∈ identity.groups ∧
      isAdminIdentity identity.groups = true ∧
      ¬Backed proxySettings (firstRows []).toIdentityTables "ISMS-LOCAL-ADMINS" origin := by
  have hrun : (use proxySettings (proxyRequest "ISMS-LOCAL-ADMINS") (firstRows [])).toOption =
      some (proxyIdentity ["ISMS-LOCAL-ADMINS"]) := by
    decide
  have huse := Checks.toOption_eq_some.mp hrun
  obtain ⟨origin, horigin, hidentity⟩ := Checks.accepts_bind.mp huse
  refine ⟨origin, _, horigin, huse, by decide, List.mem_singleton_self _, rfl, ?_⟩
  cases origin with
  | probe => exact not_false
  | anonymous => exact not_false
  | adminSession account =>
      rintro ⟨⟨session, hsession, -⟩, -⟩
      cases hsession
  | external identity =>
      rintro ⟨grant, hgrant, -⟩
      cases hgrant

end IsmsPortal
