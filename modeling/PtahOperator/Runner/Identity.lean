import Mathlib.Data.List.DropRight
import PtahOperator.Go.Url

/-!
# The identity of a database target

The runner binds a plan to the route of its database by a digest without credentials
(`internal/runner/identity.go`). The digest is SHA-256 of four fields with NUL bytes between them.

* `targetIdentityDigest`: the digest of a database URL or a MySQL network DSN.
* `Identity`, `identify`: the database and session that an accepted input names.
* `Splice`: two identities whose fields run together into the same bytes.
* `target_identity_iff`: digests tell identities apart unless the identities are spliced.
-/

namespace Ptah.Runner

open Go (Bytes bytes Values)

/-! ## The code -/

/-- What `url.Parse` returns, as far as `identity.go` reads it. -/
structure URL where
  scheme : Bytes
  opaqueText : Bytes := []
  /-- `User.Username()`, if there is user information. -/
  user : Option Bytes := none
  hostname : Bytes
  port : Bytes := []
  escapedPath : Bytes
  rawQuery : Bytes := []

/-- The functions of Go's library that `identity.go` calls and that no property here depends on. -/
structure Library where
  /-- `url.Parse` -/
  parse : Bytes → Option URL
  /-- `net.ParseIP`, and the text of the address. -/
  parseIP : Bytes → Option Bytes
  /-- `strings.ToLower` -/
  toLower : Bytes → Bytes
  /-- `strings.TrimSpace` -/
  trimSpace : Bytes → Bytes

/-- The supported families. -/
inductive Scheme where
  | postgres
  | mysql
  deriving DecidableEq

def Scheme.name : Scheme → Bytes
  | postgres => bytes "postgres"
  | mysql => bytes "mysql"

/-- `defaultDatabasePorts` of the supported families. -/
def Scheme.defaultPort : Scheme → Nat
  | postgres => 5432
  | mysql => 3306

section Code

variable (lib : Library)

def canonicalDatabaseScheme (scheme : Bytes) : Bytes :=
  let lower := lib.toLower (lib.trimSpace scheme)
  if lower = bytes "postgresql" ∨ lower = bytes "pgx" then bytes "postgres"
  else if lower = bytes "mariadb" then bytes "mysql"
  else lower

def supportedScheme (scheme : Bytes) : Option Scheme :=
  if scheme = bytes "postgres" then some .postgres
  else if scheme = bytes "mysql" then some .mysql
  else none

def canonicalDatabaseHost (host : Bytes) : Except Bytes Bytes :=
  if lib.trimSpace host ≠ host then .error (bytes "database URL has an invalid host")
  else
    let host := Go.trimFirst 0x5b (Go.trimLast 0x5d (lib.toLower host))
    if host = [] then .error (bytes "database URL has an empty host")
    else
      match lib.parseIP host with
      | some address => .ok address
      | none => .ok host

def hostRoute (host port defaultPort : Bytes) : Bytes :=
  let port := if port = defaultPort then [] else port
  if port ≠ [] then Go.joinHostPort host port
  else if 0x3a ∈ host then 0x5b :: host ++ [0x5d]
  else host

def canonicalDatabaseRoute (host port defaultPort : Bytes) : Except Bytes Bytes :=
  let host := lib.trimSpace host
  if 0x2c ∈ host || 0x2c ∈ port then
    .error (bytes "database URL names multiple endpoints; a single lock target is required")
  else
    match Go.parsePort (if port = [] then defaultPort else port) with
    | none => .error (bytes "database URL has an invalid port")
    | some number =>
      let effectivePort := Go.decimal number
      if host.head? = some 0x2f then
        if 0 ∈ host then .error (bytes "database URL has an invalid unix socket path")
        else .ok (bytes "unix:path=" ++ Go.queryEscape host ++ bytes "&port=" ++ effectivePort)
      else
        match canonicalDatabaseHost lib host with
        | .error reason => .error reason
        | .ok host => .ok (hostRoute host effectivePort defaultPort)

def singleQueryValue (query : Values) (key : Bytes) : Except Bytes (Option Bytes) :=
  match query.get? key with
  | none => .ok none
  | some [value] => .ok (some value)
  | some _ => .error (bytes "database URL has multiple " ++ key ++ bytes " query values")

def queryOverride (query : Values) (key field : Bytes) (current : Bytes) : Except Bytes Bytes :=
  match singleQueryValue query key with
  | .error reason => .error reason
  | .ok none => .ok current
  | .ok (some value) =>
    if value = [] then .error (bytes "database URL contains an empty " ++ field ++ bytes " override")
    else .ok value

/-- The loop over the aliases of the database, which counts them. -/
def databaseAliases (query : Values) : List Bytes → (aliases : Nat) → (database : Bytes) →
    Except Bytes (Nat × Bytes)
  | [], aliases, database => .ok (aliases, database)
  | key :: keys, aliases, database =>
    match singleQueryValue query key with
    | .error reason => .error reason
    | .ok none => databaseAliases query keys aliases database
    | .ok (some value) =>
      if value = [] then .error (bytes "database URL contains an empty database override")
      else databaseAliases query keys (aliases + 1) value

def postgresOverrides (query : Values) (host port database : Bytes) :
    Except Bytes (Bytes × Bytes × Bytes) :=
  match queryOverride query (bytes "host") (bytes "host") host with
  | .error reason => .error reason
  | .ok host =>
    match queryOverride query (bytes "port") (bytes "port") port with
    | .error reason => .error reason
    | .ok port =>
      match databaseAliases query [bytes "dbname", bytes "database"] 0 database with
      | .error reason => .error reason
      | .ok (aliases, database) =>
        if 1 < aliases then .error (bytes "database URL contains ambiguous database aliases")
        else .ok (host, port, database)

def databaseFromEscapedPath (escapedPath : Bytes) : Except Bytes Bytes :=
  let escaped := Go.trimFirst 0x2f escapedPath
  if escaped = [] then .ok []
  else if 0x2f ∈ escaped then
    .error (bytes "database URL path contains multiple unescaped segments")
  else
    match Go.unescape false escaped with
    | none => .error (bytes "database URL has an invalid database name")
    | some database =>
      if 0 ∈ database then .error (bytes "database URL has an invalid database name")
      else .ok database

def mysqlConventionalPathChangesDriverParsing (escapedPath : Bytes) : Bool :=
  let lower := lib.toLower escapedPath
  Go.contains lower (bytes "%2f") || Go.contains lower (bytes "%3f") || Go.contains lower (bytes "%25")

/-- `postgresConnectionOnlyIdentityKeys`, `mysqlConnectionOnlyIdentityKeys` -/
def connectionOnlyIdentityKeys : Scheme → List Bytes
  | .postgres => [bytes "connect_timeout", bytes "password", bytes "sslpassword"]
  | .mysql => [bytes "checkConnLiveness", bytes "maxAllowedPacket", bytes "readTimeout",
      bytes "timeout", bytes "writeTimeout"]

def mysqlAllowedDriverParameters : List Bytes :=
  ["allowCleartextPasswords", "allowFallbackToPlaintext", "allowNativePasswords", "allowOldPasswords",
    "checkConnLiveness", "clientFoundRows", "collation", "columnsWithAlias", "compress",
    "connectionAttributes", "interpolateParams", "loc", "maxAllowedPacket", "parseTime", "readTimeout",
    "rejectReadOnly", "serverPubKey", "timeTruncate", "timeout", "tls", "writeTimeout"].map bytes

def validateMySQLDriverParameters : List (Bytes × List Bytes) → Except Bytes Unit
  | [] => .ok ()
  | (key, values) :: query =>
    if key = bytes "multiStatements" then
      .error (bytes "MySQL DSN multi-statement execution is not allowed")
    else if key ∉ mysqlAllowedDriverParameters then
      .error (bytes "MySQL DSN contains an unsupported server session parameter")
    else if values.length ≠ 1 then .error (bytes "MySQL DSN contains repeated driver parameters")
    else validateMySQLDriverParameters query

def executionContextKeyRepresentedElsewhere (scheme : Scheme) (key : Bytes) : Bool :=
  match scheme with
  | .mysql => false
  | .postgres =>
    [bytes "host", bytes "port", bytes "dbname", bytes "database", bytes "user"].contains key

/-- The loop of `databaseExecutionContext` over the query. -/
def runtimeParameters (scheme : Scheme) : List (Bytes × List Bytes) →
    Except Bytes (List (Bytes × Bytes))
  | [] => .ok []
  | (key, values) :: query =>
    if executionContextKeyRepresentedElsewhere scheme key then runtimeParameters scheme query
    else if key ∈ connectionOnlyIdentityKeys scheme then runtimeParameters scheme query
    else
      match values with
      | [value] =>
        match runtimeParameters scheme query with
        | .error reason => .error reason
        | .ok parameters => .ok ((key, value) :: parameters)
      | _ => .error (bytes "database URL has multiple " ++ key ++ bytes " runtime values")

/-- The user name, which a PostgreSQL query replaces. -/
def sessionUser (scheme : Scheme) (user : Option Bytes) (query : Values) : Except Bytes Bytes :=
  let username := user.getD []
  match scheme with
  | .postgres =>
    match singleQueryValue query (bytes "user") with
    | .error reason => .error reason
    | .ok none => .ok username
    | .ok (some value) => .ok value
  | .mysql =>
    match validateMySQLDriverParameters query.entries with
    | .error reason => .error reason
    | .ok () => .ok username

def databaseExecutionContext (scheme : Scheme) (user : Option Bytes) (query : Values) :
    Except Bytes Bytes :=
  match sessionUser scheme user query with
  | .error reason => .error reason
  | .ok username =>
    match runtimeParameters scheme query.entries with
    | .error reason => .error reason
    | .ok parameters =>
      .ok (bytes "user=" ++ Go.queryEscape username ++ bytes "&" ++ Go.encode parameters)

def urlTarget (scheme : Scheme) (query : Values) (host port database : Bytes) :
    Except Bytes (Bytes × Bytes × Bytes) :=
  match scheme with
  | .postgres => postgresOverrides query host port database
  | .mysql => .ok (host, port, database)

def effectiveDatabaseTarget (parsed : URL) : Except Bytes (Scheme × Bytes × Bytes × Bytes) :=
  match supportedScheme (canonicalDatabaseScheme lib parsed.scheme) with
  | none => .error (bytes "database URL uses an unsupported scheme")
  | some scheme =>
    if scheme = .mysql ∧ 0x3a ∈ parsed.hostname ∧ parsed.port = [] then
      .error (bytes "MySQL IPv6 URLs must include an explicit port")
    else if scheme = .mysql ∧ mysqlConventionalPathChangesDriverParsing lib parsed.escapedPath then
      .error (bytes "MySQL URL database name contains an unsupported escaped delimiter")
    else
      match databaseFromEscapedPath parsed.escapedPath with
      | .error reason => .error reason
      | .ok database =>
        match Go.parseQuery parsed.rawQuery with
        | none => .error (bytes "database URL has an invalid query")
        | some query =>
          match urlTarget scheme query parsed.hostname parsed.port database with
          | .error reason => .error reason
          | .ok (host, port, database) =>
            if database = [] then .error (bytes "database URL must identify a database")
            else
              match canonicalDatabaseRoute lib host port (Go.decimal scheme.defaultPort) with
              | .error reason => .error reason
              | .ok route =>
                match databaseExecutionContext scheme parsed.user query with
                | .error reason => .error reason
                | .ok executionContext => .ok (scheme, route, database, executionContext)

def looksLikeMySQLNetworkDSN (raw : Bytes) : Bool :=
  let lower := lib.toLower raw
  let lower :=
    if (bytes "mysql://").isPrefixOf lower || (bytes "mariadb://").isPrefixOf lower then
      match Scan.cut (bytes "://") lower with
      | none => lower
      | some (_, rest) => rest
    else lower
  (bytes "tcp(").isPrefixOf lower || (bytes "unix(").isPrefixOf lower ||
    Go.contains lower (bytes "@tcp(") || Go.contains lower (bytes "@unix(")

def tcpHostPort (address : Bytes) : Except Bytes (Bytes × Bytes) :=
  match Go.splitHostPort address with
  | some (host, port) => .ok (host, port)
  | none =>
    if 0x3a ∈ address then
      match lib.parseIP (Go.trimFirst 0x5b (Go.trimLast 0x5d address)) with
      | some parsed => .ok (parsed, [])
      | none => .error (bytes "MySQL TCP DSN has an invalid endpoint")
    else .ok (address, [])

/-- `canonicalTCPAddress`; an empty port is the default one. -/
def canonicalTCPAddress (address defaultPort : Bytes) : Except Bytes Bytes :=
  match tcpHostPort lib address with
  | .error reason => .error reason
  | .ok (hostname, port) =>
    match canonicalDatabaseHost lib hostname with
    | .error _ => .error (bytes "MySQL TCP DSN has an invalid host")
    | .ok hostname =>
      if port = [] then .ok (hostRoute hostname defaultPort defaultPort)
      else
        match Go.parsePort port with
        | none => .error (bytes "MySQL TCP DSN has an invalid port")
        | some number => .ok (hostRoute hostname (Go.decimal number) defaultPort)

structure MysqlNetworkDSN where
  endpoint : Bytes
  database : Bytes
  username : Bytes
  password : Bytes
  queryText : Bytes

def mysqlDSNUserInfo (userInfo : Bytes) : Except Bytes (Bytes × Bytes) :=
  let (username, password) :=
    match Scan.cut [0x3a] userInfo with
    | some (before, after) => (before, after)
    | none => (userInfo, [])
  if username = [] then .error (bytes "MySQL network DSN has an invalid username")
  else .ok (username, password)

def dsnWithoutScheme (raw : Bytes) : Except Bytes Bytes :=
  match Scan.cut (bytes "://") raw with
  | none => .ok raw
  | some (scheme, dsn) =>
    if canonicalDatabaseScheme lib scheme ≠ bytes "mysql" then .error (bytes "database URL is invalid")
    else .ok dsn

/-- The user name and password of a DSN, and the text behind them. -/
def dsnUserInfo (dsn : Bytes) : Except Bytes (Bytes × Bytes × Bytes) :=
  match Go.cutLast 0x40 dsn with
  | none => .ok ([], [], dsn)
  | some (userInfo, scope) =>
    if userInfo = [] then .error (bytes "MySQL network DSN has empty user information")
    else
      match mysqlDSNUserInfo userInfo with
      | .error reason => .error reason
      | .ok (username, password) => .ok (username, password, scope)

/-- The network, address, escaped database and query of a DSN. -/
def dsnParts (scope : Bytes) : Except Bytes (Bytes × Bytes × Bytes × Bytes) :=
  match Scan.index [0x28] scope, Scan.index (bytes ")/") scope with
  | some start, some stop =>
    if start = 0 ∨ stop ≤ start + 1 then .error (bytes "MySQL network DSN has an invalid endpoint")
    else
      let network := lib.toLower (scope.take start)
      let address := (scope.take stop).drop (start + 1)
      let (escapedDatabase, queryText) :=
        match Scan.cut [0x3f] (scope.drop (stop + 2)) with
        | some (before, after) => (before, after)
        | none => (scope.drop (stop + 2), [])
      .ok (network, address, escapedDatabase, queryText)
  | _, _ => .error (bytes "MySQL network DSN has an invalid endpoint")

def dsnDatabase (escapedDatabase : Bytes) : Except Bytes Bytes :=
  let invalid := bytes "MySQL network DSN has an invalid database name"
  if escapedDatabase = [] ∨ 0x2f ∈ escapedDatabase then .error invalid
  else
    match Go.unescape false escapedDatabase with
    | none => .error invalid
    | some database => if database = [] ∨ 0 ∈ database then .error invalid else .ok database

def dsnEndpoint (network address : Bytes) : Except Bytes Bytes :=
  if network = bytes "tcp" then canonicalTCPAddress lib address (bytes "3306")
  else if network = bytes "unix" then
    if address.head? ≠ some 0x2f ∨ 0 ∈ address then
      .error (bytes "MySQL unix DSN has an invalid socket path")
    else .ok (bytes "unix:" ++ address)
  else .error (bytes "MySQL network DSN uses an unsupported network")

def parseMySQLNetworkDSN (raw : Bytes) : Except Bytes MysqlNetworkDSN :=
  match dsnWithoutScheme lib raw with
  | .error reason => .error reason
  | .ok dsn =>
    match dsnUserInfo dsn with
    | .error reason => .error reason
    | .ok (username, password, scope) =>
      match dsnParts lib scope with
      | .error reason => .error reason
      | .ok (network, address, escapedDatabase, queryText) =>
        match dsnDatabase escapedDatabase with
        | .error reason => .error reason
        | .ok database =>
          match dsnEndpoint lib network address with
          | .error reason => .error reason
          | .ok endpoint => .ok { endpoint, database, username, password, queryText }

variable {Digest : Type} (sha256 : Bytes → Digest)

def identityText (scheme : Scheme) (route database executionContext : Bytes) : Bytes :=
  scheme.name ++ 0 :: (route ++ 0 :: (database ++ 0 :: executionContext))

def mysqlNetworkTargetIdentityDigest (raw : Bytes) : Except Bytes Digest :=
  match parseMySQLNetworkDSN lib raw with
  | .error reason => .error reason
  | .ok parsed =>
    match Go.parseQuery parsed.queryText with
    | none => .error (bytes "MySQL network DSN has an invalid query")
    | some query =>
      match databaseExecutionContext .mysql (some parsed.username) query with
      | .error reason => .error reason
      | .ok executionContext =>
        .ok (sha256 (identityText .mysql parsed.endpoint parsed.database executionContext))

def targetIdentityDigest (rawDatabaseURL : Bytes) : Except Bytes Digest :=
  if rawDatabaseURL = [] then .error (bytes "database URL is empty")
  else if looksLikeMySQLNetworkDSN lib rawDatabaseURL then
    mysqlNetworkTargetIdentityDigest lib sha256 rawDatabaseURL
  else
    match lib.parse rawDatabaseURL with
    | none => .error (bytes "database URL is invalid")
    | some parsed =>
      if parsed.scheme = [] ∨ parsed.opaqueText ≠ [] then .error (bytes "database URL is invalid")
      else
        match effectiveDatabaseTarget lib parsed with
        | .error reason => .error reason
        | .ok (scheme, route, database, executionContext) =>
          .ok (sha256 (identityText scheme route database executionContext))

end Code

/-! ## What an input names -/

/-- A server: a host with a port, or a socket, whose name has a port in PostgreSQL. -/
inductive Endpoint where
  | host (name : Bytes) (port : Nat)
  | socket (path : Bytes) (rooted : path.head? = some 0x2f) (port : Option Nat)
  deriving DecidableEq

def Endpoint.route (defaultPort : Nat) : Endpoint → Bytes
  | host name port => hostRoute name (Go.decimal port) (Go.decimal defaultPort)
  | socket path _ (some port) =>
    bytes "unix:path=" ++ Go.queryEscape path ++ bytes "&port=" ++ Go.decimal port
  | socket path _ none => bytes "unix:" ++ path

/-- The database and the session that an accepted input names. -/
structure Identity where
  scheme : Scheme
  endpoint : Endpoint
  database : Bytes
  username : Bytes
  /-- The session parameters, without those that only concern the connection. -/
  session : Bytes → Option Bytes

def Identity.route (identity : Identity) : Bytes := identity.endpoint.route identity.scheme.defaultPort

def queryValue (query : Values) (key : Bytes) : Option Bytes := (query.get? key).bind List.head?

/-- A field, which a PostgreSQL query may replace. -/
def effectiveField (scheme : Scheme) (query : Values) (key current : Bytes) : Bytes :=
  match scheme with
  | .postgres => (queryValue query key).getD current
  | .mysql => current

def effectiveDatabase (scheme : Scheme) (query : Values) (escapedPath : Bytes) : Bytes :=
  effectiveField scheme query (bytes "database") (effectiveField scheme query (bytes "dbname")
      ((Go.unescape false (Go.trimFirst 0x2f escapedPath)).getD []))

def sessionParameters (scheme : Scheme) (query : Values) (key : Bytes) : Option Bytes :=
  if executionContextKeyRepresentedElsewhere scheme key ∨ key ∈ connectionOnlyIdentityKeys scheme then none
  else queryValue query key

section Identify

variable (lib : Library)

/-- The endpoint of a host, which is a socket if it is a path. -/
def hostEndpoint (host port : Bytes) (defaultPort : Nat) : Option Endpoint :=
  let host := lib.trimSpace host
  match if port = [] then some defaultPort else Go.parsePort port with
  | none => none
  | some number =>
    if rooted : host.head? = some 0x2f then some (.socket host rooted (some number))
    else (canonicalDatabaseHost lib host).toOption.map (.host · number)

def identifyURL (parsed : URL) : Option Identity :=
  match supportedScheme (canonicalDatabaseScheme lib parsed.scheme), Go.parseQuery parsed.rawQuery with
  | some scheme, some query =>
    (hostEndpoint lib (effectiveField scheme query (bytes "host") parsed.hostname)
      (effectiveField scheme query (bytes "port") parsed.port) scheme.defaultPort).map fun endpoint => {
        scheme, endpoint
        database := effectiveDatabase scheme query parsed.escapedPath
        username := effectiveField scheme query (bytes "user") (parsed.user.getD [])
        session := sessionParameters scheme query }
  | _, _ => none

def networkEndpoint (network address : Bytes) : Option Endpoint :=
  if network = bytes "tcp" then
    match tcpHostPort lib address with
    | .error _ => none
    | .ok (hostname, port) =>
      match canonicalDatabaseHost lib hostname,
        if port = [] then some Scheme.mysql.defaultPort else Go.parsePort port with
      | .ok name, some number => some (.host name number)
      | _, _ => none
  else if rooted : address.head? = some 0x2f then some (.socket address rooted none)
  else none

/-- What a MySQL network DSN names. -/
def identifyDSN (raw : Bytes) : Option Identity :=
  match dsnWithoutScheme lib raw with
  | .error _ => none
  | .ok dsn =>
    match dsnUserInfo dsn with
    | .error _ => none
    | .ok (username, _, scope) =>
      match dsnParts lib scope with
      | .error _ => none
      | .ok (network, address, escapedDatabase, queryText) =>
        match networkEndpoint lib network address, Go.unescape false escapedDatabase,
          Go.parseQuery queryText with
        | some endpoint, some database, some query =>
          some { scheme := .mysql, endpoint, database, username, session := sessionParameters .mysql query }
        | _, _, _ => none

/-- What an input names. -/
def identify (raw : Bytes) : Option Identity :=
  if looksLikeMySQLNetworkDSN lib raw then identifyDSN lib raw
  else (lib.parse raw).bind (identifyURL lib)

end Identify

/-- The route and the database of two identities that are otherwise the same run together into the same
bytes, because NUL bytes in them are taken for the one between them. -/
def Splice (a b : Identity) : Prop :=
  a.scheme = b.scheme ∧ a.username = b.username ∧ a.session = b.session ∧ ∃ middle : Bytes,
      b.route = a.route ++ 0 :: middle ∧ a.database = middle ++ 0 :: b.database ∨
        a.route = b.route ++ 0 :: middle ∧ b.database = middle ++ 0 :: a.database

/-! ## Routes tell endpoints apart -/

theorem colon_notMem_decimal (n : Nat) : (0x3a : UInt8) ∉ Go.decimal n := fun h =>
  absurd (Go.isDigit_of_mem_decimal h) (by decide)

theorem getLast_decimal (n : Nat) (text : Bytes) : (text ++ Go.decimal n).getLast? ≠ some 0x5d := by
  intro h
  rw [List.getLast?_append_of_ne_nil _ (Go.decimal_ne_nil n)] at h
  exact absurd (Go.isDigit_of_mem_decimal (List.mem_of_getLast? h)) (by decide)

def readHostRoute (defaultPort : Nat) (route : Bytes) : Bytes × Nat :=
  if 0x3a ∉ route then (route, defaultPort)
  else if route.getLast? = some 0x5d then (route.tail.dropLast, defaultPort)
  else
    match Go.cutLast 0x3a route with
    | none => (route, defaultPort)
    | some (front, port) =>
      (if 0x3a ∈ front then front.tail.dropLast else front, (Go.parseDigits port).getD 0)

theorem hostRoute_eq (name : Bytes) (port defaultPort : Nat) :
    hostRoute name (Go.decimal port) (Go.decimal defaultPort) =
      if port = defaultPort then (if 0x3a ∈ name then 0x5b :: name ++ [0x5d] else name)
      else Go.joinHostPort name (Go.decimal port) := by
  unfold hostRoute
  by_cases hport : port = defaultPort
  · subst hport
    simp
  · have hne : Go.decimal port ≠ Go.decimal defaultPort := fun h => hport (Go.decimal_inj h)
    simp [hne, hport, Go.decimal_ne_nil]

theorem readHostRoute_hostRoute (name : Bytes) (port defaultPort : Nat) :
    readHostRoute defaultPort (hostRoute name (Go.decimal port) (Go.decimal defaultPort)) =
      (name, port) := by
  rw [hostRoute_eq]
  unfold readHostRoute
  by_cases hport : port = defaultPort
  · rw [if_pos hport, hport]
    by_cases hcolon : 0x3a ∈ name
    · have hlast : (0x5b :: name ++ [0x5d]).getLast? = some 0x5d := List.getLast?_concat
      rw [if_pos hcolon, if_neg (by simp [hcolon]), if_pos hlast]
      simp
    · simp [hcolon]
  · rw [if_neg hport, Go.joinHostPort]
    by_cases hcolon : 0x3a ∈ name
    · have hsplit : 0x5b :: name ++ 0x5d :: 0x3a :: Go.decimal port =
          (0x5b :: name ++ [0x5d]) ++ 0x3a :: Go.decimal port := by simp
      have hlast := getLast_decimal port ((0x5b :: name ++ [0x5d]) ++ [0x3a])
      rw [List.append_assoc, List.singleton_append] at hlast
      rw [if_pos hcolon, hsplit, if_neg (by simp), if_neg hlast,
        Go.cutLast_append (colon_notMem_decimal port)]
      simp [hcolon, Go.parseDigits_decimal]
    · have hlast := getLast_decimal port (name ++ [0x3a])
      rw [List.append_assoc, List.singleton_append] at hlast
      rw [if_neg hcolon, if_neg (by simp), if_neg hlast, Go.cutLast_append (colon_notMem_decimal port)]
      simp [hcolon, Go.parseDigits_decimal]

/-- A route that starts as that of a socket and goes on with no digit is not that of a host. -/
theorem hostRoute_ne_socket {name : Bytes} {port defaultPort : Nat} {c : UInt8} {rest : Bytes}
    (hc : Go.isDigit c = false) :
    hostRoute name (Go.decimal port) (Go.decimal defaultPort) ≠ bytes "unix" ++ 0x3a :: c :: rest := by
  rw [hostRoute_eq]
  intro h
  split at h
  · split at h
    · exact absurd (List.cons.inj h).1 (by decide)
    · rename_i hcolon
      exact hcolon (h ▸ List.mem_append_right _ (.head _))
  · rw [Go.joinHostPort] at h
    split at h
    · exact absurd (List.cons.inj h).1 (by decide)
    rename_i hcolon
    obtain ⟨-, hport⟩ := Scan.append_cons_inj_front hcolon (by decide) h
    have hdigit := @Go.isDigit_of_mem_decimal port c (hport ▸ List.mem_cons_self)
    rw [hdigit] at hc
    cases hc

theorem Endpoint.route_socket {path : Bytes} (rooted : path.head? = some 0x2f) (port : Option Nat)
    (defaultPort : Nat) :
    ∃ c rest, Go.isDigit c = false ∧
      (Endpoint.socket path rooted port).route defaultPort = bytes "unix" ++ 0x3a :: c :: rest ∧
      (c = 0x2f ↔ port = none) := by
  cases port with
  | none =>
    obtain ⟨rest, rfl⟩ : ∃ rest, path = 0x2f :: rest := List.head?_eq_some_iff.1 rooted
    exact ⟨0x2f, rest, by decide, rfl, by simp⟩
  | some port => exact ⟨0x70, _, by decide, rfl, by simp⟩

theorem Endpoint.route_inj {defaultPort : Nat} {a b : Endpoint}
    (h : a.route defaultPort = b.route defaultPort) : a = b := by
  cases a with
  | host name port =>
    cases b with
    | host name' port' =>
      have hread := congrArg (readHostRoute defaultPort) h
      simp only [Endpoint.route, readHostRoute_hostRoute, Prod.mk.injEq] at hread
      rw [hread.1, hread.2]
    | socket path rooted port' =>
      obtain ⟨c, rest, hc, hroute, -⟩ := Endpoint.route_socket rooted port' defaultPort
      exact absurd (h.trans hroute) (hostRoute_ne_socket hc)
  | socket path rooted port =>
    obtain ⟨c, rest, hc, hroute, hport⟩ := Endpoint.route_socket rooted port defaultPort
    cases b with
    | host name' port' => exact absurd (h.symm.trans hroute) (hostRoute_ne_socket hc)
    | socket path' rooted' port' =>
      obtain ⟨c', rest', -, hroute', hport'⟩ := Endpoint.route_socket rooted' port' defaultPort
      have hsame : c = c' := by
        have hrest := List.append_cancel_left (hroute.symm.trans (h.trans hroute'))
        exact (List.cons.inj (List.cons.inj hrest).2).1
      cases port with
      | none =>
        cases hport'.1 (hsame ▸ hport.2 rfl)
        cases List.append_cancel_left h
        rfl
      | some port =>
        cases port' with
        | none => exact absurd (hport.1 (hsame.trans (hport'.2 rfl))) (by simp)
        | some port' =>
          have hand text : 0x26 ∉ Go.queryEscape text := Go.notMem_queryEscape (by decide) text
          have hsplit : Go.queryEscape path ++ 0x26 :: (bytes "port=" ++ Go.decimal port) =
              Go.queryEscape path' ++ 0x26 :: (bytes "port=" ++ Go.decimal port') := by
            have := h
            simp only [Endpoint.route, List.append_assoc] at this
            exact List.append_cancel_left this
          obtain ⟨hpath, hports⟩ := Scan.append_cons_inj_front (hand _) (hand _) hsplit
          cases Go.queryEscape_inj hpath
          cases Go.decimal_inj (List.append_cancel_left hports)
          rfl

/-! ## What the code hashes -/

/-- The bytes of an identity: its session parameters are written in the order of their keys. -/
def Renders (identity : Identity) (text : Bytes) : Prop :=
  ∃ parameters : List (Bytes × Bytes), (parameters.map Prod.fst).Nodup ∧
    (∀ key, parameters.lookup key = identity.session key) ∧
    text = identityText identity.scheme identity.route identity.database
      (bytes "user=" ++ Go.queryEscape identity.username ++ bytes "&" ++ Go.encode parameters)

variable {query : Values} {key database database' route : Bytes} {scheme : Scheme}

theorem singleQueryValue_ok {value : Option Bytes}
    (h : singleQueryValue query key = .ok value) : queryValue query key = value := by
  unfold singleQueryValue at h
  unfold queryValue
  cases hget : query.get? key with
  | none => rw [hget] at h; cases h; rfl
  | some values =>
    rw [hget] at h
    split at h
    · rename_i hnone; cases hnone
    · rename_i value' hone
      cases hone
      cases h
      rfl
    · cases h

theorem queryOverride_ok {field current value : Bytes}
    (h : queryOverride query key field current = .ok value) :
    (queryValue query key).getD current = value := by
  unfold queryOverride at h
  split at h
  · cases h
  · rename_i hsingle
    cases h
    rw [singleQueryValue_ok hsingle]
    rfl
  · rename_i found hsingle
    split at h
    · cases h
    cases h
    rw [singleQueryValue_ok hsingle]
    rfl

theorem databaseAliases_ok {keys : List Bytes} {aliases aliases' : Nat}
    (h : databaseAliases query keys aliases database = .ok (aliases', database')) :
    database' = keys.foldl (fun current key => (queryValue query key).getD current) database := by
  induction keys generalizing aliases database with
  | nil =>
    cases h
    rfl
  | cons key keys ih =>
    unfold databaseAliases at h
    split at h
    · cases h
    · rename_i hsingle
      rw [ih h, List.foldl_cons, singleQueryValue_ok hsingle]
      rfl
    · rename_i value hsingle
      split at h
      · cases h
      · rw [ih h, List.foldl_cons, singleQueryValue_ok hsingle]
        rfl

theorem urlTarget_ok {host port host' port' : Bytes}
    (h : urlTarget scheme query host port database = .ok (host', port', database')) :
    host' = effectiveField scheme query (bytes "host") host ∧
      port' = effectiveField scheme query (bytes "port") port ∧
      database' = effectiveField scheme query (bytes "database")
        (effectiveField scheme query (bytes "dbname") database) := by
  cases scheme with
  | mysql =>
    cases h
    exact ⟨rfl, rfl, rfl⟩
  | postgres =>
    unfold urlTarget postgresOverrides at h
    dsimp only at h
    split at h
    · cases h
    rename_i hhost
    split at h
    · cases h
    rename_i hport
    split at h
    · cases h
    rename_i hdatabase
    split at h
    · cases h
    · cases h
      exact ⟨(queryOverride_ok hhost).symm, (queryOverride_ok hport).symm, databaseAliases_ok hdatabase⟩

theorem databaseFromEscapedPath_ok {path : Bytes}
    (h : databaseFromEscapedPath path = .ok database) :
    (Go.unescape false (Go.trimFirst 0x2f path)).getD [] = database := by
  unfold databaseFromEscapedPath at h
  dsimp only at h
  split at h
  · rename_i hempty
    cases h
    rw [hempty]
    rfl
  split at h
  · cases h
  split at h
  · cases h
  rename_i decoded hdecoded
  split at h
  · cases h
  cases h
  rw [hdecoded]
  rfl

theorem parsePort_decimal {n : Nat} (hpos : 0 < n) (hlt : n < 2 ^ 16) :
    Go.parsePort (Go.decimal n) = some n := by
  rw [Go.parsePort, Go.parseDigits_decimal]
  exact Option.filter_some_pos (by simpa [hpos] using hlt)

theorem Scheme.defaultPort_bounds (scheme : Scheme) :
    0 < scheme.defaultPort ∧ scheme.defaultPort < 2 ^ 16 := by
  cases scheme <;> decide

section Accepted

variable {lib : Library}

theorem canonicalDatabaseRoute_ok {host port : Bytes}
    (h : canonicalDatabaseRoute lib host port (Go.decimal scheme.defaultPort) = .ok route) :
    ∃ endpoint, hostEndpoint lib host port scheme.defaultPort = some endpoint ∧
      route = endpoint.route scheme.defaultPort := by
  have hport : Go.parsePort (if port = [] then Go.decimal scheme.defaultPort else port) =
      if port = [] then some scheme.defaultPort else Go.parsePort port := by
    split
    · exact parsePort_decimal scheme.defaultPort_bounds.1 scheme.defaultPort_bounds.2
    · rfl
  unfold canonicalDatabaseRoute at h
  unfold hostEndpoint
  dsimp only at h ⊢
  rw [hport] at h
  split at h
  · cases h
  split at h
  · cases h
  rename_i number hnumber
  split at h
  · rename_i rooted
    rw [dif_pos rooted]
    split at h
    · cases h
    · cases h
      exact ⟨_, rfl, rfl⟩
  · rename_i hroot
    rw [dif_neg hroot]
    split at h
    · cases h
    rename_i name hname
    cases h
    exact ⟨.host name number, by rw [hname]; rfl, rfl⟩

theorem dsnEndpoint_ok {network address : Bytes} (h : dsnEndpoint lib network address = .ok route) :
    ∃ endpoint, networkEndpoint lib network address = some endpoint ∧
      route = endpoint.route Scheme.mysql.defaultPort := by
  have hdefault : bytes "3306" = Go.decimal Scheme.mysql.defaultPort := by decide +kernel
  unfold dsnEndpoint at h
  unfold networkEndpoint
  split at h
  · rename_i htcp
    rw [if_pos htcp]
    unfold canonicalTCPAddress at h
    split at h
    · cases h
    split at h
    · cases h
    rename_i name hname
    split at h
    · rename_i hport
      cases h
      rw [if_pos hport]
      exact ⟨.host name _, by rw [hname], rfl⟩
    · rename_i hport
      rw [if_neg hport]
      split at h
      · cases h
      rename_i number hnumber
      cases h
      exact ⟨.host name number, by rw [hname, hnumber], rfl⟩
  · rename_i htcp
    rw [if_neg htcp]
    split at h
    · split at h
      · cases h
      rename_i hsocket
      cases h
      rw [not_or, not_not] at hsocket
      rw [dif_pos hsocket.1]
      exact ⟨_, rfl, rfl⟩
    · cases h

theorem sessionUser_ok {user : Option Bytes} {username : Bytes}
    (h : sessionUser scheme user query = .ok username) :
    username = effectiveField scheme query (bytes "user") (user.getD []) := by
  cases scheme with
  | postgres =>
    unfold sessionUser at h
    dsimp only at h
    split at h
    · cases h
    · rename_i hsingle
      cases h
      rw [effectiveField, singleQueryValue_ok hsingle]
      rfl
    · rename_i hsingle
      cases h
      rw [effectiveField, singleQueryValue_ok hsingle]
      rfl
  | mysql =>
    unfold sessionUser at h
    dsimp only at h
    split at h
    · cases h
    · cases h
      rfl

theorem runtimeParameters_ok {entries : List (Bytes × List Bytes)}
    {parameters : List (Bytes × Bytes)} (h : runtimeParameters scheme entries = .ok parameters) :
    List.Sublist (parameters.map Prod.fst) (entries.map Prod.fst) ∧ ∀ key, parameters.lookup key =
        if executionContextKeyRepresentedElsewhere scheme key ∨ key ∈ connectionOnlyIdentityKeys scheme then
          none
        else (entries.lookup key).bind List.head? := by
  induction entries generalizing parameters with
  | nil =>
    cases h
    exact ⟨.refl _, fun key => by simp⟩
  | cons entry entries ih =>
    obtain ⟨key', values⟩ := entry
    -- A key that is left out is one that the session does not have.
    have hskip {parameters : List (Bytes × Bytes)}
        (hout : executionContextKeyRepresentedElsewhere scheme key' = true ∨
          key' ∈ connectionOnlyIdentityKeys scheme)
        (h : runtimeParameters scheme entries = .ok parameters) :
        List.Sublist (parameters.map Prod.fst) (((key', values) :: entries).map Prod.fst) ∧
          ∀ key, parameters.lookup key =
            if executionContextKeyRepresentedElsewhere scheme key ∨
              key ∈ connectionOnlyIdentityKeys scheme then none
            else (((key', values) :: entries).lookup key).bind List.head? := by
      obtain ⟨hsub, hlookup⟩ := ih h
      refine ⟨hsub.cons _, fun key => ?_⟩
      rw [hlookup key]
      by_cases hkey : key = key'
      · subst hkey
        rw [if_pos hout, if_pos hout]
      · rw [List.lookup_cons, beq_false_of_ne hkey]
    unfold runtimeParameters at h
    split at h
    · rename_i hout
      exact hskip (.inl hout) h
    split at h
    · rename_i hout
      exact hskip (.inr hout) h
    rename_i hin hin'
    split at h
    · split at h
      · cases h
      rename_i rest hrest
      cases h
      obtain ⟨hsub, hlookup⟩ := ih hrest
      refine ⟨hsub.cons_cons _, fun key => ?_⟩
      rw [List.lookup_cons, List.lookup_cons, hlookup key]
      by_cases hkey : key = key'
      · subst hkey
        simp [hin, hin']
      · rw [beq_false_of_ne hkey]
    · cases h

theorem databaseExecutionContext_ok {user : Option Bytes}
    {executionContext : Bytes} (h : databaseExecutionContext scheme user query = .ok executionContext) :
    ∃ parameters : List (Bytes × Bytes), (parameters.map Prod.fst).Nodup ∧
      (∀ key, parameters.lookup key = sessionParameters scheme query key) ∧
      executionContext = bytes "user=" ++
        Go.queryEscape (effectiveField scheme query (bytes "user") (user.getD [])) ++ bytes "&" ++
          Go.encode parameters := by
  unfold databaseExecutionContext at h
  split at h
  · cases h
  rename_i username husername
  split at h
  · cases h
  rename_i parameters hparameters
  cases h
  obtain ⟨hsub, hlookup⟩ := runtimeParameters_ok hparameters
  exact ⟨parameters, query.nodup.sublist hsub, hlookup, by rw [sessionUser_ok husername]⟩

theorem effectiveDatabaseTarget_ok {parsed : URL} {executionContext : Bytes}
    (h : effectiveDatabaseTarget lib parsed = .ok (scheme, route, database, executionContext)) :
    ∃ identity, identifyURL lib parsed = some identity ∧
      Renders identity (identityText scheme route database executionContext) := by
  unfold effectiveDatabaseTarget at h
  split at h
  · cases h
  rename_i scheme' hscheme
  split at h
  · cases h
  split at h
  · cases h
  split at h
  · cases h
  rename_i pathDatabase hpath
  split at h
  · cases h
  rename_i query hquery
  split at h
  · cases h
  rename_i host port database' htarget
  split at h
  · cases h
  split at h
  · cases h
  rename_i route' hroute
  split at h
  · cases h
  rename_i context hcontext
  cases h
  obtain ⟨rfl, rfl, rfl⟩ := urlTarget_ok htarget
  obtain ⟨endpoint, hendpoint, rfl⟩ := canonicalDatabaseRoute_ok hroute
  obtain ⟨parameters, hnodup, hlookup, rfl⟩ := databaseExecutionContext_ok hcontext
  refine ⟨{
    scheme, endpoint
    database := effectiveDatabase scheme query parsed.escapedPath
    username := effectiveField scheme query (bytes "user") (parsed.user.getD [])
    session := sessionParameters scheme query }, ?_, parameters, hnodup, hlookup, ?_⟩
  · unfold identifyURL
    rw [hscheme, hquery]
    dsimp only
    rw [hendpoint]
    rfl
  · rw [effectiveDatabase, databaseFromEscapedPath_ok hpath]
    rfl

theorem mysqlNetworkTarget_ok {Digest : Type} {sha256 : Bytes → Digest} {raw : Bytes} {d : Digest}
    (h : mysqlNetworkTargetIdentityDigest lib sha256 raw = .ok d) :
    ∃ identity text, identifyDSN lib raw = some identity ∧ Renders identity text ∧ d = sha256 text := by
  unfold mysqlNetworkTargetIdentityDigest at h
  split at h
  · cases h
  rename_i parsed hparsed
  split at h
  · cases h
  rename_i query hquery
  split at h
  · cases h
  rename_i context hcontext
  cases h
  unfold parseMySQLNetworkDSN at hparsed
  split at hparsed
  · cases hparsed
  rename_i dsn hdsn
  split at hparsed
  · cases hparsed
  rename_i username password scope huser
  split at hparsed
  · cases hparsed
  rename_i network address escapedDatabase queryText hparts
  split at hparsed
  · cases hparsed
  rename_i database hdatabase
  split at hparsed
  · cases hparsed
  rename_i endpoint hendpoint
  cases hparsed
  obtain ⟨place, hplace, rfl⟩ := dsnEndpoint_ok hendpoint
  obtain ⟨parameters, hnodup, hlookup, rfl⟩ := databaseExecutionContext_ok hcontext
  have hname : Go.unescape false escapedDatabase = some database := by
    unfold dsnDatabase at hdatabase
    split at hdatabase
    · cases hdatabase
    split at hdatabase
    · cases hdatabase
    rename_i decoded hdecoded
    split at hdatabase
    · cases hdatabase
    · cases hdatabase
      exact hdecoded
  refine ⟨{
    scheme := .mysql
    endpoint := place
    database, username
    session := sessionParameters .mysql query }, _, ?_, ⟨parameters, hnodup, hlookup, rfl⟩, rfl⟩
  unfold identifyDSN
  rw [hdsn]
  dsimp only
  rw [huser]
  dsimp only
  rw [hparts]
  dsimp only
  rw [hplace, hname, hquery]

theorem targetIdentityDigest_ok {Digest : Type} {sha256 : Bytes → Digest} {raw : Bytes} {d : Digest}
    (h : targetIdentityDigest lib sha256 raw = .ok d) :
    ∃ identity text, identify lib raw = some identity ∧ Renders identity text ∧ d = sha256 text := by
  unfold targetIdentityDigest at h
  unfold identify
  split at h
  · cases h
  split at h
  · rename_i hdsn
    rw [if_pos hdsn]
    exact mysqlNetworkTarget_ok h
  rename_i hdsn
  rw [if_neg hdsn]
  split at h
  · cases h
  rename_i parsed hparsed
  split at h
  · cases h
  split at h
  · cases h
  rename_i htarget
  cases h
  obtain ⟨identity, hidentity, hrenders⟩ := effectiveDatabaseTarget_ok htarget
  exact ⟨identity, _, by rw [hparsed]; exact hidentity, hrenders, rfl⟩

end Accepted

/-! ## Digests tell identities apart -/

theorem lookup_eq_iff_mem {parameters : List (Bytes × Bytes)} (hnodup : (parameters.map Prod.fst).Nodup)
    {value : Bytes} : parameters.lookup key = some value ↔ (key, value) ∈ parameters := by
  induction parameters with
  | nil => simp
  | cons pair parameters ih =>
    obtain ⟨key', value'⟩ := pair
    obtain ⟨hnew, hnodup'⟩ := List.nodup_cons.1 hnodup
    rw [List.lookup_cons]
    by_cases hkey : key = key'
    · subst hkey
      have hout : (key, value) ∉ parameters := fun hm => hnew (List.mem_map.2 ⟨_, hm, rfl⟩)
      simp [hout, eq_comm]
    · rw [beq_false_of_ne hkey]
      simp [hkey, ih hnodup']

theorem perm_iff_lookup {a b : List (Bytes × Bytes)} (ha : (a.map Prod.fst).Nodup)
    (hb : (b.map Prod.fst).Nodup) : a.Perm b ↔ ∀ key, a.lookup key = b.lookup key := by
  rw [List.perm_ext_iff_of_nodup (.of_map _ ha) (.of_map _ hb)]
  constructor
  · intro h key
    refine Option.ext fun value => ?_
    rw [lookup_eq_iff_mem ha, lookup_eq_iff_mem hb, h]
  · rintro h ⟨key, value⟩
    rw [← lookup_eq_iff_mem ha, ← lookup_eq_iff_mem hb, h]

theorem executionContext_eq_iff {username username' : Bytes} {a b : List (Bytes × Bytes)}
    (ha : (a.map Prod.fst).Nodup) (hb : (b.map Prod.fst).Nodup) :
    bytes "user=" ++ Go.queryEscape username ++ bytes "&" ++ Go.encode a =
        bytes "user=" ++ Go.queryEscape username' ++ bytes "&" ++ Go.encode b ↔
      username = username' ∧ ∀ key, a.lookup key = b.lookup key := by
  rw [← perm_iff_lookup ha hb, ← Go.encode_eq_iff ha]
  have hand text : 0x26 ∉ Go.queryEscape text := Go.notMem_queryEscape (by decide) text
  constructor
  · intro h
    simp only [List.append_assoc] at h
    obtain ⟨huser, hparameters⟩ := Scan.append_cons_inj_front (hand _) (hand _) (List.append_cancel_left h)
    exact ⟨Go.queryEscape_inj huser, hparameters⟩
  · rintro ⟨rfl, hparameters⟩
    rw [hparameters]

theorem nul_notMem_executionContext (username : Bytes) (parameters : List (Bytes × Bytes)) :
    (0 : UInt8) ∉ bytes "user=" ++ Go.queryEscape username ++ bytes "&" ++ Go.encode parameters := by
  intro hm
  rcases List.mem_append.1 hm with hm | hm
  · rcases List.mem_append.1 hm with hm | hm
    · rcases List.mem_append.1 hm with hm | hm
      · exact absurd hm (by decide)
      · exact Go.notMem_queryEscape (by decide) _ hm
    · exact absurd hm (by decide)
  · exact Go.notMem_encode (by decide) (by decide) (by decide) _ hm

theorem Scheme.name_inj {a b : Scheme} (h : a.name = b.name) : a = b := by
  cases a <;> cases b <;> first | rfl | exact absurd h (by decide)

/-- The fields of two texts, the route and the database taken together. -/
theorem identityText_eq_iff {scheme' : Scheme} {route' context context' : Bytes}
    (h : (0 : UInt8) ∉ context) (h' : (0 : UInt8) ∉ context') :
    identityText scheme route database context = identityText scheme' route' database' context' ↔
      scheme = scheme' ∧ route ++ 0 :: database = route' ++ 0 :: database' ∧ context = context' := by
  have hname (scheme : Scheme) : 0 ∉ scheme.name := by cases scheme <;> decide
  unfold identityText
  constructor
  · intro heq
    obtain ⟨hscheme, hrest⟩ := Scan.append_cons_inj_front (hname _) (hname _) heq
    rw [← List.cons_append, ← List.cons_append, ← List.append_assoc, ← List.append_assoc] at hrest
    obtain ⟨hfields, hcontext⟩ := Scan.append_cons_inj_back h h' hrest
    exact ⟨Scheme.name_inj hscheme, hfields, hcontext⟩
  · rintro ⟨rfl, hfields, rfl⟩
    have hsplit (route database) :
        route ++ 0 :: (database ++ 0 :: context) = (route ++ 0 :: database) ++ 0 :: context := by simp
    rw [hsplit route database, hsplit route' database', hfields]

/-- Two fields with a separator between them are the same two fields, unless a separator inside one of
them is taken for it. -/
theorem append_nul_eq_iff {a b x y : Bytes} : a ++ 0 :: x = b ++ 0 :: y ↔ a = b ∧ x = y ∨
      ∃ middle, b = a ++ 0 :: middle ∧ x = middle ++ 0 :: y ∨ a = b ++ 0 :: middle ∧ y = middle ++ 0 :: x := by
  constructor
  · intro h
    rcases List.append_eq_append_iff.1 h with ⟨front, rfl, hrest⟩ | ⟨front, rfl, hrest⟩
    · cases front with
      | nil => exact .inl ⟨(List.append_nil _).symm, (List.cons.inj hrest).2⟩
      | cons c middle =>
        obtain ⟨rfl, rfl⟩ := List.cons.inj hrest
        exact .inr ⟨middle, .inl ⟨rfl, rfl⟩⟩
    · cases front with
      | nil => exact .inl ⟨List.append_nil _, (List.cons.inj hrest).2.symm⟩
      | cons c middle =>
        obtain ⟨rfl, rfl⟩ := List.cons.inj hrest
        exact .inr ⟨middle, .inr ⟨rfl, rfl⟩⟩
  · rintro (⟨rfl, rfl⟩ | ⟨middle, ⟨rfl, rfl⟩ | ⟨rfl, rfl⟩⟩) <;> simp

/-- Two identities have the same bytes if they are the same or spliced. -/
theorem renders_eq_iff {a b : Identity} {text text' : Bytes} (ha : Renders a text) (hb : Renders b text') :
    text = text' ↔ a = b ∨ Splice a b := by
  obtain ⟨parameters, hnodup, hsession, rfl⟩ := ha
  obtain ⟨parameters', hnodup', hsession', rfl⟩ := hb
  rw [identityText_eq_iff (nul_notMem_executionContext _ _) (nul_notMem_executionContext _ _),
    executionContext_eq_iff hnodup hnodup', append_nul_eq_iff]
  have hsessions : (∀ key, parameters.lookup key = parameters'.lookup key) ↔ a.session = b.session := by
    rw [funext_iff]
    exact forall_congr' fun key => by rw [hsession, hsession']
  rw [hsessions]
  constructor
  · rintro ⟨hscheme, ⟨hroute, hdatabase⟩ | hsplice, husername, hsession⟩
    · left
      obtain ⟨scheme', endpoint', database', username', session'⟩ := b
      cases hscheme
      cases Endpoint.route_inj hroute
      cases hdatabase
      cases husername
      cases hsession
      rfl
    · exact .inr ⟨hscheme, husername, hsession, hsplice⟩
  · rintro (rfl | ⟨hscheme, husername, hsession, hsplice⟩)
    · exact ⟨rfl, .inl ⟨rfl, rfl⟩, rfl, rfl⟩
    · exact ⟨hscheme, .inr hsplice, husername, hsession⟩

theorem ne_of_splice {a b : Identity} (h : Splice a b) : a ≠ b := by
  rintro rfl
  obtain ⟨-, -, -, middle, ⟨hroute, -⟩ | ⟨hroute, -⟩⟩ := h <;>
    exact absurd (congrArg List.length hroute) (by simp)

/-- **Digests and identities.** Inputs that name one identity have one digest. Digests tell the
identities of two accepted inputs apart exactly if these are not spliced. -/
theorem target_identity_iff {lib : Library} {Digest : Type} {sha256 : Bytes → Digest}
    (hsha : Function.Injective sha256) {raw raw' : Bytes} {d d' : Digest}
    (h : targetIdentityDigest lib sha256 raw = .ok d) (h' : targetIdentityDigest lib sha256 raw' = .ok d') :
    ∃ a b, identify lib raw = some a ∧ identify lib raw' = some b ∧ (a = b → d = d') ∧
      ((d = d' ↔ a = b) ↔ ¬Splice a b) := by
  obtain ⟨a, text, ha, hrenders, rfl⟩ := targetIdentityDigest_ok h
  obtain ⟨b, text', hb, hrenders', rfl⟩ := targetIdentityDigest_ok h'
  have hdigests : sha256 text = sha256 text' ↔ a = b ∨ Splice a b :=
    hsha.eq_iff.trans (renders_eq_iff hrenders hrenders')
  refine ⟨a, b, ha, hb, fun hab => hdigests.2 (.inl hab), ?_⟩
  rw [hdigests]
  constructor
  · intro htells hsplice
    exact ne_of_splice hsplice (htells.1 (.inr hsplice))
  · intro hnot
    exact or_iff_left hnot

/-- `url.Parse` of a URL with a path and without escapes in front of its query. -/
def parsePlain (raw : Bytes) : Option URL := do
  let (scheme, rest) ← Scan.cut (bytes "://") raw
  let (front, rawQuery) := (Scan.cut (bytes "?") rest).getD (rest, [])
  let (authority, path) ← Scan.cut (bytes "/") front
  let (userInfo, host) := ((Go.cutLast 0x40 authority).map fun (u, h) => (some u, h)).getD (none, authority)
  let (hostname, port) := (Go.cutLast 0x3a host).getD (host, [])
  pure {
    scheme, hostname, port, rawQuery
    user := userInfo.map fun info => info.takeWhile (· ≠ 0x3a)
    escapedPath := 0x2f :: path }

/-- The library on ASCII texts that hold no addresses. -/
def plainLibrary : Library where
  parse := parsePlain
  parseIP _ := none
  toLower text := text.map fun c => if 0x41 ≤ c && c ≤ 0x5a then c + 0x20 else c
  trimSpace text := (text.dropWhile (· = Go.space)).rdropWhile (· = Go.space)

/-- URLs with other passwords, spellings and default ports have one digest. -/
theorem target_identity_iff_password :
    let raw := bytes "postgres://app:one@db/orders?search_path=x"
    let raw' := bytes "PGX://app:two@DB:5432/orders?password=y&search_path=x"
    let text := bytes "postgres\x00db\x00orders\x00user=app&search_path=x"
    targetIdentityDigest plainLibrary id raw = .ok text ∧
      targetIdentityDigest plainLibrary id raw' = .ok text ∧
      ∃ a b, identify plainLibrary raw = some a ∧ identify plainLibrary raw' = some b ∧
        (a = b ↔ ¬Splice a b) := by
  intro raw raw' text
  have h : targetIdentityDigest plainLibrary id raw = .ok text := by decide +kernel
  have h' : targetIdentityDigest plainLibrary id raw' = .ok text := by decide +kernel
  obtain ⟨a, b, ha, hb, -, hiff⟩ := target_identity_iff (fun _ _ h => h) h h'
  exact ⟨h, h', a, b, ha, hb, by simpa using hiff⟩

/-- Two routes to two databases with one digest, whatever the hash. -/
theorem target_identity_splice :
    ∃ text, targetIdentityDigest plainLibrary id (bytes "postgres://x/d?host=a%00b") = .ok text ∧
      targetIdentityDigest plainLibrary id (bytes "postgres://a/x?dbname=b%00d") = .ok text ∧
      (identify plainLibrary (bytes "postgres://x/d?host=a%00b")).map (fun i => (i.endpoint, i.database)) =
        some (.host (bytes "a\x00b") 5432, bytes "d") ∧
      (identify plainLibrary (bytes "postgres://a/x?dbname=b%00d")).map (fun i => (i.endpoint, i.database)) =
        some (.host (bytes "a") 5432, bytes "b\x00d") := by
  refine ⟨bytes "postgres\x00a\x00b\x00d\x00user=&", ?_⟩
  decide +kernel

end Ptah.Runner
