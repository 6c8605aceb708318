import NextApi.Cache.Snapshot
import NextApi.Error
import NextApi.Stream.Mirror

/-!
# The tokens of a Codex upstream

The credential of a Codex upstream has an access token for some time, and a refresh token that
gives a new credential once. It is in a column of the row of the upstream, and in the snapshot.

A request takes the credential of the row it holds, and refreshes one that is about to expire
(`ensureToken`'s steps): it waits for the lock of the upstream, looks into the snapshot once more,
presents the refresh token, stores the new credential and reloads the snapshot. An administrator
refreshes the credential of the snapshot at once, without the lock. Besides, whoever changes the
tables reloads the snapshot.

A reload reads the column with the other columns of `upstreams`, and later replaces the snapshot:
the column and its copy in the snapshot are a store and its copy.
-/

set_option autoImplicit false

namespace NextApi.Upstream.Token

open Json Cache

/-! ### The answer of the provider -/

/-- What the texts of tokens say about them. -/
class Jwt where
  accountId : String → Option String
  exp : String → Option ℤ

/-- A member that is a text. -/
def textMember (body : Value) (name : String) : Option String := (body.get? name).bind Value.asStr

/-- The credential that the provider's answer gives. -/
def refreshedCredential [Jwt] (oauth : CodexOAuth) (body : Value) (now : ℤ) :
    Except String CodexOAuth :=
  match textMember body "access_token" with
  | none => .error "刷新响应缺少 access_token"
  | some accessToken => .ok
      { accessToken := accessToken
        refreshToken :=
          ((textMember body "refresh_token").filter fun s ↦ !s.isEmpty).getD oauth.refreshToken
        accountId := ((textMember body "id_token").bind Jwt.accountId).getD oauth.accountId
        expiresAt := ((((body.get? "expires_in").bind Value.asI64).map fun secs ↦ now + secs).orElse
          fun _ ↦ Jwt.exp accessToken).getD (now + 3600) }

/-- A provider that issues a new refresh token with every successful refresh, and accepts only the
last one. -/
structure Provider where
  first : CodexOAuth
  /-- The refresh token after some refreshes. -/
  token : ℕ → String
  /-- The answer to each of them. -/
  answer : ℕ → Value
  /-- The status and the text of a refusal. -/
  refusal : ℕ × String
  token_zero : token 0 = first.refreshToken
  issues (n : ℕ) : textMember (answer n) "refresh_token" = some (token (n + 1))
  present (n : ℕ) : (token (n + 1)).isEmpty = false
  access (n : ℕ) : ∃ t, textMember (answer n) "access_token" = some t
  distinct {m n : ℕ} : token m = token n → m = n

/-- A successful refresh gives a credential with the new refresh token. -/
theorem Provider.refreshed [Jwt] (P : Provider) (n : ℕ) (oauth : CodexOAuth) (now : ℤ) :
    ∃ next, refreshedCredential oauth (P.answer n) now = .ok next ∧
      next.refreshToken = P.token (n + 1) := by
  obtain ⟨t, ht⟩ := P.access n
  rw [refreshedCredential, ht]
  refine ⟨_, rfl, ?_⟩
  dsimp only
  rw [P.issues, Option.filter_some, if_pos (by rw [P.present]; rfl), Option.getD_some]

/-! ### Calls -/

/-- The tokens that a call returns with, or its error. -/
abbrev Outcome := Except String (String × String)

/-- Where a call is. -/
inductive Stage
  /-- A request with the credential of the row that it holds. -/
  | checking (held : Option CodexOAuth)
  | waiting
  /-- It has the lock. -/
  | locked
  /-- It is about to present the refresh token of the credential. -/
  | refreshing (oauth : CodexOAuth)
  /-- It is about to store a new credential. -/
  | storing (next : CodexOAuth)
  /-- It reloads the snapshot, after it has stored a credential or for another reason. -/
  | reloading (stored : Option CodexOAuth)
  | done (outcome : Option Outcome)

/-- A credential has been taken from the snapshot for a refresh, and the new one is not yet
stored. -/
def Stage.Busy : Stage → Prop
  | .refreshing _ | .storing _ => True
  | _ => False

/-- The seconds before it expires in which an access token is refreshed. -/
def refreshSkewSecs : ℤ := 60

/-- The access token need not be refreshed. -/
def current (oauth : CodexOAuth) (now : ℤ) : Bool := decide (refreshSkewSecs < oauth.expiresAt - now)

def tokens (oauth : CodexOAuth) : String × String := (oauth.accessToken, oauth.accountId)

/-- The column of the credential: a store with one part. -/
abbrev Column : Unit → Type := fun _ ↦ Option CodexOAuth

/-- `UPDATE upstreams SET oauth_enc = …`. -/
def setCredential (next : CodexOAuth) : Mirror.Change Column := ⟨[()], fun _ _ ↦ some next⟩

/-- A change of something else. -/
def noChange : Mirror.Change Column := ⟨[], fun column ↦ column⟩

structure State where
  /-- The column with its versions, its reloads and its copy in the snapshot. -/
  mirror : Mirror.State Column
  calls : Table ℕ Stage := ∅
  lock : Option ℕ := none
  /-- The number of successful refreshes. -/
  refreshes : ℕ := 0
  /-- The refresh tokens presented so far, with whether they were accepted. -/
  presented : List (String × Bool) := []
  /-- The newest credential, and those before it. -/
  newest : CodexOAuth
  earlier : List CodexOAuth := []

inductive Action
  /-- A request takes the upstream out of the snapshot. -/
  | ensureToken (c : ℕ)
  | refreshOauth (c : ℕ)
  /-- A change of the tables that leaves the credential as it is. -/
  | reload (c : ℕ)
  | check (c : ℕ) (now : ℤ)
  | acquire (c : ℕ)
  | recheck (c : ℕ) (now : ℤ)
  | exchange (c : ℕ) (now : ℤ)
  | store (c : ℕ)
  | read (c : ℕ)
  | swap (c : ℕ)

namespace State

/-- The credential in the snapshot. -/
def shown (s : State) : Option CodexOAuth := (s.mirror.copy ()).2

/-- The credential in the database. -/
def stored (s : State) : Option CodexOAuth := s.mirror.store ()

def move (s : State) (c : ℕ) (stage : Stage) : State := { s with calls := s.calls.insert c stage }

/-- Returns, and gives the lock back. -/
def finish (s : State) (c : ℕ) (outcome : Option Outcome) : State :=
  { s with
    calls := s.calls.insert c (.done outcome)
    lock := if s.lock = some c then none else s.lock }

/-- The error of a refused refresh. -/
def refused (P : Provider) : String :=
  "token 刷新被拒 HTTP " ++ toString P.refusal.1 ++ ": " ++ (P.refusal.2.take 200).toString

/-- A refresh token is presented. -/
def present [Jwt] (P : Provider) (s : State) (c : ℕ) (oauth : CodexOAuth) (now : ℤ) : State :=
  if oauth.refreshToken = P.token s.refreshes then
    let accepted := { s with
      refreshes := s.refreshes + 1
      presented := s.presented ++ [(oauth.refreshToken, true)] }
    match refreshedCredential oauth (P.answer s.refreshes) now with
    | .ok next =>
      { accepted.move c (.storing next) with newest := next, earlier := s.newest :: s.earlier }
    | .error e => accepted.finish c (some (.error e))
  else
    { s.finish c (some (.error (refused P))) with
      presented := s.presented ++ [(oauth.refreshToken, false)] }

def step [Jwt] (P : Provider) (s : State) : Action → State
  | .ensureToken c =>
    match s.calls.lookup c with
    | none => s.move c (.checking s.shown)
    | some _ => s
  | .refreshOauth c =>
    match s.calls.lookup c, s.shown with
    | none, some oauth => s.move c (.refreshing oauth)
    | none, none => s.finish c (some (.error "该渠道未配置 OAuth 凭证"))
    | some _, _ => s
  | .reload c =>
    match s.calls.lookup c with
    | none => { s.move c (.reloading none) with mirror := s.mirror.commit [()] c noChange }
    | some _ => s
  | .check c now =>
    match s.calls.lookup c with
    | some (.checking none) =>
      s.finish c (some (.error "Codex 渠道未配置 OAuth 凭证（请粘贴 auth.json）"))
    | some (.checking (some held)) =>
      if current held now then s.finish c (some (.ok (tokens held))) else s.move c .waiting
    | _ => s
  | .acquire c =>
    match s.calls.lookup c, s.lock with
    | some .waiting, none => { s.move c .locked with lock := some c }
    | _, _ => s
  | .recheck c now =>
    match s.calls.lookup c, s.shown with
    | some .locked, none => s.finish c (some (.error "Codex 渠道未配置 OAuth 凭证"))
    | some .locked, some oauth =>
      if current oauth now then s.finish c (some (.ok (tokens oauth)))
      else s.move c (.refreshing oauth)
    | _, _ => s
  | .exchange c now =>
    match s.calls.lookup c with
    | some (.refreshing oauth) => s.present P c oauth now
    | _ => s
  | .store c =>
    match s.calls.lookup c with
    | some (.storing next) =>
      { s.move c (.reloading (some next)) with
        mirror := s.mirror.commit [()] c (setCredential next) }
    | _ => s
  | .read c => { s with mirror := s.mirror.step [()] (.read c) }
  | .swap c =>
    match s.calls.lookup c, s.mirror.writers.lookup c with
    | some (.reloading next), some x =>
      if x.rest.isEmpty then
        { s.finish c (next.map fun o ↦ .ok (tokens o)) with mirror := s.mirror.swap c x }
      else s
    | _, _ => s

def run [Jwt] (P : Provider) (s : State) (actions : List Action) : State :=
  Transition.run (step P) s actions

/-- The upstream as it was set up. -/
def start (P : Provider) : State where
  mirror := Mirror.State.start fun _ ↦ some P.first
  newest := P.first

end State

end NextApi.Upstream.Token
