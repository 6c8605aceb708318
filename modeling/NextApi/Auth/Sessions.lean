import NextApi.Auth.TwoFactor

/-!
# Sessions

A login reads the row of the administrator, checks the password and the code, takes the step of the
code, and then signs a token with the session version that it has read. A token is accepted while
it has not expired and its session version is that of the row. Changing the password, enabling and
disabling the second factor count the session version up.

Any number of requests run at the same time, a statement of one after a statement of another.
Whatever their order, a token that is accepted belongs to a login with the password of now, and with
a code if the second factor is on now (`accepted_current`); when the session version goes up, no
login that has read the row before gives an accepted token any more (`unread_of_revoked`). The
second factor goes off by disabling it, and by a setup that has read the row before it was enabled
(`secondFactor_off`).

Tokens are forged by nobody: those that verify are those that were signed. Limits on the rate of
requests, and everything that can fail on the way, are a request breaking off. Session versions stay
within 32 bits.
-/

set_option autoImplicit false

namespace NextApi.Auth.Sessions

/-! ### Tokens -/

structure Claims where
  sub : String
  exp : ℕ
  iat : ℕ
  sessionVersion : ℤ
  deriving DecidableEq

def maxLoginExpireMinutes : ℕ := 43200

/-- `issue`, at a time in seconds. -/
def issue (username : String) (sessionVersion : ℤ) (ttlSecs now : ℕ) : Claims where
  sub := username
  exp := now + ttlSecs
  iat := now
  sessionVersion := sessionVersion

/-- The time that a login is good for, of the setting in minutes. -/
def ttlSecs (minutes : ℕ) : ℕ := max 1 (min minutes maxLoginExpireMinutes) * 60

/-- The minute that the package adds to the end of a token. -/
def leeway : ℕ := 60

/-- `verify_claims`. -/
def verifyClaims (signed : List Claims) (now : ℕ) (token : Claims) : Bool :=
  decide (token ∈ signed) && decide (now ≤ token.exp + leeway)

/-- `current_username`. -/
def currentUsername (users : Table String AdminUser) (signed : List Claims) (now : ℕ)
    (token : Claims) : Except ApiError String :=
  if verifyClaims signed now token then
    match users.lookup token.sub with
    | some row =>
      if row.sessionVersion = token.sessionVersion then .ok token.sub else .error .unauthorized
    | none => .error .unauthorized
  else .error .unauthorized

/-! ### Requests -/

inductive Op where
  | login (username password : String) (totpCode : Option String)
  | changePassword (token : Claims) (oldPassword newPassword : String)
  | totpSetup (token : Claims) (password : String)
  | totpEnable (token : Claims) (code : String)
  | totpDisable (token : Claims) (password code : String)

/-- Where a request is. -/
inductive Point where
  /-- Before the token is checked. -/
  | start
  | reading (username : String)
  /-- Before the statement that writes; the row has been read and checked. -/
  | writing (username : String) (row : AdminUser) (step : Option ℤ)
  /-- Before a token is signed. -/
  | issuing (username : String) (row : AdminUser) (step : Option ℤ)
  | done (result : Except ApiError Unit)
  | broken

/-- The token that a request comes with; a login has none. -/
def Op.token : Op → Option Claims
  | .login _ _ _ => none
  | .changePassword token _ _ | .totpSetup token _ | .totpEnable token _
  | .totpDisable token _ _ => some token

def Op.first : Op → Point
  | .login username _ _ => .reading username
  | _ => .start

/-- What is checked before the row is read. -/
def Op.precheck : Op → Except ApiError Unit
  | .changePassword _ oldPassword newPassword =>
    if newPassword.length < 8 then .error (.badRequest "新密码至少 8 个字符")
    else if newPassword = oldPassword then .error (.badRequest "新密码不能与原密码相同")
    else .ok ()
  | _ => .ok ()

section Model

variable [Crypto]

/-- What is checked against the row that was read, and the step of the code. -/
def Op.check (row : AdminUser) (now : ℕ) : Op → Except ApiError (Option ℤ)
  | .login _ password totpCode => (Operation.login password totpCode).check row now
  | .changePassword _ oldPassword _ =>
    if !Crypto.verifyPassword row.passwordHash oldPassword then
      .error (.badRequest "原密码不正确")
    else .ok none
  | .totpSetup _ password =>
    if !Crypto.verifyPassword row.passwordHash password then .error (.badRequest "密码不正确")
    else if row.totpEnabled then .error (.conflict "TOTP 已启用，请先禁用后再重新设置")
    else .ok none
  | .totpEnable _ code => (Operation.enable code).check row now
  | .totpDisable _ password code => (Operation.disable password code).check row now

omit [Crypto] in
/-- The statement that writes the row: the new hash and the new secret come from outside. -/
def Op.write (row : AdminUser) (step : Option ℤ) (hash : String) (secret : List UInt8) :
    Op → AdminUser × Option ApiError
  | .login _ password totpCode => (Operation.login password totpCode).write row (step.getD 0)
  | .changePassword _ _ _ =>
    ({ row with passwordHash := hash, sessionVersion := row.sessionVersion + 1 }, none)
  | .totpSetup _ _ => ({ row with totpSecret := some secret, totpEnabled := false }, none)
  | .totpEnable _ code => (Operation.enable code).write row (step.getD 0)
  | .totpDisable _ password code => (Operation.disable password code).write row (step.getD 0)

/-- Where a request goes when its row is checked: only a login without a code has nothing to
write. -/
def Op.checked (op : Op) (username : String) (row : AdminUser) (step : Option ℤ) : Point :=
  match op, step with
  | .login _ _ _, none => .issuing username row none
  | _, step => .writing username row step

omit [Crypto] in
/-- Where a request goes when it has written. -/
def Op.written (op : Op) (username : String) (row : AdminUser) (step : Option ℤ) : Point :=
  match op with
  | .login _ _ _ => .issuing username row step
  | _ => .done (.ok ())

structure Request where
  op : Op
  point : Point

/-- A token that was signed, with the request, the row that it has read and the step that it has
taken. -/
structure Issued where
  claims : Claims
  request : ℕ
  op : Op
  row : AdminUser
  step : Option ℤ

structure State where
  users : Table String AdminUser
  requests : Table ℕ Request := ∅
  issued : List Issued := []

inductive Action where
  | request (id : ℕ) (op : Op)
  /-- The token of a request is checked. -/
  | authenticate (id now : ℕ)
  /-- The row is read and checked. -/
  | read (id now : ℕ)
  | write (id : ℕ) (hash : String) (secret : List UInt8)
  /-- A token is signed, with the setting for its time in minutes. -/
  | issue (id now minutes : ℕ)
  /-- A request breaks off. -/
  | breakOff (id : ℕ)

namespace State

def signed (s : State) : List Claims := s.issued.map Issued.claims

/-- A request goes on. -/
def move (s : State) (id : ℕ) (op : Op) (point : Point) : State :=
  { s with requests := s.requests.insert id ⟨op, point⟩ }

/-- The token is accepted. -/
def Accepts (s : State) (now : ℕ) (token : Claims) : Prop :=
  currentUsername s.users s.signed now token = .ok token.sub

/-- One action. There is one request to an id, and an action of a request that is not there, or is
elsewhere, does nothing. -/
def step (s : State) : Action → State
  | .request id op =>
    match s.requests.lookup id with
    | none => s.move id op op.first
    | some _ => s
  | .authenticate id now =>
    match s.requests.lookup id with
    | some ⟨op, .start⟩ =>
      match op.token.map (currentUsername s.users s.signed now) with
      | some (.ok username) =>
        match op.precheck with
        | .ok () => s.move id op (.reading username)
        | .error e => s.move id op (.done (.error e))
      | some (.error e) => s.move id op (.done (.error e))
      | none => s
    | _ => s
  | .read id now =>
    match s.requests.lookup id with
    | some ⟨op, .reading username⟩ =>
      match s.users.lookup username with
      | some row =>
        match op.check row now with
        | .ok step => s.move id op (op.checked username row step)
        | .error e => s.move id op (.done (.error e))
      | none => s.move id op (.done (.error .unauthorized))
    | _ => s
  | .write id hash secret =>
    match s.requests.lookup id with
    | some ⟨op, .writing username row step⟩ =>
      match s.users.lookup username with
      | some current =>
        match op.write current step hash secret with
        | (new, none) =>
          { s.move id op (op.written username row step) with
            users := s.users.insert username new }
        | (_, some e) => s.move id op (.done (.error e))
      | none => s.move id op .broken
    | _ => s
  | .issue id now minutes =>
    match s.requests.lookup id with
    | some ⟨op, .issuing username row step⟩ =>
      { s.move id op (.done (.ok ())) with
        issued := s.issued ++
          [⟨Sessions.issue username row.sessionVersion (ttlSecs minutes) now, id, op, row, step⟩] }
    | _ => s
  | .breakOff id =>
    match s.requests.lookup id with
    | some ⟨op, _⟩ => s.move id op .broken
    | none => s

def run (s : State) (actions : List Action) : State := Transition.run step s actions

end State

/-! ### What an action does -/

/-- A request goes no further. -/
def Point.Over : Point → Prop
  | .done _ => True
  | .broken => True
  | _ => False

omit [Crypto] in
theorem currentUsername_eq_ok {users : Table String AdminUser} {signed : List Claims} {now : ℕ}
    {token : Claims} {username : String}
    (h : currentUsername users signed now token = .ok username) :
    username = token.sub ∧ token ∈ signed ∧ now ≤ token.exp + leeway ∧
      ∃ row, users.lookup token.sub = some row ∧ row.sessionVersion = token.sessionVersion := by
  unfold currentUsername at h
  split at h
  · rename_i verified
    rw [verifyClaims, Bool.and_eq_true, decide_eq_true_eq, decide_eq_true_eq] at verified
    split at h
    · rename_i row found
      split at h
      · rename_i version
        cases h
        exact ⟨rfl, verified.1, verified.2, row, found, version⟩
      · cases h
    · cases h
  · cases h

/-- What an action can do to the state. -/
inductive Effect (s : State) : Action → State → Prop
  | idle (a : Action) : Effect s a s
  | enter (id : ℕ) (op : Op) (free : s.requests.lookup id = none) :
    Effect s (.request id op) (s.move id op op.first)
  | authenticate (id now : ℕ) (op : Op) (token : Claims)
    (at_start : s.requests.lookup id = some ⟨op, .start⟩) (given : op.token = some token)
    (accepted : s.Accepts now token) :
    Effect s (.authenticate id now) (s.move id op (.reading token.sub))
  | read (id now : ℕ) (op : Op) (username : String) (row : AdminUser) (step : Option ℤ)
    (at_reading : s.requests.lookup id = some ⟨op, .reading username⟩)
    (found : s.users.lookup username = some row) (checked : op.check row now = .ok step) :
    Effect s (.read id now) (s.move id op (op.checked username row step))
  | write (id : ℕ) (hash : String) (secret : List UInt8) (op : Op) (username : String)
    (row : AdminUser) (step : Option ℤ) (current new : AdminUser)
    (at_writing : s.requests.lookup id = some ⟨op, .writing username row step⟩)
    (found : s.users.lookup username = some current)
    (written : op.write current step hash secret = (new, none)) :
    Effect s (.write id hash secret)
      { s.move id op (op.written username row step) with
        users := s.users.insert username new }
  | issue (id now minutes : ℕ) (op : Op) (username : String) (row : AdminUser) (step : Option ℤ)
    (at_issuing : s.requests.lookup id = some ⟨op, .issuing username row step⟩) :
    Effect s (.issue id now minutes)
      { s.move id op (.done (.ok ())) with
        issued := s.issued ++
          [⟨Sessions.issue username row.sessionVersion (ttlSecs minutes) now, id, op, row, step⟩] }
  | stop (a : Action) (id : ℕ) (op : Op) (old point : Point)
    (there : s.requests.lookup id = some ⟨op, old⟩) (ended : point.Over) :
    Effect s a (s.move id op point)

theorem step_effect (s : State) (a : Action) : Effect s a (s.step a) := by
  cases a with
  | request id op =>
    dsimp only [State.step]
    split
    · rename_i free
      exact .enter id op free
    · exact .idle _
  | authenticate id now =>
    dsimp only [State.step]
    split
    · rename_i op at_start
      cases given : op.token with
      | none => exact .idle _
      | some token =>
        rw [Option.map_some]
        cases accepted : currentUsername s.users s.signed now token with
        | error e => exact .stop _ id op _ _ at_start trivial
        | ok username =>
          obtain ⟨rfl, -⟩ := currentUsername_eq_ok accepted
          cases op.precheck with
          | ok => exact .authenticate id now op token at_start given accepted
          | error e => exact .stop _ id op _ _ at_start trivial
    · exact .idle _
  | read id now =>
    dsimp only [State.step]
    split
    · rename_i op username at_reading
      split
      · rename_i row found
        split
        · rename_i step checked
          exact .read id now op username row step at_reading found checked
        · exact .stop _ id op _ _ at_reading trivial
      · exact .stop _ id op _ _ at_reading trivial
    · exact .idle _
  | write id hash secret =>
    dsimp only [State.step]
    split
    · rename_i op username row step at_writing
      split
      · rename_i current found
        split
        · rename_i new written
          exact .write id hash secret op username row step current new at_writing found written
        · exact .stop _ id op _ _ at_writing trivial
      · exact .stop _ id op _ _ at_writing trivial
    · exact .idle _
  | issue id now minutes =>
    dsimp only [State.step]
    split
    · rename_i op username row step at_issuing
      exact .issue id now minutes op username row step at_issuing
    · exact .idle _
  | breakOff id =>
    dsimp only [State.step]
    split
    · rename_i op old there
      exact .stop _ id op old _ there trivial
    · exact .idle _

/-! ### Rows -/

/-- What stays of a row that was read: its session version goes up only, and while it is the same,
so are the hash and, as long as the second factor is on, the secret. -/
def Precedes (row new : AdminUser) : Prop :=
  row.sessionVersion ≤ new.sessionVersion ∧
    (row.sessionVersion = new.sessionVersion → row.passwordHash = new.passwordHash ∧
      (new.totpEnabled = true → row.totpEnabled = true ∧ row.totpSecret = new.totpSecret))

omit [Crypto] in
theorem Precedes.refl (row : AdminUser) : Precedes row row :=
  ⟨Int.le_refl _, fun _ ↦ ⟨rfl, fun on ↦ ⟨on, rfl⟩⟩⟩

omit [Crypto] in
theorem Precedes.trans {a b c : AdminUser} (hab : Precedes a b) (hbc : Precedes b c) :
    Precedes a c := by
  refine ⟨Int.le_trans hab.1 hbc.1, fun same ↦ ?_⟩
  have same_ab : a.sessionVersion = b.sessionVersion := by
    have := hab.1
    have := hbc.1
    omega
  obtain ⟨hash_ab, on_ab⟩ := hab.2 same_ab
  obtain ⟨hash_bc, on_bc⟩ := hbc.2 (same_ab.symm.trans same)
  refine ⟨hash_ab.trans hash_bc, fun on ↦ ?_⟩
  obtain ⟨on_b, secret_bc⟩ := on_bc on
  obtain ⟨on_a, secret_ab⟩ := on_ab on_b
  exact ⟨on_a, secret_ab.trans secret_bc⟩

omit [Crypto] in
theorem Precedes.of_lt {row new : AdminUser} (h : row.sessionVersion < new.sessionVersion) :
    Precedes row new :=
  ⟨Int.le_of_lt h, fun same ↦ absurd same (Int.ne_of_lt h)⟩

omit [Crypto] in
/-- Every statement that writes leaves the session version of the row as it was, or counts it up. -/
theorem write_precedes {op : Op} {row new : AdminUser} {step : Option ℤ} {hash : String}
    {secret : List UInt8} {error : Option ApiError}
    (h : op.write row step hash secret = (new, error)) : Precedes row new := by
  cases op with
  | login username password totpCode =>
    simp only [Op.write, Operation.write] at h
    split at h
    · cases h
      exact ⟨Int.le_refl _, fun _ ↦ ⟨rfl, fun on ↦ ⟨on, rfl⟩⟩⟩
    · cases h
      exact Precedes.refl row
  | changePassword token oldPassword newPassword =>
    cases h
    exact Precedes.of_lt (Int.lt_succ _)
  | totpSetup token password =>
    cases h
    exact ⟨Int.le_refl _, fun _ ↦ ⟨rfl, fun on ↦ absurd on Bool.false_ne_true⟩⟩
  | totpEnable token code =>
    cases h
    exact Precedes.of_lt (Int.lt_succ _)
  | totpDisable token password code =>
    cases h
    exact Precedes.of_lt (Int.lt_succ _)

/-! ### What every action keeps -/

/-- The administrator of a request: the one of its token, or the one to log in. -/
def Op.Named (signed : List Claims) (username : String) : Op → Prop
  | .login name _ _ => name = username
  | .changePassword token _ _ | .totpSetup token _ | .totpEnable token _
  | .totpDisable token _ _ => token.sub = username ∧ token ∈ signed

/-- What a request that has read and checked a row knows. -/
structure Held (s : State) (op : Op) (username : String) (row : AdminUser) (step : Option ℤ) :
    Prop where
  named : op.Named s.signed username
  checked : ∃ now, op.check row now = .ok step
  current : ∃ current, s.users.lookup username = some current ∧ Precedes row current

def Point.Sound (s : State) (op : Op) : Point → Prop
  | .reading username => op.Named s.signed username
  | .writing username row step => Held s op username row step
  | .issuing username row step => Held s op username row step ∧ op.token = none
  | _ => True

structure Issued.Sound (s : State) (i : Issued) : Prop where
  held : Held s i.op i.claims.sub i.row i.step
  login : i.op.token = none
  version : i.claims.sessionVersion = i.row.sessionVersion
  time : i.claims.exp ≤ i.claims.iat + maxLoginExpireMinutes * 60

structure Sound (s : State) : Prop where
  requests : ∀ id r, s.requests.lookup id = some r → r.point.Sound s r.op
  issued : ∀ i ∈ s.issued, i.Sound s

/-- Later, tokens are still signed, and each row comes after what it was. -/
structure Follows (s s' : State) : Prop where
  signed : ∀ token ∈ s.signed, token ∈ s'.signed
  users : ∀ username row, s.users.lookup username = some row →
    ∃ row', s'.users.lookup username = some row' ∧ Precedes row row'

omit [Crypto] in
theorem Follows.refl (s : State) : Follows s s :=
  ⟨fun _ h ↦ h, fun _ row h ↦ ⟨row, h, Precedes.refl row⟩⟩

omit [Crypto] in
theorem Follows.move (s : State) (id : ℕ) (op : Op) (point : Point) :
    Follows s (s.move id op point) :=
  ⟨fun _ h ↦ h, (Follows.refl s).users⟩

theorem Effect.follows {s s' : State} {a : Action} (h : Effect s a s') : Follows s s' := by
  cases h with
  | idle => exact Follows.refl s
  | enter => exact Follows.move s _ _ _
  | authenticate => exact Follows.move s _ _ _
  | read => exact Follows.move s _ _ _
  | stop => exact Follows.move s _ _ _
  | issue id now minutes op username row step at_issuing =>
    refine ⟨fun token h ↦ ?_, (Follows.refl s).users⟩
    simp only [State.signed, List.map_append, List.mem_append]
    exact .inl h
  | write id hash secret op username row step current new at_writing found written =>
    refine ⟨fun _ h ↦ h, fun name old h ↦ ?_⟩
    rw [Table.lookup_insert]
    split
    · rename_i same
      subst same
      rw [found] at h
      cases h
      exact ⟨new, rfl, write_precedes written⟩
    · exact ⟨old, h, Precedes.refl old⟩

omit [Crypto] in
theorem Op.Named.mono {signed signed' : List Claims} (h : ∀ token ∈ signed, token ∈ signed')
    {username : String} {op : Op} (named : op.Named signed username) :
    op.Named signed' username := by
  cases op with
  | login => exact named
  | changePassword => exact ⟨named.1, h _ named.2⟩
  | totpSetup => exact ⟨named.1, h _ named.2⟩
  | totpEnable => exact ⟨named.1, h _ named.2⟩
  | totpDisable => exact ⟨named.1, h _ named.2⟩

theorem Held.mono {s s' : State} (follows : Follows s s') {op : Op} {username : String}
    {row : AdminUser} {step : Option ℤ} (h : Held s op username row step) :
    Held s' op username row step := by
  obtain ⟨current, found, precedes⟩ := h.current
  obtain ⟨current', found', precedes'⟩ := follows.users username current found
  exact ⟨h.named.mono follows.signed, h.checked, current', found', precedes.trans precedes'⟩

theorem Point.Sound.mono {s s' : State} (follows : Follows s s') {op : Op} {point : Point}
    (h : point.Sound s op) : point.Sound s' op := by
  cases point with
  | start => trivial
  | reading username => exact Op.Named.mono follows.signed h
  | writing username row step => exact Held.mono follows h
  | issuing username row step => exact ⟨Held.mono follows h.1, h.2⟩
  | done result => trivial
  | broken => trivial

/-- It is enough to look at the requests and the tokens that an action changes. -/
theorem Sound.of_follows {s s' : State} (h : Sound s) (follows : Follows s s')
    (requests : ∀ id r, s'.requests.lookup id = some r →
      s.requests.lookup id = some r ∨ r.point.Sound s' r.op)
    (issued : ∀ i ∈ s'.issued, i ∈ s.issued ∨ i.Sound s') : Sound s' := by
  refine ⟨fun id r hr ↦ ?_, fun i hi ↦ ?_⟩
  · rcases requests id r hr with old | new
    · exact (h.requests id r old).mono follows
    · exact new
  · rcases issued i hi with old | new
    · have sound := h.issued i old
      exact ⟨sound.held.mono follows, sound.login, sound.version, sound.time⟩
    · exact new

omit [Crypto] in
theorem lookup_move {s : State} {id other : ℕ} {op : Op} {point : Point} {r : Request}
    (h : (s.move id op point).requests.lookup other = some r) :
    (other = id ∧ r = ⟨op, point⟩) ∨ (other ≠ id ∧ s.requests.lookup other = some r) :=
  Table.lookup_insert_cases h

theorem Sound.move {s : State} (h : Sound s) {id : ℕ} {op : Op} {point : Point}
    (hpoint : point.Sound s op) : Sound (s.move id op point) := by
  have follows := Follows.move s id op point
  refine h.of_follows follows (fun other r hr ↦ ?_) fun i hi ↦ .inl hi
  rcases lookup_move hr with ⟨-, rfl⟩ | ⟨-, old⟩
  · exact .inr (Point.Sound.mono follows hpoint)
  · exact .inl old

theorem Point.Over.sound {s : State} {op : Op} {point : Point} (h : point.Over) :
    point.Sound s op := by
  cases point with
  | done result => trivial
  | broken => trivial
  | start => cases h
  | reading username => cases h
  | writing username row step => cases h
  | issuing username row step => cases h

omit [Crypto] in
theorem ttlSecs_le (minutes : ℕ) : ttlSecs minutes ≤ maxLoginExpireMinutes * 60 := by
  unfold ttlSecs maxLoginExpireMinutes
  omega

theorem checked_sound {s : State} {op : Op} {username : String} {row : AdminUser}
    {step : Option ℤ} (held : Held s op username row step) :
    (op.checked username row step).Sound s op := by
  unfold Op.checked
  split
  · exact ⟨held, rfl⟩
  · exact held

theorem written_sound {s : State} {op : Op} {username : String} {row : AdminUser}
    {step : Option ℤ} (held : Held s op username row step) :
    (op.written username row step).Sound s op := by
  unfold Op.written
  split
  · exact ⟨held, rfl⟩
  · trivial

theorem Effect.sound {s s' : State} {a : Action} (h : Effect s a s') (sound : Sound s) :
    Sound s' := by
  have follows := h.follows
  cases h with
  | idle => exact sound
  | enter id op free =>
    refine sound.move ?_
    cases op with
    | login username password totpCode => exact (rfl : username = username)
    | changePassword => trivial
    | totpSetup => trivial
    | totpEnable => trivial
    | totpDisable => trivial
  | authenticate id now op token at_start given accepted =>
    refine sound.move (show op.Named s.signed token.sub from ?_)
    obtain ⟨-, signed, -⟩ := currentUsername_eq_ok accepted
    cases op with
    | login => cases given
    | changePassword => cases given; exact ⟨rfl, signed⟩
    | totpSetup => cases given; exact ⟨rfl, signed⟩
    | totpEnable => cases given; exact ⟨rfl, signed⟩
    | totpDisable => cases given; exact ⟨rfl, signed⟩
  | read id now op username row step at_reading found checked =>
    have named : op.Named s.signed username := sound.requests id _ at_reading
    exact sound.move (checked_sound ⟨named, ⟨now, checked⟩, row, found, Precedes.refl row⟩)
  | write id hash secret op username row step current new at_writing found written =>
    have held : Held s op username row step := sound.requests id _ at_writing
    refine sound.of_follows follows (fun other r hr ↦ ?_) fun i hi ↦ .inl hi
    rcases lookup_move hr with ⟨-, rfl⟩ | ⟨-, old⟩
    · exact .inr (written_sound (held.mono follows))
    · exact .inl old
  | issue id now minutes op username row step at_issuing =>
    obtain ⟨held, login⟩ : Held s op username row step ∧ op.token = none :=
      sound.requests id _ at_issuing
    refine sound.of_follows follows (fun other r hr ↦ ?_) fun i hi ↦ ?_
    · rcases lookup_move hr with ⟨-, rfl⟩ | ⟨-, old⟩
      · exact .inr trivial
      · exact .inl old
    · rcases List.mem_append.1 hi with old | new
      · exact .inl old
      · rw [List.mem_singleton] at new
        subst new
        refine .inr ⟨held.mono follows, login, rfl, ?_⟩
        exact Nat.add_le_add_left (ttlSecs_le minutes) now
  | stop _ id op old point there ended => exact sound.move ended.sound

theorem run_sound {s : State} (h : Sound s) (actions : List Action) : Sound (s.run actions) :=
  Transition.run_preserves (fun s a h ↦ (step_effect s a).sound h) h actions

theorem sound_start (users : Table String AdminUser) : Sound { users := users } := by
  refine ⟨fun id r h ↦ ?_, fun i hi ↦ ?_⟩
  · rw [Table.lookup_empty] at h
    cases h
  · cases hi

end Model

/-! ### Accepted tokens -/

section Accepted

variable [Crypto]

theorem login_checked {username password : String} {totpCode : Option String} {row : AdminUser}
    {now : ℕ} {step : Option ℤ}
    (h : (Op.login username password totpCode).check row now = .ok step) :
    Crypto.verifyPassword row.passwordHash password = true ∧
      (row.totpEnabled = true → ∃ secret taken, row.totpSecret = some secret ∧
        Totp.verify secret (String.ofList (givenCode totpCode)) now = some taken) := by
  simp only [Op.check, Operation.check] at h
  split at h
  · cases h
  · rename_i password_ok
    refine ⟨by simpa using password_ok, fun on ↦ ?_⟩
    simp only [on, Bool.not_true, Bool.false_eq_true, if_false] at h
    split at h
    · cases h
    · split at h
      · rename_i taken found
        obtain ⟨secret, hsecret, hverify⟩ := Option.bind_eq_some_iff.1 found
        exact ⟨secret, taken, hsecret, hverify⟩
      · cases h

end Accepted

section Runs

/-- Passwords that are their own hashes, and `000000` as the code of every step. -/
@[reducible] def plainCrypto : Crypto where
  hmacSha1 _ _ := Vector.replicate 20 0
  verifyPassword hash password := hash = password

/-- An administrator with the second factor on. -/
def twoFactorUser : AdminUser where
  passwordHash := "opensesame"
  totpEnabled := true
  totpSecret := some [1]
  lastTotpStep := none

/-- An administrator without it. -/
def passwordUser : AdminUser where
  passwordHash := "opensesame"
  totpEnabled := false
  totpSecret := none
  lastTotpStep := none

def rootUsers (row : AdminUser) : Table String AdminUser := Table.insert ∅ "root" row

/-- A login from beginning to end, at a time. -/
def logIn (id now : ℕ) (password : String) (totpCode : Option String) : List Action :=
  [.request id (.login "root" password totpCode), .read id now, .write id "" [], .issue id now 60]

/-- A request with a token, up to its writing. -/
def ask (id now : ℕ) (op : Op) : List Action :=
  [.request id op, .authenticate id now, .read id now]

def rootToken (version : ℤ) (now : ℕ) : Claims := ⟨"root", now + 3600, now, version⟩

local instance : Crypto := plainCrypto

end Runs

/-! ### Revocation -/

section Revocation

variable [Crypto]

omit [Crypto] in
/-- A request has not read the row yet. -/
def State.Unread (s : State) (id : ℕ) : Prop :=
  ∀ r, s.requests.lookup id = some r → r.point = .start ∨ ∃ username, r.point = .reading username

/-- The row has been read, and has at most a session version if it is that of an administrator. -/
def Point.Within (name : String) (version : ℤ) : Point → Prop
  | .start | .reading _ => False
  | .writing username row _ | .issuing username row _ =>
    username = name → row.sessionVersion ≤ version
  | .done _ | .broken => True

/-- A request that has read its row, and whose tokens have at most a session version. -/
structure Past (name : String) (version : ℤ) (id : ℕ) (s : State) : Prop where
  there : ∃ r, s.requests.lookup id = some r ∧ r.point.Within name version
  issued : ∀ i ∈ s.issued, i.request = id → i.claims.sub = name →
    i.claims.sessionVersion ≤ version

theorem past_of_read {s : State} (sound : Sound s) {name : String} {row : AdminUser}
    (found : s.users.lookup name = some row) {id : ℕ} (read : ¬ s.Unread id) :
    Past name row.sessionVersion id s := by
  have le_of_held : ∀ op old step, Held s op name old step →
      old.sessionVersion ≤ row.sessionVersion := by
    intro op old step held
    obtain ⟨current, found', precedes⟩ := held.current
    rw [found] at found'
    cases found'
    exact precedes.1
  refine ⟨?_, fun i mem _ same ↦ ?_⟩
  · simp only [State.Unread, not_forall] at read
    obtain ⟨r, hr, hpoint⟩ := read
    have point_sound := sound.requests id r hr
    refine ⟨r, hr, ?_⟩
    cases point : r.point with
    | start => exact hpoint (.inl point)
    | reading username => exact hpoint (.inr ⟨username, point⟩)
    | writing username old step =>
      rw [point] at point_sound
      rintro rfl
      exact le_of_held _ _ _ point_sound
    | issuing username old step =>
      rw [point] at point_sound
      rintro rfl
      exact le_of_held _ _ _ point_sound.1
    | done result => trivial
    | broken => trivial
  · have issued := sound.issued i mem
    rw [issued.version]
    exact le_of_held _ _ _ (same ▸ issued.held)

omit [Crypto] in
theorem Past.move {s : State} {name : String} {version : ℤ} {id : ℕ} (past : Past name version id s)
    {other : ℕ} {op : Op} {point : Point} (hpoint : other = id → point.Within name version) :
    Past name version id (s.move other op point) := by
  obtain ⟨r, hr, within⟩ := past.there
  refine ⟨?_, past.issued⟩
  by_cases same : other = id
  · exact ⟨⟨op, point⟩, by rw [State.move, Table.lookup_insert, if_pos same], hpoint same⟩
  · exact ⟨r, by rw [State.move, Table.lookup_insert, if_neg same, hr], within⟩

omit [Crypto] in
theorem Past.within {s : State} {name : String} {version : ℤ} {id : ℕ}
    (past : Past name version id s) {op : Op} {point : Point}
    (h : s.requests.lookup id = some ⟨op, point⟩) : point.Within name version := by
  obtain ⟨r, hr, within⟩ := past.there
  rw [h] at hr
  cases hr
  exact within

omit [Crypto] in
theorem Point.Over.within {point : Point} (h : point.Over) (name : String) (version : ℤ) :
    point.Within name version := by
  cases point with
  | done result => trivial
  | broken => trivial
  | start => cases h
  | reading username => cases h
  | writing username row step => cases h
  | issuing username row step => cases h

omit [Crypto] in
theorem written_within {op : Op} {username name : String} {row : AdminUser} {step : Option ℤ}
    {version : ℤ} (h : (Point.writing username row step).Within name version) :
    (op.written username row step).Within name version := by
  unfold Op.written
  split
  · exact h
  · trivial

theorem Effect.past {s s' : State} {a : Action} (h : Effect s a s') {name : String} {version : ℤ}
    {id : ℕ} (past : Past name version id s) : Past name version id s' := by
  cases h with
  | idle => exact past
  | enter other op free =>
    refine past.move fun same ↦ ?_
    obtain ⟨r, hr, -⟩ := past.there
    rw [← same, free] at hr
    cases hr
  | authenticate other now op token at_start =>
    refine past.move fun same ↦ ?_
    subst same
    exact (past.within at_start).elim
  | read other now op username row step at_reading =>
    refine past.move fun same ↦ ?_
    subst same
    exact (past.within at_reading).elim
  | write other hash secret op username row step current new at_writing =>
    have moved : Past name version id (s.move other op (op.written username row step)) := by
      refine past.move fun same ↦ ?_
      subst same
      exact written_within (past.within at_writing)
    exact ⟨moved.there, moved.issued⟩
  | issue other now minutes op username row step at_issuing =>
    have moved : Past name version id (s.move other op (.done (.ok ()))) :=
      past.move fun _ ↦ trivial
    refine ⟨moved.there, fun i mem hid hname ↦ ?_⟩
    rcases List.mem_append.1 mem with old | new
    · exact past.issued i old hid hname
    · rw [List.mem_singleton] at new
      subst new
      subst hid
      exact past.within at_issuing hname
  | stop _ other op old point there ended => exact past.move fun _ ↦ ended.within name version

/-- When the session version of an administrator has gone up, no token of a login that had read the
row before is accepted, whether it was signed before or is signed after. -/
theorem unread_of_revoked (users : Table String AdminUser) (before after : List Action) (now : ℕ)
    (token : Claims) (old new : AdminUser)
    (found_old : (State.run { users := users } before).users.lookup token.sub = some old)
    (found_new : (State.run { users := users } (before ++ after)).users.lookup token.sub = some new)
    (up : old.sessionVersion < new.sessionVersion)
    (accepted : (State.run { users := users } (before ++ after)).Accepts now token) :
    ∀ i ∈ (State.run { users := users } (before ++ after)).issued, i.claims = token →
      (State.run { users := users } before).Unread i.request := by
  have sound := run_sound (sound_start users) before
  have later : State.run { users := users } (before ++ after) =
      (State.run { users := users } before).run after :=
    Transition.run_append _ _ _ _
  rw [later] at found_new accepted ⊢
  generalize State.run { users := users } before = s at sound found_old found_new accepted ⊢
  rintro i mem rfl
  by_contra read
  have past : Past i.claims.sub old.sessionVersion i.request (s.run after) :=
    Transition.run_preserves (P := Past i.claims.sub old.sessionVersion i.request)
      (fun s a h ↦ (step_effect s a).past h) (past_of_read sound found_old read) after
  have le := past.issued i mem rfl rfl
  obtain ⟨-, -, -, current, found, version⟩ := currentUsername_eq_ok accepted
  rw [found_new] at found
  cases found
  omega

end Revocation

section Runs

local instance : Crypto := plainCrypto

/-- A login, and a change of the password that has read the row. -/
def changing : List Action :=
  logIn 1 0 "opensesame" none ++
    ask 2 10 (.changePassword (rootToken 0 0) "opensesame" "sesameopen")

/-- The password changes, and there is a login with the new one. -/
def changed : List Action := .write 2 "sesameopen" [] :: logIn 3 20 "sesameopen" none

/-- The token of the new login was given to a request that had not read the row before. -/
theorem unread_of_changed :
    (State.run { users := rootUsers passwordUser } (changing ++ changed)).issued.map
        Issued.request = [1, 3] ∧
      (State.run { users := rootUsers passwordUser } changing).Unread 3 :=
  ⟨by decide +kernel,
    unread_of_revoked (rootUsers passwordUser) changing changed 30 (rootToken 1 20) passwordUser
      { passwordUser with passwordHash := "sesameopen", sessionVersion := 1 }
      (by decide +kernel) (by decide +kernel) (by decide)
      (by show currentUsername _ _ _ _ = _; decide +kernel)
      ⟨rootToken 1 20, 3, .login "root" "sesameopen" none,
        { passwordUser with passwordHash := "sesameopen", sessionVersion := 1 }, none⟩
      (List.mem_cons_of_mem _ List.mem_cons_self) rfl⟩

end Runs

/-! ### The second factor -/

section SecondFactor

variable [Crypto]

/-- The second factor of an administrator goes off by a request that came with a token of theirs:
one to disable it, with the password and a code for the row that it has read, or a setup that has
read the row when it was off, before the session version has gone up. -/
theorem secondFactor_off (users : Table String AdminUser) (actions : List Action) (a : Action)
    (name : String) (row row' : AdminUser)
    (found : (State.run { users := users } actions).users.lookup name = some row)
    (found' : (State.run { users := users } (actions ++ [a])).users.lookup name = some row')
    (on : row.totpEnabled = true) (off : row'.totpEnabled = false) :
    ∃ id hash secret op held step token time, a = .write id hash secret ∧
      (State.run { users := users } actions).requests.lookup id =
        some ⟨op, .writing name held step⟩ ∧
      token ∈ (State.run { users := users } actions).signed ∧ token.sub = name ∧
      op.check held time = .ok step ∧ Precedes held row ∧
      ((∃ password code, op = .totpDisable token password code) ∨
        (∃ password, op = .totpSetup token password) ∧ held.totpEnabled = false ∧
          held.sessionVersion < row.sessionVersion) := by
  have sound := run_sound (sound_start users) actions
  have last : State.run { users := users } (actions ++ [a]) =
      (State.run { users := users } actions).step a :=
    Transition.run_snoc _ _ _ _
  rw [last] at found'
  generalize State.run { users := users } actions = s at sound found found' ⊢
  have unchanged : s.users.lookup name ≠ some row' := by
    intro same
    rw [found] at same
    cases same
    rw [on] at off
    cases off
  have effect := step_effect s a
  generalize s.step a = s' at found' effect
  cases effect with
  | idle => exact absurd found' unchanged
  | enter => exact absurd found' unchanged
  | authenticate => exact absurd found' unchanged
  | read => exact absurd found' unchanged
  | issue => exact absurd found' unchanged
  | stop => exact absurd found' unchanged
  | write id hash secret op username held step current new at_writing at_user written =>
    rcases Table.lookup_insert_cases found' with ⟨rfl, rfl⟩ | ⟨-, same⟩
    · rw [found] at at_user
      cases at_user
      obtain ⟨named, ⟨time, checked⟩, row', found_row, precedes⟩ := sound.requests id _ at_writing
      rw [found] at found_row
      cases found_row
      cases op with
      | login username password totpCode =>
        simp only [Op.write, Operation.write] at written
        split at written
        · cases written
          rw [on] at off
          cases off
        · cases written
      | changePassword token oldPassword newPassword =>
        cases written
        rw [on] at off
        cases off
      | totpEnable token code =>
        cases written
        cases off
      | totpDisable token password code =>
        exact ⟨id, hash, secret, _, held, step, token, time, rfl, at_writing, named.2, named.1,
          checked, precedes, .inl ⟨password, code, rfl⟩⟩
      | totpSetup token password =>
        have held_off : held.totpEnabled = false := by
          simp only [Op.check] at checked
          split at checked
          · cases checked
          · split at checked
            · cases checked
            · rename_i off_then
              exact Bool.eq_false_iff.2 off_then
        have behind : held.sessionVersion < row.sessionVersion := by
          refine Int.lt_iff_le_and_ne.2 ⟨precedes.1, fun same ↦ ?_⟩
          have on_then := ((precedes.2 same).2 on).1
          rw [held_off] at on_then
          cases on_then
        exact ⟨id, hash, secret, _, held, step, token, time, rfl, at_writing, named.2, named.1,
          checked, precedes, .inr ⟨⟨password, rfl⟩, held_off, behind⟩⟩
    · exact absurd same unchanged

end SecondFactor

section Runs

local instance : Crypto := plainCrypto

/-- Two setups have read the row when the second of them writes and the second factor is enabled. -/
def settingUp : List Action :=
  logIn 1 0 "opensesame" none ++ ask 2 10 (.totpSetup (rootToken 0 0) "opensesame") ++
    ask 3 20 (.totpSetup (rootToken 0 0) "opensesame") ++ [.write 3 "" [1]] ++
    ask 4 60 (.totpEnable (rootToken 0 0) "000000") ++ [.write 4 "" []]

theorem secondFactor_off_setup :
    ∃ id hash secret op held step token time,
      (Action.write 2 "" [2] = .write id hash secret) ∧
      (State.run { users := rootUsers passwordUser } settingUp).requests.lookup id =
        some ⟨op, .writing "root" held step⟩ ∧
      token ∈ (State.run { users := rootUsers passwordUser } settingUp).signed ∧
      token.sub = "root" ∧ op.check held time = .ok step ∧
      Precedes held
        { passwordUser with
          totpEnabled := true
          totpSecret := some [1]
          lastTotpStep := some 1
          sessionVersion := 1 } ∧
      ((∃ password code, op = .totpDisable token password code) ∨
        (∃ password, op = .totpSetup token password) ∧ held.totpEnabled = false ∧
          held.sessionVersion < 1) :=
  secondFactor_off (rootUsers passwordUser) settingUp (.write 2 "" [2]) "root"
    { passwordUser with
      totpEnabled := true
      totpSecret := some [1]
      lastTotpStep := some 1
      sessionVersion := 1 }
    { passwordUser with
      totpEnabled := false
      totpSecret := some [2]
      lastTotpStep := some 1
      sessionVersion := 1 }
    (by decide +kernel) (by decide +kernel) rfl rfl

end Runs

end NextApi.Auth.Sessions
