import Mathlib.Algebra.Group.Nat.Defs
import Mathlib.Data.Int.Basic
import NextApi.Error
import NextApi.Stream.Run
import NextApi.Stream.Table
import NextApi.Text.Lines

/-!
# Operations that use up a code

Logging in, enabling and disabling the second factor, and a sensitive operation each ask the
administrator for a code. They read the row of the administrator, check the password and the code
against what they have read, and then write the row.

A time step is thirty seconds, and its code is six digits cut out of the HMAC of the step. A code is
good for its own step and for the ones before and after it; `Totp.verify` answers which step it was.
HMAC-SHA1 is a function of the secret and the message with twenty bytes as result, of which nothing
else is assumed.

A login and a sensitive operation take the step of the code in one conditional statement, which
fails when a later step, or the same, has been taken. Enabling and disabling write unconditionally:
enabling sets the last step whatever it was, and disabling compares it with the row that was read,
and clears it together with the secret.

Any number of requests of one administrator run at the same time, a statement of one after a
statement of another. The secret of the row is the decrypted one. Limits on the rate of requests,
and everything that can fail on the way, are a request breaking off.
-/

set_option autoImplicit false

namespace NextApi.Auth

/-! ### Codes -/

/-- The cryptographic functions: HMAC-SHA1, and the check of a password against its hash. -/
class Crypto where
  hmacSha1 : List UInt8 → List UInt8 → Vector UInt8 20
  verifyPassword : String → String → Bool

namespace Totp

def stepSecs : ℕ := 30

def codeDigits : ℕ := 6

/-- `to_be_bytes` of a 64-bit number. -/
def beBytes (n : ℕ) : List UInt8 :=
  (List.range 8).map fun i ↦ UInt8.ofNat (n >>> (8 * (7 - i)))

/-- The byte of a hash that is so many places after an offset below 16. -/
def hashByte (hash : Vector UInt8 20) (offset : Fin 16) (i : Fin 4) : ℕ :=
  (hash.get ⟨offset.val + i.val, by omega⟩).toNat

/-- The code of a step. -/
def codeAt [Crypto] (secret : List UInt8) (step : ℕ) : List Char :=
  let hash := Crypto.hmacSha1 secret (beBytes step)
  let offset := Fin.ofNat 16 (hash.get 19).toNat
  let bin :=
    (hashByte hash offset 0 &&& 0x7f) <<< 24 ||| hashByte hash offset 1 <<< 16 |||
      hashByte hash offset 2 <<< 8 ||| hashByte hash offset 3
  (Nat.toDigits 10 (bin % 10 ^ codeDigits)).leftpad codeDigits '0'

/-- Whether the input is six digits, in bytes. -/
def isCode (code : List Char) : Bool :=
  let bytes := Text.encodeUtf8 code
  decide (bytes.length = codeDigits) && bytes.all fun b ↦ decide (48 ≤ b) && decide (b ≤ 57)

/-- The step that a code is for, among the current one and its neighbours. -/
def verify [Crypto] (secret : List UInt8) (code : String) (nowUnix : ℕ) : Option ℤ :=
  let code := Text.trim code.toList
  if isCode code then
    let step : ℤ := (nowUnix / stepSecs : ℕ)
    [step - 1, step, step + 1].find? fun s ↦ decide (0 ≤ s) && decide (codeAt secret s.toNat = code)
  else none

end Totp

/-! ### Operations -/

/-- What the operations read and write of the row of `admin_users`. -/
structure AdminUser where
  passwordHash : String
  totpEnabled : Bool
  totpSecret : Option (List UInt8)
  lastTotpStep : Option ℤ
  sessionVersion : ℤ := 0
  deriving DecidableEq, Inhabited

/-- A request that asks for a code. -/
inductive Operation where
  | login (password : String) (totpCode : Option String)
  | enable (code : String)
  | disable (password code : String)
  | sensitiveVerify (password : String) (totpCode : Option String)
  deriving DecidableEq, Inhabited

/-- `last_totp_step IS NULL OR last_totp_step < $2`. -/
def Fresh (last : Option ℤ) (step : ℤ) : Prop := ∀ l ∈ last, l < step

instance (last : Option ℤ) (step : ℤ) : Decidable (Fresh last step) :=
  inferInstanceAs (Decidable (∀ l ∈ last, l < step))

/-- The code of a request that may come without one. -/
def givenCode (totpCode : Option String) : List Char := Text.trim (totpCode.getD "").toList

namespace Operation

variable [Crypto]

/-- What is checked against the row that was read: whether the operation goes through, and the step
of the code that it then takes. -/
def check (user : AdminUser) (now : ℕ) : Operation → Except ApiError (Option ℤ)
  | .login password totpCode =>
    if !Crypto.verifyPassword user.passwordHash password then .error .unauthorized
    else if !user.totpEnabled then .ok none
    else if givenCode totpCode = [] then .error .totpRequired
    else
      match user.totpSecret.bind fun s ↦ Totp.verify s (String.ofList (givenCode totpCode)) now with
      | some step => .ok (some step)
      | none => .error .totpInvalid
  | .enable code =>
    if user.totpEnabled then .error (.badRequest "TOTP 已启用")
    else
      match user.totpSecret with
      | none => .error (.badRequest "请先生成 TOTP 机密（setup）")
      | some secret =>
        match Totp.verify secret code now with
        | some step => .ok (some step)
        | none => .error .totpInvalid
  | .disable password code =>
    if !user.totpEnabled then .error (.badRequest "TOTP 未启用")
    else if !Crypto.verifyPassword user.passwordHash password then
      .error (.badRequest "密码不正确")
    else
      match user.totpSecret with
      | none => .error (.badRequest "请先生成 TOTP 机密（setup）")
      | some secret =>
        match (Totp.verify secret code now).filter fun step ↦
            decide (Fresh user.lastTotpStep step) with
        | some step => .ok (some step)
        | none => .error .totpInvalid
  | .sensitiveVerify password totpCode =>
    if !Crypto.verifyPassword user.passwordHash password then .error (.badRequest "密码不正确")
    else if !user.totpEnabled then .ok none
    else if givenCode totpCode = [] then .error (.badRequest "已启用 TOTP，需要二次验证码")
    else
      match user.totpSecret with
      | none => .error (.badRequest "请先生成 TOTP 机密（setup）")
      | some secret =>
        match Totp.verify secret (String.ofList (givenCode totpCode)) now with
        | some step => .ok (some step)
        | none => .error (.badRequest "二次验证码错误")

/-- The statement that takes the step, and the error when it changes no row. -/
def write (user : AdminUser) (step : ℤ) : Operation → AdminUser × Option ApiError
  | .login _ _ =>
    if Fresh user.lastTotpStep step then ({ user with lastTotpStep := some step }, none)
    else (user, some .totpInvalid)
  | .enable _ =>
    ({ user with
      totpEnabled := true
      lastTotpStep := some step
      sessionVersion := user.sessionVersion + 1 }, none)
  | .disable _ _ =>
    ({ user with
      totpEnabled := false
      totpSecret := none
      lastTotpStep := none
      sessionVersion := user.sessionVersion + 1 }, none)
  | .sensitiveVerify _ _ =>
    if Fresh user.lastTotpStep step then ({ user with lastTotpStep := some step }, none)
    else (user, some (.badRequest "二次验证码已使用，请稍后重新获取"))

end Operation

/-- Where a request is. -/
inductive Point where
  | reading
  /-- Before the statement that takes the step of the code. -/
  | taking (step : ℤ)
  | done (result : Except ApiError (Option ℤ))
  deriving DecidableEq, Inhabited

structure Request where
  op : Operation
  point : Point := .reading
  deriving DecidableEq, Inhabited

/-- A request whose code was accepted, with the step of the code. -/
structure Accepted where
  request : ℕ
  step : ℤ
  deriving DecidableEq

/-- The row, the requests, and the codes accepted so far. -/
structure State where
  user : AdminUser
  requests : Table ℕ Request := ∅
  accepted : List Accepted := []

inductive Action where
  | request (id : ℕ) (op : Operation)
  /-- A request reads the row, and checks its code at a time in seconds. -/
  | read (id : ℕ) (now : ℕ)
  | write (id : ℕ)
  /-- A request breaks off. -/
  | breakOff (id : ℕ)

namespace State

variable [Crypto]

/-- One action. There is one request to an id, and an action of a request that is not there, or is
elsewhere, does nothing. -/
def step (s : State) : Action → State
  | .request id op =>
    match s.requests.lookup id with
    | none => { s with requests := s.requests.insert id { op := op } }
    | some _ => s
  | .read id now =>
    match s.requests.lookup id with
    | some ⟨op, .reading⟩ =>
      match op.check s.user now with
      | .ok (some step) => { s with requests := s.requests.insert id ⟨op, .taking step⟩ }
      | result => { s with requests := s.requests.insert id ⟨op, .done result⟩ }
    | _ => s
  | .write id =>
    match s.requests.lookup id with
    | some ⟨op, .taking step⟩ =>
      match op.write s.user step with
      | (user, none) =>
        { user := user
          requests := s.requests.insert id ⟨op, .done (.ok (some step))⟩
          accepted := s.accepted ++ [⟨id, step⟩] }
      | (user, some e) =>
        { s with user := user, requests := s.requests.insert id ⟨op, .done (.error e)⟩ }
    | _ => s
  | .breakOff id => { s with requests := s.requests.erase id }

/-- The state after the actions. -/
def run (s : State) (actions : List Action) : State := Transition.run step s actions

/-- A request is about to take the step of its code. -/
def Taking (s : State) (id : ℕ) (step : ℤ) : Prop :=
  ∃ op, s.requests.lookup id = some ⟨op, .taking step⟩

/-- No step was accepted twice. -/
def AcceptsOnce (s : State) : Prop := (s.accepted.map Accepted.step).Nodup

end State

end NextApi.Auth
