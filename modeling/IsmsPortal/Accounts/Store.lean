import IsmsPortal.Approvals.Requests

/-! # Administrator accounts and their secrets

An administrator signs in with a local account, or comes from the directory, where an
account or a group grants the role. Accounts and groups share the columns of a grant:
the role, the permissions of a moderator, and the time in which the grant is valid.
-/

namespace IsmsPortal

/-- What an account or a group confers, and when. -/
structure AdminGrant where
  active : Bool
  role : AdminRole
  canManageDocuments : Bool
  canPublishDocuments : Bool
  canDeleteDocuments : Bool
  validFrom : Option Int
  validUntil : Option Int
deriving DecidableEq

/-- The grant is active, has begun and has not ended. -/
def AdminGrant.current (clock : Int) (grant : AdminGrant) : Bool :=
  grant.active && grant.validFrom.all (· ≤ clock) && grant.validUntil.all (clock < ·)

inductive AdminSource
  | localAccount
  | directory
deriving DecidableEq

/-- A row of `AdminAccount`. -/
structure AdminAccountRow extends AdminGrant where
  id : String
  username : String
  displayName : String
  profilePhoto : Option String
  source : AdminSource
  passwordHash : Option String
  mfaSecret : Option String
  mfaEnabled : Bool
  failedLoginCount : Nat
  lockedUntil : Option Int
deriving DecidableEq

/-- A row of `AdminDirectoryGroup`. -/
structure AdminGroupRow extends AdminGrant where
  id : String
  name : String
deriving DecidableEq

/-- A row of `AdminSession`. -/
structure AdminSession where
  tokenHash : String
  adminAccountId : String
  expiresAt : Int
deriving DecidableEq

/-- The lock of the account has not ended. -/
def AdminAccountRow.locked (clock : Int) (account : AdminAccountRow) : Bool :=
  account.lockedUntil.any (clock < ·)

/-! ## Secrets -/

/-- Cryptography outside the program. -/
structure Secrets where
  /-- Whether `scrypt` derives the hash from the password and the salt. -/
  derives : String → String → String → Bool
  /-- The code of a secret at a time. -/
  totp : String → Int → String

variable (secrets : Secrets)

/-- An encoded hash names its algorithm, the salt and the hash. -/
def verifyPassword (password : String) : Option String → Bool
  | none => false
  | some encoded =>
      match encoded.toList.splitOn '$' with
      | algorithm :: salt :: hash :: _ =>
          algorithm = "scrypt".toList && !salt.isEmpty && !hash.isEmpty &&
            secrets.derives password (String.ofList salt) (String.ofList hash)
      | _ => false

/-- Six digits that are the code of now or of one of the neighbouring half minutes. -/
def verifyTotp (clock : Int) (secret code : String) : Bool :=
  code.toList.length = 6 && code.toList.all (·.isDigit) &&
    [-30000, 0, 30000].any fun offset => secrets.totp secret (clock + offset) = code

end IsmsPortal
