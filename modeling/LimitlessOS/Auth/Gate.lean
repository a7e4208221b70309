/-
  LimitlessOS.Auth.Gate — the login gate (`arch/x86_64/auth.c`).

  The gate loads the user record of the machine. With a record it asks for a username and a
  password until both match; the account that the system ships with may also sign in by
  waiting. Without one it takes the first username and password typed for a new account.

  The gate is a machine that is driven by the keyboard: between two reads it is in a phase,
  and the outcome of the read takes it to the next. A read that waits for ever does not see
  the timer. Storage, entropy and the hash function are the environment.

  Left out are the screen, the debug lines and the flags that report what has happened.
-/
import LimitlessOS.Ramfs.Nodes

namespace LimitlessOS.Auth

open Ramfs

def usernameBytes : Nat := 32
def passwordBytes : Nat := 64
def recordBytes : Nat := 384
def bcryptHashBytes : Nat := 60
def bcryptSaltOffset : Nat := 7

def newline : UInt8 := 10
def dollar : UInt8 := 36

def defaultUser : List UInt8 := ascii "limitless"
def defaultPassword : List UInt8 := ascii "limitless"
def bcryptPrefix : List UInt8 := ascii "$2b$10$"
def legacyBcryptSalt : List UInt8 := ascii "LimitlessOSM10salt000"

/-- The bytes of a C string. -/
def cstr (bytes : List UInt8) : List UInt8 := bytes.takeWhile (· ≠ 0)

/-! ## Environment -/

/-- How the things around the gate behave, each time they are asked. -/
structure World where
  /-- `__crypt_blowfish`: the text for a key and a setting, unless it fails. -/
  crypt : List UInt8 → List UInt8 → Option (List UInt8)
  /-- The settings that `auth64_make_bcrypt_setting` draws. -/
  setting : Nat → List UInt8
  readOk : Nat → Bool
  writeOk : Nat → Bool
  /-- What a write that fails leaves of the file. -/
  torn : Nat → Option (List UInt8) → Option (List UInt8)

/-- How a read of a line ends. -/
inductive Typed where
  | line (first : UInt8) (rest : List UInt8)
  | empty
  | timeout
  | denied
  deriving DecidableEq

/-- What fits into the buffer of a line. -/
def lineBytes (capacity : Nat) (first : UInt8) (rest : List UInt8) : List UInt8 := (first :: rest).take (capacity - 1)

/-! ## Hashes -/

/-- `auth64_hash_password` -/
def hashPassword (w : World) (password setting : List UInt8) : Option (List UInt8) :=
  match w.crypt (cstr (password.take passwordBytes)) setting with
  | none => none
  | some text =>
    if text.head? = some dollar then some ((text ++ List.replicate bcryptHashBytes 0).take bcryptHashBytes) else none

/-- `auth64_password_matches` -/
def passwordMatches (w : World) (hash password : List UInt8) : Bool :=
  (hashPassword w password (cstr hash)).getD (List.replicate bcryptHashBytes 0) = hash

/-- `auth64_is_default_account` -/
def isDefaultAccount (w : World) (username hash : List UInt8) : Bool :=
  cstr username = defaultUser && passwordMatches w hash defaultPassword

/-- `auth64_record_needs_upgrade` -/
def recordNeedsUpgrade (hash : List UInt8) : Bool :=
  hash.take bcryptSaltOffset ≠ bcryptPrefix || (hash.drop bcryptSaltOffset).take legacyBcryptSalt.length = legacyBcryptSalt

/-! ## Records -/

/-- `auth64_find_line_value`: the rest of the first line that begins with the field, cut to the buffer. -/
def findLineValue (record field : List UInt8) (capacity : Nat) : Option (List UInt8) :=
  ((List.range (record.length - field.length)).find? fun index =>
      (index = 0 || record.getD (index - 1) 0 = newline) && (record.drop index).take field.length = field).map
    fun index => ((record.drop (index + field.length)).takeWhile (· ≠ newline)).take (capacity - 1)

/-- The variables of the module that a record is loaded into. -/
structure Account where
  username : List UInt8
  passwordHash : List UInt8
  home : List UInt8
  profile : List UInt8
  deriving DecidableEq

/-- A field of the record: nothing is stored if there is no such line, and an empty value is stored but refused. -/
def loadField (record : List UInt8) (field : String) (capacity : Nat) (store : List UInt8 → Account) (a : Account) :
    Bool × Account :=
  match findLineValue record (ascii field) capacity with
  | none => (false, a)
  | some value => (value ≠ [], store value)

/-- The parsing of `auth64_load_user_record`: whether the record is good, and what it leaves in the variables. -/
def parseRecord (record : List UInt8) (a : Account) : Bool × Account :=
  match loadField record "USER " usernameBytes (fun v => { a with username := v }) a with
  | (false, a) => (false, a)
  | (true, a) =>
    match findLineValue record (ascii "ALG ") 24 with
    | none => (false, a)
    | some alg =>
      if alg = [] then (false, a)
      else
        match loadField record "HASH " (bcryptHashBytes + 1) (fun v => { a with passwordHash := v }) a with
        | (false, a) => (false, a)
        | (true, a) =>
          match loadField record "HOME " 48 (fun v => { a with home := v }) a with
          | (false, a) => (false, a)
          | (true, a) =>
            match loadField record "PROFILE " 32 (fun v => { a with profile := v }) a with
            | (false, a) => (false, a)
            | (true, a) =>
              (alg = ascii "bcrypt-2b-v1" && a.passwordHash.length = bcryptHashBytes &&
                a.passwordHash.head? = some dollar, a)

/-- `auth64_append_text`, `auth64_append_bytes` -/
def append (record bytes : List UInt8) : List UInt8 :=
  if record.length + bytes.length ≥ recordBytes then record else record ++ bytes

/-- The text that `auth64_make_record` writes. -/
def recordText (username hash : List UInt8) : List UInt8 :=
  append (append (append (append (append [] (ascii "USER ")) username) (ascii "\nALG bcrypt-2b-v1\nHASH ")) hash)
    (ascii "\nHOME /HOME/LIMITLESS\nPROFILE local-console\n")

/-! ## The gate -/

inductive Phase where
  /-- First run: a username is awaited. -/
  | setup
  | setupPassword (username : List UInt8)
  /-- A username is awaited. -/
  | login
  /-- The username is not that of the record. -/
  | unknownUser
  | password
  | accepted
  | refused
  deriving DecidableEq

structure Gate where
  phase : Phase
  account : Account
  defaultAccount : Bool
  /-- `g_auth64_user_store_persistent` -/
  persistent : Bool
  failureCount : Nat
  /-- /USERDB.TXT -/
  file : Option (List UInt8)
  reads : Nat
  /-- How often the record has been written. -/
  writes : Nat
  settings : Nat

namespace Gate

variable (w : World)

/-- `mmio64_nvme_fat_shell_read_file` on the record: a file that does not fit is not read. -/
def readFile (g : Gate) : Option (List UInt8) × Gate :=
  (g.file.filter fun content => w.readOk g.reads && content.length ≤ recordBytes - 1, { g with reads := g.reads + 1 })

/-- `auth64_load_user_record` -/
def loadUserRecord (g : Gate) : Bool × Gate :=
  match g.readFile w with
  | (none, g) => (false, g)
  | (some record, g) =>
    match parseRecord record g.account with
    | (ok, account) => (ok, { g with account, persistent := g.persistent || ok })

/-- `auth64_make_record` -/
def makeRecord (g : Gate) (username password : List UInt8) : Option (List UInt8) × Gate :=
  match hashPassword w password (w.setting g.settings) with
  | none =>
    (none, { g with settings := g.settings + 1, account := { g.account with passwordHash := g.account.passwordHash.set 0 0 } })
  | some hash =>
    (some (recordText username hash),
      { g with settings := g.settings + 1, account := { g.account with passwordHash := hash } })

/-- `mmio64_nvme_fat_shell_write_file` on the record -/
def writeFile (g : Gate) (record : List UInt8) : Bool × Gate :=
  if w.writeOk g.writes then (true, { g with file := some record, writes := g.writes + 1 })
  else (false, { g with file := w.torn g.writes g.file, writes := g.writes + 1 })

/-- `auth64_save_user_record` -/
def saveUserRecord (g : Gate) (username password : List UInt8) : Bool × Gate :=
  match g.makeRecord w username password with
  | (none, g) => (false, g)
  | (some record, g) =>
    match g.writeFile w record with
    | (false, g) => (false, g)
    | (true, g) => g.loadUserRecord w

/-- `auth64_upgrade_record` -/
def upgradeRecord (g : Gate) (password : List UInt8) : Gate :=
  if !g.persistent || !recordNeedsUpgrade g.account.passwordHash then g
  else
    match g.saveUserRecord w (cstr g.account.username) password with
    | (true, g) => g
    | (false, g) => (g.loadUserRecord w).2

/-- `auth64_accept_session` -/
def acceptSession (g : Gate) : Gate := { g with phase := .accepted, failureCount := 0 }

/-- `auth64_record_failure` with the delay: after three failures the count starts again. -/
def recordFailure (g : Gate) : Gate :=
  { g with phase := .login, failureCount := if 3 ≤ g.failureCount + 1 then 0 else g.failureCount + 1 }

/-- An account that could not be saved is kept for this boot only. -/
def keepAccount (g : Gate) (username password : List UInt8) : Gate :=
  match g.makeRecord w username password with
  | (none, g) => { g with phase := .refused }
  | (some _, g) => acceptSession { g with persistent := false }

/-- The end of the first run. -/
def finishSetup (g : Gate) (username password : List UInt8) : Gate :=
  match saveUserRecord w { g with account := { g.account with username := username } } username password with
  | (true, g) => g.acceptSession
  | (false, g) => g.keepAccount w username password

/-- What a read of a line brings about. -/
def step (g : Gate) (typed : Typed) : Gate :=
  match g.phase with
  | .setup =>
    match typed with
    | .denied => { g with phase := .refused }
    | .line first rest => { g with phase := .setupPassword (lineBytes usernameBytes first rest) }
    | .empty | .timeout => g.finishSetup w defaultUser defaultPassword
  | .setupPassword username =>
    match typed with
    | .denied => { g with phase := .refused }
    | .line first rest => g.finishSetup w username (lineBytes passwordBytes first rest)
    | .empty | .timeout => g
  | .login =>
    match typed with
    | .denied => { g with phase := .refused }
    | .line first rest =>
      if lineBytes passwordBytes first rest = cstr g.account.username then { g with phase := .password }
      else { g with phase := .unknownUser }
    | .empty | .timeout => if g.defaultAccount then (g.upgradeRecord w defaultPassword).acceptSession else g
  | .unknownUser =>
    match typed with
    | .timeout => g
    | .line .. | .empty | .denied => g.recordFailure
  | .password =>
    match typed with
    | .timeout => g
    | .line first rest =>
      if passwordMatches w g.account.passwordHash (lineBytes passwordBytes first rest) then
        (g.upgradeRecord w (lineBytes passwordBytes first rest)).acceptSession
      else g.recordFailure
    | .empty | .denied => g.recordFailure
  | .accepted | .refused => g

/-- The variables after `auth64_init`. -/
def init (file : Option (List UInt8)) : Gate :=
  { phase := .refused
    account :=
      { username := defaultUser, passwordHash := [], home := ascii "/HOME/LIMITLESS", profile := ascii "local-console" }
    defaultAccount := false, persistent := false, failureCount := 0, file, reads := 0, writes := 0, settings := 0 }

/-- `auth64_run_login_gate` up to its first read; `granted` says that it has the input service. -/
def start (granted : Bool) (file : Option (List UInt8)) : Gate :=
  if !granted then init file
  else
    match (init file).loadUserRecord w with
    | (false, g) => { g with phase := .setup, account := { g.account with username := [] } }
    | (true, g) =>
      { g with phase := .login, defaultAccount := isDefaultAccount w g.account.username g.account.passwordHash }

/-- `auth64_run_login_gate`, as far as the lines go. -/
def run (granted : Bool) (file : Option (List UInt8)) (typed : List Typed) : Gate :=
  typed.foldl (step w) (start w granted file)

end Gate

end LimitlessOS.Auth
